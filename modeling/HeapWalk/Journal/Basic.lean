import HeapWalk.Scope.Basic
import HeapWalk.Text.Quoted

/-!
# Journals

What a run shows of itself while it goes on: the values it prints and the events it passes. An event
comes from a component, has a level and a title, and says more in named fields.
-/

set_option autoImplicit false

namespace HeapWalk

/-- Levels, from the gravest on. -/
inductive Level where
  | error
  | warn
  | info
  | debug
  | trace
deriving DecidableEq, Repr, Inhabited

namespace Level

def rank : Level → Nat
  | error => 1
  | warn => 2
  | info => 3
  | debug => 4
  | trace => 5

def text : Level → String
  | error => "ERROR"
  | warn => "WARN"
  | info => "INFO"
  | debug => "DEBUG"
  | trace => "TRACE"

end Level

/-- The parts of the program that tell of events. -/
inductive Component where
  | command
  | machine
  | statements
  | calls
  | loops
  | assignments
  | heap
  | scopes
deriving DecidableEq, Repr, Inhabited

namespace Component

def all : List Component :=
  [command, machine, statements, calls, loops, assignments, heap, scopes]

/-- The name of a component; what it belongs to stands before the last dot. -/
def name : Component → String
  | command => "heapwalk"
  | machine => "heapwalk.machine"
  | statements => "heapwalk.machine.statements"
  | calls => "heapwalk.machine.calls"
  | loops => "heapwalk.machine.loops"
  | assignments => "heapwalk.machine.assignments"
  | heap => "heapwalk.heap"
  | scopes => "heapwalk.scopes"

end Component

inductive Event where
  | lowered (statements : Nat)
  | starting
  | executed (occupied capacity : Nat)
  | defined (function : String) (params : Nat)
  | called (function : String) (args : Nat)
  | entered (frame : ScopeFrame)
  | freeing (name : String) (v : Variable) (scope : String)
  | exited (frame : ScopeFrame)
  | bound (name : String) (p : Pointer) (scope : ScopeId)
  | overwritten (name : String) (p : Pointer)
  | swept (count : Nat) (floor : ScopeId)
  | returnedAtTop
  | allocated (a : Allocation)
  | freed (p : Pointer)
  | loopFinished (iterations : Nat)
deriving Repr, Inhabited

namespace Event

def level : Event → Level
  | lowered _ | starting | executed .. => .info
  | defined .. | called .. | entered _ | freeing .. | exited _ | bound .. | overwritten ..
  | swept .. | returnedAtTop => .debug
  | allocated _ | freed _ | loopFinished _ => .trace

def ownershipText : Ownership → String
  | .temporary id => s!"Temporary(ScopeId({id}))"
  | .owned id => s!"Owned(ScopeId({id}))"

def component : Event → Component
  | lowered _ => .command
  | starting | executed .. | entered _ | exited _ | swept .. => .machine
  | defined .. | returnedAtTop => .statements
  | called .. => .calls
  | loopFinished _ => .loops
  | bound .. | overwritten .. => .assignments
  | allocated _ | freed _ => .heap
  | freeing .. => .scopes

def title : Event → String
  | lowered _ => "syntax tree lowered"
  | starting => "starting execution"
  | executed .. => "program executed"
  | defined .. => "define"
  | called .. => "call"
  | entered _ => "enter scope"
  | freeing .. => "freeing"
  | exited _ => "exit scope"
  | bound .. => "bind"
  | overwritten .. => "overwrite"
  | swept .. => "swept temporaries"
  | returnedAtTop => "return at top level"
  | allocated _ => "allocate"
  | freed _ => "free"
  | loopFinished _ => "loop finished"

/-- What an event says beside its title: names of fields and what they hold. -/
def fields : Event → List (String × String)
  | lowered n => [("statements", toString n)]
  | starting | returnedAtTop => []
  | executed occupied capacity =>
    [("occupied", toString occupied), ("capacity", toString capacity)]
  | defined f n => [("function", f), ("params", toString n)]
  | called f n => [("function", f), ("args", toString n)]
  | entered f =>
    [("scope", Quoted.encode f.name), ("id", ScopeId.text f.id), ("kind", f.kind.text)]
  | freeing name v scope =>
    [("name", name), ("pointer", v.pointer.text), ("var_type", v.type.text), ("scope", scope)]
  | exited f => [("scope", Quoted.encode f.name), ("id", ScopeId.text f.id)]
  | bound name p scope =>
    [("name", Quoted.encode name), ("pointer", p.text), ("scope", ScopeId.text scope)]
  | overwritten name p => [("name", Quoted.encode name), ("pointer", p.text)]
  | swept n floor => [("swept", toString n), ("floor", ScopeId.text floor)]
  | allocated a => [("pointer", a.pointer.text), ("ownership", ownershipText a.ownership)]
  | freed p => [("pointer", p.text)]
  | loopFinished n => [("iterations", toString n)]

/-- The names of all that an event says; its title counts as the field `message`. -/
def fieldNames (e : Event) : List String := "message" :: e.fields.map Prod.fst

def text (e : Event) : String :=
  " ".intercalate (e.level.text :: e.title :: e.fields.map fun (name, value) => s!"{name}={value}")

end Event

inductive Entry where
  | printed (text : String)
  | event (e : Event)
deriving Repr, Inhabited

def Entry.text : Entry → String
  | printed text => text
  | event e => e.text

abbrev Journal := Array Entry

end HeapWalk
