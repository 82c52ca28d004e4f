import HeapWalk.Bindings
import HeapWalk.Heap.Basic
import HeapWalk.Program.Basic

/-!
# Scopes

A `Context` holds the names bound by one construct while it runs, and a `ScopeStack` the contexts
of all constructs that are running, the innermost first. A name is looked up from the innermost
context outwards. Popping a context frees whatever its id owns in the heap.
-/

set_option autoImplicit false

namespace HeapWalk

/-- What pushed a context. -/
inductive ScopeKind where
  | global
  | function
  | block
  | loop
deriving DecidableEq, Repr, Inhabited

def ScopeKind.text : ScopeKind → String
  | global => "global"
  | function => "function"
  | block => "block"
  | loop => "loop"

structure Context where
  id : ScopeId
  kind : ScopeKind
  name : String
  locals : Bindings Variable := []
  functions : Bindings FunctionDef := []
  returnValue : Option Variable := none
deriving Repr, Inhabited

/-- What a scope trace shows of a context. -/
structure ScopeFrame where
  id : ScopeId
  kind : ScopeKind
  name : String
deriving DecidableEq, Repr, Inhabited

def ScopeFrame.text (f : ScopeFrame) : String := s!"{f.name} ({f.kind.text} {ScopeId.text f.id})"

def Context.frame (c : Context) : ScopeFrame := ⟨c.id, c.kind, c.name⟩

def Context.isFunction (c : Context) : Bool := c.kind == .function

structure ScopeStack where
  /-- The contexts, the innermost first. -/
  contexts : List Context := []
  nextId : ScopeId := .global
deriving Repr, Inhabited

namespace ScopeStack

def empty : ScopeStack := {}

def isEmpty (s : ScopeStack) : Bool := s.contexts.isEmpty

def depth (s : ScopeStack) : Nat := s.contexts.length

/-- Pushes a context, whose id is greater than that of every context pushed before, as long as fewer
than `2 ^ 32` are pushed. -/
def push (s : ScopeStack) (kind : ScopeKind) (name : String) : ScopeId × ScopeStack :=
  (s.nextId,
    { contexts := { id := s.nextId, kind, name } :: s.contexts
      nextId := s.nextId + 1 })

/-- Pops the innermost context and frees what it owns. -/
def pop? (s : ScopeStack) (h : Heap) : Option (Context × ScopeStack × Heap) :=
  match s.contexts with
  | [] => none
  | c :: rest => some (c, { s with contexts := rest }, (h.freeOwnedBy c.id).2)

/-- The context at `depth`, the innermost at `0`. -/
def peek? (s : ScopeStack) (depth : Nat) : Option Context := s.contexts[depth]?

def current? (s : ScopeStack) : Option Context := s.contexts.head?

/-- The id of the innermost context. -/
def currentId (s : ScopeStack) : ScopeId :=
  match s.contexts with
  | [] => .global
  | c :: _ => c.id

/-! ## Names -/

def lookupVariable (s : ScopeStack) (name : String) : Option Variable :=
  s.contexts.findSome? fun c => c.locals.get? name

def lookupFunction (s : ScopeStack) (name : String) : Option FunctionDef :=
  s.contexts.findSome? fun c => c.functions.get? name

/-- Binds a variable in the innermost context, if there is one. -/
def bind (s : ScopeStack) (name : String) (v : Variable) : ScopeStack :=
  match s.contexts with
  | [] => s
  | c :: rest => { s with contexts := { c with locals := c.locals.insert name v } :: rest }

/-- Defines a function in the innermost context, if there is one. -/
def define (s : ScopeStack) (f : FunctionDef) : ScopeStack :=
  match s.contexts with
  | [] => s
  | c :: rest => { s with contexts := { c with functions := c.functions.insert f.name f } :: rest }

/-! ## Functions -/

/-- The number of functions that are running. -/
def callDepth (s : ScopeStack) : Nat := s.contexts.countP Context.isFunction

/-- The innermost function context and what is below it. -/
def fromFunction (s : ScopeStack) : List Context :=
  s.contexts.dropWhile fun c => !c.isFunction

/-- A function is running. -/
def inFunction (s : ScopeStack) : Bool := !s.fromFunction.isEmpty

/-- The id of the context that was innermost when the innermost function was called. -/
def callerId? (s : ScopeStack) : Option ScopeId :=
  match s.fromFunction with
  | _ :: caller :: _ => some caller.id
  | _ => none

/-- `contexts` with a return value stored in the innermost function context. -/
def storeReturn (value : Option Variable) : List Context → List Context
  | [] => []
  | c :: rest =>
    if c.isFunction then { c with returnValue := value } :: rest
    else c :: storeReturn value rest

/-- Stores a return value in the innermost function context, if a function is running. -/
def setReturnValue (s : ScopeStack) (value : Option Variable) : ScopeStack :=
  { s with contexts := storeReturn value s.contexts }

/-- The oldest scope whose temporaries may be swept between statements: the innermost function
context, or the outermost context. -/
def sweepFloor (s : ScopeStack) : ScopeId :=
  match s.fromFunction with
  | f :: _ => f.id
  | [] =>
    match s.contexts.getLast? with
    | some c => c.id
    | none => .global

/-- The contexts from the innermost outwards. -/
def trace (s : ScopeStack) : List ScopeFrame := s.contexts.map Context.frame

end ScopeStack

end HeapWalk
