import HeapWalk.Fault
import HeapWalk.History
import HeapWalk.Journal.Filter

/-!
# The machine

A `Machine` is a program with all that a run of it changes. Computations on it are of type
`Exec α`: from a machine they lead to an `Outcome`, which is a value, a fault, or exhaustion of the
fuel they were given, and in each case the machine as they leave it. So the state in which a fault
arose can be looked at. The states in the middle of a computation are the machines that its single
steps leave (`Exec.Passes`).
-/

set_option autoImplicit false

namespace HeapWalk

structure Config where
  heapCapacity : Nat := Heap.defaultCapacity
  /-- Temporaries are swept after every statement. -/
  sweep : Bool := true
  /-- A snapshot is taken after every statement. -/
  record : Bool := false
  historyLimit : Nat := History.defaultLimit
  /-- Printed values go to the journal. -/
  echo : Bool := false
  /-- Events that go to the journal. -/
  filter : Filter := .off
deriving DecidableEq, Repr, Inhabited

/-- What a statement leaves for the statements around it. -/
inductive Signal where
  | normal
  | brk
  | ret
deriving DecidableEq, Repr, Inhabited

structure Machine where
  program : Program
  config : Config
  heap : Heap
  scopes : ScopeStack
  output : Output := #[]
  /-- The line of the node that is being executed. -/
  line : Nat := 0
  signal : Signal := .normal
  history : History
  finished : Bool := false
  journal : Journal := #[]
deriving Repr, Inhabited

namespace Machine

def globalName : String := "global"

/-- A machine about to run `program`, in which only the global scope exists. -/
def initial (program : Program) (config : Config) : Machine where
  program := program
  config := config
  heap := Heap.ofCapacity config.heapCapacity
  scopes := (ScopeStack.empty.push .global globalName).2
  history := History.empty config.historyLimit

/-- The state that a snapshot shows. -/
def snapshot (m : Machine) (faulted : Bool) : Snapshot where
  heap := m.heap
  scopes := m.scopes
  output := m.output
  line := m.line
  faulted := faulted

/-- The value of a variable. -/
def readValue (m : Machine) (v : Variable) : Except HeapError Value :=
  m.heap.readValue v.pointer v.type

/-- The value bound to a name, if the name is visible. -/
def valueOf? (m : Machine) (name : String) : Option Value := do
  let v ← m.scopes.lookupVariable name
  (m.readValue v).toOption

end Machine

/-! ## Outcomes -/

inductive Outcome (α : Type) where
  | done (value : α) (state : Machine)
  | fault (error : Fault) (state : Machine)
  | exhausted (state : Machine)
deriving Repr

namespace Outcome

variable {α β : Type}

instance [Inhabited α] : Inhabited (Outcome α) := ⟨.exhausted default⟩

/-- The machine as it was left. -/
def state : Outcome α → Machine
  | done _ m | fault _ m | exhausted m => m

end Outcome

/-! ## Computations -/

structure Exec (α : Type) where
  outcome : Machine → Outcome α
  /-- Started from the first machine, it comes to the second after one of its steps. -/
  Passes : Machine → Machine → Prop

namespace Exec

variable {α β : Type}

instance : CoeFun (Exec α) fun _ => Machine → Outcome α := ⟨outcome⟩

@[always_inline, inline] protected def pure (a : α) : Exec α where
  outcome m := .done a m
  Passes _ _ := False

@[always_inline, inline] protected def bind (x : Exec α) (f : α → Exec β) : Exec β where
  outcome m :=
    match x m with
    | .done a m => f a m
    | .fault e m => .fault e m
    | .exhausted m => .exhausted m
  Passes m m' := x.Passes m m' ∨ ∃ a m₁, x m = .done a m₁ ∧ (f a).Passes m₁ m'

@[always_inline] instance : Monad Exec where
  pure := Exec.pure
  bind := Exec.bind

/-- Stops for want of fuel. -/
@[inline] def outOfFuel : Exec α where
  outcome m := .exhausted m
  Passes _ _ := False

instance : Inhabited (Exec α) := ⟨outOfFuel⟩

@[inline] def raise (e : Fault) : Exec α where
  outcome m := .fault e m
  Passes _ _ := False

/-- What the machine shows. -/
@[inline] def view (f : Machine → α) : Exec α where
  outcome m := .done (f m) m
  Passes _ _ := False

@[inline] def update (f : Machine → Machine) : Exec Unit where
  outcome m := .done () (f m)
  Passes m m' := m' = f m

/-- An update that may be refused. -/
@[inline] def attempt (f : Machine → Except Fault Machine) : Exec Unit where
  outcome m :=
    match f m with
    | .ok m => .done () m
    | .error e => .fault e m
  Passes m m' := f m = .ok m'

/-- Enters an event into the journal, if the filter admits it. -/
def note (e : Event) : Exec Unit := update fun m =>
  if m.config.filter.admits e then { m with journal := m.journal.push (.event e) } else m

/-- Enters the text of a printed value into the journal, if values are echoed. -/
def echo (text : String) : Exec Unit := update fun m =>
  if m.config.echo then { m with journal := m.journal.push (.printed text) } else m

/-- Goes on to a line, unless it is unknown. -/
def goToLine (line : Nat) : Exec Unit := update fun m => if 0 < line then { m with line } else m

def setSignal (signal : Signal) : Exec Unit := update fun m => { m with signal }

end Exec

end HeapWalk
