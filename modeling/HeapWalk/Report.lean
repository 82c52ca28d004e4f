import HeapWalk.Machine.Basic
import HeapWalk.Program.Lowering

/-!
# Reports

What is shown of a fault: its code and message, the line it arose at, if known, and the scopes that
were open, the innermost first.
-/

set_option autoImplicit false

namespace HeapWalk

structure Report where
  code : Code
  message : String
  line : Option Nat
  trace : List ScopeFrame
deriving DecidableEq, Repr, Inhabited

namespace Report

/-- A line number, unless it is `0`. -/
def knownLine (line : Nat) : Option Nat := if 0 < line then some line else none

/-- The report of a tree that is no program; no scope was open. -/
def ofDefect (d : Defect) : Report := ⟨d.code, d.message, knownLine d.line, []⟩

/-- The location, the code and the message. -/
def headline (r : Report) : String :=
  match r.line with
  | some line => s!"error at line {line}: {r.code.text}: {r.message}"
  | none => s!"error: {r.code.text}: {r.message}"

def frameLines (r : Report) : List String := r.trace.map fun f => s!"  in {f.text}"

/-- The headline, and a line for each open scope. -/
def text (r : Report) : String := "\n".intercalate (r.headline :: r.frameLines)

end Report

/-- The report of a fault that left the machine as it is. -/
def Machine.diagnose (m : Machine) (e : Fault) : Report :=
  ⟨e.code, e.message, Report.knownLine m.line, m.scopes.trace⟩

end HeapWalk
