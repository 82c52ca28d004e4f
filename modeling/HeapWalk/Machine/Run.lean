import HeapWalk.Machine.Eval

/-!
# Runs

A run executes the program of a machine from start to end. With recording on, the history begins
with the state before the first statement, and ends with the state in which a fault arose, if one
did.
-/

set_option autoImplicit false

namespace HeapWalk

namespace Exec

/-- Runs `x`, and records the state that a fault leaves. -/
def recordingFault {α : Type} (x : Exec α) : Exec α where
  outcome m :=
    match x m with
    | .fault e m => .fault e (recordFault m)
    | o => o
  Passes m m' := x.Passes m m' ∨ ∃ e m₁, x m = .fault e m₁ ∧ m' = recordFault m₁

/-- Ends a run that came to the end of its program. -/
def finish : Exec Unit := do
  update fun m => { m with signal := .normal, finished := true }
  let (occupied, capacity) ← view fun m => (m.heap.occupied, m.heap.capacity)
  note (.executed occupied capacity)

def run (fuel : Nat) : Exec Unit := do
  note .starting
  takeSnapshot
  let program ← view fun m => m.program
  recordingFault (execList fuel program)
  finish

/-- Frees every temporary, and counts them. -/
def sweepAll : Exec Nat := freeWhere Ownership.isTemporary

end Exec

end HeapWalk
