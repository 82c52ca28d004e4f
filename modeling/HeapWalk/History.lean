import HeapWalk.Scope.Basic

/-!
# Histories

A `Snapshot` is the state of a run after one statement. A `History` keeps the snapshots of a run in
order, as long as their estimated sizes stay within its limit, and a cursor among them.
-/

set_option autoImplicit false

namespace HeapWalk

/-- A printed value, with the line that printed it. -/
structure OutputLine where
  text : String
  line : Nat
deriving DecidableEq, Repr, Inhabited

abbrev Output := Array OutputLine

structure Snapshot where
  heap : Heap
  scopes : ScopeStack
  output : Output
  line : Nat
  /-- It shows the state in which the run stopped on a fault. -/
  faulted : Bool
deriving Repr, Inhabited

/-- An estimate in bytes: two per byte of heap, 32 per allocation, 100 per context and 50 per line of
output. -/
def Snapshot.size (s : Snapshot) : Nat :=
  s.heap.capacity * 2 + s.heap.liveCount * 32 + s.scopes.depth * 100 + s.output.size * 50

structure History where
  snapshots : Array Snapshot
  limit : Nat
  used : Nat
  position : Nat
deriving Repr, Inhabited

namespace History

def empty (limit : Nat) : History := ⟨#[], limit, 0, 0⟩

def defaultLimit : Nat := 64 * 1024 * 1024

def length (h : History) : Nat := h.snapshots.size

def isEmpty (h : History) : Bool := h.snapshots.isEmpty

def get? (h : History) (i : Nat) : Option Snapshot := h.snapshots[i]?

/-- The snapshot under the cursor. -/
def current? (h : History) : Option Snapshot := h.get? h.position

/-- The sizes that make a history refuse a snapshot. -/
structure Refusal where
  used : Nat
  size : Nat
  limit : Nat
deriving DecidableEq, Repr, Inhabited

def Refusal.message (r : Refusal) : String :=
  s!"Snapshot memory limit exceeded: {r.used} + {r.size} > {r.limit}"

/-- Adds a snapshot behind the others; the cursor stays where it is. -/
def push (h : History) (s : Snapshot) : Except Refusal History :=
  if h.limit < h.used + s.size then .error ⟨h.used, s.size, h.limit⟩
  else .ok { h with used := h.used + s.size, snapshots := h.snapshots.push s }

/-! ## Moving the cursor -/

def canStepForward (h : History) : Bool := h.position + 1 < h.length

def stepForward (h : History) : Bool × History :=
  if h.canStepForward then (true, { h with position := h.position + 1 }) else (false, h)

def stepBackward (h : History) : Bool × History :=
  if 0 < h.position then (true, { h with position := h.position - 1 }) else (false, h)

def rewind (h : History) : History := { h with position := 0 }

def jumpToEnd (h : History) : History := { h with position := h.length - 1 }

end History

end HeapWalk
