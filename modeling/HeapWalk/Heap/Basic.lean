import HeapWalk.Heap.Pointer
import HeapWalk.Value.Bytes

/-!
# The heap

A heap is a row of bytes, one reservation flag for each of them, and a registry of the live
allocations in order of address. `Heap.allocate` takes the highest run of free bytes that is long
enough; nothing is ever moved. A range is reclaimed by `Heap.free`, by a sweep of temporaries, or
with the scope that owns it (`Heap.freeOwnedBy`), and its bytes are then zero and free again.

Every operation that is given a handle refuses one that is not live, and a refused operation
changes nothing.
-/

set_option autoImplicit false

namespace HeapWalk

inductive HeapError where
  /-- No run of free bytes is long enough. -/
  | outOfMemory (requested capacity occupied : Nat)
  /-- The handle names no live allocation. -/
  | invalidPointer (pointer : Pointer)
  /-- The range is too small for the value. -/
  | overrun (pointer : Pointer) (needed : Nat)
deriving DecidableEq, Repr, Inhabited

def HeapError.message : HeapError → String
  | outOfMemory requested capacity occupied =>
    s!"out of memory: no free run of {requested} bytes in a {capacity}-byte heap " ++
      s!"({occupied} bytes occupied)"
  | invalidPointer p => s!"invalid pointer {p.text}"
  | overrun p needed => s!"pointer {p.text} cannot hold a {needed}-byte value"

/-- `row` with the items `xs` in the places from `start` on; what would fall behind its end is
dropped. -/
def storeAt {α : Type} (row : Array α) (start : Nat) : List α → Array α
  | [] => row
  | x :: xs => storeAt (row.setIfInBounds start x) (start + 1) xs

/-! ## The registry -/

/-- Live allocations, in order of address. -/
abbrev Registry := List Allocation

namespace Registry

def at? (r : Registry) (address : Nat) : Option Allocation :=
  List.find? (fun a => a.pointer.address == address) r

/-- Puts an entry in its place; one at the same address is replaced. -/
def insert (entry : Allocation) : Registry → Registry
  | [] => [entry]
  | a :: rest =>
    if entry.pointer.address < a.pointer.address then entry :: a :: rest
    else if entry.pointer.address = a.pointer.address then entry :: rest
    else a :: insert entry rest

def erase (r : Registry) (address : Nat) : Registry :=
  List.filter (fun a => a.pointer.address != address) r

/-- The entry at `address` with another ownership. -/
def setOwnership (r : Registry) (address : Nat) (o : Ownership) : Registry :=
  List.map (fun a => if a.pointer.address = address then { a with ownership := o } else a) r

end Registry

/-! ## Heaps -/

structure Heap where
  bytes : Array UInt8
  reserved : Array Bool
  registry : Registry
  nextGeneration : UInt32
deriving DecidableEq, Repr, Inhabited

namespace Heap

/-- A zeroed heap of `capacity` bytes. -/
def ofCapacity (capacity : Nat) : Heap where
  bytes := Array.replicate capacity 0
  reserved := Array.replicate capacity false
  registry := []
  nextGeneration := 1

def defaultCapacity : Nat := 1024

def capacity (h : Heap) : Nat := h.bytes.size

/-- The number of reserved bytes. -/
def occupied (h : Heap) : Nat := h.reserved.count true

/-- The live allocations, in order of address. -/
def allocations (h : Heap) : List Allocation := h.registry

def liveCount (h : Heap) : Nat := h.registry.length

/-- The allocation that starts at `address`. -/
def allocationAt? (h : Heap) (address : Nat) : Option Allocation := h.registry.at? address

/-! ### Allocation -/

/-- The byte at `i` is zero and unreserved. -/
def isFree (h : Heap) (i : Nat) : Bool :=
  h.bytes.getD i 1 == 0 && !h.reserved.getD i true

/-- Walks down from the address below `i`, above which `run` free bytes are, to the first address
that starts a run of `size` free bytes. -/
def findRun (h : Heap) (size : Nat) : (i run : Nat) → Option Nat
  | 0, _ => none
  | i + 1, run =>
    let run := if h.isFree i then run + 1 else 0
    if run = size then some i else findRun h size i run

/-- The address of the highest run of `size` free bytes. Nothing has size zero. -/
def findPlace (h : Heap) (size : Nat) : Except HeapError Nat :=
  match if size = 0 then none else h.findRun size h.capacity 0 with
  | some address => .ok address
  | none => .error (.outOfMemory size h.capacity h.occupied)

/-- Reserves and registers the range of a handle that carries the next generation. -/
def reserve (h : Heap) (p : Pointer) (o : Ownership) : Heap where
  bytes := h.bytes
  reserved := storeAt h.reserved p.address (List.replicate p.size true)
  registry := h.registry.insert ⟨p, o⟩
  nextGeneration := h.nextGeneration + 1

/-- Reserves the highest run of `size` free bytes. -/
def allocate (h : Heap) (size : Nat) (o : Ownership) : Except HeapError (Pointer × Heap) := do
  let address ← h.findPlace size
  let p : Pointer := ⟨address, size, h.nextGeneration⟩
  .ok (p, h.reserve p o)

/-! ### Live handles -/

/-- The registry holds this very handle. -/
def isLive (h : Heap) (p : Pointer) : Bool :=
  match h.registry.at? p.address with
  | some a => a.pointer == p && h.reserved.getD p.address false
  | none => false

def validate (h : Heap) (p : Pointer) : Except HeapError Unit :=
  if h.isLive p then .ok () else .error (.invalidPointer p)

def ownership (h : Heap) (p : Pointer) : Except HeapError Ownership := do
  h.validate p
  match h.registry.at? p.address with
  | some a => .ok a.ownership
  | none => .error (.invalidPointer p)

/-- Replaces the ownership of the range at an address. -/
def reassign (h : Heap) (address : Nat) (o : Ownership) : Heap :=
  { h with registry := h.registry.setOwnership address o }

def setOwnership (h : Heap) (p : Pointer) (o : Ownership) : Except HeapError Heap := do
  h.validate p
  .ok (h.reassign p.address o)

/-- Hands a range to a binding in `scope`. -/
def adopt (h : Heap) (p : Pointer) (scope : ScopeId) : Except HeapError Heap :=
  h.setOwnership p (.owned scope)

/-- Hands a range to `scope` as a temporary. -/
def release (h : Heap) (p : Pointer) (scope : ScopeId) : Except HeapError Heap :=
  h.setOwnership p (.temporary scope)

/-! ### Reclamation -/

/-- Takes a range off the registry, zeroes its bytes and makes them free. -/
def reclaim (h : Heap) (p : Pointer) : Heap where
  bytes := storeAt h.bytes p.address (List.replicate p.size 0)
  reserved := storeAt h.reserved p.address (List.replicate p.size false)
  registry := h.registry.erase p.address
  nextGeneration := h.nextGeneration

def reclaimAll (h : Heap) (ps : List Pointer) : Heap := ps.foldl reclaim h

def free (h : Heap) (p : Pointer) : Except HeapError Heap := do
  h.validate p
  .ok (h.reclaim p)

/-- The handles of the allocations whose ownership satisfies `doomed`. -/
def handlesWhere (h : Heap) (doomed : Ownership → Bool) : List Pointer :=
  (h.registry.filter fun a => doomed a.ownership).map (·.pointer)

/-- Reclaims every allocation whose ownership satisfies `doomed`, and counts them. -/
def freeWhere (h : Heap) (doomed : Ownership → Bool) : Nat × Heap :=
  let handles := h.handlesWhere doomed
  (handles.length, h.reclaimAll handles)

/-- Frees every temporary. -/
def sweepTemporaries (h : Heap) : Nat × Heap := h.freeWhere Ownership.isTemporary

/-- Frees every temporary of `floor` or of a scope pushed after it. Those of older scopes, a caller's
half-evaluated operands among them, stay. -/
def sweepTemporariesFrom (h : Heap) (floor : ScopeId) : Nat × Heap :=
  h.freeWhere (Ownership.isTemporaryFrom floor)

/-- Frees everything of `scope`, temporary or owned. -/
def freeOwnedBy (h : Heap) (scope : ScopeId) : Nat × Heap :=
  h.freeWhere fun o => o.scope == scope

/-! ### Contents -/

/-- The bytes in the range of `p`. -/
def bytesAt (h : Heap) (p : Pointer) : List UInt8 := (h.bytes.extract p.address p.stop).toList

def readBytes (h : Heap) (p : Pointer) : Except HeapError (List UInt8) := do
  h.validate p
  .ok (h.bytesAt p)

def readValue (h : Heap) (p : Pointer) (t : ValueType) : Except HeapError Value := do
  let bytes ← h.readBytes p
  match Value.decode bytes t with
  | some v => .ok v
  | none => .error (.overrun p t.size)

/-- Puts bytes in the places from `address` on. -/
def store (h : Heap) (address : Nat) (bytes : List UInt8) : Heap :=
  { h with bytes := storeAt h.bytes address bytes }

/-- The bytes that a write of `v` puts into the range of `p`. -/
def bytesToWrite (h : Heap) (p : Pointer) (v : Value) : Except HeapError (List UInt8) := do
  h.validate p
  match v.encode p.size with
  | some bytes => .ok bytes
  | none => .error (.overrun p v.type.size)

def writeValue (h : Heap) (p : Pointer) (v : Value) : Except HeapError Heap := do
  let bytes ← h.bytesToWrite p v
  .ok (h.store p.address bytes)

/-- The bytes that a copy takes to its target, a range of the same size as its source. -/
def bytesToCopy (h : Heap) (source target : Pointer) : Except HeapError (List UInt8) := do
  h.validate source
  h.validate target
  if source.size = target.size then .ok (h.bytesAt source)
  else .error (.overrun target source.size)

/-- Copies the bytes of one range over those of another. -/
def copy (h : Heap) (source target : Pointer) : Except HeapError Heap := do
  let bytes ← h.bytesToCopy source target
  .ok (h.store target.address bytes)

end Heap

end HeapWalk
