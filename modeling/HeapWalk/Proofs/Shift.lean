import HeapWalk.Proofs.HeapLayout
import HeapWalk.Proofs.Scopes

/-!
# Shifted addresses

A heap with `d` more bytes at its low end is the same heap with every address moved up by `d`
(`Heap.shift`). Every operation on the heap, and every operation on the scopes that hold handles
into it, commutes with such a shift. The one exception is the search for free bytes: it goes from
the top down and so finds in the larger heap, at the shifted place, whatever it found in the smaller
one; what it did not find there it may find in the bytes below (`Heap.findPlace_shift`).
-/

set_option autoImplicit false

namespace HeapWalk

/-! ## Rows -/

section Rows

variable {α : Type} (d : Nat) (x : α) (row : Array α)

/-- `row` behind `d` copies of `x`. -/
def below : Array α := Array.replicate d x ++ row

theorem size_below : (below d x row).size = row.size + d := by
  simp [below, Nat.add_comm]

theorem getElem?_below (i : Nat) : (below d x row)[i + d]? = row[i]? := by
  rw [below, Array.getElem?_append_right (by simp)]
  simp

theorem getElem?_below_of_lt {i : Nat} (hi : i < d) : (below d x row)[i]? = some x := by
  rw [below, Array.getElem?_append_left (by simpa using hi)]
  simp [hi]

theorem getD_below (i : Nat) (y : α) : (below d x row).getD (i + d) y = row.getD i y := by
  rw [Array.getD_eq_getD_getElem?, Array.getD_eq_getD_getElem?, getElem?_below]

theorem storeAt_below (start : Nat) (xs : List α) :
    storeAt (below d x row) (start + d) xs = below d x (storeAt row start xs) := by
  induction xs generalizing row start with
  | nil => rfl
  | cons y ys ih =>
    have hset : (below d x row).setIfInBounds (start + d) y =
        below d x (row.setIfInBounds start y) := by
      rw [below, Array.setIfInBounds_append_right (by simp)]
      simp [below]
    rw [storeAt, storeAt, hset, Nat.add_right_comm, ih]

theorem extract_below (start stop : Nat) :
    (below d x row).extract (start + d) (stop + d) = row.extract start stop := by
  rw [below, Array.extract_append]
  simp

end Rows

/-! ## Handles -/

def Pointer.shift (d : Nat) (p : Pointer) : Pointer := { p with address := p.address + d }

def Variable.shift (d : Nat) (v : Variable) : Variable := { v with pointer := v.pointer.shift d }

def Allocation.shift (d : Nat) (a : Allocation) : Allocation :=
  { a with pointer := a.pointer.shift d }

def HeapError.shift (d : Nat) : HeapError → HeapError
  | outOfMemory requested capacity occupied => outOfMemory requested capacity occupied
  | invalidPointer p => invalidPointer (p.shift d)
  | overrun p needed => overrun (p.shift d) needed

/-- An answer of the heap, shifted; `f` shifts what it holds. -/
def shiftAnswer {α β : Type} (d : Nat) (f : α → β) : Except HeapError α → Except HeapError β
  | .ok a => .ok (f a)
  | .error e => .error (e.shift d)

theorem Pointer.shift_inj {d : Nat} {p q : Pointer} : p.shift d = q.shift d ↔ p = q := by
  cases p
  cases q
  simp [shift]

theorem Pointer.shift_beq (d : Nat) (p q : Pointer) : (p.shift d == q.shift d) = (p == q) := by
  rw [Bool.eq_iff_iff, beq_iff_eq, beq_iff_eq, shift_inj]

/-! ## Registries -/

namespace Registry

variable (d : Nat)

def shift (r : Registry) : Registry := List.map (Allocation.shift d) r

theorem at?_shift (r : Registry) (address : Nat) :
    (shift d r).at? (address + d) = (r.at? address).map (Allocation.shift d) := by
  rw [at?, at?, shift, List.find?_map]
  congr 1
  congr 1
  funext a
  rw [Bool.eq_iff_iff]
  simp [Allocation.shift, Pointer.shift]

theorem insert_shift (entry : Allocation) (r : Registry) :
    (shift d r).insert (entry.shift d) = shift d (r.insert entry) := by
  induction r with
  | nil => rfl
  | cons a rest ih =>
    have haddress : ∀ b : Allocation, (b.shift d).pointer.address = b.pointer.address + d :=
      fun _ => rfl
    show insert (entry.shift d) (a.shift d :: shift d rest) = _
    simp only [insert, haddress, Nat.add_lt_add_iff_right, Nat.add_right_cancel_iff]
    split
    · rfl
    · split
      · rfl
      · exact congrArg (a.shift d :: ·) ih

theorem erase_shift (r : Registry) (address : Nat) :
    (shift d r).erase (address + d) = shift d (r.erase address) := by
  rw [erase, erase, shift, shift, List.filter_map]
  congr 2
  funext a
  rw [Bool.eq_iff_iff]
  simp [Allocation.shift, Pointer.shift]

theorem setOwnership_shift (r : Registry) (address : Nat) (o : Ownership) :
    (shift d r).setOwnership (address + d) o = shift d (r.setOwnership address o) := by
  rw [setOwnership, setOwnership, shift, shift, List.map_map, List.map_map]
  congr 1
  funext a
  simp only [Function.comp, Allocation.shift, Pointer.shift, Nat.add_right_cancel_iff]
  split <;> rfl

end Registry

/-! ## Heaps -/

namespace Heap

/-- The heap with `d` more bytes, free and zero, at its low end. -/
def shift (d : Nat) (h : Heap) : Heap where
  bytes := below d 0 h.bytes
  reserved := below d false h.reserved
  registry := h.registry.shift d
  nextGeneration := h.nextGeneration

variable (d : Nat)

theorem shift_ofCapacity (capacity : Nat) :
    (ofCapacity capacity).shift d = ofCapacity (capacity + d) := by
  simp [ofCapacity, shift, below, Registry.shift, Nat.add_comm]

variable (h : Heap)

theorem capacity_shift : (h.shift d).capacity = h.capacity + d := size_below d 0 h.bytes

theorem occupied_shift : (h.shift d).occupied = h.occupied := by
  simp [occupied, shift, below, Array.count_replicate]

/-! ### Allocation -/

theorem isFree_shift (i : Nat) : (h.shift d).isFree (i + d) = h.isFree i := by
  rw [isFree, isFree, shift, getD_below, getD_below]

/-- A run that is found in the heap is found in the larger heap before the walk comes to the bytes
below. -/
theorem findRun_shift {size i run address : Nat} (hfind : h.findRun size i run = some address) :
    (h.shift d).findRun size (i + d) run = some (address + d) := by
  induction i generalizing run with
  | zero => cases hfind
  | succ i ih =>
    rw [Nat.add_right_comm]
    simp only [findRun, isFree_shift] at hfind ⊢
    generalize (if h.isFree i = true then run + 1 else 0) = run' at hfind ⊢
    split at hfind
    · rename_i hrun
      rw [if_pos hrun, ← Option.some.inj hfind]
    · rename_i hrun
      rw [if_neg hrun]
      exact ih hfind

theorem findPlace_shift {size address : Nat} (hfind : h.findPlace size = .ok address) :
    (h.shift d).findPlace size = .ok (address + d) := by
  unfold findPlace at hfind ⊢
  by_cases hsize : size = 0
  · rw [if_pos hsize] at hfind
    cases hfind
  · rw [if_neg hsize] at hfind ⊢
    cases hrun : h.findRun size h.capacity 0 with
    | none =>
      rw [hrun] at hfind
      cases hfind
    | some a =>
      rw [hrun] at hfind
      rw [capacity_shift, findRun_shift d h hrun, Except.ok.inj hfind]

theorem reserve_shift (p : Pointer) (o : Ownership) :
    (h.shift d).reserve (p.shift d) o = (h.reserve p o).shift d := by
  have hentry : (⟨p.shift d, o⟩ : Allocation) = Allocation.shift d ⟨p, o⟩ := rfl
  simp only [reserve, shift, hentry, Registry.insert_shift]
  simp only [Pointer.shift, storeAt_below]

/-! ### Live handles -/

theorem isLive_shift (p : Pointer) : (h.shift d).isLive (p.shift d) = h.isLive p := by
  simp only [isLive, shift, Pointer.shift, Registry.at?_shift, getD_below]
  cases h.registry.at? p.address with
  | none => rfl
  | some a =>
    show (a.pointer.shift d == p.shift d && _) = _
    rw [Pointer.shift_beq]

theorem validate_shift (p : Pointer) :
    (h.shift d).validate (p.shift d) = shiftAnswer d id (h.validate p) := by
  rw [validate, validate, isLive_shift]
  split <;> rfl

theorem ownership_shift (p : Pointer) :
    (h.shift d).ownership (p.shift d) = shiftAnswer d id (h.ownership p) := by
  unfold ownership
  rw [validate_shift]
  cases h.validate p with
  | error e => rfl
  | ok _ =>
    have hat : (h.shift d).registry.at? (p.shift d).address =
        (h.registry.at? p.address).map (Allocation.shift d) :=
      Registry.at?_shift d h.registry p.address
    simp only [shiftAnswer, bind, Except.bind, hat]
    cases h.registry.at? p.address <;> rfl

theorem reassign_shift (address : Nat) (o : Ownership) :
    (h.shift d).reassign (address + d) o = (h.reassign address o).shift d := by
  simp only [reassign, shift, Registry.setOwnership_shift]

/-! ### Reclamation -/

theorem reclaim_shift (p : Pointer) :
    (h.shift d).reclaim (p.shift d) = (h.reclaim p).shift d := by
  simp only [reclaim, shift, Pointer.shift, storeAt_below, Registry.erase_shift]

theorem reclaimAll_shift (ps : List Pointer) :
    (h.shift d).reclaimAll (ps.map (Pointer.shift d)) = (h.reclaimAll ps).shift d := by
  induction ps generalizing h with
  | nil => rfl
  | cons p ps ih =>
    show ((h.shift d).reclaim (p.shift d)).reclaimAll _ = ((h.reclaim p).reclaimAll ps).shift d
    rw [reclaim_shift, ih]

theorem handlesWhere_shift (doomed : Ownership → Bool) :
    (h.shift d).handlesWhere doomed = (h.handlesWhere doomed).map (Pointer.shift d) := by
  simp only [handlesWhere, shift, Registry.shift, List.filter_map, List.map_map]
  rfl

/-! ### Contents -/

theorem bytesAt_shift (p : Pointer) : (h.shift d).bytesAt (p.shift d) = h.bytesAt p := by
  have hstop : (p.shift d).stop = p.stop + d := Nat.add_right_comm _ _ _
  rw [bytesAt, bytesAt, hstop]
  exact congrArg Array.toList (extract_below d 0 h.bytes p.address p.stop)

theorem readValue_shift (p : Pointer) (t : ValueType) :
    (h.shift d).readValue (p.shift d) t = shiftAnswer d id (h.readValue p t) := by
  unfold readValue readBytes
  rw [validate_shift, bytesAt_shift]
  cases h.validate p with
  | error e => rfl
  | ok _ =>
    cases hdec : Value.decode (h.bytesAt p) t <;>
      simp [shiftAnswer, HeapError.shift, bind, Except.bind, hdec]

theorem store_shift (address : Nat) (bytes : List UInt8) :
    (h.shift d).store (address + d) bytes = (h.store address bytes).shift d := by
  simp only [store, shift, storeAt_below]

theorem bytesToWrite_shift (p : Pointer) (v : Value) :
    (h.shift d).bytesToWrite (p.shift d) v = shiftAnswer d id (h.bytesToWrite p v) := by
  unfold bytesToWrite
  rw [validate_shift]
  cases h.validate p with
  | error e => rfl
  | ok _ =>
    cases henc : v.encode p.size <;>
      simp [shiftAnswer, HeapError.shift, Pointer.shift, bind, Except.bind, henc]

theorem bytesToCopy_shift (source target : Pointer) :
    (h.shift d).bytesToCopy (source.shift d) (target.shift d) =
      shiftAnswer d id (h.bytesToCopy source target) := by
  unfold bytesToCopy
  rw [validate_shift, validate_shift, bytesAt_shift]
  cases h.validate source with
  | error e => rfl
  | ok _ =>
    cases h.validate target with
    | error e => rfl
    | ok _ =>
      by_cases hsize : source.size = target.size <;>
        simp [shiftAnswer, HeapError.shift, Pointer.shift, bind, Except.bind, hsize]

end Heap

/-! ## Scopes -/

namespace Bindings

variable {α β : Type}

/-- The bindings with every item changed by `f`. -/
def mapItems (f : α → β) (b : Bindings α) : Bindings β := List.map (fun p => (p.1, f p.2)) b

theorem get?_mapItems (f : α → β) (b : Bindings α) (n : String) :
    (b.mapItems f).get? n = (b.get? n).map f := by
  induction b with
  | nil => rfl
  | cons p rest ih =>
    show get? ((p.1, f p.2) :: mapItems f rest) n = (get? ((p.1, p.2) :: rest) n).map f
    rw [get?_cons, get?_cons, ih]
    split <;> rfl

theorem insert_mapItems (f : α → β) (b : Bindings α) (n : String) (x : α) :
    (b.mapItems f).insert n (f x) = (b.insert n x).mapItems f := by
  induction b with
  | nil => rfl
  | cons p rest ih =>
    obtain ⟨k, y⟩ := p
    show insert n (f x) ((k, f y) :: mapItems f rest) = _
    simp only [insert, ih]
    split
    · rfl
    · split <;> rfl

end Bindings

def Context.shift (d : Nat) (c : Context) : Context :=
  { c with
    locals := c.locals.mapItems (Variable.shift d)
    returnValue := c.returnValue.map (Variable.shift d) }

namespace ScopeStack

def shift (d : Nat) (s : ScopeStack) : ScopeStack :=
  { s with contexts := s.contexts.map (Context.shift d) }

variable (d : Nat) (s : ScopeStack)

theorem trace_shift : (s.shift d).trace = s.trace := by
  simp only [ScopeStack.trace, shift, List.map_map]
  rfl

theorem push_shift (kind : ScopeKind) (name : String) :
    ((s.shift d).push kind name).2 = (s.push kind name).2.shift d := rfl

theorem current?_shift : (s.shift d).current? = s.current?.map (Context.shift d) := by
  simp [current?, shift]

theorem lookupVariable_shift (name : String) :
    (s.shift d).lookupVariable name = (s.lookupVariable name).map (Variable.shift d) := by
  simp only [lookupVariable, shift, List.findSome?_map]
  induction s.contexts with
  | nil => rfl
  | cons c rest ih =>
    simp only [List.findSome?_cons, Function.comp, Context.shift, Bindings.get?_mapItems]
    cases c.locals.get? name with
    | none => exact ih
    | some v => rfl

theorem lookupFunction_shift (name : String) :
    (s.shift d).lookupFunction name = s.lookupFunction name := by
  simp only [lookupFunction, shift, List.findSome?_map]
  rfl

theorem callDepth_shift : (s.shift d).callDepth = s.callDepth := by
  simp only [callDepth, shift, List.countP_map]
  rfl

theorem bind_shift (name : String) (v : Variable) :
    (s.shift d).bind name (v.shift d) = (s.bind name v).shift d := by
  obtain ⟨contexts, nextId⟩ := s
  cases contexts with
  | nil => rfl
  | cons c rest => simp [bind, shift, Context.shift, Bindings.insert_mapItems]

theorem define_shift (f : FunctionDef) : (s.shift d).define f = (s.define f).shift d := by
  obtain ⟨contexts, nextId⟩ := s
  cases contexts <;> rfl

theorem storeReturn_shift (value : Option Variable) (cs : List Context) :
    storeReturn (value.map (Variable.shift d)) (cs.map (Context.shift d)) =
      (storeReturn value cs).map (Context.shift d) := by
  induction cs with
  | nil => rfl
  | cons c rest ih =>
    have hkind : (c.shift d).isFunction = c.isFunction := rfl
    simp only [List.map_cons, storeReturn, hkind, ih]
    split <;> rfl

theorem setReturnValue_shift (value : Option Variable) :
    (s.shift d).setReturnValue (value.map (Variable.shift d)) =
      (s.setReturnValue value).shift d := by
  simp only [setReturnValue, shift, storeReturn_shift]

end ScopeStack

end HeapWalk
