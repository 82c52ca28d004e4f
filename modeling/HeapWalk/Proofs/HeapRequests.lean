import HeapWalk.Proofs.Codec
import HeapWalk.Proofs.HeapBlocks
import Mathlib.Algebra.GroupWithZero.Nat
import Mathlib.Order.Interval.Finset.Nat

/-!
# Heaps under any sequence of requests

A `Heap.Request` is one call of an operation that may change a heap, with whatever sizes, owners,
values and handles the caller likes: a handle may be live or stale, or come from another heap. A
request that is refused leaves the heap as it is (`Heap.after`).

Every request keeps a heap well-formed, and in a well-formed heap the number of reserved bytes is
the sum of the sizes of the allocations. So the rows of a heap and its registry agree after every
sequence of requests (`Heap.Consistent`).
-/

set_option autoImplicit false

namespace HeapWalk.Heap

inductive Request where
  | allocate (size : Nat) (owner : Ownership)
  | free (p : Pointer)
  | sweepTemporaries
  | sweepTemporariesFrom (floor : ScopeId)
  | freeOwnedBy (scope : ScopeId)
  | setOwnership (p : Pointer) (owner : Ownership)
  | adopt (p : Pointer) (scope : ScopeId)
  | release (p : Pointer) (scope : ScopeId)
  | writeValue (p : Pointer) (value : Value)
  | copy (source target : Pointer)
deriving DecidableEq, Repr

/-- The heap that a request leaves, unless it is refused. -/
def perform (h : Heap) : Request → Except HeapError Heap
  | .allocate size owner => do
    let (_, h') ← h.allocate size owner
    .ok h'
  | .free p => h.free p
  | .sweepTemporaries => .ok h.sweepTemporaries.2
  | .sweepTemporariesFrom floor => .ok (h.sweepTemporariesFrom floor).2
  | .freeOwnedBy scope => .ok (h.freeOwnedBy scope).2
  | .setOwnership p owner => h.setOwnership p owner
  | .adopt p scope => h.adopt p scope
  | .release p scope => h.release p scope
  | .writeValue p value => h.writeValue p value
  | .copy source target => h.copy source target

/-- The heap after a request; a refused one changes nothing. -/
def after (h : Heap) (r : Request) : Heap := (h.perform r).toOption.getD h

/-- The heap after the requests, the first one first. -/
def afterAll (h : Heap) (requests : List Request) : Heap := requests.foldl after h

/-! ## One request -/

theorem bind_eq_ok {ε α β : Type} {x : Except ε α} {f : α → Except ε β} {b : β} :
    (x >>= f) = .ok b ↔ ∃ a, x = .ok a ∧ f a = .ok b := by
  cases x with
  | error e => exact ⟨fun h => (by cases h), fun ⟨_, h, _⟩ => (by cases h)⟩
  | ok a => exact ⟨fun h => ⟨a, rfl, h⟩, fun ⟨_, ha, h⟩ => Except.ok.inj ha ▸ h⟩

section Request

variable {h h' : Heap} (hw : h.WellFormed)
include hw

/-- A handle that is accepted is live. -/
theorem WellFormed.block?_of_validate {p : Pointer} (hv : h.validate p = .ok ()) :
    ∃ b, h.block? p = some b := by
  cases hb : h.block? p with
  | some b => exact ⟨b, rfl⟩
  | none =>
    rw [hw.validate_eq_error hb] at hv
    cases hv

theorem WellFormed.allocate {p : Pointer} {size : Nat} {o : Ownership}
    (h₁ : h.allocate size o = .ok (p, h')) : h'.WellFormed := by
  obtain ⟨address, hfind, hreserve⟩ := bind_eq_ok.1 h₁
  obtain ⟨rfl, rfl⟩ := Prod.mk.inj (Except.ok.inj hreserve)
  rcases h.findPlace_cases size with ⟨_, hplace, hsize, hfree⟩ | hfull
  · obtain rfl := Except.ok.inj (hplace.symm.trans hfind)
    exact hw.reserve o hsize hfree
  · rw [hfull] at hfind
    cases hfind

theorem WellFormed.free {p : Pointer} (h₁ : h.free p = .ok h') : h'.WellFormed := by
  obtain ⟨_, hv, hreclaim⟩ := bind_eq_ok.1 h₁
  obtain ⟨b, hb⟩ := hw.block?_of_validate hv
  exact Except.ok.inj hreclaim ▸ hw.reclaim (hw.mem_of_block? hb)

theorem WellFormed.freeWhere (doomed : Ownership → Bool) : (h.freeWhere doomed).2.WellFormed :=
  (hw.reclaimAll_handlesWhere doomed).1

theorem WellFormed.setOwnership {p : Pointer} {o : Ownership}
    (h₁ : h.setOwnership p o = .ok h') : h'.WellFormed := by
  obtain ⟨_, -, hreassign⟩ := bind_eq_ok.1 h₁
  exact Except.ok.inj hreassign ▸ hw.reassign p.address o

/-- A write that succeeds stores the encoding of the value in the range of a live handle. -/
theorem WellFormed.writeValue_eq_ok {p : Pointer} {v : Value} :
    h.writeValue p v = .ok h' ↔ ∃ b bytes, h.block? p = some b ∧ v.encode p.size = some bytes ∧
      h' = h.store p.address bytes := by
  constructor
  · intro h₁
    obtain ⟨bytes, hbytes, hstore⟩ := bind_eq_ok.1 h₁
    obtain ⟨_, hv, henc⟩ := bind_eq_ok.1 hbytes
    obtain ⟨b, hb⟩ := hw.block?_of_validate hv
    cases he : v.encode p.size with
    | none => rw [he] at henc; cases henc
    | some encoded =>
      rw [he] at henc
      obtain rfl := Except.ok.inj henc
      exact ⟨b, encoded, hb, rfl, (Except.ok.inj hstore).symm⟩
  · rintro ⟨b, bytes, hb, henc, rfl⟩
    unfold Heap.writeValue
    rw [hw.bytesToWrite_eq hb, henc]
    rfl

theorem WellFormed.writeValue {p : Pointer} {v : Value} (h₁ : h.writeValue p v = .ok h') :
    h'.WellFormed := by
  obtain ⟨b, bytes, hb, henc, rfl⟩ := hw.writeValue_eq_ok.1 h₁
  exact hw.store (hw.mem_of_block? hb) (Value.decode_of_encode henc).1

/-- A copy that succeeds stores the bytes of a live handle in the range of another one, of the same
size. -/
theorem WellFormed.copy_eq_ok {source target : Pointer} :
    h.copy source target = .ok h' ↔ ∃ b c, h.block? source = some b ∧ h.block? target = some c ∧
      source.size = target.size ∧ h' = h.store target.address b.bytes := by
  constructor
  · intro h₁
    obtain ⟨bytes, hbytes, hstore⟩ := bind_eq_ok.1 h₁
    obtain ⟨_, hv, hbytes⟩ := bind_eq_ok.1 hbytes
    obtain ⟨_, hv', hbytes⟩ := bind_eq_ok.1 hbytes
    obtain ⟨b, hb⟩ := hw.block?_of_validate hv
    obtain ⟨c, hc⟩ := hw.block?_of_validate hv'
    split at hbytes
    · rename_i hsize
      obtain rfl := Except.ok.inj hbytes
      rw [← (hw.block?_eq_some.1 hb).2] at hstore
      exact ⟨b, c, hb, hc, hsize, (Except.ok.inj hstore).symm⟩
    · cases hbytes
  · rintro ⟨b, c, hb, hc, hsize, rfl⟩
    unfold Heap.copy
    rw [hw.bytesToCopy_eq hb hc hsize]
    rfl

theorem WellFormed.copy {source target : Pointer} (h₁ : h.copy source target = .ok h') :
    h'.WellFormed := by
  obtain ⟨b, c, hb, hc, hsize, rfl⟩ := hw.copy_eq_ok.1 h₁
  exact hw.store (hw.mem_of_block? hc) ((hw.length_bytes hb).trans hsize)

theorem WellFormed.perform {r : Request} (h₁ : h.perform r = .ok h') : h'.WellFormed := by
  cases r with
  | allocate size owner =>
    obtain ⟨x, ha, hx⟩ := bind_eq_ok.1 h₁
    exact Except.ok.inj hx ▸ hw.allocate ha
  | free p => exact hw.free h₁
  | sweepTemporaries => exact Except.ok.inj h₁ ▸ hw.freeWhere _
  | sweepTemporariesFrom floor => exact Except.ok.inj h₁ ▸ hw.freeWhere _
  | freeOwnedBy scope => exact Except.ok.inj h₁ ▸ hw.freeWhere _
  | setOwnership p owner => exact hw.setOwnership h₁
  | adopt p scope => exact hw.setOwnership h₁
  | release p scope => exact hw.setOwnership h₁
  | writeValue p value => exact hw.writeValue h₁
  | copy source target => exact hw.copy h₁

theorem WellFormed.after (r : Request) : (h.after r).WellFormed := by
  unfold Heap.after
  cases hr : h.perform r with
  | error e => exact hw
  | ok h₁ => exact hw.perform hr

end Request

theorem WellFormed.afterAll {h : Heap} (hw : h.WellFormed) (requests : List Request) :
    (h.afterAll requests).WellFormed := by
  induction requests generalizing h with
  | nil => exact hw
  | cons r rest ih => exact ih (hw.after r)

/-! ## Reserved bytes -/

/-- The number of flags that are set is the number of places where one is. -/
theorem count_true_eq_card (flags : Array Bool) :
    flags.count true = {i ∈ Finset.range flags.size | flags[i]? = some true}.card := by
  obtain ⟨l⟩ := flags
  rw [List.count_toArray, List.size_toArray]
  induction l using List.reverseRecOn with
  | nil => rfl
  | append_singleton l x ih =>
    -- the places below the last one are those of the shorter row
    have hbelow : {i ∈ Finset.range l.length | (l ++ [x]).toArray[i]? = some true} =
        {i ∈ Finset.range l.length | l.toArray[i]? = some true} := by
      refine Finset.filter_congr fun i hi => ?_
      rw [List.getElem?_toArray, List.getElem?_toArray,
        List.getElem?_append_left (Finset.mem_range.1 hi)]
    have hlast : (l ++ [x]).toArray[l.length]? = some x := by simp
    rw [List.count_append, ih, List.length_append, List.length_singleton,
      Finset.range_add_one, Finset.filter_insert, hlast, hbelow]
    cases x with
    | false => simp
    | true => simp [Finset.card_insert_of_notMem]

/-- Ranges in order cover as many bytes as their sizes add up to. -/
theorem card_covered {r : Registry} {n : Nat} (hin : ∀ a ∈ r, a.pointer.stop ≤ n)
    (hr : r.Pairwise fun a b => a.pointer.stop ≤ b.pointer.address) :
    {i ∈ Finset.range n | ∃ a ∈ r, a.pointer.Covers i}.card =
      (r.map fun a => a.pointer.size).sum := by
  induction r with
  | nil => simp
  | cons a rest ih =>
    obtain ⟨hfirst, hrest⟩ := List.pairwise_cons.1 hr
    have hstop := hin a List.mem_cons_self
    have hsplit : {i ∈ Finset.range n | ∃ b ∈ a :: rest, b.pointer.Covers i} =
        Finset.Ico a.pointer.address a.pointer.stop ∪
          {i ∈ Finset.range n | ∃ b ∈ rest, b.pointer.Covers i} := by
      ext i
      simp only [Finset.mem_filter, Finset.mem_range, Finset.mem_union, Finset.mem_Ico,
        List.mem_cons, exists_eq_or_imp]
      constructor
      · rintro ⟨hi, ha | hb⟩
        · exact .inl ha
        · exact .inr ⟨hi, hb⟩
      · rintro (ha | ⟨hi, hb⟩)
        · exact ⟨Nat.lt_of_lt_of_le ha.2 hstop, .inl ha⟩
        · exact ⟨hi, .inr hb⟩
    have hdisjoint : Disjoint (Finset.Ico a.pointer.address a.pointer.stop)
        {i ∈ Finset.range n | ∃ b ∈ rest, b.pointer.Covers i} := by
      refine Finset.disjoint_left.2 fun i hi hi' => ?_
      obtain ⟨-, b, hb, hbi, -⟩ := Finset.mem_filter.1 hi'
      have := hfirst b hb
      have := Finset.mem_Ico.1 hi
      omega
    rw [hsplit, Finset.card_union_of_disjoint hdisjoint, Nat.card_Ico,
      ih (fun b hb => hin b (List.mem_cons_of_mem _ hb)) hrest, List.map_cons, List.sum_cons,
      Pointer.stop, Nat.add_sub_cancel_left]

theorem WellFormed.occupied_eq_sum {h : Heap} (hw : h.WellFormed) :
    h.occupied = (h.allocations.map fun a => a.pointer.size).sum := by
  have hplaces : {i ∈ Finset.range h.reserved.size | h.reserved[i]? = some true} =
      {i ∈ Finset.range h.capacity | ∃ a ∈ h.registry, a.pointer.Covers i} := by
    rw [hw.flags]
    exact Finset.filter_congr fun i _ => hw.reserved i
  rw [Heap.occupied, count_true_eq_card, hplaces, card_covered hw.inside hw.apart]
  rfl

/-- A heap whose allocations are all those of another one has no more bytes reserved. -/
theorem WellFormed.occupied_le {h h' : Heap} (hw : h.WellFormed) (hw' : h'.WellFormed)
    (hsub : ∀ a ∈ h'.allocations, a ∈ h.allocations) : h'.occupied ≤ h.occupied := by
  rw [Heap.occupied, Heap.occupied, count_true_eq_card, count_true_eq_card]
  refine Finset.card_le_card fun i hi => ?_
  obtain ⟨a, ha, hcovers⟩ := (hw'.reserved i).1 (Finset.mem_filter.1 hi).2
  have hset := (hw.reserved i).2 ⟨a, hsub a ha, hcovers⟩
  obtain ⟨hlt, -⟩ := Array.getElem?_eq_some_iff.1 hset
  exact Finset.mem_filter.2 ⟨Finset.mem_range.2 hlt, hset⟩

/-! ## Main result -/

/-- The rows of a heap and its registry agree. -/
structure Consistent (h : Heap) : Prop where
  /-- An allocation is found under the address of its range, and under no other. -/
  keys : ∀ address a, h.allocationAt? address = some a ↔
    a ∈ h.allocations ∧ a.pointer.address = address
  positive : ∀ a ∈ h.allocations, 1 ≤ a.pointer.size
  inside : ∀ a ∈ h.allocations, a.pointer.stop ≤ h.capacity
  disjoint : h.allocations.Pairwise fun a b => a.pointer.Apart b.pointer
  flags : h.reserved.size = h.capacity
  /-- A byte is reserved exactly if it lies in the range of an allocation. -/
  reserved : ∀ i : Nat, h.reserved[i]? = some true ↔ ∃ a ∈ h.allocations, a.pointer.Covers i
  zero : ∀ i : Nat, h.reserved[i]? = some false → h.bytes[i]? = some 0
  occupied : h.occupied = (h.allocations.map fun a => a.pointer.size).sum
  live : h.liveCount = h.allocations.length

theorem WellFormed.consistent {h : Heap} (hw : h.WellFormed) : h.Consistent where
  keys _ _ := hw.at?_eq_some
  positive := hw.positive
  inside := hw.inside
  disjoint := hw.apart.imp Or.inl
  flags := hw.flags
  reserved := hw.reserved
  zero := hw.zero
  occupied := hw.occupied_eq_sum
  live := rfl

/-- Whatever is asked of a heap, and in whatever order, it stays consistent. -/
theorem consistent_afterAll (capacity : Nat) (requests : List Request) :
    ((ofCapacity capacity).afterAll requests).Consistent :=
  ((wellFormed_ofCapacity capacity).afterAll requests).consistent

/-- A stale handle, of the address and size of a live range, frees nothing. -/
example : ((ofCapacity 8).afterAll [.allocate 8 (.temporary 0), .free ⟨0, 8, 1⟩,
    .allocate 8 (.owned 0), .free ⟨0, 8, 1⟩]).allocations = [⟨⟨0, 8, 2⟩, .owned 0⟩] := by
  decide

end HeapWalk.Heap
