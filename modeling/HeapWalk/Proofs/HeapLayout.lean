import HeapWalk.Heap.Basic
import Mathlib.Data.List.Pairwise

/-!
# The layout of a heap

`Heap.WellFormed h`: the three rows of the heap agree. Registered ranges are not empty, lie within
the capacity and do not overlap; a byte is reserved exactly if a registered range covers it; and a
byte that is not reserved is zero. `Heap.reserve` (at a place that `Heap.findPlace` gives),
`Heap.reassign`, `Heap.reclaim` and `Heap.store` (within a live range) keep it.
-/

set_option autoImplicit false

namespace HeapWalk

/-! ## Rows -/

section Rows
variable {α : Type}

@[simp] theorem size_storeAt (row : Array α) (start : Nat) (xs : List α) :
    (storeAt row start xs).size = row.size := by
  induction xs generalizing row start with
  | nil => rfl
  | cons x xs ih => rw [storeAt, ih, Array.size_setIfInBounds]

theorem getElem?_storeAt (row : Array α) (start i : Nat) (xs : List α) :
    (storeAt row start xs)[i]? =
      if start ≤ i ∧ i < start + xs.length ∧ i < row.size then xs[i - start]? else row[i]? := by
  induction xs generalizing row start with
  | nil => rw [if_neg (by simp only [List.length_nil]; omega)]; rfl
  | cons x xs ih =>
    rw [storeAt, ih, Array.size_setIfInBounds, Array.getElem?_setIfInBounds, List.length_cons]
    rcases Nat.lt_trichotomy i start with hlt | rfl | hlt
    · rw [if_neg (by omega), if_neg (by omega), if_neg (by omega)]
    · rw [if_neg (by omega), if_pos rfl]
      by_cases hi : i < row.size
      · rw [if_pos hi, if_pos (by omega), Nat.sub_self]; rfl
      · rw [if_neg hi, if_neg (by omega), Array.getElem?_eq_none (by omega)]
    · rw [show i - start = (i - (start + 1)) + 1 by omega, List.getElem?_cons_succ]
      by_cases hi : i < start + 1 + xs.length ∧ i < row.size
      · rw [if_pos (by omega), if_pos (by omega)]
      · rw [if_neg (by omega), if_neg (by omega), if_neg (by omega)]

theorem getElem?_storeAt_replicate (row : Array α) (start i n : Nat) (x : α)
    (h : start + n ≤ row.size) :
    (storeAt row start (List.replicate n x))[i]? =
      if start ≤ i ∧ i < start + n then some x else row[i]? := by
  rw [getElem?_storeAt, List.length_replicate]
  by_cases hi : start ≤ i ∧ i < start + n
  · rw [if_pos (by omega), if_pos hi, List.getElem?_replicate, if_pos (by omega)]
  · rw [if_neg (by omega), if_neg hi]

end Rows

/-! ## Ranges -/

/-- The byte at `i` lies in the range of `p`. -/
def Pointer.Covers (p : Pointer) (i : Nat) : Prop := p.address ≤ i ∧ i < p.stop

instance (p : Pointer) (i : Nat) : Decidable (p.Covers i) :=
  inferInstanceAs (Decidable (p.address ≤ i ∧ i < p.stop))

/-- The ranges of `p` and `q` have no byte in common. -/
def Pointer.Apart (p q : Pointer) : Prop := p.stop ≤ q.address ∨ q.stop ≤ p.address

theorem Pointer.Apart.symm {p q : Pointer} (h : p.Apart q) : q.Apart p := Or.symm h

theorem Pointer.Apart.not_covers {p q : Pointer} {i : Nat} (h : p.Apart q) (hp : p.Covers i) :
    ¬ q.Covers i := by
  intro hq
  unfold Pointer.Apart at h
  unfold Pointer.Covers at hp hq
  omega

namespace Heap

structure WellFormed (h : Heap) : Prop where
  flags : h.reserved.size = h.capacity
  positive : ∀ a ∈ h.registry, 0 < a.pointer.size
  inside : ∀ a ∈ h.registry, a.pointer.stop ≤ h.capacity
  apart : h.registry.Pairwise fun a b => a.pointer.stop ≤ b.pointer.address
  reserved : ∀ i : Nat, h.reserved[i]? = some true ↔ ∃ a ∈ h.registry, a.pointer.Covers i
  zero : ∀ i : Nat, h.reserved[i]? = some false → h.bytes[i]? = some 0

theorem wellFormed_ofCapacity (capacity : Nat) : (ofCapacity capacity).WellFormed where
  flags := by simp [ofCapacity, Heap.capacity]
  positive := by simp [ofCapacity]
  inside := by simp [ofCapacity]
  apart := by simp [ofCapacity]
  reserved i := by simp [ofCapacity, Array.getElem?_replicate]
  zero i h := by
    simp only [ofCapacity, Array.getElem?_replicate] at h ⊢
    split at h
    · rw [if_pos (by assumption)]
    · cases h

namespace WellFormed

variable {h : Heap} (hw : h.WellFormed)
include hw

theorem apart_of_ne {a b : Allocation} (ha : a ∈ h.registry) (hb : b ∈ h.registry)
    (hne : a ≠ b) : a.pointer.Apart b.pointer := by
  have : Std.Symm fun a b : Allocation => a.pointer.Apart b.pointer :=
    ⟨fun _ _ hab => hab.symm⟩
  exact (hw.apart.imp (S := fun a b => a.pointer.Apart b.pointer) Or.inl).forall ha hb hne

/-- Two entries that cover one byte are the same. -/
theorem eq_of_covers {a b : Allocation} (ha : a ∈ h.registry) (hb : b ∈ h.registry) {i : Nat}
    (hai : a.pointer.Covers i) (hbi : b.pointer.Covers i) : a = b := by
  by_contra hne
  exact (hw.apart_of_ne ha hb hne).not_covers hai hbi

theorem covers_address {a : Allocation} (ha : a ∈ h.registry) :
    a.pointer.Covers a.pointer.address := by
  have := hw.positive a ha
  exact ⟨Nat.le_refl _, by unfold Pointer.stop; omega⟩

theorem eq_of_address {a b : Allocation} (ha : a ∈ h.registry) (hb : b ∈ h.registry)
    (hab : a.pointer.address = b.pointer.address) : a = b :=
  hw.eq_of_covers ha hb (hw.covers_address ha) (hab ▸ hw.covers_address hb)

theorem rising : h.registry.Pairwise fun a b => a.pointer.address < b.pointer.address := by
  refine hw.apart.imp_of_mem fun ha _ hab => ?_
  have := hw.positive _ ha
  unfold Pointer.stop at hab
  omega

theorem nodup_registry : h.registry.Nodup := hw.rising.imp fun hlt he => by simp [he] at hlt

theorem at?_eq_some {address : Nat} {a : Allocation} :
    h.registry.at? address = some a ↔ a ∈ h.registry ∧ a.pointer.address = address := by
  constructor
  · intro hat
    exact ⟨List.mem_of_find?_eq_some hat, by simpa using List.find?_some hat⟩
  · rintro ⟨ha, rfl⟩
    cases hf : h.registry.at? a.pointer.address with
    | none =>
      have := List.find?_eq_none.1 hf a ha
      simp at this
    | some b =>
      have hb := List.mem_of_find?_eq_some hf
      have hba : b.pointer.address = a.pointer.address := by simpa using List.find?_some hf
      rw [hw.eq_of_address hb ha hba]

end WellFormed

/-! ## Finding a place -/

/-- The bytes `address, …, address + size - 1` exist and are free. -/
def FreeRun (h : Heap) (address size : Nat) : Prop :=
  ∀ i, address ≤ i → i < address + size → h.isFree i = true

theorem isFree_iff {h : Heap} {i : Nat} :
    h.isFree i = true ↔ h.bytes[i]? = some 0 ∧ h.reserved[i]? = some false := by
  unfold isFree
  rw [Array.getD_eq_getD_getElem?, Array.getD_eq_getD_getElem?]
  cases h.bytes[i]? <;> cases h.reserved[i]? <;> simp

theorem FreeRun.le_capacity {h : Heap} {address size : Nat} (hf : h.FreeRun address size)
    (hs : 0 < size) : address + size ≤ h.capacity := by
  have hlast := (isFree_iff.1 (hf (address + size - 1) (by omega) (by omega))).1
  have := (Array.getElem?_eq_some_iff.1 hlast).1
  unfold capacity
  omega

theorem findRun_freeRun {h : Heap} {size i run address : Nat} (hs : 0 < size) (hrun : run < size)
    (hfree : h.FreeRun i run) (hfind : h.findRun size i run = some address) :
    h.FreeRun address size := by
  induction i generalizing run with
  | zero => simp [findRun] at hfind
  | succ i ih =>
    simp only [findRun] at hfind
    by_cases hi : h.isFree i = true
    · rw [if_pos hi] at hfind
      -- the run above `i` is longer by the byte at `i`
      have hfree' : h.FreeRun i (run + 1) := by
        intro j hj hj'
        rcases Nat.eq_or_lt_of_le hj with rfl | hlt
        · exact hi
        · exact hfree j hlt (by omega)
      split at hfind
      · rename_i he
        obtain rfl : i = address := by simpa using hfind
        exact he ▸ hfree'
      · exact ih (by omega) hfree' hfind
    · rw [if_neg hi, if_neg (by omega)] at hfind
      exact ih hs (fun j hj hj' => absurd hj' (by omega)) hfind

/-- A place that is found is free, and nothing is found only for want of memory. -/
theorem findPlace_cases (h : Heap) (size : Nat) :
    (∃ address, h.findPlace size = .ok address ∧ 0 < size ∧ h.FreeRun address size) ∨
      h.findPlace size = .error (.outOfMemory size h.capacity h.occupied) := by
  unfold findPlace
  by_cases hs : size = 0
  · rw [if_pos hs]; exact .inr rfl
  rw [if_neg hs]
  cases hf : h.findRun size h.capacity 0 with
  | none => exact .inr rfl
  | some address =>
    refine .inl ⟨address, rfl, by omega, ?_⟩
    exact findRun_freeRun (by omega) (by omega) (fun j hj hj' => absurd hj' (by omega)) hf

theorem WellFormed.apart_of_freeRun {h : Heap} (hw : h.WellFormed) {p : Pointer}
    (hs : 0 < p.size) (hf : h.FreeRun p.address p.size) {a : Allocation} (ha : a ∈ h.registry) :
    p.Apart a.pointer := by
  by_contra hc
  have hp := hw.positive a ha
  unfold Pointer.Apart Pointer.stop at hc
  -- the higher of the two starts lies in both ranges
  have hcov : a.pointer.Covers (max p.address a.pointer.address) := by
    unfold Pointer.Covers Pointer.stop; omega
  have hfree := (isFree_iff.1 (hf (max p.address a.pointer.address) (by omega) (by omega))).2
  rw [(hw.reserved _).2 ⟨a, ha, hcov⟩] at hfree
  cases hfree

/-- No range starts at a place that is free. -/
theorem WellFormed.address_ne_of_freeRun {h : Heap} (hw : h.WellFormed) {p : Pointer}
    (hs : 0 < p.size) (hf : h.FreeRun p.address p.size) :
    ∀ a ∈ h.registry, a.pointer.address ≠ p.address := by
  intro a ha
  have := hw.apart_of_freeRun hs hf ha
  have := hw.positive a ha
  unfold Pointer.Apart Pointer.stop at *
  omega

/-! ## Operations on the registry -/

section Registry
variable {r : Registry} {e : Allocation}

theorem insert_perm (hd : ∀ a ∈ r, a.pointer.address ≠ e.pointer.address) :
    (r.insert e).Perm (e :: r) := by
  induction r with
  | nil => exact .refl _
  | cons a rest ih =>
    have hne := hd a List.mem_cons_self
    have ih := ih fun b hb => hd b (List.mem_cons_of_mem _ hb)
    simp only [Registry.insert]
    split
    · exact .refl _
    · rw [if_neg (Ne.symm hne)]
      exact (ih.cons a).trans (.swap e a rest)

theorem mem_insert (hd : ∀ a ∈ r, a.pointer.address ≠ e.pointer.address) {x : Allocation} :
    x ∈ r.insert e ↔ x = e ∨ x ∈ r :=
  (insert_perm hd).mem_iff.trans List.mem_cons

theorem pairwise_insert (hs : 0 < e.pointer.size)
    (hr : r.Pairwise fun a b => a.pointer.stop ≤ b.pointer.address)
    (hpos : ∀ a ∈ r, 0 < a.pointer.size) (hd : ∀ a ∈ r, e.pointer.Apart a.pointer) :
    (r.insert e).Pairwise fun a b => a.pointer.stop ≤ b.pointer.address := by
  induction r with
  | nil => simp [Registry.insert]
  | cons a rest ih =>
    obtain ⟨hhead, htail⟩ := List.pairwise_cons.1 hr
    have hne : ∀ b ∈ rest, b.pointer.address ≠ e.pointer.address := by
      intro b hb
      have := hd b (List.mem_cons_of_mem _ hb)
      have := hpos b (List.mem_cons_of_mem _ hb)
      unfold Pointer.Apart Pointer.stop at *
      omega
    have ha := hd a List.mem_cons_self
    have hpa := hpos a List.mem_cons_self
    simp only [Registry.insert]
    split
    · refine List.pairwise_cons.2 ⟨fun b hb => ?_, hr⟩
      have hea : e.pointer.stop ≤ a.pointer.address := by
        unfold Pointer.Apart Pointer.stop at *; omega
      rcases List.mem_cons.1 hb with rfl | hb
      · exact hea
      · have := hhead b hb
        unfold Pointer.stop at *
        omega
    · rw [if_neg (by unfold Pointer.Apart Pointer.stop at ha; omega)]
      refine List.pairwise_cons.2 ⟨fun b hb => ?_,
        ih htail (fun b hb => hpos b (List.mem_cons_of_mem _ hb))
          fun b hb => hd b (List.mem_cons_of_mem _ hb)⟩
      rcases (mem_insert hne).1 hb with rfl | hb
      · unfold Pointer.Apart Pointer.stop at *; omega
      · exact hhead b hb

theorem mem_setOwnership {address : Nat} {o : Ownership} {x : Allocation} :
    x ∈ r.setOwnership address o ↔
      ∃ a ∈ r, x = if a.pointer.address = address then { a with ownership := o } else a := by
  simp only [Registry.setOwnership, List.mem_map]
  exact ⟨fun ⟨a, ha, hx⟩ => ⟨a, ha, hx.symm⟩, fun ⟨a, ha, hx⟩ => ⟨a, ha, hx.symm⟩⟩

theorem mem_erase {address : Nat} {x : Allocation} :
    x ∈ r.erase address ↔ x ∈ r ∧ x.pointer.address ≠ address := by
  simp [Registry.erase]

theorem pointer_setOwnership (address : Nat) (o : Ownership) :
    (r.setOwnership address o).map (·.pointer) = r.map (·.pointer) := by
  simp only [Registry.setOwnership, List.map_map]
  refine List.map_congr_left fun a _ => ?_
  simp only [Function.comp_apply]
  split <;> rfl

end Registry

/-! ## What keeps a heap well-formed -/

@[simp] theorem capacity_reserve (h : Heap) (p : Pointer) (o : Ownership) :
    (h.reserve p o).capacity = h.capacity := rfl

@[simp] theorem capacity_reclaim (h : Heap) (p : Pointer) :
    (h.reclaim p).capacity = h.capacity :=
  size_storeAt ..

@[simp] theorem capacity_store (h : Heap) (address : Nat) (bytes : List UInt8) :
    (h.store address bytes).capacity = h.capacity :=
  size_storeAt ..

section Keeps
variable {h : Heap} (hw : h.WellFormed)
include hw

theorem WellFormed.reserve {p : Pointer} (o : Ownership) (hs : 0 < p.size)
    (hf : h.FreeRun p.address p.size) : (h.reserve p o).WellFormed := by
  have hd : ∀ a ∈ h.registry, p.Apart a.pointer := fun a ha => hw.apart_of_freeRun hs hf ha
  have hne := hw.address_ne_of_freeRun hs hf
  have hmem : ∀ x, x ∈ h.registry.insert ⟨p, o⟩ ↔ x = ⟨p, o⟩ ∨ x ∈ h.registry :=
    fun x => mem_insert (e := ⟨p, o⟩) hne
  have hcap := hf.le_capacity hs
  have hsize : p.address + p.size ≤ h.reserved.size := by rw [hw.flags]; exact hcap
  refine ⟨by simp only [Heap.reserve, size_storeAt]; exact hw.flags, ?_, ?_,
    pairwise_insert (e := ⟨p, o⟩) hs hw.apart hw.positive hd, ?_, ?_⟩
  · intro a ha
    rcases (hmem a).1 ha with rfl | ha
    · exact hs
    · exact hw.positive a ha
  · intro a ha
    rcases (hmem a).1 ha with rfl | ha
    · exact hcap
    · exact hw.inside a ha
  · intro i
    simp only [Heap.reserve, getElem?_storeAt_replicate _ _ _ _ _ hsize, hmem]
    by_cases hi : p.address ≤ i ∧ i < p.address + p.size
    · simp only [hi, and_self, if_true, true_iff]
      exact ⟨⟨p, o⟩, .inl rfl, hi⟩
    · rw [if_neg hi, hw.reserved]
      refine ⟨fun ⟨a, ha, hc⟩ => ⟨a, .inr ha, hc⟩, ?_⟩
      rintro ⟨a, rfl | ha, hc⟩
      · exact absurd hc hi
      · exact ⟨a, ha, hc⟩
  · intro i hi
    simp only [Heap.reserve, getElem?_storeAt_replicate _ _ _ _ _ hsize] at hi
    split at hi
    · simp at hi
    · exact hw.zero i hi

theorem WellFormed.reassign (address : Nat) (o : Ownership) :
    (h.reassign address o).WellFormed := by
  have hptr : ∀ a ∈ (h.reassign address o).registry, ∃ b ∈ h.registry, b.pointer = a.pointer := by
    intro a ha
    obtain ⟨b, hb, rfl⟩ := mem_setOwnership.1 ha
    exact ⟨b, hb, by split <;> rfl⟩
  refine ⟨hw.flags, ?_, ?_, ?_, ?_, hw.zero⟩
  · intro a ha
    obtain ⟨b, hb, hba⟩ := hptr a ha
    exact hba ▸ hw.positive b hb
  · intro a ha
    obtain ⟨b, hb, hba⟩ := hptr a ha
    exact hba ▸ hw.inside b hb
  · have hp : (h.registry.map (·.pointer)).Pairwise fun p q => p.stop ≤ q.address :=
      List.pairwise_map.2 hw.apart
    rw [← pointer_setOwnership address o] at hp
    exact List.pairwise_map.1 hp
  · intro i
    show h.reserved[i]? = some true ↔ _
    rw [hw.reserved]
    constructor
    · rintro ⟨a, ha, hc⟩
      exact ⟨_, mem_setOwnership.2 ⟨a, ha, rfl⟩, by split <;> exact hc⟩
    · rintro ⟨a, ha, hc⟩
      obtain ⟨b, hb, hba⟩ := hptr a ha
      exact ⟨b, hb, hba ▸ hc⟩

theorem WellFormed.reclaim {a : Allocation} (ha : a ∈ h.registry) :
    (h.reclaim a.pointer).WellFormed := by
  have hin := hw.inside a ha
  have hsize : a.pointer.address + a.pointer.size ≤ h.reserved.size := by rw [hw.flags]; exact hin
  have hbytes : a.pointer.address + a.pointer.size ≤ h.bytes.size := hin
  refine ⟨?_, fun b hb => hw.positive b (mem_erase.1 hb).1, ?_, hw.apart.filter _, ?_, ?_⟩
  · rw [capacity_reclaim, ← hw.flags]
    exact size_storeAt ..
  · intro b hb
    rw [capacity_reclaim]
    exact hw.inside b (mem_erase.1 hb).1
  · intro i
    simp only [Heap.reclaim, getElem?_storeAt_replicate _ _ _ _ _ hsize, mem_erase]
    by_cases hi : a.pointer.address ≤ i ∧ i < a.pointer.address + a.pointer.size
    · simp only [hi, and_self, if_true, Option.some.injEq, Bool.false_eq_true, false_iff]
      rintro ⟨b, ⟨hb, hne⟩, hc⟩
      exact hne (hw.eq_of_covers hb ha hc hi ▸ rfl)
    · rw [if_neg hi, hw.reserved]
      constructor
      · rintro ⟨b, hb, hc⟩
        refine ⟨b, ⟨hb, fun hba => hi ?_⟩, hc⟩
        rw [hw.eq_of_address hb ha hba] at hc
        exact hc
      · rintro ⟨b, ⟨hb, -⟩, hc⟩
        exact ⟨b, hb, hc⟩
  · intro i hi
    simp only [Heap.reclaim, getElem?_storeAt_replicate _ _ _ _ _ hsize,
      getElem?_storeAt_replicate _ _ _ _ _ hbytes] at hi ⊢
    split
    · rfl
    · rw [if_neg (by assumption)] at hi
      exact hw.zero i hi

theorem WellFormed.store {a : Allocation} (ha : a ∈ h.registry) {bytes : List UInt8}
    (hl : bytes.length = a.pointer.size) : (h.store a.pointer.address bytes).WellFormed := by
  refine ⟨?_, hw.positive, ?_, hw.apart, hw.reserved, ?_⟩
  · rw [capacity_store]
    exact hw.flags
  · intro b hb
    rw [capacity_store]
    exact hw.inside b hb
  · intro i hi
    have hn : ¬ a.pointer.Covers i := by
      intro hc
      have : h.reserved[i]? = some false := hi
      rw [(hw.reserved i).2 ⟨a, ha, hc⟩] at this
      cases this
    simp only [Heap.store, getElem?_storeAt, hl]
    rw [if_neg (fun hc => hn ⟨hc.1, hc.2.1⟩)]
    exact hw.zero i hi

end Keeps

end Heap

end HeapWalk
