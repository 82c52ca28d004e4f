import HeapWalk.Proofs.HeapRequests

/-!
# Where the heap allocates

`Heap.findRun` walks down from the top of the heap and counts the free bytes behind it. While it
walks, no run that is long enough starts above it, and the count is that of the longest run that
starts where it stands (`Heap.Scanned`). So the first address at which the count is reached is the
highest one that fits, and a walk that comes to the bottom has passed over nothing.

A free byte is one that is unreserved and zero. In a well-formed heap whatever is unreserved is
zero, so that the walk finds a place wherever unreserved bytes are enough
(`WellFormed.freeRun_iff`).
-/

set_option autoImplicit false

namespace HeapWalk.Heap

/-- The bytes `address, …, address + size - 1` exist, and none of them is reserved. -/
def Vacant (h : Heap) (address size : Nat) : Prop :=
  address + size ≤ h.capacity ∧
    ∀ i, address ≤ i → i < address + size → h.reserved[i]? = some false

/-- `h'` is `h` with the range of `p` for `owner`, the highest one that was to be had. -/
structure FirstFit (h : Heap) (p : Pointer) (owner : Ownership) (h' : Heap) : Prop where
  highest : IsGreatest {a | h.Vacant a p.size} p.address
  generation : p.generation = h.nextGeneration
  flags : ∀ i : Nat, h'.reserved[i]? = if p.Covers i then some true else h.reserved[i]?
  bytes : h'.bytes = h.bytes
  /-- The registry gains this entry and no other. -/
  entry : h'.allocations.Perm (⟨p, owner⟩ :: h.allocations)
  nextGeneration : h'.nextGeneration = h.nextGeneration + 1

/-! ## The walk -/

/-- The walk for `size` bytes stands at `i` and has counted `run` free bytes from there on. -/
structure Scanned (h : Heap) (size i run : Nat) : Prop where
  short : run < size
  free : h.FreeRun i run
  /-- The run is no longer than it was counted. -/
  ends : h.isFree (i + run) = false
  above : ∀ address, i ≤ address → ¬ h.FreeRun address size

section Walk

variable {h : Heap} {size i run : Nat}

theorem isFree_capacity (h : Heap) : h.isFree h.capacity = false := by
  simp [isFree, capacity]

theorem scanned_capacity (hs : 0 < size) : h.Scanned size h.capacity 0 where
  short := hs
  free j hj hj' := by omega
  ends := h.isFree_capacity
  above address hle hfree := by
    have := hfree.le_capacity hs
    omega

/-- The byte below the walk lengthens the run that was counted. -/
theorem Scanned.freeRun_succ (hsc : h.Scanned size (i + 1) run) (hi : h.isFree i = true) :
    h.FreeRun i (run + 1) := by
  intro j hj hj'
  by_cases hij : j = i
  · rw [hij]
    exact hi
  · exact hsc.free j (by omega) (by omega)

theorem Scanned.step (hsc : h.Scanned size (i + 1) run)
    (hne : (if h.isFree i then run + 1 else 0) ≠ size) :
    h.Scanned size i (if h.isFree i then run + 1 else 0) := by
  have hshort := hsc.short
  by_cases hi : h.isFree i = true
  · rw [if_pos hi] at hne ⊢
    have hends : h.isFree (i + (run + 1)) = false := by
      rw [show i + (run + 1) = i + 1 + run by omega]
      exact hsc.ends
    refine ⟨by omega, hsc.freeRun_succ hi, hends, fun address hle hfree => ?_⟩
    by_cases hia : address = i
    · -- such a run would go on past the byte that ends the counted one
      have := hfree (i + (run + 1)) (by omega) (by omega)
      simp [hends] at this
    · exact hsc.above address (by omega) hfree
  · rw [if_neg hi]
    refine ⟨by omega, fun j hj hj' => by omega, by simpa using hi, fun address hle hfree => ?_⟩
    by_cases hia : address = i
    · exact hi (hfree i (by omega) (by omega))
    · exact hsc.above address (by omega) hfree

theorem Scanned.le_of_findRun (hsc : h.Scanned size i run) {address : Nat}
    (hfind : h.findRun size i run = some address) {a : Nat} (hfree : h.FreeRun a size) :
    a ≤ address := by
  induction i generalizing run with
  | zero => simp [findRun] at hfind
  | succ i ih =>
    simp only [findRun] at hfind
    by_cases hrun : (if h.isFree i then run + 1 else 0) = size
    · rw [if_pos hrun] at hfind
      obtain rfl : i = address := by simpa using hfind
      by_contra hlt
      exact hsc.above a (by omega) hfree
    · rw [if_neg hrun] at hfind
      exact ih (hsc.step hrun) hfind

theorem Scanned.not_freeRun_of_findRun (hsc : h.Scanned size i run)
    (hfind : h.findRun size i run = none) (a : Nat) : ¬ h.FreeRun a size := by
  induction i generalizing run with
  | zero => exact hsc.above a (Nat.zero_le a)
  | succ i ih =>
    simp only [findRun] at hfind
    by_cases hrun : (if h.isFree i then run + 1 else 0) = size
    · simp [if_pos hrun] at hfind
    · rw [if_neg hrun] at hfind
      exact ih (hsc.step hrun) hfind

end Walk

/-! ## The place -/

section Place

variable {h : Heap} {size address : Nat}

theorem isGreatest_of_findPlace (hfind : h.findPlace size = .ok address) :
    0 < size ∧ IsGreatest {a | h.FreeRun a size} address := by
  rcases h.findPlace_cases size with ⟨a, ha, hs, hfree⟩ | hfull
  · obtain rfl : a = address := Except.ok.inj (ha.symm.trans hfind)
    refine ⟨hs, hfree, fun b hb => ?_⟩
    have hrun : h.findRun size h.capacity 0 = some a := by
      unfold findPlace at ha
      rw [if_neg (by omega)] at ha
      split at ha
      · rename_i b' hb'
        rw [hb', Except.ok.inj ha]
      · cases ha
    exact (scanned_capacity hs).le_of_findRun hrun hb
  · rw [hfull] at hfind
    cases hfind

theorem not_freeRun_of_findPlace {e : HeapError} (hfind : h.findPlace size = .error e)
    (hs : 0 < size) (a : Nat) : ¬ h.FreeRun a size := by
  refine (scanned_capacity hs).not_freeRun_of_findRun ?_ a
  unfold findPlace at hfind
  rw [if_neg (by omega)] at hfind
  split at hfind
  · cases hfind
  · assumption

end Place

/-! ## In a well-formed heap -/

section Allocation

variable {h : Heap} (hw : h.WellFormed)
include hw

/-- Bytes that nobody reserved are zero, so the walk takes them for free. -/
theorem WellFormed.freeRun_iff {size : Nat} (hs : 0 < size) (a : Nat) :
    h.FreeRun a size ↔ h.Vacant a size := by
  constructor
  · intro hfree
    exact ⟨hfree.le_capacity hs, fun i hi hi' => (isFree_iff.1 (hfree i hi hi')).2⟩
  · intro hvacant i hi hi'
    have hflag := hvacant.2 i hi hi'
    exact isFree_iff.2 ⟨hw.zero i hflag, hflag⟩

theorem WellFormed.isGreatest_vacant {size address : Nat} (hfind : h.findPlace size = .ok address) :
    0 < size ∧ IsGreatest {a | h.Vacant a size} address := by
  obtain ⟨hs, hgreatest⟩ := isGreatest_of_findPlace hfind
  have hset : {a | h.FreeRun a size} = {a | h.Vacant a size} :=
    Set.ext fun a => hw.freeRun_iff hs a
  exact ⟨hs, hset ▸ hgreatest⟩

theorem WellFormed.firstFit_reserve {p : Pointer} (owner : Ownership)
    (hfind : h.findPlace p.size = .ok p.address) (hgen : p.generation = h.nextGeneration) :
    h.FirstFit p owner (h.reserve p owner) := by
  obtain ⟨hs, hgreatest⟩ := hw.isGreatest_vacant hfind
  have hfree : h.FreeRun p.address p.size := (hw.freeRun_iff hs _).2 hgreatest.1
  have hsize : p.address + p.size ≤ h.reserved.size := by
    rw [hw.flags]
    exact hgreatest.1.1
  refine ⟨hgreatest, hgen, fun i => ?_, rfl, insert_perm (hw.address_ne_of_freeRun hs hfree), rfl⟩
  exact getElem?_storeAt_replicate h.reserved p.address i p.size true hsize

end Allocation

/-! ## Main result -/

/-- An allocation succeeds exactly if as many consecutive bytes as it asks for, and at least one,
are unreserved. It takes the highest such range and changes nothing else; if there is none, the
answer tells how full the heap is, and nothing changes. -/
theorem allocate_takes_highest_vacancy (capacity : Nat) (requests : List Request) (size : Nat)
    (owner : Ownership) :
    let h := (ofCapacity capacity).afterAll requests
    ((h.allocate size owner).isOk = true ↔ 0 < size ∧ ∃ a, h.Vacant a size) ∧
    ((∃ p h', h.allocate size owner = .ok (p, h') ∧ p.size = size ∧ h.FirstFit p owner h') ∨
      (h.allocate size owner = .error (.outOfMemory size h.capacity h.occupied) ∧
        h.after (.allocate size owner) = h)) := by
  intro h
  have hw : h.WellFormed := (wellFormed_ofCapacity capacity).afterAll requests
  cases hfind : h.findPlace size with
  | ok address =>
    obtain ⟨hs, hgreatest⟩ := hw.isGreatest_vacant hfind
    have halloc : h.allocate size owner = .ok (⟨address, size, h.nextGeneration⟩,
        h.reserve ⟨address, size, h.nextGeneration⟩ owner) := by
      rw [allocate, hfind]
      rfl
    refine ⟨?_, .inl ⟨_, _, halloc, rfl, hw.firstFit_reserve owner hfind rfl⟩⟩
    rw [halloc]
    exact iff_of_true rfl ⟨hs, address, hgreatest.1⟩
  | error e =>
    obtain rfl : e = .outOfMemory size h.capacity h.occupied := by
      rcases h.findPlace_cases size with ⟨a, ha, -⟩ | hfull
      · rw [ha] at hfind
        cases hfind
      · exact Except.error.inj (hfind.symm.trans hfull)
    have halloc : h.allocate size owner = .error (.outOfMemory size h.capacity h.occupied) := by
      rw [allocate, hfind]
      rfl
    refine ⟨?_, .inr ⟨halloc, ?_⟩⟩
    · rw [halloc]
      refine iff_of_false (by simp [Except.isOk, Except.toBool]) ?_
      rintro ⟨hs, a, hvacant⟩
      exact not_freeRun_of_findPlace hfind hs a ((hw.freeRun_iff hs a).2 hvacant)
    · rw [after, perform, halloc]
      rfl

/-- Sixteen free bytes in two pieces do not hold ten, and the higher piece is taken first. -/
example :
    let h := (ofCapacity 24).afterAll [.allocate 8 (.owned 0), .allocate 8 (.owned 0),
      .allocate 8 (.owned 0), .free ⟨16, 8, 1⟩, .free ⟨0, 8, 3⟩]
    (h.allocate 10 (.owned 0)).isOk = false ∧
      (h.allocate 8 (.temporary 1)).toOption.map (·.1) = some ⟨16, 8, 4⟩ := by
  decide

end HeapWalk.Heap
