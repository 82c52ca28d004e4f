import HeapWalk.Proofs.Handles
import HeapWalk.Proofs.Scoping

/-!
# What a sweep reclaims

A sweep lists the handles of the allocations that are doomed, and reclaims their ranges one after
the other (`Heap.freeWhere`). Ranges do not overlap, so reclaiming one leaves the bytes and the
flags of all others alone (`Heap.reclaimAll_elsewhere`), and what is left is a well-formed heap that
has the blocks of the survivors. Such a heap is determined by its blocks, in whatever order the
ranges were reclaimed (`WellFormed.reclaimAll_perm`).
-/

set_option autoImplicit false

namespace HeapWalk.Heap

/-- `h'` is `h` without the allocations of a doomed ownership, of which there were `count`. -/
structure Purged (h : Heap) (doomed : Ownership → Bool) (count : Nat) (h' : Heap) : Prop where
  allocations : h'.allocations = h.allocations.filter fun a => !doomed a.ownership
  count : count = h.allocations.countP fun a => doomed a.ownership
  cleared : ∀ a ∈ h.allocations, doomed a.ownership = true → ∀ i, a.pointer.Covers i →
    h'.bytes[i]? = some 0 ∧ h'.reserved[i]? = some false
  kept : ∀ a ∈ h'.allocations, h'.bytesAt a.pointer = h.bytesAt a.pointer
  /-- Outside the ranges that went no byte and no flag is touched. -/
  elsewhere : ∀ i : Nat, (∀ a ∈ h.allocations, doomed a.ownership = true → ¬ a.pointer.Covers i) →
    h'.bytes[i]? = h.bytes[i]? ∧ h'.reserved[i]? = h.reserved[i]?
  /-- It does not matter in which order the registry is gone through. -/
  anyOrder : ∀ entries : List Allocation, entries.Perm h.allocations →
    h.reclaimAll ((entries.filter fun a => doomed a.ownership).map (·.pointer)) = h'

/-! ## Reclaiming a list of ranges -/

section Ranges

variable {h : Heap} {ps qs : List Pointer}

theorem capacity_reclaimAll (h : Heap) (ps : List Pointer) :
    (h.reclaimAll ps).capacity = h.capacity := by
  induction ps generalizing h with
  | nil => rfl
  | cons p ps ih => exact (ih (h.reclaim p)).trans (h.capacity_reclaim p)

theorem registry_reclaimAll (h : Heap) (ps : List Pointer) :
    (h.reclaimAll ps).registry =
      h.registry.filter fun a => decide (∀ p ∈ ps, a.pointer.address ≠ p.address) := by
  induction ps generalizing h with
  | nil => simp [reclaimAll]
  | cons p ps ih =>
    refine (ih (h.reclaim p)).trans ?_
    simp only [reclaim, Registry.erase, List.filter_filter]
    refine List.filter_congr fun a _ => ?_
    by_cases ha : a.pointer.address = p.address
    · simp [ha]
    · simp [ha]

theorem reclaim_elsewhere {p : Pointer} {i : Nat} (hi : ¬ p.Covers i) :
    (h.reclaim p).bytes[i]? = h.bytes[i]? ∧ (h.reclaim p).reserved[i]? = h.reserved[i]? := by
  have hout : ∀ size : Nat, ¬ (p.address ≤ i ∧ i < p.address + p.size ∧ i < size) :=
    fun size hin => hi ⟨hin.1, hin.2.1⟩
  simp only [reclaim, getElem?_storeAt, List.length_replicate, hout, if_false, and_self]

theorem reclaimAll_elsewhere {i : Nat} (hi : ∀ p ∈ ps, ¬ p.Covers i) :
    (h.reclaimAll ps).bytes[i]? = h.bytes[i]? ∧
      (h.reclaimAll ps).reserved[i]? = h.reserved[i]? := by
  induction ps generalizing h with
  | nil => exact ⟨rfl, rfl⟩
  | cons p ps ih =>
    obtain ⟨hbytes, hflag⟩ := reclaim_elsewhere (h := h) (hi p List.mem_cons_self)
    obtain ⟨hbytes', hflag'⟩ := ih (h := h.reclaim p) fun q hq => hi q (List.mem_cons_of_mem p hq)
    exact ⟨hbytes'.trans hbytes, hflag'.trans hflag⟩

/-- The order in which live ranges are reclaimed does not matter. -/
theorem WellFormed.reclaimAll_perm (hw : h.WellFormed) (hperm : qs.Perm ps) (hn : ps.Nodup)
    (hl : ∀ p ∈ ps, h.block? p ≠ none) : h.reclaimAll qs = h.reclaimAll ps := by
  obtain ⟨hwp, hblocks⟩ := hw.reclaimAll hn hl
  obtain ⟨hwq, hblocks'⟩ :=
    hw.reclaimAll (hperm.nodup_iff.2 hn) fun p hp => hl p (hperm.mem_iff.1 hp)
  refine hwp.eq_of_blocks hwq ?_ ?_ fun p => ?_
  · rw [capacity_reclaimAll, capacity_reclaimAll]
  · rw [nextGeneration_reclaimAll, nextGeneration_reclaimAll]
  · rw [hblocks', hblocks]
    simp [hperm.mem_iff]

end Ranges

/-! ## Reclaiming what is doomed -/

section Doomed

variable {h : Heap} (hw : h.WellFormed) (doomed : Ownership → Bool)
include hw

theorem WellFormed.allocations_freeWhere :
    (h.freeWhere doomed).2.allocations = h.allocations.filter fun a => !doomed a.ownership := by
  refine (registry_reclaimAll h _).trans (List.filter_congr fun a ha => ?_)
  have hhandle : (∀ p ∈ h.handlesWhere doomed, a.pointer.address ≠ p.address) ↔
      doomed a.ownership = false := by
    constructor
    · intro hne
      by_contra hd
      have hmem : a.pointer ∈ h.handlesWhere doomed :=
        List.mem_map.2 ⟨a, List.mem_filter.2 ⟨ha, by simpa using hd⟩, rfl⟩
      exact hne a.pointer hmem rfl
    · intro hd p hp haddress
      obtain ⟨b, hb, rfl⟩ := List.mem_map.1 hp
      obtain ⟨hb, hbd⟩ := List.mem_filter.1 hb
      -- no two entries have one address
      rw [hw.eq_of_address ha hb haddress, hbd] at hd
      cases hd
  cases hd : doomed a.ownership with
  | false => simpa [hd] using hhandle
  | true => simpa [hd] using hhandle

theorem WellFormed.cleared_freeWhere {a : Allocation} (ha : a ∈ h.allocations)
    (hd : doomed a.ownership = true) {i : Nat} (hi : a.pointer.Covers i) :
    (h.freeWhere doomed).2.bytes[i]? = some 0 ∧
      (h.freeWhere doomed).2.reserved[i]? = some false := by
  have hw' := hw.freeWhere doomed
  have hunset : (h.freeWhere doomed).2.reserved[i]? ≠ some true := by
    intro hset
    obtain ⟨b, hb, hbi⟩ := (hw'.reserved i).1 hset
    rw [show (h.freeWhere doomed).2.registry = _ from hw.allocations_freeWhere doomed] at hb
    obtain ⟨hb, hbd⟩ := List.mem_filter.1 hb
    rw [hw.eq_of_covers hb ha hbi hi] at hbd
    simp [hd] at hbd
  have hin : i < (h.freeWhere doomed).2.reserved.size := by
    rw [hw'.flags, show (h.freeWhere doomed).2.capacity = _ from capacity_reclaimAll h _]
    exact Nat.lt_of_lt_of_le hi.2 (hw.inside a ha)
  have hclear : (h.freeWhere doomed).2.reserved[i]? = some false := by
    rw [Array.getElem?_eq_getElem hin] at hunset ⊢
    simpa using hunset
  exact ⟨hw'.zero i hclear, hclear⟩

omit hw in
theorem elsewhere_freeWhere {i : Nat}
    (hi : ∀ a ∈ h.allocations, doomed a.ownership = true → ¬ a.pointer.Covers i) :
    (h.freeWhere doomed).2.bytes[i]? = h.bytes[i]? ∧
      (h.freeWhere doomed).2.reserved[i]? = h.reserved[i]? := by
  refine reclaimAll_elsewhere fun p hp => ?_
  obtain ⟨a, ha, rfl⟩ := List.mem_map.1 hp
  obtain ⟨ha, hd⟩ := List.mem_filter.1 ha
  exact hi a ha hd

theorem WellFormed.purged_freeWhere :
    h.Purged doomed (h.freeWhere doomed).1 (h.freeWhere doomed).2 where
  allocations := hw.allocations_freeWhere doomed
  count := by
    rw [List.countP_eq_length_filter]
    exact List.length_map ..
  cleared _ ha hd _ hi := hw.cleared_freeWhere doomed ha hd hi
  kept a ha := by
    rw [hw.allocations_freeWhere doomed] at ha
    obtain ⟨ha, hd⟩ := List.mem_filter.1 ha
    refine bytesAt_congr fun i hi => (elsewhere_freeWhere doomed fun b hb hbd hbi => ?_).1
    rw [hw.eq_of_covers ha hb hi hbi, hbd] at hd
    cases hd
  elsewhere _ hi := elsewhere_freeWhere doomed hi
  anyOrder entries hperm := by
    refine hw.reclaimAll_perm ((hperm.filter _).map _) (hw.nodup_handlesWhere doomed) fun p hp => ?_
    obtain ⟨b, hb, -⟩ := (hw.mem_handlesWhere doomed).1 hp
    simp [hb]

end Doomed

/-! ## Main result -/

/-- The temporaries of `floor` and of the scopes pushed after it. -/
theorem isTemporaryFrom_eq (floor : ScopeId) :
    Ownership.isTemporaryFrom floor = fun o => o.isTemporary && decide (floor ≤ o.scope) := by
  funext o
  cases o with
  | temporary id => rfl
  | owned id => rfl

/-- The sweeps, the end of a scope and a pop reclaim exactly what they are meant to, and the sweeps
count it. -/
theorem sweeps_reclaim_exactly (capacity : Nat) (requests : List Request) :
    let h := (ofCapacity capacity).afterAll requests
    h.Purged (fun o => o.isTemporary) h.sweepTemporaries.1 h.sweepTemporaries.2 ∧
    (∀ floor, h.Purged (fun o => o.isTemporary && decide (floor ≤ o.scope))
      (h.sweepTemporariesFrom floor).1 (h.sweepTemporariesFrom floor).2) ∧
    (∀ scope, h.Purged (fun o => decide (o.scope = scope))
      (h.freeOwnedBy scope).1 (h.freeOwnedBy scope).2) ∧
    ∀ (c : Context) (rest : List Context) (nextId : ScopeId), ∃ count h',
      ScopeStack.pop? ⟨c :: rest, nextId⟩ h = some (c, ⟨rest, nextId⟩, h') ∧
        h.Purged (fun o => decide (o.scope = c.id)) count h' := by
  intro h
  have hw : h.WellFormed := (wellFormed_ofCapacity capacity).afterAll requests
  have hscope : ∀ scope, h.Purged (fun o => decide (o.scope = scope))
      (h.freeOwnedBy scope).1 (h.freeOwnedBy scope).2 := fun scope =>
    hw.purged_freeWhere fun o => o.scope == scope
  refine ⟨hw.purged_freeWhere _, fun floor => ?_, hscope, fun c rest nextId => ?_⟩
  · rw [← isTemporaryFrom_eq]
    exact hw.purged_freeWhere _
  · exact ⟨_, _, rfl, hscope c.id⟩

end HeapWalk.Heap

namespace HeapWalk.Exec

/-- A construct that is left in the ordinary way pops its scope. -/
theorem exitScope_pops {m : Machine} {c : Context} {rest : List Context}
    (hc : m.scopes.contexts = c :: rest) :
    ∃ m', exitScope m = .done () m' ∧ m.scopes.pop? m.heap = some (c, m'.scopes, m'.heap) := by
  have hspec : Spec exitScope m (fun _ => True) (fun _ _ => False) fun _ m' =>
      m.scopes.pop? m.heap = some (c, m'.scopes, m'.heap) := by
    refine Spec.exitScope hc rfl (fun _ => trivial) (fun _ => trivial) fun j => ?_
    rw [ScopeStack.pop?, hc]
    rfl
  obtain ⟨_, m', ho, hpop⟩ := hspec.exists_done
  exact ⟨m', ho, hpop⟩

end HeapWalk.Exec
