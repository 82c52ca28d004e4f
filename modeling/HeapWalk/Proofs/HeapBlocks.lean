import HeapWalk.Proofs.HeapLayout

/-!
# The heap as a map from handles to blocks

`Heap.block? h p` is what the heap keeps for the handle `p`, if it is live: the ownership and the
bytes. Every operation of a well-formed heap is one equation about `block?`, and what an operation
answers is read off it, so nothing above this file looks at the rows of a heap.
-/

set_option autoImplicit false

namespace HeapWalk

/-- A live range: who owns it and what it holds. -/
structure Block where
  owner : Ownership
  bytes : List UInt8
deriving DecidableEq, Repr

namespace Heap

def block? (h : Heap) (p : Pointer) : Option Block :=
  (h.registry.find? fun a => a.pointer == p).map fun a => ⟨a.ownership, h.bytesAt p⟩

/-! ## The bytes of a range -/

theorem getElem?_bytesAt (h : Heap) (p : Pointer) (i : Nat) :
    (h.bytesAt p)[i]? = if i < p.size then h.bytes[p.address + i]? else none := by
  unfold bytesAt Pointer.stop
  rw [Array.getElem?_toList, Array.getElem?_extract]
  by_cases hi : p.address + i < h.bytes.size
  · by_cases hs : i < p.size
    · rw [if_pos (by omega), if_pos hs]
    · rw [if_neg (by omega), if_neg hs]
  · rw [if_neg (by omega), Array.getElem?_eq_none (by omega), ite_self]

theorem bytesAt_congr {h h' : Heap} {p : Pointer}
    (hb : ∀ i : Nat, p.Covers i → h'.bytes[i]? = h.bytes[i]?) : h'.bytesAt p = h.bytesAt p := by
  apply List.ext_getElem?
  intro i
  rw [getElem?_bytesAt, getElem?_bytesAt]
  split
  · exact hb _ ⟨Nat.le_add_right _ _, by unfold Pointer.stop; omega⟩
  · rfl

theorem length_bytesAt {h : Heap} {p : Pointer} (hp : p.stop ≤ h.capacity) :
    (h.bytesAt p).length = p.size := by
  unfold bytesAt Pointer.stop at *
  unfold capacity at hp
  rw [Array.length_toList, Array.size_extract]
  omega

theorem bytesAt_store_self {h : Heap} {p : Pointer} (hp : p.stop ≤ h.capacity)
    {bytes : List UInt8} (hl : bytes.length = p.size) :
    (h.store p.address bytes).bytesAt p = bytes := by
  apply List.ext_getElem?
  intro i
  unfold Pointer.stop capacity at hp
  simp only [getElem?_bytesAt, store, getElem?_storeAt, hl]
  split
  · rw [if_pos (by omega), Nat.add_sub_cancel_left]
  · rw [List.getElem?_eq_none (by omega)]

theorem bytesAt_store_of_apart {h : Heap} {p q : Pointer} (hpq : p.Apart q) {bytes : List UInt8}
    (hl : bytes.length = p.size) : (h.store p.address bytes).bytesAt q = h.bytesAt q := by
  apply bytesAt_congr
  intro i hi
  have hn : ¬ p.Covers i := hpq.symm.not_covers hi
  simp only [store, getElem?_storeAt, hl]
  rw [if_neg (fun hc => hn ⟨hc.1, hc.2.1⟩)]

theorem bytesAt_reclaim_of_apart {h : Heap} {p q : Pointer} (hpq : p.Apart q) :
    (h.reclaim p).bytesAt q = h.bytesAt q :=
  bytesAt_store_of_apart (h := h) hpq (List.length_replicate ..)

/-! ## What is live -/

section Live
variable {h : Heap} (hw : h.WellFormed) {p : Pointer} {b : Block}
include hw

theorem WellFormed.block?_eq_some :
    h.block? p = some b ↔ ⟨p, b.owner⟩ ∈ h.registry ∧ b.bytes = h.bytesAt p := by
  unfold block?
  rw [Option.map_eq_some_iff]
  constructor
  · rintro ⟨a, ha, rfl⟩
    obtain rfl : a.pointer = p := by simpa using List.find?_some ha
    exact ⟨List.mem_of_find?_eq_some ha, rfl⟩
  · rintro ⟨ha, hb⟩
    cases hf : h.registry.find? fun a => a.pointer == p with
    | none => simpa using List.find?_eq_none.1 hf _ ha
    | some a =>
      have hap : a.pointer = p := by simpa using List.find?_some hf
      have := hw.eq_of_address (List.mem_of_find?_eq_some hf) ha (by rw [hap])
      subst this
      exact ⟨_, rfl, by rw [← hb]⟩

theorem WellFormed.block?_eq_none : h.block? p = none ↔ ∀ o, ⟨p, o⟩ ∉ h.registry := by
  rw [Option.eq_none_iff_forall_ne_some]
  constructor
  · exact fun hn o ho => hn ⟨o, h.bytesAt p⟩ (hw.block?_eq_some.2 ⟨ho, rfl⟩)
  · exact fun hn b hb => hn _ (hw.block?_eq_some.1 hb).1

theorem WellFormed.mem_of_block? (hb : h.block? p = some b) : ⟨p, b.owner⟩ ∈ h.registry :=
  (hw.block?_eq_some.1 hb).1

theorem WellFormed.length_bytes (hb : h.block? p = some b) : b.bytes.length = p.size := by
  obtain ⟨ha, hbytes⟩ := hw.block?_eq_some.1 hb
  rw [hbytes]
  exact length_bytesAt (hw.inside _ ha)

theorem WellFormed.at?_of_block? (hb : h.block? p = some b) :
    h.registry.at? p.address = some ⟨p, b.owner⟩ :=
  hw.at?_eq_some.2 ⟨hw.mem_of_block? hb, rfl⟩

theorem WellFormed.isLive_eq : h.isLive p = (h.block? p).isSome := by
  cases hb : h.block? p with
  | some b =>
    have hr : h.reserved[p.address]? = some true :=
      (hw.reserved _).2 ⟨_, hw.mem_of_block? hb, hw.covers_address (hw.mem_of_block? hb)⟩
    rw [isLive, hw.at?_of_block? hb]
    simp [Array.getD_eq_getD_getElem?, hr]
  | none =>
    unfold isLive
    split
    · rename_i a ha
      have hne : a.pointer ≠ p := fun he =>
        hw.block?_eq_none.1 hb a.ownership (he ▸ (hw.at?_eq_some.1 ha).1)
      simp [hne]
    · rfl

theorem WellFormed.validate_eq_ok (hb : h.block? p = some b) : h.validate p = .ok () := by
  unfold validate
  rw [hw.isLive_eq, hb]
  rfl

theorem WellFormed.validate_eq_error (hb : h.block? p = none) :
    h.validate p = .error (.invalidPointer p) := by
  unfold validate
  rw [hw.isLive_eq, hb]
  rfl

theorem WellFormed.ownership_eq_error (hb : h.block? p = none) :
    h.ownership p = .error (.invalidPointer p) := by
  unfold ownership
  rw [hw.validate_eq_error hb]
  rfl

theorem WellFormed.ownership_eq_ok (hb : h.block? p = some b) : h.ownership p = .ok b.owner := by
  unfold ownership
  rw [hw.validate_eq_ok hb, hw.at?_of_block? hb]
  rfl

theorem WellFormed.readValue_eq (hb : h.block? p = some b) (t : ValueType) :
    h.readValue p t =
      match Value.decode b.bytes t with
      | some v => .ok v
      | none => .error (.overrun p t.size) := by
  unfold readValue readBytes
  rw [hw.validate_eq_ok hb, (hw.block?_eq_some.1 hb).2]
  rfl

theorem WellFormed.bytesToWrite_eq (hb : h.block? p = some b) (v : Value) :
    h.bytesToWrite p v =
      match v.encode p.size with
      | some bytes => .ok bytes
      | none => .error (.overrun p v.type.size) := by
  unfold bytesToWrite
  rw [hw.validate_eq_ok hb]
  rfl

theorem WellFormed.bytesToCopy_eq {q : Pointer} {b' : Block} (hb : h.block? p = some b)
    (hb' : h.block? q = some b') (hs : p.size = q.size) : h.bytesToCopy p q = .ok b.bytes := by
  unfold bytesToCopy
  rw [hw.validate_eq_ok hb, hw.validate_eq_ok hb', (hw.block?_eq_some.1 hb).2]
  simp only [bind, Except.bind, hs, if_true]

end Live

/-! ## Operations -/

section Operations
variable {h : Heap} (hw : h.WellFormed) {p : Pointer} {b : Block}
include hw

theorem WellFormed.block?_of_freeRun (hs : 0 < p.size) (hf : h.FreeRun p.address p.size) :
    h.block? p = none := by
  rw [hw.block?_eq_none]
  intro o ho
  have := hw.apart_of_freeRun hs hf ho
  unfold Pointer.Apart Pointer.stop at this
  dsimp only at this
  omega

theorem WellFormed.block?_reserve (o : Ownership) (hs : 0 < p.size)
    (hf : h.FreeRun p.address p.size) (q : Pointer) :
    (h.reserve p o).block? q =
      if q = p then some ⟨o, List.replicate p.size 0⟩ else h.block? q := by
  have hw' := hw.reserve o hs hf
  have hne := hw.address_ne_of_freeRun hs hf
  have hzero : h.bytesAt p = List.replicate p.size 0 := by
    apply List.ext_getElem?
    intro i
    rw [getElem?_bytesAt, List.getElem?_replicate]
    split
    · exact (isFree_iff.1 (hf _ (Nat.le_add_right _ _) (by omega))).1
    · rfl
  apply Option.ext
  rintro ⟨owner, bytes⟩
  rw [hw'.block?_eq_some]
  show _ ∈ h.registry.insert ⟨p, o⟩ ∧ bytes = h.bytesAt q ↔ _
  rw [mem_insert (e := ⟨p, o⟩) hne]
  by_cases hq : q = p
  · subst hq
    rw [if_pos rfl, Option.some.injEq, Block.mk.injEq, hzero]
    constructor
    · rintro ⟨hc | hc, hb⟩
      · exact ⟨(congrArg Allocation.ownership hc).symm, hb.symm⟩
      · exact absurd rfl (hne _ hc)
    · rintro ⟨rfl, hb⟩
      exact ⟨.inl rfl, hb.symm⟩
  · rw [if_neg hq, hw.block?_eq_some]
    constructor
    · rintro ⟨hc | hc, hb⟩
      · exact absurd (congrArg Allocation.pointer hc) hq
      · exact ⟨hc, hb⟩
    · exact fun ⟨hc, hb⟩ => ⟨.inr hc, hb⟩

theorem WellFormed.block?_reassign (hb : h.block? p = some b) (o : Ownership) (q : Pointer) :
    (h.reassign p.address o).block? q = if q = p then some ⟨o, b.bytes⟩ else h.block? q := by
  have hp := hw.block?_eq_some.1 hb
  apply Option.ext
  rintro ⟨owner, bytes⟩
  rw [(hw.reassign p.address o).block?_eq_some]
  show _ ∈ h.registry.setOwnership p.address o ∧ bytes = h.bytesAt q ↔ _
  rw [mem_setOwnership]
  by_cases hq : q = p
  · subst hq
    rw [if_pos rfl, Option.some.injEq, Block.mk.injEq, hp.2]
    constructor
    · rintro ⟨⟨a, ha, he⟩, hc⟩
      have hap : a.pointer = q := by
        have := congrArg Allocation.pointer he
        split at this <;> exact this.symm
      rw [if_pos (congrArg Pointer.address hap)] at he
      exact ⟨(congrArg Allocation.ownership he).symm, hc.symm⟩
    · rintro ⟨rfl, hc⟩
      exact ⟨⟨_, hp.1, (if_pos rfl).symm⟩, hc.symm⟩
  · rw [if_neg hq, hw.block?_eq_some]
    -- an entry for another handle is not at the address of `p`
    have hother : ∀ {a : Allocation}, a ∈ h.registry → a.pointer = q →
        a.pointer.address ≠ p.address := fun ha haq hap =>
      hq (by rw [← haq, hw.eq_of_address ha hp.1 hap])
    constructor
    · rintro ⟨⟨a, ha, he⟩, hc⟩
      have haq : a.pointer = q := by
        have := congrArg Allocation.pointer he
        split at this <;> exact this.symm
      rw [if_neg (hother ha haq)] at he
      exact ⟨he ▸ ha, hc⟩
    · rintro ⟨ha, hc⟩
      exact ⟨⟨_, ha, (if_neg (hother ha rfl)).symm⟩, hc⟩

theorem WellFormed.block?_reclaim (hb : h.block? p = some b) (q : Pointer) :
    (h.reclaim p).block? q = if q = p then none else h.block? q := by
  have hp := hw.block?_eq_some.1 hb
  apply Option.ext
  rintro ⟨owner, bytes⟩
  rw [(hw.reclaim hp.1).block?_eq_some]
  show _ ∈ h.registry.erase p.address ∧ bytes = (h.reclaim p).bytesAt q ↔ _
  rw [mem_erase]
  by_cases hq : q = p
  · subst hq
    simp
  · rw [if_neg hq, hw.block?_eq_some]
    constructor
    · rintro ⟨⟨ha, -⟩, hc⟩
      have hapart := hw.apart_of_ne hp.1 ha fun he => hq (congrArg Allocation.pointer he).symm
      exact ⟨ha, by rw [hc, bytesAt_reclaim_of_apart hapart]⟩
    · rintro ⟨ha, hc⟩
      have hapart := hw.apart_of_ne hp.1 ha fun he => hq (congrArg Allocation.pointer he).symm
      refine ⟨⟨ha, fun haddr => hq ?_⟩, hc.trans (bytesAt_reclaim_of_apart hapart).symm⟩
      exact congrArg Allocation.pointer (hw.eq_of_address ha hp.1 haddr)

theorem WellFormed.block?_store (hb : h.block? p = some b) {bytes : List UInt8}
    (hl : bytes.length = p.size) (q : Pointer) :
    (h.store p.address bytes).block? q =
      if q = p then some ⟨b.owner, bytes⟩ else h.block? q := by
  have hp := hw.block?_eq_some.1 hb
  apply Option.ext
  rintro ⟨owner, content⟩
  rw [(hw.store hp.1 hl).block?_eq_some]
  show _ ∈ h.registry ∧ content = (h.store p.address bytes).bytesAt q ↔ _
  by_cases hq : q = p
  · subst hq
    rw [if_pos rfl, Option.some.injEq, Block.mk.injEq, bytesAt_store_self (hw.inside _ hp.1) hl]
    constructor
    · rintro ⟨ha, hc⟩
      exact ⟨congrArg Allocation.ownership (hw.eq_of_address hp.1 ha rfl), hc.symm⟩
    · rintro ⟨rfl, hc⟩
      exact ⟨hp.1, hc.symm⟩
  · rw [if_neg hq, hw.block?_eq_some]
    refine and_congr_right fun ha => ?_
    have hapart := hw.apart_of_ne hp.1 ha fun he => hq (congrArg Allocation.pointer he).symm
    rw [bytesAt_store_of_apart hapart hl]

end Operations

/-! ## Reclaiming many ranges -/

theorem WellFormed.reclaimAll {h : Heap} (hw : h.WellFormed) {ps : List Pointer} (hn : ps.Nodup)
    (hl : ∀ p ∈ ps, h.block? p ≠ none) :
    (h.reclaimAll ps).WellFormed ∧
      ∀ q, (h.reclaimAll ps).block? q = if q ∈ ps then none else h.block? q := by
  induction ps generalizing h with
  | nil => exact ⟨hw, fun q => by simp [Heap.reclaimAll]⟩
  | cons p ps ih =>
    obtain ⟨b, hb⟩ := Option.ne_none_iff_exists'.1 (hl p List.mem_cons_self)
    obtain ⟨hp, hn⟩ := List.nodup_cons.1 hn
    have heq := hw.block?_reclaim hb
    obtain ⟨hw', hq⟩ := ih (hw.reclaim (hw.mem_of_block? hb)) hn fun q hq => by
      rw [heq, if_neg (fun he : q = p => hp (he ▸ hq))]
      exact hl q (List.mem_cons_of_mem _ hq)
    refine ⟨hw', fun q => ?_⟩
    show ((h.reclaim p).reclaimAll ps).block? q = _
    rw [hq, heq]
    by_cases hqp : q = p
    · subst hqp; simp
    · simp [hqp]

section Where
variable {h : Heap} (hw : h.WellFormed) (doomed : Ownership → Bool)
include hw

theorem WellFormed.mem_handlesWhere {p : Pointer} :
    p ∈ h.handlesWhere doomed ↔ ∃ b, h.block? p = some b ∧ doomed b.owner = true := by
  simp only [handlesWhere, List.mem_map, List.mem_filter]
  constructor
  · rintro ⟨a, ⟨ha, hd⟩, rfl⟩
    exact ⟨⟨a.ownership, h.bytesAt a.pointer⟩, hw.block?_eq_some.2 ⟨ha, rfl⟩, hd⟩
  · rintro ⟨b, hb, hd⟩
    exact ⟨⟨p, b.owner⟩, ⟨hw.mem_of_block? hb, hd⟩, rfl⟩

theorem WellFormed.nodup_handlesWhere : (h.handlesWhere doomed).Nodup := by
  have hnd : (h.registry.map (·.pointer)).Nodup := by
    refine List.pairwise_map.2 (hw.rising.imp ?_)
    intro a b hlt he
    simp [he] at hlt
  exact hnd.sublist (List.filter_sublist.map _)

/-- Freeing what has a doomed ownership takes exactly these blocks off the heap. -/
theorem WellFormed.reclaimAll_handlesWhere :
    (h.reclaimAll (h.handlesWhere doomed)).WellFormed ∧
      ∀ q, (h.reclaimAll (h.handlesWhere doomed)).block? q =
        (h.block? q).filter fun b => !doomed b.owner := by
  obtain ⟨hw', hq⟩ := hw.reclaimAll (hw.nodup_handlesWhere doomed) fun p hp => by
    obtain ⟨b, hb, -⟩ := (hw.mem_handlesWhere doomed).1 hp
    rw [hb]
    exact Option.some_ne_none b
  refine ⟨hw', fun q => ?_⟩
  rw [hq]
  cases hb : h.block? q with
  | none => rw [ite_self]; rfl
  | some b =>
    by_cases hd : doomed b.owner = true
    · rw [if_pos ((hw.mem_handlesWhere doomed).2 ⟨b, hb, hd⟩),
        Option.filter_some_neg (by simp [hd])]
    · rw [if_neg, Option.filter_some_pos (by simp [hd])]
      · intro hm
        obtain ⟨c, hc, hcd⟩ := (hw.mem_handlesWhere doomed).1 hm
        rw [hb, Option.some.injEq] at hc
        exact hd (hc ▸ hcd)

end Where

/-! ## What determines a heap -/

section Determined
variable {h h' : Heap} (hw : h.WellFormed) (hw' : h'.WellFormed)
include hw hw'

/-- Registries are in order of address, so they are equal if they have the same entries. -/
theorem WellFormed.registry_eq (hmem : ∀ a, a ∈ h'.registry ↔ a ∈ h.registry) :
    h'.registry = h.registry := by
  have hperm := (List.perm_ext_iff_of_nodup hw'.nodup_registry hw.nodup_registry).2 hmem
  refine hperm.eq_of_pairwise (fun a b _ _ hab hba => ?_) hw'.rising hw.rising
  omega

theorem WellFormed.reserved_eq (hcap : h'.capacity = h.capacity)
    (hreg : h'.registry = h.registry) : h'.reserved = h.reserved := by
  apply Array.ext_getElem?
  intro i
  have hflag : h'.reserved[i]? = some true ↔ h.reserved[i]? = some true := by
    rw [hw'.reserved, hw.reserved, hreg]
  have hsize : h'.reserved.size = h.reserved.size := by rw [hw'.flags, hw.flags, hcap]
  by_cases hi : i < h.reserved.size
  · have hi' : i < h'.reserved.size := hsize ▸ hi
    rw [Array.getElem?_eq_getElem hi, Array.getElem?_eq_getElem hi'] at hflag ⊢
    rw [Option.some.injEq, Option.some.injEq] at hflag
    exact congrArg some (Bool.eq_iff_iff.2 hflag)
  · rw [Array.getElem?_eq_none (by omega), Array.getElem?_eq_none (by omega)]

theorem WellFormed.bytes_eq (hcap : h'.capacity = h.capacity)
    (hreg : h'.registry = h.registry)
    (hbytes : ∀ a ∈ h.registry, h'.bytesAt a.pointer = h.bytesAt a.pointer) :
    h'.bytes = h.bytes := by
  have hres := hw.reserved_eq hw' hcap hreg
  apply Array.ext_getElem?
  intro i
  by_cases hi : i < h.reserved.size
  · cases hflag : h.reserved[i] with
    | true =>
      have hset : h.reserved[i]? = some true := by rw [Array.getElem?_eq_getElem hi, hflag]
      obtain ⟨a, ha, hlo, hhi⟩ := (hw.reserved i).1 hset
      have hlt : i - a.pointer.address < a.pointer.size := by
        unfold Pointer.stop at hhi
        omega
      have hat := congrArg (·[i - a.pointer.address]?) (hbytes a ha)
      simpa [getElem?_bytesAt, hlt, Nat.add_sub_cancel' hlo] using hat
    | false =>
      have hclear : h.reserved[i]? = some false := by rw [Array.getElem?_eq_getElem hi, hflag]
      rw [hw.zero i hclear, hw'.zero i (hres ▸ hclear)]
  · have hsize : h.bytes.size ≤ i := by
      have := hw.flags
      unfold capacity at this
      omega
    rw [Array.getElem?_eq_none hsize, Array.getElem?_eq_none]
    exact Nat.le_trans (Nat.le_of_eq hcap) hsize

/-- A well-formed heap is determined by its capacity, its next generation and its blocks. -/
theorem WellFormed.eq_of_blocks (hcap : h'.capacity = h.capacity)
    (hgen : h'.nextGeneration = h.nextGeneration) (hblocks : ∀ p, h'.block? p = h.block? p) :
    h' = h := by
  have hmem : ∀ {g : Heap}, g.WellFormed → ∀ a : Allocation,
      a ∈ g.registry ↔ g.block? a.pointer = some ⟨a.ownership, g.bytesAt a.pointer⟩ :=
    fun hg a => by simp [hg.block?_eq_some]
  have hreg : h'.registry = h.registry := by
    refine hw.registry_eq hw' fun a => ?_
    constructor
    · intro ha
      exact (hw.block?_eq_some.1 ((hblocks _).symm.trans ((hmem hw' a).1 ha))).1
    · intro ha
      exact (hw'.block?_eq_some.1 ((hblocks _).trans ((hmem hw a).1 ha))).1
  have hbytes : ∀ a ∈ h.registry, h'.bytesAt a.pointer = h.bytesAt a.pointer := by
    intro a ha
    have hb := (hblocks a.pointer).trans ((hmem hw a).1 ha)
    exact (hw'.block?_eq_some.1 hb).2.symm
  cases h
  cases h'
  simp only [Heap.mk.injEq]
  exact ⟨hw.bytes_eq hw' hcap hreg hbytes, hw.reserved_eq hw' hcap hreg, hreg, hgen⟩

end Determined

end Heap

end HeapWalk
