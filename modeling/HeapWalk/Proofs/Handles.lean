import HeapWalk.Proofs.HeapRequests

/-!
# Handles from their allocation on

A handle is live from the request that it answers to the request that reclaims it. The registry is
kept by address, and the same range may be handed out again any number of times in between; the
generation tells the new handle from the old one. Generations are counted modulo `2 ^ 32`, so this
lasts while fewer than `2 ^ 32` further allocations are granted: the counter then has not come back
to the generation of the handle (`Heap.Ahead`).

`Heap.Accepts` and `Heap.Rejects` say what a live and a dead handle are good for.
-/

set_option autoImplicit false

namespace HeapWalk.Heap

/-! ## What is done with a handle -/

/-- No operation refuses the handle. -/
structure Accepts (h : Heap) (p : Pointer) : Prop where
  validate : h.validate p = .ok ()
  free : ∃ h', h.free p = .ok h'
  ownership : ∃ o, h.ownership p = .ok o
  setOwnership : ∀ o, ∃ h', h.setOwnership p o = .ok h'
  readBytes : ∃ bytes, h.readBytes p = .ok bytes
  readValue : ∀ t q, h.readValue p t ≠ .error (.invalidPointer q)
  writeValue : ∀ v q, h.writeValue p v ≠ .error (.invalidPointer q)
  copyFrom : ∀ target, h.copy p target ≠ .error (.invalidPointer p)
  copyTo : ∀ source, h.copy source p ≠ .error (.invalidPointer p)

/-- Every operation refuses the handle; a copy looks at its source first. -/
structure Rejects (h : Heap) (p : Pointer) : Prop where
  validate : h.validate p = .error (.invalidPointer p)
  free : h.free p = .error (.invalidPointer p)
  ownership : h.ownership p = .error (.invalidPointer p)
  setOwnership : ∀ o, h.setOwnership p o = .error (.invalidPointer p)
  readBytes : h.readBytes p = .error (.invalidPointer p)
  readValue : ∀ t, h.readValue p t = .error (.invalidPointer p)
  writeValue : ∀ v, h.writeValue p v = .error (.invalidPointer p)
  copyFrom : ∀ target, h.copy p target = .error (.invalidPointer p)
  copyTo : ∀ source, h.validate source = .ok () → h.copy source p = .error (.invalidPointer p)

section Uses

variable {h : Heap} {p : Pointer}

theorem validate_of_isLive (hl : h.isLive p = true) : h.validate p = .ok () := if_pos hl

theorem validate_of_not_isLive (hl : ¬ h.isLive p = true) :
    h.validate p = .error (.invalidPointer p) := if_neg hl

theorem isLive_of_validate (hv : h.validate p = .ok ()) : h.isLive p = true := by
  by_contra hl
  rw [validate_of_not_isLive hl] at hv
  cases hv

theorem ownership_of_isLive (hl : h.isLive p = true) : ∃ o, h.ownership p = .ok o := by
  unfold ownership
  rw [validate_of_isLive hl]
  unfold isLive at hl
  split at hl
  · rename_i a ha
    exact ⟨a.ownership, rfl⟩
  · cases hl

/-- A copy that is refused for a handle is refused for one that is not live. -/
theorem not_isLive_of_copy {source target q : Pointer}
    (hc : h.copy source target = .error (.invalidPointer q)) : ¬ h.isLive q = true := by
  intro hq
  unfold copy bytesToCopy at hc
  by_cases hs : h.isLive source = true
  · rw [validate_of_isLive hs] at hc
    by_cases ht : h.isLive target = true
    · rw [validate_of_isLive ht] at hc
      simp only [bind, Except.bind] at hc
      split at hc
      · rename_i hif
        split at hif <;> cases hif
        cases hc
      · cases hc
    · rw [validate_of_not_isLive ht] at hc
      cases hc
      exact ht hq
  · rw [validate_of_not_isLive hs] at hc
    cases hc
    exact hs hq

theorem accepts_of_isLive (hl : h.isLive p = true) : h.Accepts p := by
  have hv := validate_of_isLive hl
  refine ⟨hv, ?_, ownership_of_isLive hl, fun o => ?_, ?_, fun t q => ?_, fun v q => ?_,
    fun target hc => not_isLive_of_copy hc hl, fun source hc => not_isLive_of_copy hc hl⟩
  · exact ⟨h.reclaim p, by rw [Heap.free, hv]; rfl⟩
  · exact ⟨h.reassign p.address o, by rw [Heap.setOwnership, hv]; rfl⟩
  · exact ⟨h.bytesAt p, by rw [Heap.readBytes, hv]; rfl⟩
  · rw [Heap.readValue, Heap.readBytes, hv]
    cases hd : Value.decode (h.bytesAt p) t <;> simp [bind, Except.bind, hd]
  · rw [Heap.writeValue, bytesToWrite, hv]
    cases he : v.encode p.size <;> simp [bind, Except.bind]

theorem rejects_of_not_isLive (hl : ¬ h.isLive p = true) : h.Rejects p := by
  have hv := validate_of_not_isLive hl
  refine ⟨hv, ?_, ?_, fun o => ?_, ?_, fun t => ?_, fun v => ?_, fun target => ?_,
    fun source hs => ?_⟩
  · rw [Heap.free, hv]; rfl
  · rw [Heap.ownership, hv]; rfl
  · rw [Heap.setOwnership, hv]; rfl
  · rw [Heap.readBytes, hv]; rfl
  · rw [Heap.readValue, Heap.readBytes, hv]; rfl
  · rw [Heap.writeValue, bytesToWrite, hv]; rfl
  · rw [Heap.copy, bytesToCopy, hv]; rfl
  · rw [Heap.copy, bytesToCopy, hs, hv]; rfl

theorem accepts_iff : h.Accepts p ↔ h.isLive p = true :=
  ⟨fun ha => isLive_of_validate ha.validate, accepts_of_isLive⟩

theorem rejects_iff : h.Rejects p ↔ ¬ h.isLive p = true := by
  refine ⟨fun hr hl => ?_, rejects_of_not_isLive⟩
  have hv := hr.validate
  rw [validate_of_isLive hl] at hv
  cases hv

end Uses

/-! ## Requests that grant and reclaim -/

/-- The ownerships that a request reclaims. -/
def Request.dooms : Request → Ownership → Bool
  | sweepTemporaries => Ownership.isTemporary
  | sweepTemporariesFrom floor => Ownership.isTemporaryFrom floor
  | freeOwnedBy scope => fun o => o.scope == scope
  | _ => fun _ => false

/-- The request reclaims `p`: it frees it, or sweeps an ownership that `p` is registered with. -/
def Reclaims (h : Heap) (r : Request) (p : Pointer) : Prop :=
  (r = .free p ∧ (h.free p).isOk = true) ∨
    ∃ a ∈ h.allocations, a.pointer = p ∧ r.dooms a.ownership = true

instance (h : Heap) (r : Request) (p : Pointer) : Decidable (h.Reclaims r p) :=
  inferInstanceAs (Decidable (_ ∨ _))

/-- One of the requests, made one after the other, reclaims `p`. -/
def Reclaimed (p : Pointer) : Heap → List Request → Prop
  | _, [] => False
  | h, r :: rest => h.Reclaims r p ∨ Reclaimed p (h.after r) rest

instance decidableReclaimed (p : Pointer) : (h : Heap) → (requests : List Request) →
    Decidable (Reclaimed p h requests)
  | _, [] => inferInstanceAs (Decidable False)
  | h, r :: rest =>
    have := decidableReclaimed p (h.after r) rest
    inferInstanceAs (Decidable (_ ∨ _))

/-- The request is granted an allocation. -/
def grants (h : Heap) : Request → Bool
  | .allocate size owner => (h.allocate size owner).isOk
  | _ => false

/-- The number of allocations that the requests, made one after the other, are granted. -/
def granted : Heap → List Request → Nat
  | _, [] => 0
  | h, r :: rest => (if h.grants r then 1 else 0) + granted (h.after r) rest

/-! ## One request -/

/-- Between the allocation of `p` and now, `n` allocations have been granted. -/
def Ahead (h : Heap) (p : Pointer) (n : Nat) : Prop :=
  h.nextGeneration = p.generation + 1 + UInt32.ofNat n

theorem Ahead.ne_generation {h : Heap} {p : Pointer} {n : Nat} (ha : h.Ahead p n)
    (hn : n + 1 < 2 ^ 32) : h.nextGeneration ≠ p.generation := by
  intro he
  have hnat := congrArg UInt32.toNat (ha.symm.trans he)
  simp only [UInt32.toNat_add, UInt32.toNat_ofNat', UInt32.toNat_one] at hnat
  have := p.generation.toNat_lt
  omega

/-- What an allocation that is granted leaves. -/
theorem allocate_cases (h : Heap) (size : Nat) (o : Ownership) :
    (∃ address, 0 < size ∧ h.FreeRun address size ∧
      h.allocate size o = .ok (⟨address, size, h.nextGeneration⟩,
        h.reserve ⟨address, size, h.nextGeneration⟩ o)) ∨
    ∃ e, h.allocate size o = .error e := by
  unfold allocate
  rcases h.findPlace_cases size with ⟨address, hfind, hsize, hfree⟩ | hfull
  · exact .inl ⟨address, hsize, hfree, by rw [hfind]; rfl⟩
  · exact .inr ⟨_, by rw [hfull]; rfl⟩

theorem after_of_ok {h h' : Heap} {r : Request} (hr : h.perform r = .ok h') : h.after r = h' := by
  rw [after, hr]
  rfl

theorem after_of_error {h : Heap} {r : Request} {e : HeapError} (hr : h.perform r = .error e) :
    h.after r = h := by
  rw [after, hr]
  rfl

theorem reclaims_iff {h : Heap} {r : Request} {p : Pointer} (hr : ∀ q, r ≠ .free q) :
    h.Reclaims r p ↔ ∃ a ∈ h.allocations, a.pointer = p ∧ r.dooms a.ownership = true :=
  or_iff_right fun hf => hr p hf.1

theorem reclaims_free {h : Heap} {p q : Pointer} :
    h.Reclaims (.free q) p ↔ q = p ∧ (h.free p).isOk = true := by
  refine (or_iff_left ?_).trans (and_congr_left fun _ => Request.free.injEq q p ▸ Iff.rfl)
  rintro ⟨a, -, -, hd⟩
  cases hd

/-- What is no reclamation reclaims nothing. -/
theorem not_reclaims {h : Heap} {r : Request} {p : Pointer} (hr : ∀ q, r ≠ .free q)
    (hd : ∀ o, r.dooms o = false) : ¬ h.Reclaims r p := by
  rw [reclaims_iff hr]
  rintro ⟨a, -, -, ha⟩
  rw [hd] at ha
  cases ha

section Request

variable {h h' : Heap} (hw : h.WellFormed) {p q : Pointer}
include hw

theorem WellFormed.isLive_iff : h.isLive p = true ↔ ∃ b, h.block? p = some b := by
  rw [hw.isLive_eq, Option.isSome_iff_exists]

/-- Changing what is kept for a live handle leaves the same handles live. -/
theorem WellFormed.isLive_of_puts (hw' : h'.WellFormed) {b b' : Block} (hb : h.block? q = some b)
    (hblocks : ∀ x, h'.block? x = if x = q then some b' else h.block? x) :
    h'.isLive p = h.isLive p := by
  rw [hw'.isLive_eq, hw.isLive_eq, hblocks]
  split
  · rename_i hpq
    rw [hpq, hb]
    rfl
  · rfl

theorem WellFormed.isLive_setOwnership {o : Ownership} (hr : h.setOwnership q o = .ok h') :
    h'.isLive p = h.isLive p := by
  obtain ⟨_, hv, hreassign⟩ := bind_eq_ok.1 hr
  obtain ⟨b, hb⟩ := hw.block?_of_validate hv
  obtain rfl := Except.ok.inj hreassign
  exact hw.isLive_of_puts (hw.setOwnership hr) hb (hw.block?_reassign hb o)

theorem WellFormed.isLive_writeValue {v : Value} (hr : h.writeValue q v = .ok h') :
    h'.isLive p = h.isLive p := by
  obtain ⟨b, bytes, hb, henc, rfl⟩ := hw.writeValue_eq_ok.1 hr
  exact hw.isLive_of_puts (hw.writeValue hr) hb (hw.block?_store hb (Value.decode_of_encode henc).1)

theorem WellFormed.isLive_copy {source : Pointer} (hr : h.copy source q = .ok h') :
    h'.isLive p = h.isLive p := by
  obtain ⟨c, b, hc, hb, hsize, rfl⟩ := hw.copy_eq_ok.1 hr
  have hlen := (hw.length_bytes hc).trans hsize
  exact hw.isLive_of_puts (hw.copy hr) hb (hw.block?_store hb hlen)

theorem WellFormed.isLive_free (hr : h.free q = .ok h') :
    h'.isLive p = true ↔ h.isLive p = true ∧ p ≠ q := by
  obtain ⟨_, hv, hreclaim⟩ := bind_eq_ok.1 hr
  obtain ⟨b, hb⟩ := hw.block?_of_validate hv
  have hw' := hw.free hr
  obtain rfl := Except.ok.inj hreclaim
  rw [hw'.isLive_eq, hw.isLive_eq, hw.block?_reclaim hb]
  split
  · rename_i hpq
    simp [hpq]
  · rename_i hpq
    simp [hpq]

theorem WellFormed.isLive_freeWhere (doomed : Ownership → Bool) :
    (h.freeWhere doomed).2.isLive p = true ↔
      h.isLive p = true ∧ ¬ ∃ a ∈ h.allocations, a.pointer = p ∧ doomed a.ownership = true := by
  obtain ⟨hw', hblocks⟩ := hw.reclaimAll_handlesWhere doomed
  have hmem : (∃ a ∈ h.allocations, a.pointer = p ∧ doomed a.ownership = true) ↔
      ∃ b, h.block? p = some b ∧ doomed b.owner = true := by
    rw [← hw.mem_handlesWhere doomed]
    simp only [handlesWhere, List.mem_map, List.mem_filter, and_assoc]
    exact exists_congr fun a => and_congr_right fun _ => and_comm
  show (h.reclaimAll (h.handlesWhere doomed)).isLive p = true ↔ _
  rw [hw'.isLive_iff, hw.isLive_iff, hmem, hblocks]
  simp only [Option.filter_eq_some_iff]
  constructor
  · rintro ⟨b, hb, hd⟩
    refine ⟨⟨b, hb⟩, ?_⟩
    rintro ⟨c, hc, hcd⟩
    obtain rfl := Option.some.inj (hb.symm.trans hc)
    simp [hcd] at hd
  · rintro ⟨⟨b, hb⟩, hn⟩
    exact ⟨b, hb, by simpa using fun hd => hn ⟨b, hb, hd⟩⟩

/-- The handle of an allocation that is granted now is the only one that becomes live. -/
theorem WellFormed.isLive_allocate {x : Pointer × Heap} {size : Nat} {o : Ownership}
    (hr : h.allocate size o = .ok x) (hp : h.nextGeneration ≠ p.generation) :
    x.2.isLive p = h.isLive p := by
  rcases h.allocate_cases size o with ⟨address, hsize, hfree, heq⟩ | ⟨e, heq⟩
  · obtain rfl := Except.ok.inj (heq.symm.trans hr)
    have hne : p ≠ ⟨address, size, h.nextGeneration⟩ := by
      rintro rfl
      exact hp rfl
    show (h.reserve ⟨address, size, h.nextGeneration⟩ o).isLive p = _
    rw [(hw.reserve o hsize hfree).isLive_eq, hw.isLive_eq, hw.block?_reserve o hsize hfree,
      if_neg hne]
  · rw [heq] at hr
    cases hr

/-- A request that succeeds leaves live what was live, but what it reclaims; a dead handle stays
dead, unless one of its generation is granted. -/
theorem WellFormed.isLive_of_perform {r : Request} (hr : h.perform r = .ok h')
    (hp : h.grants r = true → h.nextGeneration ≠ p.generation) :
    h'.isLive p = true ↔ h.isLive p = true ∧ ¬ h.Reclaims r p := by
  cases r with
  | allocate size o =>
    obtain ⟨x, ha, hx⟩ := bind_eq_ok.1 hr
    obtain rfl := Except.ok.inj hx
    rw [hw.isLive_allocate ha (hp (by rw [grants, ha]; rfl))]
    exact (and_iff_left (not_reclaims (by simp) fun _ => rfl)).symm
  | free q =>
    rw [hw.isLive_free hr, reclaims_free]
    refine and_congr_right fun _ => not_congr ⟨?_, fun hq => hq.1.symm⟩
    rintro rfl
    exact ⟨rfl, by rw [show h.free p = .ok h' from hr]; rfl⟩
  | sweepTemporaries =>
    obtain rfl := Except.ok.inj hr
    rw [reclaims_iff (by simp)]
    exact hw.isLive_freeWhere _
  | sweepTemporariesFrom floor =>
    obtain rfl := Except.ok.inj hr
    rw [reclaims_iff (by simp)]
    exact hw.isLive_freeWhere _
  | freeOwnedBy scope =>
    obtain rfl := Except.ok.inj hr
    rw [reclaims_iff (by simp)]
    exact hw.isLive_freeWhere _
  | setOwnership q o | adopt q scope | release q scope =>
    rw [hw.isLive_setOwnership hr]
    exact (and_iff_left (not_reclaims (by simp) fun _ => rfl)).symm
  | writeValue q v =>
    rw [hw.isLive_writeValue hr]
    exact (and_iff_left (not_reclaims (by simp) fun _ => rfl)).symm
  | copy source target =>
    rw [hw.isLive_copy hr]
    exact (and_iff_left (not_reclaims (by simp) fun _ => rfl)).symm

omit hw in
theorem not_reclaims_of_error {r : Request} {e : HeapError} (hr : h.perform r = .error e) :
    ¬ h.Reclaims r p := by
  cases r with
  | free q =>
    rw [reclaims_free]
    rintro ⟨rfl, hok⟩
    rw [show h.free q = .error e from hr] at hok
    cases hok
  | sweepTemporaries | sweepTemporariesFrom floor | freeOwnedBy scope => cases hr
  | _ => exact not_reclaims (by simp) fun _ => rfl

theorem WellFormed.isLive_after {r : Request}
    (hp : h.grants r = true → h.nextGeneration ≠ p.generation) :
    (h.after r).isLive p = true ↔ h.isLive p = true ∧ ¬ h.Reclaims r p := by
  cases hr : h.perform r with
  | error e =>
    rw [after_of_error hr]
    exact (and_iff_left (not_reclaims_of_error hr)).symm
  | ok h' =>
    rw [after_of_ok hr]
    exact hw.isLive_of_perform hr hp

end Request

theorem nextGeneration_reclaimAll (h : Heap) (ps : List Pointer) :
    (h.reclaimAll ps).nextGeneration = h.nextGeneration := by
  induction ps generalizing h with
  | nil => rfl
  | cons p ps ih => exact ih (h.reclaim p)

/-- Only an allocation that is granted moves the counter. -/
theorem nextGeneration_of_perform {h h' : Heap} {r : Request} (hr : h.perform r = .ok h') :
    h'.nextGeneration = if h.grants r = true then h.nextGeneration + 1 else h.nextGeneration := by
  cases r with
  | allocate size o =>
    obtain ⟨x, ha, hx⟩ := bind_eq_ok.1 hr
    obtain rfl := Except.ok.inj hx
    obtain ⟨address, -, hreserve⟩ := bind_eq_ok.1 ha
    obtain rfl := Except.ok.inj hreserve
    rw [if_pos (by rw [grants, ha]; rfl)]
    rfl
  | free q =>
    obtain ⟨_, -, hreclaim⟩ := bind_eq_ok.1 hr
    obtain rfl := Except.ok.inj hreclaim
    rfl
  | sweepTemporaries | sweepTemporariesFrom floor | freeOwnedBy scope =>
    obtain rfl := Except.ok.inj hr
    exact nextGeneration_reclaimAll _ _
  | setOwnership q o | adopt q scope | release q scope =>
    obtain ⟨_, -, hreassign⟩ := bind_eq_ok.1 hr
    obtain rfl := Except.ok.inj hreassign
    rfl
  | writeValue q v =>
    obtain ⟨_, -, hstore⟩ := bind_eq_ok.1 hr
    obtain rfl := Except.ok.inj hstore
    rfl
  | copy source target =>
    obtain ⟨_, -, hstore⟩ := bind_eq_ok.1 hr
    obtain rfl := Except.ok.inj hstore
    rfl

theorem perform_of_grants {h : Heap} {r : Request} (hg : h.grants r = true) :
    ∃ h', h.perform r = .ok h' := by
  cases r with
  | allocate size o =>
    cases ha : h.allocate size o with
    | error e =>
      rw [grants, ha] at hg
      cases hg
    | ok x => exact ⟨x.2, by rw [perform, ha]; rfl⟩
  | _ => cases hg

theorem nextGeneration_after (h : Heap) (r : Request) :
    (h.after r).nextGeneration =
      if h.grants r = true then h.nextGeneration + 1 else h.nextGeneration := by
  cases hr : h.perform r with
  | ok h' =>
    rw [after_of_ok hr]
    exact nextGeneration_of_perform hr
  | error e =>
    rw [after_of_error hr, if_neg]
    intro hg
    obtain ⟨h', hok⟩ := perform_of_grants hg
    rw [hr] at hok
    cases hok

theorem Ahead.after {h : Heap} {p : Pointer} {n : Nat} (ha : h.Ahead p n) (r : Request) :
    (h.after r).Ahead p (n + if h.grants r then 1 else 0) := by
  unfold Ahead at *
  rw [nextGeneration_after, ha]
  split
  · rw [UInt32.ofNat_add, UInt32.add_assoc _ (UInt32.ofNat n)]
    rfl
  · rw [Nat.add_zero]

/-! ## Any number of requests -/

/-- A handle that is live stays live up to the request that reclaims it, and dead from then on. -/
theorem WellFormed.isLive_afterAll {h : Heap} (hw : h.WellFormed) {p : Pointer} {n : Nat}
    (ha : h.Ahead p n) (requests : List Request) (hn : n + h.granted requests < 2 ^ 32) :
    (h.afterAll requests).isLive p = true ↔ h.isLive p = true ∧ ¬ Reclaimed p h requests := by
  induction requests generalizing h n with
  | nil => exact (and_iff_left fun hf => hf).symm
  | cons r rest ih =>
    rw [granted, ← Nat.add_assoc] at hn
    have hgen : h.grants r = true → h.nextGeneration ≠ p.generation := by
      intro hg
      rw [if_pos hg] at hn
      exact ha.ne_generation (by omega)
    show ((h.after r).afterAll rest).isLive p = true ↔ _
    rw [ih (hw.after r) (ha.after r) hn, hw.isLive_after hgen, Reclaimed, not_or, and_assoc]

/-- A handle is as good as new until it is reclaimed, and good for nothing afterwards, also if its
address and size are handed out again; that holds while fewer than `2 ^ 32` further allocations are
granted. -/
theorem handle_accepted_until_reclaimed (capacity : Nat) (earlier : List Request) {size : Nat}
    {owner : Ownership} {p : Pointer} {h : Heap}
    (halloc : ((ofCapacity capacity).afterAll earlier).allocate size owner = .ok (p, h))
    (later : List Request) (hfew : h.granted later < 2 ^ 32) :
    ((h.afterAll later).Accepts p ↔ ¬ Reclaimed p h later) ∧
      ((h.afterAll later).Rejects p ↔ Reclaimed p h later) := by
  have hw₀ := (wellFormed_ofCapacity capacity).afterAll earlier
  have hw := hw₀.allocate halloc
  have hborn : h.isLive p = true ∧ h.Ahead p 0 := by
    rcases allocate_cases _ size owner with ⟨address, hsize, hfree, heq⟩ | ⟨e, heq⟩
    · obtain ⟨rfl, rfl⟩ := Prod.mk.inj (Except.ok.inj (heq.symm.trans halloc))
      refine ⟨?_, ?_⟩
      · rw [hw.isLive_eq, hw₀.block?_reserve owner hsize hfree, if_pos rfl]
        rfl
      · exact (UInt32.add_zero _).symm
    · rw [heq] at halloc
      cases halloc
  have hlive := hw.isLive_afterAll hborn.2 later (by omega)
  rw [accepts_iff, rejects_iff, hlive]
  exact ⟨and_iff_right hborn.1, by rw [and_iff_right hborn.1, not_not]⟩

/-- The only range of a heap goes with the scope that adopted it, and is handed out again: the old
handle is refused, the new one is live. Another history, with a foreign handle and a sweep, leaves
the old handle in force. -/
theorem handle_rejected_after_reuse :
    ((ofCapacity 8).afterAll []).allocate 8 (.temporary 0) =
        .ok (⟨0, 8, 1⟩, (ofCapacity 8).reserve ⟨0, 8, 1⟩ (.temporary 0)) ∧
      (((ofCapacity 8).reserve ⟨0, 8, 1⟩ (.temporary 0)).afterAll
        [.adopt ⟨0, 8, 1⟩ 3, .freeOwnedBy 3, .allocate 8 (.owned 0)]).allocations =
          [⟨⟨0, 8, 2⟩, .owned 0⟩] ∧
      (((ofCapacity 8).reserve ⟨0, 8, 1⟩ (.temporary 0)).afterAll
        [.adopt ⟨0, 8, 1⟩ 3, .freeOwnedBy 3, .allocate 8 (.owned 0)]).Rejects ⟨0, 8, 1⟩ ∧
      (((ofCapacity 8).reserve ⟨0, 8, 1⟩ (.temporary 0)).afterAll
        [.adopt ⟨0, 8, 1⟩ 3, .free ⟨0, 8, 2⟩, .sweepTemporaries]).Accepts ⟨0, 8, 1⟩ := by
  have halloc : ((ofCapacity 8).afterAll []).allocate 8 (.temporary 0) =
      .ok (⟨0, 8, 1⟩, (ofCapacity 8).reserve ⟨0, 8, 1⟩ (.temporary 0)) := rfl
  refine ⟨halloc, by decide, ?_, ?_⟩
  · exact (handle_accepted_until_reclaimed 8 [] halloc _ (by decide)).2.2 (by decide)
  · exact (handle_accepted_until_reclaimed 8 [] halloc _ (by decide)).1.2 (by decide)

end HeapWalk.Heap
