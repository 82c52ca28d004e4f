import HeapWalk.Proofs.HeapRequests

/-!
# What a read gives

What is read through a handle depends on the bytes that the heap keeps for it and on nothing else
(`WellFormed.sameReads`). A write and a copy put bytes into one range, and ranges do not overlap;
so a read sees the last write to its own handle, whatever was written through others.

Writing a value takes exactly the ranges that are large enough for its type, and copying exactly
those of one size.
-/

set_option autoImplicit false

namespace HeapWalk.Heap

/-- A read through `q` gives the same in `h'` as in `h`, under either type. -/
structure SameReads (h h' : Heap) (q : Pointer) : Prop where
  bytes : h'.readBytes q = h.readBytes q
  value : ∀ t, h'.readValue q t = h.readValue q t

/-- What `q` holds in `h'` is what `p` holds in `h`: either type reads the same from both, or both
are too small for it. -/
structure ReadsAs (h : Heap) (p : Pointer) (h' : Heap) (q : Pointer) : Prop where
  bytes : h'.readBytes q = h.readBytes p
  value : ∀ t v, h'.readValue q t = .ok v ↔ h.readValue p t = .ok v
  overrun : ∀ t, h'.readValue q t = .error (.overrun q t.size) ↔
    h.readValue p t = .error (.overrun p t.size)

/-! ## Reads -/

section Reads

variable {h h' : Heap} (hw : h.WellFormed) (hw' : h'.WellFormed) {p q : Pointer} {b c : Block}
include hw

theorem WellFormed.readBytes_eq_ok (hb : h.block? p = some b) : h.readBytes p = .ok b.bytes := by
  unfold readBytes
  rw [hw.validate_eq_ok hb, (hw.block?_eq_some.1 hb).2]
  rfl

theorem WellFormed.readBytes_eq_error (hb : h.block? p = none) :
    h.readBytes p = .error (.invalidPointer p) := by
  unfold readBytes
  rw [hw.validate_eq_error hb]
  rfl

include hw'

/-- What is kept for a handle decides what is read through it. -/
theorem WellFormed.sameReads (hblock : h'.block? q = h.block? q) : h.SameReads h' q := by
  have hbytes : h'.readBytes q = h.readBytes q := by
    cases hb : h.block? q with
    | some b => rw [hw.readBytes_eq_ok hb, hw'.readBytes_eq_ok (hblock.trans hb)]
    | none => rw [hw.readBytes_eq_error hb, hw'.readBytes_eq_error (hblock.trans hb)]
  refine ⟨hbytes, fun t => ?_⟩
  unfold readValue
  rw [hbytes]

/-- Handles that hold the same bytes read the same. -/
theorem WellFormed.readsAs (hb : h.block? p = some b) (hc : h'.block? q = some c)
    (hbytes : c.bytes = b.bytes) : h.ReadsAs p h' q := by
  refine ⟨?_, fun t v => ?_, fun t => ?_⟩
  · rw [hw.readBytes_eq_ok hb, hw'.readBytes_eq_ok hc, hbytes]
  · rw [hw.readValue_eq hb, hw'.readValue_eq hc, hbytes]
    cases Value.decode b.bytes t <;> simp
  · rw [hw.readValue_eq hb, hw'.readValue_eq hc, hbytes]
    cases Value.decode b.bytes t <;> simp

end Reads

/-! ## Writes and copies -/

section Writes

variable {h h' : Heap} (hw : h.WellFormed) {p q : Pointer}
include hw

theorem WellFormed.writeValue_isOk {v : Value} (hp : h.isLive p = true) :
    (∃ h', h.writeValue p v = .ok h') ↔ v.type.size ≤ p.size := by
  obtain ⟨b, hb⟩ := Option.isSome_iff_exists.1 (hw.isLive_eq ▸ hp)
  constructor
  · rintro ⟨h', hr⟩
    obtain ⟨_, bytes, -, henc, -⟩ := hw.writeValue_eq_ok.1 hr
    exact Value.size_le_of_encode henc
  · intro hsize
    obtain ⟨bytes, henc⟩ := v.encode_isSome hsize
    exact ⟨_, hw.writeValue_eq_ok.2 ⟨b, bytes, hb, henc, rfl⟩⟩

theorem WellFormed.readValue_writeValue {v : Value} (hr : h.writeValue p v = .ok h') :
    h'.readValue p v.type = .ok v := by
  obtain ⟨b, bytes, hb, henc, rfl⟩ := hw.writeValue_eq_ok.1 hr
  obtain ⟨hlen, hdecode⟩ := Value.decode_of_encode henc
  have hb' : (h.store p.address bytes).block? p = some ⟨b.owner, bytes⟩ := by
    rw [hw.block?_store hb hlen, if_pos rfl]
  rw [(hw.writeValue hr).readValue_eq hb', hdecode]

theorem WellFormed.sameReads_writeValue {v : Value} (hr : h.writeValue p v = .ok h')
    (hq : q ≠ p) : h.SameReads h' q := by
  obtain ⟨b, bytes, hb, henc, rfl⟩ := hw.writeValue_eq_ok.1 hr
  refine hw.sameReads (hw.writeValue hr) ?_
  rw [hw.block?_store hb (Value.decode_of_encode henc).1, if_neg hq]

theorem WellFormed.copy_isOk (hp : h.isLive p = true) (hq : h.isLive q = true) :
    (∃ h', h.copy p q = .ok h') ↔ p.size = q.size := by
  obtain ⟨b, hb⟩ := Option.isSome_iff_exists.1 (hw.isLive_eq ▸ hp)
  obtain ⟨c, hc⟩ := Option.isSome_iff_exists.1 (hw.isLive_eq ▸ hq)
  constructor
  · rintro ⟨h', hr⟩
    obtain ⟨_, _, -, -, hsize, -⟩ := hw.copy_eq_ok.1 hr
    exact hsize
  · intro hsize
    exact ⟨_, hw.copy_eq_ok.2 ⟨b, c, hb, hc, hsize, rfl⟩⟩

theorem WellFormed.readsAs_copy (hr : h.copy p q = .ok h') : h.ReadsAs p h' q := by
  obtain ⟨b, c, hb, hc, hsize, rfl⟩ := hw.copy_eq_ok.1 hr
  have hlen : b.bytes.length = q.size := (hw.length_bytes hb).trans hsize
  have hq : (h.store q.address b.bytes).block? q = some ⟨c.owner, b.bytes⟩ := by
    rw [hw.block?_store hc hlen, if_pos rfl]
  exact hw.readsAs (hw.copy hr) hb hq rfl

theorem WellFormed.sameReads_copy {x : Pointer} (hr : h.copy p q = .ok h') (hx : x ≠ q) :
    h.SameReads h' x := by
  obtain ⟨b, c, hb, hc, hsize, rfl⟩ := hw.copy_eq_ok.1 hr
  refine hw.sameReads (hw.copy hr) ?_
  rw [hw.block?_store hc ((hw.length_bytes hb).trans hsize), if_neg hx]

end Writes

/-! ## Main result -/

/-- Whatever was asked of a heap before, a read through a live handle sees the last write to it,
bit for bit, and no other write. -/
theorem reads_see_last_write (capacity : Nat) (requests : List Request) (p : Pointer)
    (hp : ((ofCapacity capacity).afterAll requests).isLive p = true) :
    let h := (ofCapacity capacity).afterAll requests
    (∀ v : Value, ((∃ h', h.writeValue p v = .ok h') ↔ v.type.size ≤ p.size) ∧
      ∀ h', h.writeValue p v = .ok h' → h'.readValue p v.type = .ok v ∧
        ∀ q, h.isLive q = true → q ≠ p → h.SameReads h' q) ∧
    ∀ q, h.isLive q = true → ((∃ h', h.copy p q = .ok h') ↔ p.size = q.size) ∧
      ∀ h', h.copy p q = .ok h' → h.ReadsAs p h' q ∧
        ∀ x, h.isLive x = true → x ≠ q → h.SameReads h' x := by
  intro h
  have hw : h.WellFormed := (wellFormed_ofCapacity capacity).afterAll requests
  refine ⟨fun v => ⟨hw.writeValue_isOk hp, fun h' hr => ⟨hw.readValue_writeValue hr, ?_⟩⟩,
    fun q hq => ⟨hw.copy_isOk hp hq, fun h' hr => ⟨hw.readsAs_copy hr, ?_⟩⟩⟩
  · intro q _ hne
    exact hw.sameReads_writeValue hr hne
  · intro x _ hne
    exact hw.sameReads_copy hr hne

/-- A NaN with a payload goes into a range of nine bytes, is read back from it and changes nothing
in its neighbours; then one of them takes a copy, and the other one is too short for it. -/
theorem reads_see_last_write_nan :
    let h := (ofCapacity 24).afterAll
      [.allocate 9 (.temporary 0), .allocate 9 (.owned 0), .allocate 3 (.temporary 1)]
    (h.isLive ⟨15, 9, 1⟩ = true ∧ h.isLive ⟨6, 9, 2⟩ = true ∧ h.isLive ⟨3, 3, 3⟩ = true) ∧
    (∃ h', h.writeValue ⟨15, 9, 1⟩ (.number ⟨0xfff8000000000123⟩) = .ok h' ∧
      h'.readValue ⟨15, 9, 1⟩ .number = .ok (.number ⟨0xfff8000000000123⟩) ∧
      h.SameReads h' ⟨6, 9, 2⟩ ∧ h.SameReads h' ⟨3, 3, 3⟩) ∧
    (∃ h', h.copy ⟨15, 9, 1⟩ ⟨6, 9, 2⟩ = .ok h' ∧ h.ReadsAs ⟨15, 9, 1⟩ h' ⟨6, 9, 2⟩) ∧
    ¬ ∃ h', h.copy ⟨15, 9, 1⟩ ⟨3, 3, 3⟩ = .ok h' := by
  intro h
  have hp : h.isLive ⟨15, 9, 1⟩ = true := by decide
  have hq : h.isLive ⟨6, 9, 2⟩ = true := by decide
  have hx : h.isLive ⟨3, 3, 3⟩ = true := by decide
  obtain ⟨hwrite, hcopy⟩ := reads_see_last_write 24 _ ⟨15, 9, 1⟩ hp
  obtain ⟨hfits, hread⟩ := hwrite (.number ⟨0xfff8000000000123⟩)
  obtain ⟨h₁, hr₁⟩ := hfits.2 (by decide)
  obtain ⟨hback, hframe⟩ := hread h₁ hr₁
  obtain ⟨h₂, hr₂⟩ := (hcopy ⟨6, 9, 2⟩ hq).1.2 rfl
  refine ⟨⟨hp, hq, hx⟩, ⟨h₁, hr₁, hback, hframe _ hq (by decide), hframe _ hx (by decide)⟩,
    ⟨h₂, hr₂, ((hcopy ⟨6, 9, 2⟩ hq).2 h₂ hr₂).1⟩, fun hc => ?_⟩
  exact absurd ((hcopy ⟨3, 3, 3⟩ hx).1.1 hc) (by decide)

end HeapWalk.Heap
