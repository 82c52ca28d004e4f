import HeapWalk.Proofs.Codec
import HeapWalk.Proofs.Spec
import HeapWalk.Proofs.Store

/-!
# What the storage operations do

`Exec.Stores P x m Q`: from the sound machine `m`, the computation `x` changes nothing but the heap
(and the journal), keeps the store sound and the ranges in `P` as they are, stops only for want of
memory, and leaves a result in `Q`. Each storage operation has one such specification, whose `Q`
says exactly which blocks the heap holds afterwards.
-/

set_option autoImplicit false

namespace HeapWalk

open Store

/-- `m'` is `m` up to the heap and the journal. -/
def Machine.SameButHeap (m m' : Machine) : Prop :=
  m' = { m with heap := m'.heap, journal := m'.journal }

theorem Machine.SameButHeap.refl (m : Machine) : m.SameButHeap m := rfl

theorem Machine.SameButHeap.trans {m₁ m₂ m₃ : Machine} (h₁ : m₁.SameButHeap m₂)
    (h₂ : m₂.SameButHeap m₃) : m₁.SameButHeap m₃ := by
  unfold Machine.SameButHeap at *
  rw [h₁] at h₂
  exact h₂

theorem Machine.SameButHeap.scopes {m m' : Machine} (h : m.SameButHeap m') :
    m'.scopes = m.scopes := by
  rw [h]

namespace Exec

variable {α β : Type}

/-- `m'` is `m` after work on the heap that respects the ranges in `P`. -/
structure HeapWork (P : Pointer → Prop) (m m' : Machine) : Prop where
  same : m.SameButHeap m'
  sound : m'.store.Sound
  frame : Frame P m.store m'.store

/-- The heap was full. -/
def ForMemory (e : Option Fault) : Prop := e.map Fault.code = some .outOfMemory

def Stores (P : Pointer → Prop) (x : Exec α) (m : Machine) (Q : α → Machine → Prop) : Prop :=
  Spec x m (HeapWork P m) (fun e m' => ForMemory e ∧ HeapWork P m m')
    fun a m' => HeapWork P m m' ∧ Q a m'

theorem HeapWork.trans {P : Pointer → Prop} {m₁ m₂ m₃ : Machine} (h₁ : HeapWork P m₁ m₂)
    (h₂ : HeapWork P m₂ m₃) : HeapWork P m₁ m₃ :=
  ⟨h₁.same.trans h₂.same, h₂.sound, h₁.frame.trans h₂.frame⟩

theorem HeapWork.live {P : Pointer → Prop} {m m' : Machine} (h : HeapWork P m m') {p : Pointer}
    (hp : P p) : m'.store.Live p :=
  h.frame.live hp

namespace Stores

variable {P : Pointer → Prop} {m : Machine}

theorem bind {x : Exec α} {f : α → Exec β} {Q : α → Machine → Prop} {R : β → Machine → Prop}
    (hx : Stores P x m Q)
    (hf : ∀ a m₁, HeapWork P m m₁ → Q a m₁ → Stores P (f a) m₁ R) : Stores P (x >>= f) m R := by
  refine Spec.bind (hx.mono (fun _ h => h) (fun _ _ h => h) fun a m₁ ⟨hw, hq⟩ => ?_)
  exact (hf a m₁ hw hq).mono (fun _ h => hw.trans h) (fun _ _ h => ⟨h.1, hw.trans h.2⟩)
    fun _ _ h => ⟨hw.trans h.1, h.2⟩

theorem mono {x : Exec α} {Q R : α → Machine → Prop} (h : Stores P x m Q)
    (hQ : ∀ a m', HeapWork P m m' → Q a m' → R a m') : Stores P x m R :=
  Spec.mono h (fun _ h => h) (fun _ _ h => h) fun a m' h => ⟨h.1, hQ a m' h.1 h.2⟩

end Stores

section Operations

variable {P : Pointer → Prop} {m : Machine} (hs : m.store.Sound)
  (hP : ∀ p, P p → m.store.Live p)
include hs hP

theorem HeapWork.refl : HeapWork P m m := ⟨.refl m, hs, .refl hP⟩

theorem stores_pure {a : α} {Q : α → Machine → Prop} (h : Q a m) : Stores P (pure a) m Q :=
  Spec.pure ⟨.refl hs hP, h⟩

theorem stores_view {f : Machine → α} {Q : α → Machine → Prop} (h : Q (f m) m) :
    Stores P (view f) m Q :=
  Spec.view ⟨.refl hs hP, h⟩

theorem stores_note {e : Event} : Stores P (note e) m fun _ m' => m'.store = m.store :=
  Spec.note (fun _ => ⟨rfl, hs, .refl hP⟩) fun _ => ⟨⟨rfl, hs, .refl hP⟩, rfl⟩

/-- A question that the heap answers. -/
theorem stores_askHeap {f : Heap → Except HeapError α} {Q : α → Machine → Prop} {a : α}
    (hf : f m.heap = .ok a) (h : Q a m) : Stores P (askHeap f) m Q := by
  refine Spec.askHeap (fun b hb => ?_) fun e he => ?_
  · rw [hf] at hb
    cases hb
    exact ⟨.refl hs hP, h⟩
  · rw [hf] at he
    cases he

/-- A change of what is kept for one handle. -/
theorem stores_updateHeap {f : Heap → Heap} {p : Pointer} {b : Option Block}
    (hp : m.store.Puts ⟨f m.heap, m.scopes⟩ p b)
    (hopen : ∀ b', b = some b' → m.store.Open b'.owner.scope)
    (hbound : m.store.Bound p →
      ∃ b₀ b', m.store.block? p = some b₀ ∧ b = some b' ∧ b'.owner = b₀.owner)
    (hn : P p → m.store.Bound p) :
    Stores P (updateHeap f) m fun _ m' => m.store.Puts m'.store p b := by
  have hw : HeapWork P m { m with heap := f m.heap } :=
    ⟨rfl, hs.puts hp hopen hbound, Frame.puts hP hp fun h => ⟨hn h, hbound (hn h)⟩⟩
  exact Spec.update hw ⟨hw, hp⟩

theorem stores_allocate (size : Nat) {o : Ownership} (ho : m.store.Open o.scope) :
    Stores P (allocate size o) m fun p m' =>
      p.size = size ∧ m.store.block? p = none ∧
        m.store.Puts m'.store p (some ⟨o, List.replicate size 0⟩) := by
  unfold allocate
  refine Spec.bind (Spec.askHeap (fun address hfind => ?_) fun e he => ?_)
  · rcases m.heap.findPlace_cases size with ⟨a, ha, hsize, hfree⟩ | herr
    · rw [ha] at hfind
      cases hfind
      refine Spec.bind (Spec.view ?_)
      have hnone : m.store.block? ⟨address, size, m.heap.nextGeneration⟩ = none :=
        hs.heap.block?_of_freeRun hsize hfree
      have hputs : m.store.Puts ⟨m.heap.reserve ⟨address, size, m.heap.nextGeneration⟩ o, m.scopes⟩
          ⟨address, size, m.heap.nextGeneration⟩ (some ⟨o, List.replicate size 0⟩) :=
        ⟨rfl, hs.heap.reserve o hsize hfree, Heap.capacity_reserve ..,
          hs.heap.block?_reserve o hsize hfree⟩
      have hdead : ¬ m.store.Live ⟨address, size, m.heap.nextGeneration⟩ := by
        rintro ⟨b, hb⟩
        rw [hnone] at hb
        cases hb
      refine Stores.bind (stores_updateHeap hs hP hputs ?_ ?_ ?_) fun _ m₁ hw₁ h₁ => ?_
      · rintro b' hb'
        cases hb'
        exact ho
      · intro hbound
        obtain ⟨s, bytes, hb⟩ := hs.live_of_bound hbound
        exact absurd ⟨_, hb⟩ hdead
      · exact fun hp => absurd (hP _ hp) hdead
      refine Stores.bind (stores_note hw₁.sound fun p hp => hw₁.live hp) fun _ m₂ hw₂ h₂ => ?_
      refine stores_pure hw₂.sound (fun p hp => hw₂.live hp) ⟨rfl, hnone, ?_⟩
      rw [h₂]
      exact h₁
    · rw [herr] at hfind
      cases hfind
  · rcases m.heap.findPlace_cases size with ⟨a, ha, -⟩ | herr
    · rw [ha] at he
      cases he
    · rw [herr] at he
      cases he
      exact ⟨rfl, .refl hs hP⟩

variable {p : Pointer} {b : Block} (hb : m.store.block? p = some b)
include hb

theorem stores_writeValue (hn : P p → m.store.Bound p) {value : Value}
    (hsize : value.type.size ≤ p.size) :
    Stores P (writeValue p value) m fun _ m' =>
      ∃ bytes, Value.decode bytes value.type = some value ∧
        m.store.Puts m'.store p (some ⟨b.owner, bytes⟩) := by
  obtain ⟨bytes, henc⟩ := value.encode_isSome hsize
  obtain ⟨hlen, hdec⟩ := Value.decode_of_encode henc
  have hask : m.heap.bytesToWrite p value = .ok bytes :=
    (hs.heap.bytesToWrite_eq hb value).trans (by rw [henc])
  have hputs : m.store.Puts ⟨m.heap.store p.address bytes, m.scopes⟩ p (some ⟨b.owner, bytes⟩) :=
    ⟨rfl, hs.heap.store (hs.heap.mem_of_block? hb) hlen, Heap.capacity_store ..,
      hs.heap.block?_store hb hlen⟩
  unfold writeValue
  refine Stores.bind (stores_askHeap hs hP (Q := fun a m' => a = bytes ∧ m = m') hask ⟨rfl, rfl⟩) ?_
  rintro _ _ - ⟨rfl, rfl⟩
  refine (stores_updateHeap hs hP hputs ?_ ?_ hn).mono fun _ m' _ h => ⟨_, hdec, h⟩
  · rintro b' hb'
    cases hb'
    exact hs.housed p b hb
  · exact fun _ => ⟨b, _, hb, rfl, rfl⟩

theorem stores_copy (hn : P p → m.store.Bound p) {source : Pointer} {c : Block}
    (hc : m.store.block? source = some c) (hsize : source.size = p.size) :
    Stores P (copy source p) m fun _ m' => m.store.Puts m'.store p (some ⟨b.owner, c.bytes⟩) := by
  have hask : m.heap.bytesToCopy source p = .ok c.bytes := hs.heap.bytesToCopy_eq hc hb hsize
  have hlen : c.bytes.length = p.size := by rw [hs.heap.length_bytes hc, hsize]
  have hputs : m.store.Puts ⟨m.heap.store p.address c.bytes, m.scopes⟩ p
      (some ⟨b.owner, c.bytes⟩) :=
    ⟨rfl, hs.heap.store (hs.heap.mem_of_block? hb) hlen, Heap.capacity_store ..,
      hs.heap.block?_store hb hlen⟩
  unfold copy
  refine Stores.bind
    (stores_askHeap hs hP (Q := fun a m' => a = c.bytes ∧ m = m') hask ⟨rfl, rfl⟩) ?_
  rintro _ _ - ⟨rfl, rfl⟩
  refine stores_updateHeap hs hP hputs ?_ ?_ hn
  · rintro b' hb'
    cases hb'
    exact hs.housed p b hb
  · exact fun _ => ⟨b, _, hb, rfl, rfl⟩

theorem stores_setOwnership (hn : ¬ P p) (hbound : ¬ m.store.Bound p) {o : Ownership}
    (ho : m.store.Open o.scope) :
    Stores P (setOwnership p o) m fun _ m' => m.store.Puts m'.store p (some ⟨o, b.bytes⟩) := by
  have hputs : m.store.Puts ⟨m.heap.reassign p.address o, m.scopes⟩ p (some ⟨o, b.bytes⟩) :=
    ⟨rfl, hs.heap.reassign _ _, rfl, hs.heap.block?_reassign hb o⟩
  unfold setOwnership
  refine Stores.bind
    (stores_askHeap hs hP (Q := fun _ m' => m = m') (hs.heap.validate_eq_ok hb) rfl) ?_
  rintro _ _ - rfl
  refine stores_updateHeap hs hP hputs ?_ (fun h => absurd h hbound) fun h => absurd h hn
  rintro b' hb'
  cases hb'
  exact ho

theorem stores_free (hn : ¬ P p) (hbound : ¬ m.store.Bound p) :
    Stores P (free p) m fun _ m' => m.store.Puts m'.store p none := by
  have hputs : m.store.Puts ⟨m.heap.reclaim p, m.scopes⟩ p none :=
    ⟨rfl, hs.heap.reclaim (hs.heap.mem_of_block? hb), Heap.capacity_reclaim ..,
      hs.heap.block?_reclaim hb⟩
  unfold free
  refine Stores.bind
    (stores_askHeap hs hP (Q := fun _ m' => m = m') (hs.heap.validate_eq_ok hb) rfl) ?_
  rintro _ _ - rfl
  refine Stores.bind
    (stores_updateHeap hs hP hputs (by simp) (fun h => absurd h hbound) fun h => absurd h hn) ?_
  intro _ m₁ hw₁ h₁
  refine (stores_note hw₁.sound fun p hp => hw₁.live hp).mono fun _ m₂ _ h₂ => ?_
  rw [h₂]
  exact h₁

end Operations

section Variables

variable {P : Pointer → Prop} {m : Machine} (hs : m.store.Sound)
  (hP : ∀ p, P p → m.store.Live p)
include hs hP

/-- A live variable that fits its range can be read. -/
theorem stores_readValue {v : Variable} {b : Block} (hb : m.store.block? v.pointer = some b)
    (hsize : v.pointer.size = v.type.size) :
    Stores P (readValue v) m fun value m' =>
      m' = m ∧ Value.decode b.bytes v.type = some value := by
  have hlen : v.type.size ≤ b.bytes.length :=
    Nat.le_of_eq (by rw [hs.heap.length_bytes hb, hsize])
  obtain ⟨value, hdec⟩ := Value.decode_isSome hlen
  refine stores_askHeap hs hP (a := value) ?_ ⟨rfl, hdec⟩
  exact (hs.heap.readValue_eq hb v.type).trans (by rw [hdec])

/-- What is typed a number is read as one. -/
theorem stores_readNumber (op : UnaryOp) {v : Variable} {b : Block}
    (hb : m.store.block? v.pointer = some b) (hsize : v.pointer.size = v.type.size)
    (htype : v.type = .number) :
    Stores P (readNumber op v) m fun n m' =>
      m' = m ∧ Value.decode b.bytes v.type = some (.number n) := by
  refine (stores_readValue hs hP hb hsize).bind ?_
  rintro value _ - ⟨rfl, hdec⟩
  have hvalue : value.type = .number := (Value.type_of_decode hdec).trans htype
  cases value with
  | number n => exact stores_pure hs hP ⟨rfl, hdec⟩
  | boolean b => cases hvalue

theorem stores_allocValue (value : Value) :
    Stores P (allocValue value) m fun v m' =>
      v.type = value.type ∧ v.pointer.size = value.type.size ∧ m.store.block? v.pointer = none ∧
        ∃ bytes, Value.decode bytes value.type = some value ∧
          m.store.Puts m'.store v.pointer (some ⟨.temporary m.scopes.currentId, bytes⟩) := by
  unfold allocValue currentScope
  refine Stores.bind
    (stores_view hs hP (Q := fun s m' => s = m.scopes.currentId ∧ m = m') ⟨rfl, rfl⟩) ?_
  rintro _ _ - ⟨rfl, rfl⟩
  refine Stores.bind (stores_allocate hs hP _ hs.currentId_open) ?_
  rintro p m₁ hw₁ ⟨hsize, hnone, hputs⟩
  have hn : ¬ P p := not_of_dead hP hnone
  refine Stores.bind (stores_writeValue hw₁.sound (fun p hp => hw₁.live hp) hputs.self
    (fun hp => absurd hp hn) (Nat.le_of_eq hsize.symm)) ?_
  rintro _ m₂ hw₂ ⟨bytes, hdec, hputs'⟩
  exact stores_pure hw₂.sound (fun p hp => hw₂.live hp)
    ⟨rfl, hsize, hnone, bytes, hdec, hputs.trans hputs'⟩

theorem stores_duplicate {v : Variable} {b : Block} (hb : m.store.block? v.pointer = some b)
    {o : Ownership} (ho : m.store.Open o.scope) :
    Stores P (duplicate v o) m fun w m' =>
      w.type = v.type ∧ w.pointer.size = v.pointer.size ∧ m.store.block? w.pointer = none ∧
        m.store.Puts m'.store w.pointer (some ⟨o, b.bytes⟩) := by
  unfold duplicate
  refine Stores.bind
    (stores_askHeap hs hP (Q := fun _ m' => m = m') (hs.heap.validate_eq_ok hb) rfl) ?_
  rintro _ _ - rfl
  refine Stores.bind (stores_allocate hs hP _ ho) ?_
  rintro p m₁ hw₁ ⟨hsize, hnone, hputs⟩
  have hn : ¬ P p := not_of_dead hP hnone
  have hne : v.pointer ≠ p := by
    rintro rfl
    rw [hnone] at hb
    cases hb
  refine Stores.bind (stores_copy hw₁.sound (fun p hp => hw₁.live hp) hputs.self
    (fun hp => absurd hp hn) (by rw [hputs.other hne, hb]) hsize.symm) ?_
  rintro _ m₂ hw₂ hputs'
  exact stores_pure hw₂.sound (fun p hp => hw₂.live hp) ⟨rfl, hsize, hnone, hputs.trans hputs'⟩

/-- What is handed over was a temporary or is new; it was not the storage of a binding. -/
theorem stores_rehome {v : Variable} {b : Block} (hb : m.store.block? v.pointer = some b)
    (hn : b.owner.isTemporary = true → ¬ P v.pointer) {o : Ownership}
    (ho : m.store.Open o.scope) :
    Stores P (rehome v o) m fun w m' =>
      w.type = v.type ∧ w.pointer.size = v.pointer.size ∧
        m.store.Puts m'.store w.pointer (some ⟨o, b.bytes⟩) ∧
        ((w = v ∧ b.owner.isTemporary = true) ∨ m.store.block? w.pointer = none) := by
  unfold rehome ownershipOf
  refine Stores.bind (stores_askHeap hs hP (Q := fun a m' => a = b.owner ∧ m = m')
    (hs.heap.ownership_eq_ok hb) ⟨rfl, rfl⟩) ?_
  rintro _ _ - ⟨rfl, rfl⟩
  obtain ⟨owner, bytes⟩ := b
  cases owner with
  | temporary s =>
    refine Stores.bind (stores_setOwnership hs hP hb (hn rfl) (hs.not_bound_of_temporary hb) ho) ?_
    intro _ m₁ hw₁ hputs
    exact stores_pure hw₁.sound (fun p hp => hw₁.live hp) ⟨rfl, rfl, hputs, .inl ⟨rfl, rfl⟩⟩
  | owned s =>
    refine (stores_duplicate hs hP hb ho).mono ?_
    rintro w m' - ⟨htype, hsize, hnone, hputs⟩
    exact ⟨htype, hsize, hputs, .inr hnone⟩

omit hP in
theorem isTemporary_iff {v : Variable} :
    isTemporary m v = true ↔
      ∃ b, m.store.block? v.pointer = some b ∧ b.owner.isTemporary = true := by
  have hw : m.heap.WellFormed := hs.heap
  unfold isTemporary Store.block? Machine.store
  cases hb : m.heap.block? v.pointer with
  | none => simp [hw.ownership_eq_error hb]
  | some b => simp [hw.ownership_eq_ok hb]

/-- The temporaries among `vs` go; whatever is no temporary stays. -/
theorem stores_discard (vs : List Variable)
    (hn : ∀ v ∈ vs, ∀ b, m.store.block? v.pointer = some b → b.owner.isTemporary = true →
      ¬ P v.pointer) :
    Stores P (discard vs) m fun _ m' =>
      ∀ q b, m.store.block? q = some b → b.owner.isTemporary = false →
        m'.store.block? q = some b := by
  induction vs generalizing m with
  | nil => exact stores_pure hs hP fun _ _ h _ => h
  | cons v vs ih =>
    unfold discard
    refine Stores.bind
      (stores_view hs hP (Q := fun a m' => a = isTemporary m v ∧ m = m') ⟨rfl, rfl⟩) ?_
    rintro _ _ - ⟨rfl, rfl⟩
    have hn' : ∀ w ∈ vs, ∀ b, m.store.block? w.pointer = some b → b.owner.isTemporary = true →
        ¬ P w.pointer := fun w hw => hn w (List.mem_cons_of_mem _ hw)
    split
    · rename_i ht
      obtain ⟨b, hb, hbt⟩ := (isTemporary_iff hs).1 ht
      have hnb : ¬ m.store.Bound v.pointer := by
        obtain ⟨owner, bytes⟩ := b
        cases owner with
        | temporary s => exact hs.not_bound_of_temporary hb
        | owned s => cases hbt
      refine Stores.bind (stores_free hs hP hb (hn v List.mem_cons_self b hb hbt) hnb) ?_
      intro _ m₁ hw₁ hputs
      refine (ih hw₁.sound (fun p hp => hw₁.live hp) fun w hw c hc hct => ?_).mono
        fun _ m₂ _ h₂ q c hq hct => h₂ q c ?_ hct
      · by_cases hwv : w.pointer = v.pointer
        · rw [hwv, hputs.self] at hc
          cases hc
        · exact hn' w hw c (by rw [← hputs.other hwv]; exact hc) hct
      · rw [hputs.other, hq]
        rintro rfl
        rw [hb, Option.some.injEq] at hq
        rw [hq, hct] at hbt
        cases hbt
    · exact ih hs hP hn'

theorem stores_noteFreed (ps : List Pointer) :
    Stores P (noteFreed ps) m fun _ m' => m'.store = m.store := by
  induction ps generalizing m with
  | nil => exact stores_pure hs hP rfl
  | cons p ps ih =>
    unfold noteFreed
    refine Stores.bind (stores_note hs hP) fun _ m₁ hw₁ h₁ => ?_
    exact (ih hw₁.sound fun p hp => hw₁.live hp).mono fun _ m₂ _ h₂ => h₂.trans h₁

/-- Of what a sweep spares, nothing changes. -/
theorem stores_freeWhere {doomed : Ownership → Bool} (hd : ∀ s, doomed (.owned s) = false)
    (hn : ∀ p b, P p → m.store.block? p = some b → doomed b.owner = false) :
    Stores P (freeWhere doomed) m fun _ m' =>
      ∀ q, m'.store.block? q = (m.store.block? q).filter fun b => !doomed b.owner := by
  obtain ⟨hheap, hblocks⟩ := hs.heap.reclaimAll_handlesWhere doomed
  have hspared : ∀ q b, m.store.block? q = some b → doomed b.owner = false →
      (m.heap.reclaimAll (m.heap.handlesWhere doomed)).block? q = some b := by
    intro q b hb hdb
    refine (hblocks q).trans ?_
    rw [show m.store.heap.block? q = some b from hb]
    exact Option.filter_some_pos (by simp [hdb])
  have hw : HeapWork P m
      { m with heap := m.heap.reclaimAll (m.heap.handlesWhere doomed) } := by
    refine ⟨rfl, hs.of_heap rfl hheap ?_ ?_, .of_heap rfl hP ?_⟩
    · exact fun p s bytes _ hb => ⟨bytes, hspared p _ hb (hd s)⟩
    · intro p b hb
      have hb' := (hblocks p).symm.trans hb
      exact hs.housed p b (Option.filter_eq_some_iff.1 hb').1
    · intro p hp
      obtain ⟨b, hb⟩ := hP p hp
      rw [hb]
      exact hspared p b hb (hn p b hp hb)
  unfold freeWhere
  refine Stores.bind (stores_view hs hP (Q := fun a m' => a = m.heap.handlesWhere doomed ∧ m = m')
    ⟨rfl, rfl⟩) ?_
  rintro _ _ - ⟨rfl, rfl⟩
  refine Stores.bind (Q := fun _ m' => ∀ q, m'.store.block? q =
    (m.store.block? q).filter fun b => !doomed b.owner) (Spec.update hw ⟨hw, hblocks⟩) ?_
  intro _ m₁ hw₁ h₁
  refine Stores.bind (stores_noteFreed hw₁.sound (fun p hp => hw₁.live hp) _) fun _ m₂ hw₂ h₂ => ?_
  refine stores_pure hw₂.sound (fun p hp => hw₂.live hp) ?_
  rw [h₂]
  exact h₁

end Variables

end Exec

end HeapWalk
