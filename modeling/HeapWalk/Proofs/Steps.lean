import HeapWalk.Proofs.Scoping

/-!
# What the single steps of evaluation do

`Exec.Runs P x m Q`: from the sound machine `m`, the computation `x` keeps the store sound and the
ranges in `P` as they are, whatever its outcome and at every machine it passes; it never stops on a
handle that is dead or of the wrong size; and what it leaves is in `Q`.

Here `P` is whatever has to survive: for an expression all that is live, for a statement all that a
sweep between statements spares (`Store.Held`). An expression evaluates to a `Store.Result`: a
temporary of the current scope, or the storage of a binding. A statement either leaves the scopes as
they were, but for new names, or hands a return value to the caller of the innermost function
(`Exec.Left`).
-/

set_option autoImplicit false

namespace HeapWalk

open Store

namespace Store

/-! ## Operands -/

/-- The range is live, and no sweep between statements takes it. -/
def Held (σ : Store) (p : Pointer) : Prop :=
  ∃ b, σ.block? p = some b ∧ b.owner.isTemporaryFrom σ.scopes.sweepFloor = false

/-- `v` fits its range, which is live, and in `P` only if it is no temporary. -/
def Usable (P : Pointer → Prop) (σ : Store) (v : Variable) : Prop :=
  v.pointer.size = v.type.size ∧
    ∃ b, σ.block? v.pointer = some b ∧ (b.owner.isTemporary = true → ¬ P v.pointer)

/-- `v` is a temporary of the current scope that is new. -/
def Fresh (P : Pointer → Prop) (σ : Store) (v : Variable) : Prop :=
  σ.Holds v (.temporary σ.scopes.currentId) ∧ ¬ P v.pointer

/-- What an expression evaluates to. -/
def Result (P : Pointer → Prop) (σ : Store) (v : Variable) : Prop :=
  (σ.Holds v (.temporary σ.scopes.currentId) ∧ ¬ P v.pointer) ∨ σ.Binds v

variable {P Q : Pointer → Prop} {σ τ : Store} {v : Variable}

theorem Held.live {p : Pointer} (h : σ.Held p) : σ.Live p := by
  obtain ⟨b, hb, -⟩ := h
  exact ⟨b, hb⟩

theorem Held.push (hs : σ.Sound) {kind : ScopeKind} (hk : kind ≠ .function) {name : String}
    {p : Pointer} (h : σ.Held p) : (σ.push kind name).Held p := by
  obtain ⟨b, hb, ht⟩ := h
  refine ⟨b, hb, ?_⟩
  rw [Store.push, ScopeStack.sweepFloor_push hk hs.nonempty]
  exact ht

/-- The body of a function sweeps nothing that was live before the call. -/
theorem Live.held_push (hs : σ.Sound) {name : String} {p : Pointer} (h : σ.Live p) :
    (σ.push .function name).Held p := by
  obtain ⟨b, hb⟩ := h
  refine ⟨b, hb, ?_⟩
  rw [Store.push, ScopeStack.sweepFloor_push_function]
  have hlt := hs.lt_nextId hb
  cases ho : b.owner with
  | owned s => rfl
  | temporary s =>
    rw [ho] at hlt
    simpa [Ownership.isTemporaryFrom, Ownership.scope] using hlt

theorem Frame.held (h : Frame P σ τ) (hf : τ.scopes.sweepFloor = σ.scopes.sweepFloor)
    (hP : ∀ p, P p → σ.Held p) : ∀ p, P p → τ.Held p := by
  intro p hp
  obtain ⟨b, hb, ht⟩ := hP p hp
  obtain ⟨c, b', hc, hb', ho, -⟩ := h.blocks p hp
  rw [hb, Option.some.injEq] at hc
  subst hc
  exact ⟨b', hb', by rw [ho, hf, ht]⟩

theorem Result.usable (hs : σ.Sound) (h : Result P σ v) : Usable P σ v := by
  rcases h with ⟨⟨hsize, bytes, hb⟩, hn⟩ | hv
  · exact ⟨hsize, _, hb, fun _ => hn⟩
  · obtain ⟨s, -, hsize, bytes, hb⟩ := hs.holds_of_binds hv
    exact ⟨hsize, _, hb, fun ht => by cases ht⟩

theorem binds_of_kept (h : σ.scopes.Kept τ.scopes) (hv : σ.Binds v) : τ.Binds v := by
  obtain ⟨-, c, c', rest, hσ, hτ, hg⟩ := h
  obtain ⟨d, hd, n, hn⟩ := hv
  rw [hσ] at hd
  rcases List.mem_cons.1 hd with rfl | hd
  · exact ⟨c', by rw [hτ]; exact List.mem_cons_self, n, hg.kept n v hn⟩
  · exact ⟨d, by rw [hτ]; exact List.mem_cons_of_mem _ hd, n, hn⟩

/-- An operand outlives whatever respects its range. -/
theorem Result.frame (h : Result P σ v) (hf : Frame Q σ τ) (hq : Q v.pointer)
    (hk : σ.scopes.Kept τ.scopes) : Result P τ v := by
  rcases h with ⟨⟨hsize, bytes, hb⟩, hn⟩ | hv
  · obtain ⟨b, b', hb₀, hb', ho, -⟩ := hf.blocks _ hq
    rw [hb, Option.some.injEq] at hb₀
    subst hb₀
    obtain ⟨o, bytes'⟩ := b'
    obtain rfl : o = _ := ho
    refine .inl ⟨⟨hsize, bytes', ?_⟩, hn⟩
    rw [ScopeStack.currentId_eq_of_trace hk.trace, hb']
  · exact .inr (binds_of_kept hk hv)

/-- `τ` is `σ` after the value of `v` was handed to `o` as `w`, which is nobody else's. -/
structure Handed (P : Pointer → Prop) (σ : Store) (v : Variable) (o : Ownership) (w : Variable)
    (τ : Store) : Prop where
  type : w.type = v.type
  size : w.pointer.size = w.type.size
  spared : ¬ P w.pointer
  unbound : ¬ σ.Bound w.pointer
  source : w.pointer = v.pointer ∨ σ.block? w.pointer = none
  puts : ∃ b, σ.block? v.pointer = some b ∧ σ.Puts τ w.pointer (some ⟨o, b.bytes⟩)

namespace Handed

variable {o : Ownership} {w : Variable} (h : Handed P σ v o w τ)
include h

theorem holds : τ.Holds w o := by
  obtain ⟨b, -, hputs⟩ := h.puts
  exact ⟨h.size, b.bytes, hputs.self⟩

theorem scopes : τ.scopes = σ.scopes := by
  obtain ⟨b, -, hputs⟩ := h.puts
  exact hputs.scopes

theorem not_bound : ¬ τ.Bound w.pointer := by
  have hn := h.unbound
  unfold Bound Binds at *
  rwa [h.scopes]

theorem usable {u : Variable} (hu : Usable P σ u) : Usable P τ u := by
  obtain ⟨b, -, hputs⟩ := h.puts
  obtain ⟨hsize, c, hc, hn⟩ := hu
  by_cases huw : u.pointer = w.pointer
  · exact ⟨hsize, _, by rw [huw]; exact hputs.self, fun _ => huw ▸ h.spared⟩
  · exact ⟨hsize, c, by rw [hputs.other huw, hc], hn⟩

end Handed

theorem Result.mono (h : Result P σ v) (hQ : ∀ p, Q p → P p) : Result Q σ v :=
  h.imp_left fun ⟨hh, hn⟩ => ⟨hh, fun hq => hn (hQ _ hq)⟩

theorem Sound.sweepFloor_le (h : σ.Sound) : σ.scopes.sweepFloor ≤ σ.scopes.currentId := by
  obtain ⟨c, rest, hc⟩ := List.exists_cons_of_ne_nil h.nonempty
  obtain ⟨d, hd, hid⟩ := ScopeStack.mem_of_sweepFloor h.nonempty
  have hids := h.ids
  rw [hc] at hd hids
  have hcur : σ.scopes.currentId = c.id := by rw [ScopeStack.currentId, hc]
  rw [← hid, hcur]
  rcases List.mem_cons.1 hd with rfl | hd
  · exact Nat.le_refl _
  · exact Nat.le_of_lt ((List.pairwise_cons.1 hids).1 d hd)

end Store

namespace Exec

variable {α β : Type}

/-! ## Safe computations -/

structure Safe (P : Pointer → Prop) (m m' : Machine) : Prop where
  sound : m'.store.Sound
  frame : Frame P m.store m'.store

/-- A computation may stop so: for want of fuel, or on a fault that does not tell of a bad handle. -/
def Tolerable (e : Option Fault) : Prop := e.map Fault.code ≠ some .invalidPointer

def Runs (P : Pointer → Prop) (x : Exec α) (m : Machine) (Q : α → Machine → Prop) : Prop :=
  Spec x m (Safe P m) (fun e m' => Tolerable e ∧ Safe P m m') fun a m' => Safe P m m' ∧ Q a m'

theorem Safe.trans {P : Pointer → Prop} {m₁ m₂ m₃ : Machine} (h₁ : Safe P m₁ m₂)
    (h₂ : Safe P m₂ m₃) : Safe P m₁ m₃ :=
  ⟨h₂.sound, h₁.frame.trans h₂.frame⟩

theorem Safe.live {P : Pointer → Prop} {m m' : Machine} (h : Safe P m m') :
    ∀ p, P p → m'.store.Live p :=
  fun _ hp => h.frame.live hp

theorem HeapWork.safe {P : Pointer → Prop} {m m' : Machine} (h : HeapWork P m m') :
    Safe P m m' :=
  ⟨h.sound, h.frame⟩

theorem tolerable_of_forMemory {e : Option Fault} (h : ForMemory e) : Tolerable e := by
  unfold ForMemory Tolerable at *
  rw [h]
  simp

namespace Runs

variable {P P' : Pointer → Prop} {m : Machine}

theorem bind {x : Exec α} {f : α → Exec β} {Q : α → Machine → Prop} {R : β → Machine → Prop}
    (hx : Runs P x m Q) (hf : ∀ a m₁, Safe P m m₁ → Q a m₁ → Runs P (f a) m₁ R) :
    Runs P (x >>= f) m R := by
  refine Spec.bind (hx.mono (fun _ h => h) (fun _ _ h => h) fun a m₁ ⟨hw, hq⟩ => ?_)
  exact (hf a m₁ hw hq).mono (fun _ h => hw.trans h) (fun _ _ h => ⟨h.1, hw.trans h.2⟩)
    fun _ _ h => ⟨hw.trans h.1, h.2⟩

theorem mono {x : Exec α} {Q R : α → Machine → Prop} (h : Runs P x m Q)
    (hQ : ∀ a m', Safe P m m' → Q a m' → R a m') : Runs P x m R :=
  Spec.mono h (fun _ h => h) (fun _ _ h => h) fun a m' h => ⟨h.1, hQ a m' h.1 h.2⟩

/-- Fewer ranges may be asked to survive. -/
theorem shrink {x : Exec α} {Q : α → Machine → Prop} (h : Runs P x m Q)
    (hP : ∀ p, P' p → P p) : Runs P' x m Q :=
  Spec.mono h (fun _ h => ⟨h.sound, h.frame.mono hP⟩)
    (fun _ _ h => ⟨h.1, h.2.sound, h.2.frame.mono hP⟩)
    fun _ _ h => ⟨⟨h.1.sound, h.1.frame.mono hP⟩, h.2⟩

theorem of_stores {x : Exec α} {Q : α → Machine → Prop} (h : Stores P x m Q) :
    Runs P x m fun a m' => m.SameButHeap m' ∧ Q a m' :=
  Spec.mono h (fun _ h => h.safe) (fun _ _ h => ⟨tolerable_of_forMemory h.1, h.2.safe⟩)
    fun _ _ h => ⟨h.1.safe, h.1.same, h.2⟩

theorem bind_view {f : Machine → α} {g : α → Exec β} {R : β → Machine → Prop}
    (h : Runs P (g (f m)) m R) : Runs P (view f >>= g) m R :=
  Spec.bind (Spec.view h)

end Runs

section Rules

variable {P : Pointer → Prop} {m : Machine} (hs : m.store.Sound)
  (hP : ∀ p, P p → m.store.Live p)
include hs hP

theorem Safe.refl : Safe P m m := ⟨hs, .refl hP⟩

theorem runs_pure {a : α} {Q : α → Machine → Prop} (h : Q a m) : Runs P (pure a) m Q :=
  Spec.pure ⟨.refl hs hP, h⟩

theorem runs_view {f : Machine → α} {Q : α → Machine → Prop} (h : Q (f m) m) :
    Runs P (view f) m Q :=
  Spec.view ⟨.refl hs hP, h⟩

theorem runs_raise {e : Fault} {Q : α → Machine → Prop} (he : e.code ≠ .invalidPointer) :
    Runs P (raise e) m Q :=
  Spec.raise ⟨by simpa [Tolerable] using he, .refl hs hP⟩

theorem runs_outOfFuel {Q : α → Machine → Prop} : Runs P outOfFuel m Q :=
  Spec.outOfFuel ⟨by simp [Tolerable], .refl hs hP⟩

/-- An update that storage does not notice. -/
theorem runs_update {f : Machine → Machine} (hf : (f m).store = m.store) :
    Runs P (update f) m fun _ m' => m' = f m := by
  have hsafe : Safe P m (f m) := by
    refine ⟨?_, ?_⟩ <;> rw [hf]
    · exact hs
    · exact .refl hP
  exact Spec.update hsafe ⟨hsafe, rfl⟩

theorem runs_note {e : Event} : Runs P (note e) m fun _ m' => ∃ j, m' = { m with journal := j } :=
  Spec.note (fun _ => ⟨hs, .refl hP⟩) fun _ => ⟨⟨hs, .refl hP⟩, _, rfl⟩

theorem runs_echo {text : String} :
    Runs P (echo text) m fun _ m' => ∃ j, m' = { m with journal := j } :=
  Spec.echo (fun _ => ⟨hs, .refl hP⟩) fun _ => ⟨⟨hs, .refl hP⟩, _, rfl⟩

theorem runs_goToLine {line : Nat} :
    Runs P (goToLine line) m fun _ m' => ∃ l, m' = { m with line := l } := by
  refine (runs_update hs hP (by split <;> rfl)).mono fun _ m' _ h => ?_
  split at h
  · exact ⟨line, h⟩
  · exact ⟨m.line, h⟩

theorem runs_setSignal {signal : Signal} :
    Runs P (setSignal signal) m fun _ m' => m' = { m with signal := signal } :=
  runs_update hs hP rfl

theorem runs_takeSnapshot :
    Runs P takeSnapshot m fun _ m' => ∃ h, m' = { m with history := h } := by
  refine Spec.attempt (fun m' h => ?_) fun e h => ?_
  · have hm' : ∃ h, m' = { m with history := h } := by
      split at h
      · split at h
        · exact ⟨_, (Except.ok.inj h).symm⟩
        · cases h
      · exact ⟨m.history, (Except.ok.inj h).symm⟩
    obtain ⟨hist, rfl⟩ := hm'
    exact ⟨⟨hs, .refl hP⟩, ⟨hs, .refl hP⟩, hist, rfl⟩
  · split at h
    · split at h
      · cases h
      · obtain rfl := Except.error.inj h
        exact ⟨by simp [Tolerable, Fault.code], hs, .refl hP⟩
    · cases h

end Rules

/-! ## Expressions -/

/-- What evaluating an expression leaves. -/
def Yields (P : Pointer → Prop) (m : Machine) (v : Variable) (m' : Machine) : Prop :=
  m.scopes.Kept m'.scopes ∧ Result P m'.store v

/-- What evaluating an expression leaves that makes its own storage. -/
def YieldsFresh (P : Pointer → Prop) (m : Machine) (v : Variable) (m' : Machine) : Prop :=
  m.scopes.Kept m'.scopes ∧ Fresh P m'.store v

theorem YieldsFresh.yields {P : Pointer → Prop} {m m' : Machine} {v : Variable}
    (h : YieldsFresh P m v m') : Yields P m v m' :=
  ⟨h.1, .inl h.2⟩

section Expressions

variable {P : Pointer → Prop} {m : Machine} (hs : m.store.Sound)
  (hP : ∀ p, P p → m.store.Live p)
include hs hP

theorem stores_read {v : Variable} (hv : Usable P m.store v) :
    Stores P (readValue v) m fun value m' => m = m' ∧ value.type = v.type := by
  obtain ⟨hsize, b, hb, -⟩ := hv
  refine (stores_readValue hs hP hb hsize).mono ?_
  rintro value m' - ⟨hm, hdec⟩
  exact ⟨hm.symm, Value.type_of_decode hdec⟩

theorem yieldsFresh_of_puts {m' : Machine} {v : Variable} {bytes : List UInt8}
    (hsame : m.SameButHeap m') (hsize : v.pointer.size = v.type.size)
    (hnone : m.store.block? v.pointer = none)
    (hputs : m.store.Puts m'.store v.pointer (some ⟨.temporary m.scopes.currentId, bytes⟩)) :
    YieldsFresh P m v m' := by
  have hscopes : m'.scopes = m.scopes := hsame.scopes
  refine ⟨?_, ⟨hsize, bytes, ?_⟩, not_of_dead hP hnone⟩
  · rw [hscopes]
    exact .refl hs.nonempty
  · rw [hputs.self, show m'.store.scopes = m.scopes from hscopes]

theorem runs_allocValue (value : Value) : Runs P (allocValue value) m (YieldsFresh P m) := by
  refine (Runs.of_stores (stores_allocValue hs hP value)).mono ?_
  rintro v m' - ⟨hsame, htype, hsize, hnone, bytes, -, hputs⟩
  exact yieldsFresh_of_puts hs hP hsame (by rw [hsize, htype]) hnone hputs

theorem stores_discardUsable {vs : List Variable} (hvs : ∀ v ∈ vs, Usable P m.store v) :
    Stores P (discard vs) m fun _ _ => True := by
  refine (stores_discard hs hP vs fun v hv b hb ht => ?_).mono fun _ _ _ _ => trivial
  obtain ⟨-, b', hb', hn⟩ := hvs v hv
  rw [hb, Option.some.injEq] at hb'
  exact hn (hb' ▸ ht)

/-- Operands of wrong types are discarded before the fault. -/
theorem runs_discard_raise {vs : List Variable} {e : Fault} {Q : α → Machine → Prop}
    (hvs : ∀ v ∈ vs, Usable P m.store v) (he : e.code ≠ .invalidPointer) :
    Runs P (do discard vs; raise e) m Q :=
  (Runs.of_stores (stores_discardUsable hs hP hvs)).bind fun _ _ hsafe _ =>
    runs_raise hsafe.sound hsafe.live he

theorem runs_readIdentifier (name : String) :
    Runs P (readIdentifier name) m (YieldsFresh P m) := by
  unfold readIdentifier
  refine Runs.bind_view ?_
  split
  · exact runs_raise hs hP (by simp [Fault.code])
  · rename_i v hl
    obtain ⟨s, -, hvs, bytes, hb⟩ := hs.holds_of_binds (binds_of_lookup (σ := m.store) hl)
    refine Runs.bind_view ?_
    refine (Runs.of_stores (stores_duplicate hs hP hb (o := .temporary _) hs.currentId_open)).mono ?_
    rintro w m' - ⟨hsame, htype, hsize, hnone, hputs⟩
    exact yieldsFresh_of_puts hs hP hsame (by rw [hsize, htype, hvs]) hnone hputs

theorem runs_applyUnary (op : UnaryOp) {v : Variable} (hv : Usable P m.store v) :
    Runs P (applyUnary op v) m (YieldsFresh P m) := by
  unfold applyUnary
  split
  · rename_i htype
    obtain ⟨hsize, b, hb, -⟩ := hv
    refine (Runs.of_stores (stores_readNumber hs hP op hb hsize htype)).bind ?_
    rintro n _ - ⟨-, rfl, -⟩
    exact runs_allocValue hs hP _
  · exact runs_discard_raise hs hP (by simpa using hv) (by simp [Fault.code])

theorem runs_applyBinary (op : BinaryOp) {l r : Variable} (hl : Usable P m.store l)
    (hr : Usable P m.store r) : Runs P (applyBinary op l r) m (YieldsFresh P m) := by
  unfold applyBinary
  refine (Runs.of_stores (stores_read hs hP hl)).bind ?_
  rintro a _ - ⟨-, rfl, -⟩
  refine (Runs.of_stores (stores_read hs hP hr)).bind ?_
  rintro b _ - ⟨-, rfl, -⟩
  split
  · exact runs_allocValue hs hP _
  · exact runs_discard_raise hs hP (by simpa using ⟨hl, hr⟩) (by simp [Fault.code])

theorem stores_handOver {v : Variable} (hv : Usable P m.store v) {o : Ownership}
    (ho : m.store.Open o.scope) :
    Stores P (rehome v o) m fun w m' => Handed P m.store v o w m'.store := by
  obtain ⟨hsize, ⟨owner, bytes⟩, hb, hn⟩ := hv
  refine (stores_rehome hs hP hb hn ho).mono ?_
  rintro w m' - ⟨htype, hwsize, hputs, hw⟩
  have hfree : ¬ P w.pointer ∧ ¬ m.store.Bound w.pointer := by
    rcases hw with ⟨rfl, ht⟩ | hnone
    · cases owner with
      | temporary s => exact ⟨hn ht, hs.not_bound_of_temporary hb⟩
      | owned s => cases ht
    · refine ⟨not_of_dead hP hnone, fun hbound => ?_⟩
      obtain ⟨s, bytes', hb'⟩ := hs.live_of_bound hbound
      rw [hnone] at hb'
      cases hb'
  refine ⟨htype, by rw [hwsize, htype, hsize], hfree.1, hfree.2, ?_, _, hb, hputs⟩
  exact hw.imp_left fun h => congrArg Variable.pointer h.1

theorem runs_bindVariable (name : String) {v : Variable}
    (hv : m.store.Holds v (.owned m.scopes.currentId)) (hn : ¬ P v.pointer)
    (hb : ¬ m.store.Bound v.pointer) :
    Runs P (bindVariable name v) m fun _ m' =>
      m' = { m with scopes := m.scopes.bind name v } := by
  obtain ⟨c, rest, hc⟩ := List.exists_cons_of_ne_nil hs.nonempty
  have hid : m.scopes.currentId = c.id := by
    rw [ScopeStack.currentId, show m.scopes.contexts = c :: rest from hc]
  have hsafe : Safe P m { m with scopes := m.scopes.bind name v } :=
    ⟨hs.bind hc name (hid ▸ hv) hb, Frame.bind hc name hP hn⟩
  exact Spec.update hsafe ⟨hsafe, rfl⟩

theorem runs_assign (target : String) {v : Variable} (hv : Usable P m.store v) :
    Runs P (assign target v) m (Yields P m) := by
  unfold assign
  refine Runs.bind_view ?_
  split
  · rename_i bound hl
    have hbinds : m.store.Binds bound := binds_of_lookup hl
    obtain ⟨s, -, hbsize, bytes, hb⟩ := hs.holds_of_binds hbinds
    obtain ⟨hsize, c, hc, hn⟩ := hv
    split
    · rename_i htype
      refine (Runs.of_stores (stores_copy hs hP hb (fun _ => ⟨bound, hbinds, rfl⟩) hc
        (by rw [hsize, hbsize, htype]))).bind ?_
      rintro _ m₁ hsafe ⟨hsame, hputs⟩
      refine (runs_note hsafe.sound hsafe.live).bind ?_
      rintro _ _ hsafe' ⟨j, rfl⟩
      refine runs_pure hsafe'.sound hsafe'.live ?_
      have hscopes : m₁.scopes = m.scopes := hsame.scopes
      have hkept : m.scopes.Kept m₁.scopes := by
        rw [hscopes]
        exact .refl hs.nonempty
      exact ⟨hkept, .inr (binds_of_kept (σ := m.store) (τ := m₁.store) hkept hbinds)⟩
    · exact runs_discard_raise hs hP (by simpa using ⟨hsize, c, hc, hn⟩) (by simp [Fault.code])
  · rename_i hl
    refine Runs.bind_view ?_
    refine (Runs.of_stores (stores_handOver hs hP hv (o := .owned _) hs.currentId_open)).bind ?_
    rintro w m₁ hsafe ⟨-, hw⟩
    have hscopes : m₁.scopes = m.scopes := hw.scopes
    refine (runs_bindVariable hsafe.sound hsafe.live target (hscopes ▸ hw.holds) hw.spared
      hw.not_bound).bind ?_
    rintro _ _ hsafe' rfl
    refine (runs_note hsafe'.sound hsafe'.live).bind ?_
    rintro _ _ hsafe'' ⟨j, rfl⟩
    refine runs_pure hsafe''.sound hsafe''.live ?_
    obtain ⟨c, rest, hc⟩ := List.exists_cons_of_ne_nil hsafe.sound.nonempty
    refine ⟨?_, .inr (binds_bind_self (σ := m₁.store) hc target)⟩
    show m.scopes.Kept (m₁.scopes.bind target w)
    rw [← hscopes] at hl ⊢
    exact kept_bind (σ := m₁.store) hc target hl

theorem runs_printVariable {v : Variable} (hv : Result P m.store v) (line : Nat) :
    Runs P (printVariable v line) m (Yields P m) := by
  unfold printVariable
  refine (Runs.of_stores (stores_read hs hP (hv.usable hs))).bind ?_
  rintro value _ - ⟨-, rfl, -⟩
  refine (runs_echo hs hP).bind ?_
  rintro _ _ hsafe ⟨j, rfl⟩
  refine (runs_update hsafe.sound hsafe.live rfl).bind ?_
  rintro _ _ hsafe' rfl
  exact runs_pure hsafe'.sound hsafe'.live ⟨.refl hs.nonempty, hv⟩

theorem runs_testCondition (construct : Construct) {v : Variable} (hv : Usable P m.store v) :
    Runs P (testCondition construct v) m fun _ m' => m' = m := by
  unfold testCondition
  refine (Runs.of_stores (stores_read hs hP hv)).bind ?_
  rintro value _ - ⟨-, rfl, -⟩
  cases value with
  | number n => exact runs_discard_raise hs hP (by simpa using hv) (by simp [Fault.code])
  | boolean b => exact runs_pure hs hP rfl

theorem runs_findFunction (name : String) :
    Runs P (findFunction name) m fun _ m' => m' = m := by
  have hrefl : Safe P m m := .refl hs hP
  exact Spec.findFunction (fun _ _ _ => ⟨hrefl, rfl⟩) ⟨by simp [Tolerable, Fault.code], hrefl⟩
    fun _ => ⟨by simp [Tolerable, Fault.code], hrefl⟩

end Expressions

/-! ## Statements -/

/-- `v` was handed to the caller of the innermost function. -/
def Returned (P : Pointer → Prop) (σ : Store) (v : Variable) : Prop :=
  ∃ caller, σ.scopes.callerId? = some caller ∧ σ.Holds v (.temporary caller) ∧ ¬ P v.pointer

/-- What executing a statement leaves. -/
def Left (P : Pointer → Prop) (m m' : Machine) : Prop :=
  ∃ kept, m.scopes.Kept kept ∧
    (m'.scopes = kept ∨
      (m'.signal = .ret ∧
        ∃ value, m'.scopes = kept.setReturnValue value ∧ ∀ v ∈ value, Returned P m'.store v))

section Statements

variable {P : Pointer → Prop} {m m₁ m₂ : Machine}

theorem Left.of_kept (h : m.scopes.Kept m₁.scopes) : Left P m m₁ := ⟨_, h, .inl rfl⟩

theorem Left.trans (h₁ : m.scopes.Kept m₁.scopes) (h₂ : Left P m₁ m₂) : Left P m m₂ := by
  obtain ⟨kept, hk, h⟩ := h₂
  exact ⟨kept, h₁.trans hk, h⟩

/-- Without a `return` the scopes are as they were. -/
theorem Left.kept (h : Left P m m₁) (hsig : m₁.signal ≠ .ret) : m.scopes.Kept m₁.scopes := by
  obtain ⟨kept, hk, heq | ⟨hret, -⟩⟩ := h
  · rw [heq]
    exact hk
  · exact absurd hret hsig

theorem Left.trace (h : Left P m m₁) : m₁.scopes.trace = m.scopes.trace := by
  obtain ⟨kept, hk, heq | ⟨-, value, heq, -⟩⟩ := h
  · rw [heq, hk.trace]
  · rw [heq, ScopeStack.trace_setReturnValue, hk.trace]

theorem Left.of_store (h : Left P m m₁) (hstore : m₂.store = m₁.store)
    (hsig : m₁.signal = .ret → m₂.signal = .ret) : Left P m m₂ := by
  have hscopes : m₂.scopes = m₁.scopes := congrArg Store.scopes hstore
  obtain ⟨kept, hk, heq | ⟨hret, value, hv, hr⟩⟩ := h
  · exact ⟨kept, hk, .inl (hscopes.trans heq)⟩
  · exact ⟨kept, hk, .inr ⟨hsig hret, value, hscopes.trans hv, by rw [hstore]; exact hr⟩⟩

variable (hs : m.store.Sound) (hP : ∀ p, P p → m.store.Live p)
include hs hP

theorem runs_defineFunction (f : FunctionDef) :
    Runs P (defineFunction f) m (fun _ m' => Left P m m') := by
  unfold defineFunction
  refine (runs_note hs hP).bind ?_
  rintro _ _ hsafe ⟨j, rfl⟩
  have hsafe' : Safe P { m with journal := j }
      { m with journal := j, scopes := m.scopes.define f } :=
    ⟨hs.relabel (core_define _ f) (ScopeStack.nextId_define _ f), .relabel (core_define _ f) hP⟩
  exact Spec.update hsafe' ⟨hsafe', .of_kept (.define hs.nonempty f)⟩

theorem runs_handBack {value : Option Variable} (hv : ∀ v ∈ value, Usable P m.store v)
    {caller : ScopeId} (hc : m.scopes.callerId? = some caller) :
    Runs P (handBack caller value) m fun returned m' =>
      m.SameButHeap m' ∧ ∀ v ∈ returned, Returned P m'.store v := by
  cases value with
  | none => exact runs_pure hs hP ⟨.refl m, fun _ h => by cases h⟩
  | some v =>
    have hopen : m.store.Open caller := ScopeStack.mem_of_callerId? hc
    refine (Runs.of_stores (stores_handOver hs hP (hv v rfl) (o := .temporary caller) hopen)).bind ?_
    rintro w m₁ hsafe ⟨hsame, hw⟩
    refine runs_pure hsafe.sound hsafe.live ⟨hsame, ?_⟩
    rintro _ ⟨⟩
    exact ⟨caller, by rw [hw.scopes]; exact hc, hw.holds, hw.spared⟩

theorem runs_leaveFunction {value : Option Variable} (hv : ∀ v ∈ value, Usable P m.store v) :
    Runs P (leaveFunction value) m fun _ m' => Left P m m' := by
  unfold leaveFunction storeReturned
  refine Runs.bind (Q := fun _ m' => Left P m { m' with signal := .ret }) (.bind_view ?_) ?_
  · split
    · rename_i caller hcaller
      refine (runs_handBack hs hP hv hcaller).bind ?_
      rintro returned m₁ hsafe ⟨hsame, hr⟩
      have hcore := core_storeReturn returned m₁.scopes.contexts
      have hsafe' : Safe P m₁ { m₁ with scopes := m₁.scopes.setReturnValue returned } :=
        ⟨hsafe.sound.relabel hcore rfl, .relabel hcore hsafe.live⟩
      refine Spec.update hsafe' ⟨hsafe', m.scopes, .refl hs.nonempty, .inr ⟨rfl, returned, ?_, ?_⟩⟩
      · show m₁.scopes.setReturnValue returned = _
        rw [hsame.scopes]
      · intro v hvr
        obtain ⟨caller', hcaller', hh, hn⟩ := hr v hvr
        refine ⟨caller', ?_, hh, hn⟩
        rw [← hcaller']
        exact ScopeStack.callerId?_eq_of_trace (ScopeStack.trace_setReturnValue _ _)
    · refine (runs_note hs hP).mono ?_
      rintro _ _ - ⟨j, rfl⟩
      exact .of_kept (.refl hs.nonempty)
  · rintro _ m₁ hsafe hl
    refine (runs_setSignal hsafe.sound hsafe.live).mono ?_
    rintro _ _ - rfl
    exact hl

omit hP in
theorem runs_sweepFrom {floor : ScopeId} (hf : m.scopes.sweepFloor ≤ floor)
    (hH : ∀ p, P p → m.store.Held p) :
    Runs P (sweepFrom floor) m fun _ m' => m.SameButHeap m' := by
  refine (Runs.of_stores (stores_freeWhere hs (fun p hp => (hH p hp).live) (fun _ => rfl) ?_)).mono
    fun _ _ _ h => h.1
  intro p b hp hb
  obtain ⟨b', hb', ht⟩ := hH p hp
  rw [hb, Option.some.injEq] at hb'
  subst hb'
  cases hown : b.owner with
  | owned s => rfl
  | temporary s =>
    rw [hown] at ht
    have hlt : ¬ m.store.scopes.sweepFloor ≤ s := by simpa [Ownership.isTemporaryFrom] using ht
    have : ¬ floor ≤ s := fun h => hlt (Nat.le_trans hf h)
    simpa [Ownership.isTemporaryFrom] using this

/-! What is held outlives the sweeps. -/

omit hP in
theorem runs_sweepStatement (hH : ∀ p, P p → m.store.Held p) :
    Runs P sweepStatement m fun _ m' => m.SameButHeap m' := by
  have hP := fun p hp => (hH p hp).live
  unfold sweepStatement
  refine Runs.bind_view ?_
  split
  · refine Runs.bind_view ?_
    refine (runs_sweepFrom hs (Nat.le_refl _) hH).bind ?_
    intro count m₁ hsafe hsame
    split
    · refine (runs_note hsafe.sound hsafe.live).mono ?_
      rintro _ _ - ⟨j, rfl⟩
      exact hsame.trans rfl
    · exact runs_pure hsafe.sound hsafe.live hsame
  · exact runs_pure hs hP (.refl m)

omit hP in
theorem runs_finishStatement (hH : ∀ p, P p → m.store.Held p) :
    Runs P finishStatement m fun _ m' => m'.scopes = m.scopes ∧ m'.signal = m.signal := by
  unfold finishStatement
  refine (runs_sweepStatement hs hH).bind ?_
  rintro _ m₁ hsafe hsame
  refine (runs_takeSnapshot hsafe.sound hsafe.live).mono ?_
  rintro _ _ - ⟨h, rfl⟩
  exact ⟨hsame.scopes, by rw [hsame]⟩

omit hP in
theorem runs_sweepCondition (hH : ∀ p, P p → m.store.Held p) :
    Runs P sweepCondition m fun _ m' => m.SameButHeap m' := by
  have hP := fun p hp => (hH p hp).live
  unfold sweepCondition
  refine Runs.bind_view ?_
  split
  · refine Runs.bind_view ?_
    refine (runs_sweepFrom hs hs.sweepFloor_le hH).bind ?_
    intro count m₁ hsafe hsame
    exact runs_pure hsafe.sound hsafe.live hsame
  · exact runs_pure hs hP (.refl m)

omit hP in
theorem runs_loopCondition {condition : Option (Exec Variable)}
    (hH : ∀ p, P p → m.store.Held p)
    (hc : ∀ x ∈ condition, Runs P x m (Yields P m)) :
    Runs P (loopCondition condition) m fun _ m' => m.scopes.Kept m'.scopes := by
  have hP := fun p hp => (hH p hp).live
  cases condition with
  | none => exact runs_pure hs hP (.refl hs.nonempty)
  | some x =>
    refine (hc x rfl).bind ?_
    rintro v m₁ hsafe ⟨hkept, hv⟩
    refine (runs_testCondition hsafe.sound hsafe.live .loop (hv.usable hsafe.sound)).bind ?_
    rintro proceed _ - rfl
    have hH₁ := hsafe.frame.held (ScopeStack.sweepFloor_eq_of_trace hkept.trace) hH
    refine (runs_sweepCondition hsafe.sound hH₁).bind ?_
    intro _ m₂ hsafe₂ hsame
    refine runs_pure hsafe₂.sound hsafe₂.live ?_
    rw [hsame.scopes]
    exact hkept

theorem runs_finishRound :
    Runs P finishRound m fun again m' =>
      m'.store = m.store ∧ (m.signal = .ret → m'.signal = .ret) ∧
        (again = true → m'.signal = .normal) := by
  unfold finishRound
  refine Runs.bind_view ?_
  split
  · rename_i hsig
    exact runs_pure hs hP ⟨rfl, fun h => h, fun _ => hsig⟩
  · rename_i hsig
    refine (runs_setSignal hs hP).bind ?_
    rintro _ _ hsafe rfl
    refine runs_pure hsafe.sound hsafe.live ⟨rfl, fun h => ?_, fun _ => rfl⟩
    rw [h] at hsig
    cases hsig
  · exact runs_pure hs hP ⟨rfl, fun h => h, fun h => by cases h⟩

end Statements

end Exec

end HeapWalk
