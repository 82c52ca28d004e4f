import HeapWalk.Proofs.Footprint
import HeapWalk.Proofs.Session

/-!
# What statements leave in the heap

Whatever is live when an expression or a statement is done was live before under the same owner, is
the storage of a binding, or is a temporary that does not last: the next sweep takes it, or it is
the value of a pending `return` (`Store.Tidy`). So with sweeping on, a statement of a list leaves
exactly what it found, but for the temporaries that were due and with the storage of the names that
it bound.
-/

set_option autoImplicit false

namespace HeapWalk

open Store

theorem Ownership.le_scope {floor : ScopeId} {o : Ownership}
    (h : o.isTemporaryFrom floor = true) : floor ≤ o.scope := by
  cases o with
  | temporary id => exact of_decide_eq_true h
  | owned id => cases h

namespace Store

variable {σ τ υ : Store}

/-- Whatever is live in `τ` was live in `σ` under the same owner, or is in `New`. -/
def Adds (New : Pointer → Ownership → Prop) (σ τ : Store) : Prop :=
  ∀ p b, τ.block? p = some b →
    (∃ b₀, σ.block? p = some b₀ ∧ b₀.owner = b.owner) ∨ New p b.owner

/-- The ownership of what is handed to the caller of the innermost function. -/
def Outgoing (σ : Store) (o : Ownership) : Prop :=
  ∃ caller, σ.scopes.callerId? = some caller ∧ o = .temporary caller

/-- The ownership of a temporary that does not last: the next sweep of the current scope takes it,
or it is handed to the caller of the innermost function. -/
def Passing (σ : Store) (returning : Prop) (o : Ownership) : Prop :=
  o.isTemporaryFrom σ.scopes.currentId = true ∨ returning ∧ σ.Outgoing o

/-- `τ` is `σ` after something that leaves only bindings and passing temporaries behind. -/
structure Tidy (returning : Prop) (σ τ : Store) : Prop where
  trace : τ.scopes.trace = σ.scopes.trace
  bound : ∀ p, σ.Bound p → τ.Bound p
  adds : Adds (fun p o => τ.Bound p ∨ σ.Passing returning o) σ τ

/-! ## Additions -/

section Adds

variable {A B N : Pointer → Ownership → Prop}

theorem Adds.of_subset (h : ∀ p b, τ.block? p = some b → σ.block? p = some b) : Adds N σ τ :=
  fun p b hb => .inl ⟨b, h p b hb, rfl⟩

theorem Adds.of_puts {p : Pointer} {b : Block} (h : σ.Puts τ p (some b))
    (hnew : (∃ b₀, σ.block? p = some b₀ ∧ b₀.owner = b.owner) ∨ N p b.owner) :
    Adds N σ τ := by
  intro q c hc
  by_cases hq : q = p
  · subst hq
    rw [h.self, Option.some.injEq] at hc
    exact hc ▸ hnew
  · rw [h.other hq] at hc
    exact .inl ⟨c, hc, rfl⟩

theorem Adds.trans (h₁ : Adds A σ τ) (h₂ : Adds B τ υ) (hA : ∀ p o, A p o → N p o)
    (hB : ∀ p o, B p o → N p o) : Adds N σ υ := by
  intro p b hb
  rcases h₂ p b hb with ⟨b₁, hb₁, ho⟩ | hnew
  · rw [← ho]
    exact (h₁ p b₁ hb₁).imp_right (hA p b₁.owner)
  · exact .inr (hB p b.owner hnew)

end Adds

/-- What is live after a pop is still the storage of a binding, if it was. -/
theorem Pops.bound {c : Context} {rest : List Context} (h : σ.Pops τ c rest) (hs : σ.Sound)
    {p : Pointer} {b : Block} (hb : τ.block? p = some b) (hp : σ.Bound p) : τ.Bound p := by
  obtain ⟨hb, hne⟩ := h.block?_of_some hb
  obtain ⟨v, ⟨d, hd, n, hn⟩, rfl⟩ := hp
  obtain ⟨-, bytes, hv⟩ := hs.owned d hd n v hn
  rw [h.before] at hd
  rcases List.mem_cons.1 hd with rfl | hd
  · -- the storage of its names went with the popped context
    rw [hb, Option.some.injEq] at hv
    exact absurd (by rw [hv]; rfl) hne
  · exact ⟨v, ⟨d, by rw [h.scopes]; exact hd, n, hn⟩, rfl⟩

theorem Adds.pop {c : Context} {rest : List Context} {New New' : Ownership → Prop}
    (h : Adds (fun p o => τ.Bound p ∨ New o) σ τ) (hs : τ.Sound) (hpops : τ.Pops υ c rest)
    (hne : rest ≠ []) (hnew : ∀ o, υ.Open o.scope → New o → New' o) :
    Adds (fun p o => υ.Bound p ∨ New' o) σ υ := by
  intro p b hb
  rcases h p b (hpops.block?_of_some hb).1 with hold | hbound | ho
  · exact .inl hold
  · exact .inr (.inl (hpops.bound hs hb hbound))
  · exact .inr (.inr (hnew b.owner ((hpops.sound hs hne).housed p b hb) ho))

/-! ## Tidy changes -/

namespace Tidy

variable {r r' : Prop}

theorem of_scopes (hscopes : τ.scopes = σ.scopes)
    (h : Adds (fun _ o => σ.Passing r o) σ τ) : Tidy r σ τ := by
  refine ⟨by rw [hscopes], fun p hp => ?_, fun p b hb => (h p b hb).imp_right .inr⟩
  unfold Bound Binds at *
  rwa [hscopes]

theorem of_eq (h : τ = σ) : Tidy r σ τ := by
  subst h
  exact .of_scopes rfl (.of_subset fun _ _ hb => hb)

theorem of_kept (hk : σ.scopes.Kept τ.scopes)
    (h : Adds (fun p o => τ.Bound p ∨ σ.Passing r o) σ τ) : Tidy r σ τ := by
  refine ⟨hk.trace, ?_, h⟩
  rintro p ⟨v, hv, hp⟩
  exact ⟨v, binds_of_kept hk hv, hp⟩

theorem mono (h : Tidy r σ τ) (hr : r → r') : Tidy r' σ τ :=
  ⟨h.trace, h.bound,
    fun p b hb => (h.adds p b hb).imp_right (.imp_right (.imp_right (.imp_left hr)))⟩

theorem trans (h₁ : Tidy False σ τ) (h₂ : Tidy r τ υ) : Tidy r σ υ := by
  refine ⟨h₂.trace.trans h₁.trace, fun p hp => h₂.bound p (h₁.bound p hp),
    h₁.adds.trans h₂.adds ?_ ?_⟩
  · exact fun p o => Or.imp (h₂.bound p) fun h => h.imp_right fun h => h.1.elim
  · rw [show τ.Passing r = σ.Passing r by
      unfold Passing Outgoing
      rw [ScopeStack.currentId_eq_of_trace h₁.trace, ScopeStack.callerId?_eq_of_trace h₁.trace]]
    exact fun _ _ h => h

end Tidy

/-- A temporary of the current scope does not last. -/
theorem passing_current {r : Prop} : σ.Passing r (.temporary σ.scopes.currentId) :=
  .inl (by simp [Ownership.isTemporaryFrom])

/-- A temporary that belongs to the current scope or a later one is due at the next statement. -/
theorem Sound.isTemporaryFrom_sweepFloor (hs : σ.Sound) {o : Ownership}
    (h : o.isTemporaryFrom σ.scopes.currentId = true) :
    o.isTemporaryFrom σ.scopes.sweepFloor = true := by
  cases o with
  | temporary id =>
    simp only [Ownership.isTemporaryFrom, decide_eq_true_eq] at h ⊢
    exact Nat.le_trans hs.sweepFloor_le h
  | owned id => cases h

end Store

namespace Exec

variable {α β : Type} {P : Pointer → Prop} {m m₁ m₂ : Machine}

/-- If the computation is done, what it leaves is in `Q`. -/
def Ends (x : Exec α) (m : Machine) (Q : α → Machine → Prop) : Prop :=
  Spec x m (fun _ => True) (fun _ _ => True) Q

theorem Ends.mono {x : Exec α} {Q R : α → Machine → Prop} (h : Ends x m Q)
    (hR : ∀ a m', Q a m' → R a m') : Ends x m R :=
  Spec.mono h (fun _ h => h) (fun _ _ h => h) hR

/-- A question to the heap that is answered changes nothing. -/
theorem Ends.bind_askHeap {f : Heap → Except HeapError α} {g : α → Exec β}
    {Q : β → Machine → Prop} (h : ∀ a, Ends (g a) m Q) : Ends (askHeap f >>= g) m Q :=
  Spec.bind (Spec.askHeap (fun a _ => h a) fun _ _ => trivial)

theorem Ends.bind_readNumber {op : UnaryOp} {v : Variable} {g : Number → Exec β}
    {Q : β → Machine → Prop} (h : ∀ n, Ends (g n) m Q) : Ends (readNumber op v >>= g) m Q := by
  refine Spec.bind (Ends.bind_askHeap fun value => ?_)
  cases value with
  | number n => exact Spec.pure (h n)
  | boolean b => exact Spec.raise trivial

theorem Ends.bind_view {f : Machine → α} {g : α → Exec β} {Q : β → Machine → Prop}
    (h : Ends (g (f m)) m Q) : Ends (view f >>= g) m Q :=
  Spec.bind (Spec.view h)

/-- What raises a fault at last is not done. -/
theorem Ends.raise_after (x : Exec α) (e : Fault) {Q : β → Machine → Prop} :
    Ends (do let _ ← x; raise e) m Q :=
  Spec.bind ⟨fun _ _ => trivial, fun _ _ _ => Spec.raise trivial, fun _ _ _ => trivial,
    fun _ _ => trivial⟩

theorem Stores.ends {x : Exec α} {Q : α → Machine → Prop} (h : Stores P x m Q) : Ends x m Q :=
  Spec.mono h (fun _ _ => trivial) (fun _ _ _ => trivial) fun _ _ h => h.2

theorem Runs.ends {x : Exec α} {Q : α → Machine → Prop} (h : Runs P x m Q) : Ends x m Q :=
  Spec.mono h (fun _ _ => trivial) (fun _ _ _ => trivial) fun _ _ h => h.2

theorem Runs.ends_bind {x : Exec α} {f : α → Exec β} {Q : α → Machine → Prop}
    {R : β → Machine → Prop} (h : Runs P x m Q)
    (hf : ∀ a m₁, Safe P m m₁ → Q a m₁ → Ends (f a) m₁ R) : Ends (x >>= f) m R :=
  Spec.bind (Spec.mono h (fun _ _ => trivial) (fun _ _ _ => trivial) fun a m₁ h =>
    hf a m₁ h.1 h.2)

theorem Runs.and_ends {x : Exec α} {Q R : α → Machine → Prop} (h : Runs P x m Q)
    (hx : Ends x m R) : Runs P x m fun a m' => Q a m' ∧ R a m' :=
  ⟨h.passes, fun a m' ho => ⟨(h.done a m' ho).1, (h.done a m' ho).2, hx.done a m' ho⟩,
    h.fault, h.exhausted⟩

theorem Fixed.ends {x : Exec α} (h : Fixed x) : Ends x m fun _ => m.SameSetup :=
  (Leads.spec h m).mono (fun _ h => h) (fun _ _ _ => trivial) fun _ _ h => h

/-- Nothing is asked to survive. -/
def Nothing (_ : Pointer) : Prop := False

theorem Nothing.live {σ : Store} : ∀ p, Nothing p → σ.Live p := fun _ h => h.elim

theorem Nothing.held {σ : Store} : ∀ p, Nothing p → σ.Held p := fun _ h => h.elim

/-! ## Expressions -/

section Expressions

variable (hs : m.store.Sound)
include hs

theorem tidy_allocValue (value : Value) :
    Ends (allocValue value) m fun _ m' => Tidy False m.store m'.store := by
  refine (stores_allocValue hs Nothing.live value).ends.mono ?_
  rintro v m' ⟨-, -, -, bytes, -, hputs⟩
  exact .of_scopes hputs.scopes (.of_puts hputs (.inr passing_current))

theorem tidy_readIdentifier (name : String) :
    Ends (readIdentifier name) m fun _ m' => Tidy False m.store m'.store := by
  unfold readIdentifier
  refine .bind_view ?_
  split
  · exact Spec.raise trivial
  · rename_i v hl
    obtain ⟨s, -, -, bytes, hb⟩ := hs.holds_of_binds (binds_of_lookup (σ := m.store) hl)
    refine .bind_view ?_
    refine (stores_duplicate hs Nothing.live hb (o := .temporary _) hs.currentId_open).ends.mono ?_
    rintro w m' ⟨-, -, -, hputs⟩
    exact .of_scopes hputs.scopes (.of_puts hputs (.inr passing_current))

theorem tidy_applyUnary (op : UnaryOp) (v : Variable) :
    Ends (applyUnary op v) m fun _ m' => Tidy False m.store m'.store := by
  unfold applyUnary
  split
  · exact .bind_readNumber fun n => tidy_allocValue hs _
  · exact .raise_after _ _

theorem tidy_applyBinary (op : BinaryOp) (l r : Variable) :
    Ends (applyBinary op l r) m fun _ m' => Tidy False m.store m'.store := by
  refine .bind_askHeap fun a => .bind_askHeap fun b => ?_
  split
  · exact tidy_allocValue hs _
  · exact .raise_after _ _

theorem tidy_assign (target : String) {v : Variable} (hv : Usable Nothing m.store v) :
    Ends (assign target v) m fun _ m' => Tidy False m.store m'.store := by
  unfold assign
  refine .bind_view ?_
  split
  · rename_i bound hl
    have hbinds : m.store.Binds bound := binds_of_lookup hl
    obtain ⟨s, -, hbsize, bytes, hb⟩ := hs.holds_of_binds hbinds
    obtain ⟨hsize, c, hc, -⟩ := hv
    split
    · rename_i htype
      refine (Runs.of_stores (stores_copy hs Nothing.live hb (fun _ => ⟨bound, hbinds, rfl⟩) hc
        (by rw [hsize, hbsize, htype]))).ends_bind ?_
      rintro _ m₁ - ⟨-, hputs⟩
      refine Spec.bind (Spec.note (fun _ => trivial) fun j => Spec.pure ?_)
      exact .of_scopes hputs.scopes (.of_puts hputs (.inl ⟨_, hb, rfl⟩))
    · exact .raise_after _ _
  · rename_i hl
    refine .bind_view ?_
    refine (Runs.of_stores (stores_handOver hs Nothing.live hv (o := .owned _)
      hs.currentId_open)).ends_bind ?_
    rintro w m₁ hsafe ⟨-, hw⟩
    refine Spec.bind (Spec.update trivial (Spec.bind (Spec.note (fun _ => trivial) fun j =>
      Spec.pure ?_)))
    obtain ⟨c, rest, hc⟩ := List.exists_cons_of_ne_nil hsafe.sound.nonempty
    obtain ⟨b, -, hputs⟩ := hw.puts
    have hscopes : m₁.scopes = m.scopes := hputs.scopes
    refine .of_kept ?_ (fun p d hd => ?_)
    · show m.scopes.Kept (m₁.scopes.bind target w)
      rw [← hscopes] at hl ⊢
      exact kept_bind (σ := m₁.store) hc target hl
    · -- the new storage is that of the new name
      refine (Adds.of_puts (N := fun q _ => q = w.pointer) hputs (.inr rfl) p d hd).imp_right ?_
      rintro rfl
      exact .inl ⟨w, binds_bind_self (σ := m₁.store) hc target, rfl⟩

omit hs in
theorem store_printVariable (v : Variable) (line : Nat) :
    Ends (printVariable v line) m fun _ m' => m'.store = m.store := by
  refine .bind_askHeap fun value => Spec.bind (Spec.echo (fun _ => trivial) fun j => ?_)
  exact Spec.bind (Spec.update trivial (Spec.pure rfl))

end Expressions

/-! ## Sweeps -/

/-- `m'` is `m` without some of what was live, among it, with sweeping on, each temporary of the
scope `floor` and of later ones. -/
structure Swept (floor : ScopeId) (m m' : Machine) : Prop where
  scopes : m'.scopes = m.scopes
  live : ∀ q b, m'.store.block? q = some b → m.store.block? q = some b
  due : m.config.sweep = true → ∀ q b, m'.store.block? q = some b →
    b.owner.isTemporaryFrom floor = false

theorem Swept.tidy {floor : ScopeId} (h : Swept floor m m₁) : Tidy False m.store m₁.store :=
  .of_scopes h.scopes (.of_subset h.live)

section Sweeps

variable (hs : m.store.Sound)
include hs

theorem ends_sweepFrom (floor : ScopeId) :
    Ends (sweepFrom floor) m fun _ m' => m'.scopes = m.scopes ∧
      ∀ q b, m'.store.block? q = some b →
        m.store.block? q = some b ∧ b.owner.isTemporaryFrom floor = false := by
  refine (Runs.of_stores (stores_freeWhere hs Nothing.live (fun _ => rfl)
    fun _ _ h => h.elim)).ends.mono ?_
  rintro _ m' ⟨hsame, hblocks⟩
  refine ⟨hsame.scopes, fun q b hb => ?_⟩
  rw [hblocks, Option.filter_eq_some_iff] at hb
  exact ⟨hb.1, by simpa using hb.2⟩

theorem swept_sweepStatement :
    Ends sweepStatement m fun _ => Swept m.scopes.sweepFloor m := by
  unfold sweepStatement
  refine .bind_view ?_
  split
  · refine .bind_view (Spec.bind ((ends_sweepFrom hs _).mono ?_))
    rintro count m₁ ⟨hscopes, hblocks⟩
    have hswept : ∀ j, Swept m.scopes.sweepFloor m { m₁ with journal := j } := fun _ =>
      ⟨hscopes, fun q b hb => (hblocks q b hb).1, fun _ q b hb => (hblocks q b hb).2⟩
    split
    · exact Spec.note (fun _ => trivial) hswept
    · exact Spec.pure (hswept m₁.journal)
  · rename_i hoff
    exact Spec.pure ⟨rfl, fun _ _ hb => hb, fun hon => absurd hon hoff⟩

theorem swept_finishStatement :
    Ends finishStatement m fun _ => Swept m.scopes.sweepFloor m := by
  refine ((runs_sweepStatement hs Nothing.held).and_ends (swept_sweepStatement hs)).ends_bind ?_
  rintro _ m₁ hsafe ⟨-, hswept⟩
  refine (runs_takeSnapshot hsafe.sound Nothing.live).ends.mono ?_
  rintro _ _ ⟨hist, rfl⟩
  exact ⟨hswept.scopes, hswept.live, hswept.due⟩

theorem swept_sweepCondition :
    Ends sweepCondition m fun _ => Swept m.scopes.currentId m := by
  unfold sweepCondition
  refine .bind_view ?_
  split
  · refine .bind_view (Spec.bind ((ends_sweepFrom hs _).mono ?_))
    rintro _ m₁ ⟨hscopes, hblocks⟩
    exact Spec.pure ⟨hscopes, fun q b hb => (hblocks q b hb).1, fun _ q b hb => (hblocks q b hb).2⟩
  · rename_i hoff
    exact Spec.pure ⟨rfl, fun _ _ hb => hb, fun hon => absurd hon hoff⟩

end Sweeps

/-! ## Returning -/

theorem Left.bound (h : Left P m m₁) {p : Pointer} (hp : m.store.Bound p) : m₁.store.Bound p := by
  obtain ⟨v, hv, rfl⟩ := hp
  obtain ⟨kept, hk, heq | ⟨-, value, heq, -⟩⟩ := h
  · exact ⟨v, binds_of_kept (τ := m₁.store) (by rw [← heq] at hk; exact hk) hv, rfl⟩
  · have hkept : Binds ⟨m₁.heap, kept⟩ v := binds_of_kept (τ := ⟨m₁.heap, kept⟩) hk hv
    have hcore := core_storeReturn value kept.contexts
    refine ⟨v, ?_, rfl⟩
    rw [Machine.store, heq]
    exact (binds_relabel (σ := ⟨m₁.heap, kept⟩) (t := kept.setReturnValue value) hcore).2 hkept

theorem Left.tidy (h : Left P m m₁) {r : Prop}
    (hadds : Adds (fun p o => m₁.store.Bound p ∨ m.store.Passing r o) m.store m₁.store) :
    Tidy r m.store m₁.store :=
  ⟨h.trace, fun _ => h.bound, hadds⟩

theorem tidy_leaveFunction (hs : m.store.Sound) {value : Option Variable}
    (hv : ∀ v ∈ value, Usable Nothing m.store v) :
    Ends (leaveFunction value) m fun _ m' => Tidy (m'.signal = .ret) m.store m'.store := by
  have hadds : Ends (leaveFunction value) m fun _ m' =>
      m'.signal = .ret ∧ Adds (fun _ o => m.store.Passing True o) m.store m'.store := by
    refine Spec.bind (Q := fun _ m' => m'.signal = .ret ∧ _) (Ends.bind_view ?_)
    split
    · rename_i caller hcaller
      cases value with
      | none =>
        refine Spec.bind (Spec.pure (Spec.update trivial (Spec.update trivial ⟨rfl, ?_⟩)))
        exact .of_subset fun _ _ hb => hb
      | some v =>
        have hopen : m.store.Open caller := ScopeStack.mem_of_callerId? hcaller
        refine Spec.bind (Spec.bind ((stores_handOver hs Nothing.live (hv v rfl)
          (o := .temporary caller) hopen).ends.mono ?_))
        intro w m₁ hw
        obtain ⟨b, -, hputs⟩ := hw.puts
        have hadds : Adds (fun _ o => m.store.Passing True o) m.store m₁.store :=
          .of_puts hputs (.inr (.inr ⟨trivial, caller, hcaller, rfl⟩))
        refine Spec.pure (Spec.update trivial (Spec.update trivial ⟨rfl, ?_⟩))
        exact hadds
    · refine Spec.note (fun _ => trivial) fun j => Spec.update trivial ⟨rfl, ?_⟩
      exact .of_subset fun _ _ hb => hb
  refine ((runs_leaveFunction hs Nothing.live hv).and_ends hadds).ends.mono ?_
  rintro _ m' ⟨hleft, hret, hadds⟩
  refine (hleft.tidy fun p b hb => (hadds p b hb).imp_right .inr).mono fun _ => hret

/-! ## Scopes of constructs -/

section Constructs

variable {kind : ScopeKind} {name : String} {body : ScopeId → Exec α} (hs : m.store.Sound)
  (hk : kind ≠ .function)
  (hbody : ∀ id m₁, m₁.store.Sound → Runs Nothing (body id) m₁ fun _ m₂ =>
    Left Nothing m₁ m₂ ∧ Tidy (m₂.signal = .ret) m₁.store m₂.store)
include hs hk hbody

/-- The temporaries of a construct go with its scope. -/
theorem adds_withScope :
    Ends (withScope kind name body) m fun _ m' =>
      Adds (fun p o => m'.store.Bound p ∨ (m'.signal = .ret ∧ m.store.Outgoing o))
        m.store m'.store := by
  unfold withScope
  refine (runs_enterScope hs Nothing.live kind name).ends_bind ?_
  rintro id _ hsafe₁ ⟨rfl, j, rfl⟩
  refine (hbody _ _ hsafe₁.sound).ends_bind ?_
  rintro a m₂ hsafe₂ ⟨hleft, htidy⟩
  obtain ⟨-, c, rest, hc, hid, hrest⟩ := hleft.of_push hk rfl
  have hne : rest ≠ [] := by
    rcases hrest with rfl | ⟨-, value, rfl, -⟩
    · exact hs.nonempty
    · exact storeReturn_ne_nil hs.nonempty
  refine (runs_exitScope hsafe₂.sound Nothing.live hc hne fun _ _ h => h.elim).ends_bind ?_
  rintro _ m₃ - ⟨hpops, hsig⟩
  refine Spec.pure ?_
  rw [hsig]
  refine Adds.pop (σ := m.store) htidy.adds hsafe₂.sound hpops hne ?_
  rintro o ⟨d, hd, hdid⟩ (ho | ⟨hret, ho⟩)
  · -- no scope so young is open any more
    have hids := hsafe₂.sound.ids
    rw [show m₂.store.scopes.contexts = _ from hc] at hids
    rw [hpops.scopes] at hd
    have hlt : o.scope < m.scopes.nextId := hdid ▸ hid ▸ List.rel_of_pairwise_cons hids hd
    exact absurd (Ownership.le_scope ho) (Nat.not_le.2 hlt)
  · refine ⟨hret, ?_⟩
    unfold Outgoing at ho ⊢
    rwa [← ScopeStack.callerId?_push hk]

theorem tidy_withScope :
    Ends (withScope kind name body) m fun _ m' => Tidy (m'.signal = .ret) m.store m'.store := by
  have hwhole : Runs Nothing (withScope kind name body) m fun _ m' => Left Nothing m m' ∧ True :=
    runs_withScope (R := fun _ _ => True) hs hk Nothing.held fun id m₁ hs₁ _ =>
      (hbody id m₁ hs₁).mono fun _ _ _ h => ⟨h.1, trivial⟩
  refine (hwhole.and_ends (adds_withScope hs hk hbody)).ends.mono ?_
  rintro _ m' ⟨⟨hleft, -⟩, hadds⟩
  exact hleft.tidy fun p b hb => (hadds p b hb).imp_right (.imp_right .inr)

end Constructs

/-! ## Functions -/

theorem adds_bindParameters {pairs : List (String × Variable)} {c : Context} {rest : List Context}
    (hs : m.store.Sound) (hc : m.scopes.contexts = c :: rest)
    (hps : ∀ x ∈ pairs, Usable Nothing m.store x.2) :
    Ends (bindParameters c.id pairs) m fun _ m' =>
      Adds (fun _ o => o = .owned c.id) m.store m'.store := by
  induction pairs generalizing m c with
  | nil => exact Spec.pure (.of_subset fun _ _ hb => hb)
  | cons x pairs ih =>
    obtain ⟨param, actual⟩ := x
    have hid : m.scopes.currentId = c.id := by rw [ScopeStack.currentId, hc]
    have hopen : m.store.Open c.id := hid ▸ hs.currentId_open
    refine (Runs.of_stores (stores_handOver hs Nothing.live (hps _ List.mem_cons_self)
      (o := .owned c.id) hopen)).ends_bind ?_
    rintro w m₁ hsafe₁ ⟨-, hw⟩
    have hscopes : m₁.scopes = m.scopes := hw.scopes
    have hc₁ : m₁.scopes.contexts = c :: rest := by rw [hscopes, hc]
    refine (runs_bindVariable hsafe₁.sound Nothing.live param (hscopes ▸ hid ▸ hw.holds) hw.spared
      hw.not_bound).ends_bind ?_
    rintro _ _ hsafe₂ rfl
    refine (ih hsafe₂.sound (contexts_bind (σ := m₁.store) hc₁ param)
      fun y hy => hw.usable (hps y (List.mem_cons_of_mem _ hy))).mono fun _ m₃ h₃ => ?_
    obtain ⟨b, -, hputs⟩ := hw.puts
    have hadds : Adds (fun _ o => o = .owned c.id) m.store m₁.store := .of_puts hputs (.inr rfl)
    exact hadds.trans (τ := m₁.store) h₃ (fun _ _ h => h) fun _ _ h => h

/-- What executing any list of statements with the given fuel leaves. -/
def ListsTidy (fuel : Nat) : Prop :=
  ∀ ss m, m.store.Sound → Ends (execList fuel ss) m fun _ m' =>
    Tidy (m'.signal = .ret) m.store m'.store

/-- What the body of a function leaves, apart from what was there, belongs to a binding, to its own
scope or a later one, or is handed to the caller. -/
theorem adds_functionBody {fuel : Nat} (ih : ListsTidy fuel) {f : FunctionDef}
    {actuals : List Variable} {c caller : Context} {rest : List Context} (hs : m.store.Sound)
    (hc : m.scopes.contexts = c :: caller :: rest) (hf : c.isFunction = true)
    (hv : ∀ v ∈ actuals, Usable Nothing m.store v) :
    Ends (functionBody fuel f actuals c.id) m fun _ m' =>
      Adds (fun p o => m'.store.Bound p ∨ (c.id ≤ o.scope ∨ o = .temporary caller.id))
        m.store m'.store := by
  have hpairs : ∀ x ∈ f.params.zip actuals, Usable Nothing m.store x.2 :=
    fun x hx => hv x.2 (List.of_mem_zip hx).2
  refine ((runs_bindParameters hs Nothing.live hc hpairs).and_ends
    (adds_bindParameters hs hc hpairs)).ends_bind ?_
  rintro _ m₁ hsafe₁ ⟨⟨locals, h₁⟩, hadds⟩
  refine Spec.bind ((ih f.body m₁ hsafe₁.sound).mono fun _ m₂ htidy => ?_)
  refine Spec.bind (Spec.update trivial (Spec.view ?_))
  have hc₁ : m₁.scopes.contexts = { c with locals := locals } :: caller :: rest := by rw [h₁]
  refine hadds.trans htidy.adds ?_ fun p o => Or.imp_right ?_
  · rintro p o rfl
    exact .inr (.inl (Nat.le_refl _))
  · rintro (ho | ⟨-, id, hid, rfl⟩)
    · rw [show m₁.store.scopes = m₁.scopes from rfl, ScopeStack.currentId, hc₁] at ho
      exact .inl (Ownership.le_scope ho)
    · rw [show m₁.store.scopes = m₁.scopes from rfl,
        ScopeStack.callerId?_of_function hc₁ hf, Option.some.injEq] at hid
      exact .inr (by rw [hid])

theorem tidy_functionScope {fuel : Nat} (ih : ListsTidy fuel) {f : FunctionDef}
    {actuals : List Variable} (hs : m.store.Sound)
    (hv : ∀ v ∈ actuals, Usable Nothing m.store v) :
    Ends (withScope .function f.name (functionBody fuel f actuals)) m fun _ m' =>
      Tidy False m.store m'.store := by
  suffices hadds : Ends (withScope .function f.name (functionBody fuel f actuals)) m fun _ m' =>
      Adds (fun p o => m'.store.Bound p ∨ m.store.Passing False o) m.store m'.store from
    (((contract fuel).runs_functionScope hs Nothing.live hv).and_ends hadds).ends.mono
      fun _ _ ⟨hyields, hadds⟩ => .of_kept hyields.1 hadds
  obtain ⟨caller, rest, hcaller⟩ := List.exists_cons_of_ne_nil hs.nonempty
  unfold withScope
  refine (runs_enterScope hs Nothing.live .function f.name).ends_bind ?_
  rintro _ _ hsafe₁ ⟨rfl, j, rfl⟩
  have hctx : (m.scopes.push .function f.name).2.contexts =
      { id := m.scopes.nextId, kind := .function, name := f.name } :: caller :: rest := by
    rw [← hcaller]
    rfl
  refine (((contract fuel).runs_functionBody hsafe₁.sound Nothing.held hctx rfl rfl hv).and_ends
    (adds_functionBody ih hsafe₁.sound hctx rfl hv)).ends_bind ?_
  rintro r m₂ hsafe₂ ⟨⟨-, c, hc, hid, -⟩, hadds⟩
  refine (runs_exitScope hsafe₂.sound Nothing.live hc (List.cons_ne_nil _ _)
    fun _ _ h => h.elim).ends_bind ?_
  rintro _ m₃ - ⟨hpops, -⟩
  have hadds : Adds (fun p o => m₂.store.Bound p ∨
      (m.scopes.nextId ≤ o.scope ∨ o = .temporary caller.id)) m.store m₂.store := hadds
  refine Spec.pure (hadds.pop hsafe₂.sound hpops (List.cons_ne_nil _ _) ?_)
  rintro o ⟨d, hd, hdid⟩ (hle | rfl)
  · -- no scope so young is open any more
    rw [hpops.scopes, ← hcaller] at hd
    exact absurd (hdid ▸ hs.below d hd) (Nat.not_lt.2 hle)
  · have hcur : m.store.scopes.currentId = caller.id := by
      rw [ScopeStack.currentId, show m.store.scopes.contexts = _ from hcaller]
    exact hcur ▸ passing_current

/-! ## Evaluation -/

/-- What evaluation with the given fuel leaves in the heap. -/
structure Tidiness (fuel : Nat) : Prop where
  eval : ∀ e m, m.store.Sound → Ends (eval fuel e) m fun _ m' => Tidy False m.store m'.store
  actuals : ∀ f params args m, m.store.Sound →
    Ends (evalActuals fuel f params args) m fun _ m' => Tidy False m.store m'.store
  call : ∀ name args line m, m.store.Sound →
    Ends (call fuel name args line) m fun _ m' => Tidy False m.store m'.store
  exec : ∀ s m, m.store.Sound →
    Ends (exec fuel s) m fun _ m' => Tidy (m'.signal = .ret) m.store m'.store
  list : ListsTidy fuel
  loop : ∀ condition body rounds m, m.store.Sound →
    Ends (execLoop fuel condition body rounds) m fun _ m' =>
      Tidy (m'.signal = .ret) m.store m'.store

namespace Tidiness

theorem zero : Tidiness 0 where
  eval _ _ _ := Spec.outOfFuel trivial
  actuals _ _ _ _ _ := Spec.outOfFuel trivial
  call _ _ _ _ _ := Spec.outOfFuel trivial
  exec _ _ _ := Spec.outOfFuel trivial
  list _ _ _ := Spec.outOfFuel trivial
  loop _ _ _ _ _ := Spec.outOfFuel trivial

variable {fuel : Nat} (ih : Tidiness fuel) (hs : m.store.Sound)
include ih hs

/-! Tidiness, with the contract of the same evaluation. -/

theorem runs_eval (e : Expr) : Runs Nothing (Exec.eval fuel e) m fun v m' =>
    Yields Nothing m v m' ∧ Tidy False m.store m'.store :=
  ((contract fuel).eval hs Nothing.live).and_ends (ih.eval e m hs)

theorem runs_actuals (f : String) (params : List String) (args : List Expr) :
    Runs Nothing (evalActuals fuel f params args) m fun vs m' =>
      YieldsAll Nothing m vs m' ∧ Tidy False m.store m'.store :=
  ((contract fuel).actuals hs Nothing.live).and_ends (ih.actuals f params args m hs)

theorem runs_list (ss : List Stmt) : Runs Nothing (execList fuel ss) m fun _ m' =>
    Left Nothing m m' ∧ Tidy (m'.signal = .ret) m.store m'.store :=
  ((contract fuel).list hs Nothing.held).and_ends (ih.list ss m hs)

theorem eval_succ (e : Expr) :
    Ends (Exec.eval (fuel + 1) e) m fun _ m' => Tidy False m.store m'.store := by
  unfold Exec.eval
  refine (runs_goToLine hs Nothing.live).ends_bind ?_
  rintro _ m₁ hsafe₁ ⟨l, h₁⟩
  have hs₁ := hsafe₁.sound
  rw [← show m₁.store = m.store by rw [h₁]; rfl]
  cases e with
  | literal value line => exact tidy_allocValue hs₁ value
  | identifier name line => exact tidy_readIdentifier hs₁ name
  | unary op operand line =>
    refine (ih.runs_eval hs₁ operand).ends_bind ?_
    rintro v m₂ hsafe ⟨-, htidy⟩
    exact (tidy_applyUnary hsafe.sound op v).mono fun _ _ h => htidy.trans h
  | binary op left right line =>
    refine (ih.runs_eval hs₁ left).ends_bind ?_
    rintro l m₂ hsafe ⟨-, htidy⟩
    refine (ih.runs_eval hsafe.sound right).ends_bind ?_
    rintro r m₃ hsafe' ⟨-, htidy'⟩
    exact (tidy_applyBinary hsafe'.sound op l r).mono fun _ _ h => (htidy.trans htidy').trans h
  | assign target value line =>
    refine (ih.runs_eval hs₁ value).ends_bind ?_
    rintro v m₂ hsafe ⟨⟨-, hv⟩, htidy⟩
    exact (tidy_assign hsafe.sound target (hv.usable hsafe.sound)).mono fun _ _ h => htidy.trans h
  | print operand line =>
    refine (ih.runs_eval hs₁ operand).ends_bind ?_
    rintro v m₂ - ⟨-, htidy⟩
    exact (store_printVariable v line).mono fun _ _ h => htidy.trans (.of_eq h)
  | call name args line =>
    refine Spec.bind ((ih.call name args line m₁ hs₁).mono ?_)
    intro r m₂ htidy
    cases r with
    | none => exact Spec.raise trivial
    | some v => exact Spec.pure htidy
  | composite shape line => exact Spec.raise trivial

theorem actuals_succ (f : String) (params : List String) (args : List Expr) :
    Ends (evalActuals (fuel + 1) f params args) m fun _ m' => Tidy False m.store m'.store := by
  cases params with
  | nil => exact Spec.pure (.of_eq rfl)
  | cons param params =>
    cases args with
    | nil => exact Spec.raise trivial
    | cons arg args =>
      refine (ih.runs_eval hs arg).ends_bind ?_
      rintro v m₁ hsafe ⟨-, htidy⟩
      refine Spec.bind ((ih.actuals f params args m₁ hsafe.sound).mono fun vs m₂ h => ?_)
      exact Spec.pure (htidy.trans h)

theorem call_succ (name : String) (args : List Expr) (line : Nat) :
    Ends (Exec.call (fuel + 1) name args line) m fun _ m' => Tidy False m.store m'.store := by
  unfold Exec.call
  refine (runs_goToLine hs Nothing.live).ends_bind ?_
  rintro _ _ hsafe₁ ⟨l, rfl⟩
  refine .bind_view ?_
  refine (runs_findFunction hsafe₁.sound Nothing.live name).ends_bind ?_
  rintro f _ - rfl
  refine (ih.runs_actuals hsafe₁.sound f.name f.params args).ends_bind ?_
  rintro vs m₂ hsafe₂ ⟨⟨-, hvs⟩, htidy⟩
  refine Spec.bind (Spec.note (fun _ => trivial) fun j => Spec.bind ?_)
  refine (tidy_functionScope (m := { m₂ with journal := j }) ih.list hsafe₂.sound fun v hv =>
    (hvs v hv).usable hsafe₂.sound).mono fun r m₃ h => ?_
  exact Spec.bind (Spec.update trivial (Spec.pure (htidy.trans h)))

theorem block (name : String) (body : List Stmt) :
    Ends (withScope .block name fun _ => execList fuel body) m fun _ m' =>
      Tidy (m'.signal = .ret) m.store m'.store :=
  tidy_withScope hs (by simp) fun _ _ hs₁ => ih.runs_list hs₁ body

theorem exec_succ (s : Stmt) :
    Ends (Exec.exec (fuel + 1) s) m fun _ m' => Tidy (m'.signal = .ret) m.store m'.store := by
  unfold Exec.exec
  refine (runs_goToLine hs Nothing.live).ends_bind ?_
  rintro _ m₁ hsafe₁ ⟨l, h₁⟩
  have hs₁ := hsafe₁.sound
  rw [← show m₁.store = m.store by rw [h₁]; rfl]
  split
  · refine Spec.bind ((ih.call _ _ _ m₁ hs₁).mono fun _ _ h => Spec.pure ?_)
    exact h.mono False.elim
  · refine Spec.bind ((ih.eval _ m₁ hs₁).mono fun _ _ h => Spec.pure ?_)
    exact h.mono False.elim
  · exact ih.block hs₁ _ _
  · refine (ih.runs_eval hs₁ _).ends_bind ?_
    rintro v m₂ hsafe ⟨⟨-, hv⟩, htidy⟩
    refine (runs_testCondition hsafe.sound Nothing.live .cond (hv.usable hsafe.sound)).ends_bind ?_
    rintro b _ - rfl
    split
    · exact (ih.block hsafe.sound _ _).mono fun _ _ h => htidy.trans h
    · split
      · exact (ih.block hsafe.sound _ _).mono fun _ _ h => htidy.trans h
      · exact Spec.pure (htidy.mono False.elim)
  · exact ih.loop _ _ _ m₁ hs₁
  · refine Spec.bind (Spec.note (fun _ => trivial) fun j => Spec.update trivial ?_)
    exact .of_kept (.define hs₁.nonempty _) (.of_subset fun _ _ hb => hb)
  · exact tidy_leaveFunction hs₁ fun _ h => by cases h
  · refine (ih.runs_eval hs₁ _).ends_bind ?_
    rintro v m₂ hsafe ⟨⟨-, hv⟩, htidy⟩
    refine (tidy_leaveFunction hsafe.sound ?_).mono fun _ _ h => htidy.trans h
    rintro _ ⟨⟩
    exact hv.usable hsafe.sound
  · exact Spec.update trivial (.of_eq rfl)

theorem list_succ (ss : List Stmt) :
    Ends (execList (fuel + 1) ss) m fun _ m' => Tidy (m'.signal = .ret) m.store m'.store := by
  cases ss with
  | nil => exact Spec.pure (.of_eq rfl)
  | cons s rest =>
    refine (((contract fuel).exec hs Nothing.held).and_ends (ih.exec s m hs)).ends_bind ?_
    rintro _ m₁ hsafe₁ ⟨-, htidy₁⟩
    refine .bind_view ?_
    split
    · rename_i hsig
      have htidy₁ : Tidy False m.store m₁.store := htidy₁.mono (by simp [hsig])
      refine ((runs_finishStatement hsafe₁.sound Nothing.held).and_ends
        (swept_finishStatement hsafe₁.sound)).ends_bind ?_
      rintro _ m₂ hsafe₂ ⟨-, hswept⟩
      exact (ih.list rest m₂ hsafe₂.sound).mono fun _ _ h => (htidy₁.trans hswept.tidy).trans h
    · exact Spec.pure htidy₁

theorem loopCondition (condition : Option Expr) :
    Ends (Exec.loopCondition (condition.map fun c => Exec.eval fuel c)) m fun _ m' =>
      Tidy False m.store m'.store := by
  cases condition with
  | none => exact Spec.pure (.of_eq rfl)
  | some c =>
    refine (ih.runs_eval hs c).ends_bind ?_
    rintro v m₁ hsafe ⟨⟨-, hv⟩, htidy⟩
    refine (runs_testCondition hsafe.sound Nothing.live .loop (hv.usable hsafe.sound)).ends_bind ?_
    rintro proceed _ - rfl
    refine Spec.bind ((swept_sweepCondition hsafe.sound).mono fun _ m₂ hswept => Spec.pure ?_)
    exact htidy.trans hswept.tidy

theorem roundBody (body : List Stmt) :
    Runs Nothing (do execList fuel body; finishRound) m fun again m' =>
      (Left Nothing m m' ∧ (again = true → m'.signal = .normal)) ∧
        Tidy (m'.signal = .ret) m.store m'.store := by
  refine (ih.runs_list hs body).bind ?_
  rintro _ m₁ hsafe₁ ⟨hleft, htidy⟩
  refine (runs_finishRound hsafe₁.sound Nothing.live).mono ?_
  rintro again m₂ - ⟨hstore, hret, hagain⟩
  exact ⟨⟨hleft.of_store hstore hret, hagain⟩, by rw [hstore]; exact htidy.mono hret⟩

/-- One round of a loop. -/
theorem round (body : List Stmt) :
    Runs Nothing (withScope .loop "loop" fun _ => do execList fuel body; finishRound) m
      fun again m' => (again = true → m'.signal = .normal) ∧
        Tidy (m'.signal = .ret) m.store m'.store := by
  refine (((runs_withScope (R := fun again signal => again = true → signal = .normal) hs (by simp)
    Nothing.held fun _ _ hs₁ _ => (ih.roundBody hs₁ body).mono fun _ _ _ h => h.1).and_ends
      (tidy_withScope hs (by simp) fun _ _ hs₁ => (ih.roundBody hs₁ body).mono fun _ _ _ h =>
        ⟨h.1.1, h.2⟩))).mono ?_
  exact fun _ _ _ h => ⟨h.1.2, h.2⟩

/-- A round leaves storage of bindings, and what a pending `return` hands over. -/
theorem adds_round (body : List Stmt) :
    Ends (withScope .loop "loop" fun _ => do execList fuel body; finishRound) m fun _ m' =>
      Adds (fun p o => m'.store.Bound p ∨ (m'.signal = .ret ∧ m.store.Outgoing o))
        m.store m'.store :=
  adds_withScope hs (by simp) fun _ _ hs₁ => (ih.roundBody hs₁ body).mono fun _ _ _ h =>
    ⟨h.1.1, h.2⟩

theorem loop_succ (condition : Option Expr) (body : List Stmt) (rounds : Nat) :
    Ends (execLoop (fuel + 1) condition body rounds) m fun _ m' =>
      Tidy (m'.signal = .ret) m.store m'.store := by
  unfold execLoop
  refine ((runs_loopCondition hs Nothing.held fun x hx => ?_).and_ends
    (ih.loopCondition hs condition)).ends_bind ?_
  · obtain ⟨c, -, rfl⟩ := Option.map_eq_some_iff.1 hx
    exact (contract fuel).eval hs Nothing.live
  rintro proceed m₁ hsafe₁ ⟨-, htidy₁⟩
  split
  · refine (ih.round hsafe₁.sound body).ends_bind ?_
    rintro again m₂ hsafe₂ ⟨hagain, htidy₂⟩
    split
    · have htidy₂ : Tidy False m₁.store m₂.store :=
        htidy₂.mono (by simp [hagain (by assumption)])
      exact (ih.loop condition body _ m₂ hsafe₂.sound).mono fun _ _ h =>
        (htidy₁.trans htidy₂).trans h
    · exact Spec.note (fun _ => trivial) fun j => htidy₁.trans htidy₂
  · exact Spec.note (fun _ => trivial) fun j => htidy₁.mono False.elim

omit hs in
theorem succ : Tidiness (fuel + 1) where
  eval e _ hs := ih.eval_succ hs e
  actuals f params args _ hs := ih.actuals_succ hs f params args
  call name args line _ hs := ih.call_succ hs name args line
  exec s _ hs := ih.exec_succ hs s
  list ss _ hs := ih.list_succ hs ss
  loop condition body rounds _ hs := ih.loop_succ hs condition body rounds

end Tidiness

theorem tidiness (fuel : Nat) : Tidiness fuel := by
  induction fuel with
  | zero => exact .zero
  | succ fuel ih => exact ih.succ

/-! ## Statements of a list -/

section Lists

variable (hs : m.store.Sound)
include hs

/-- A statement of a list that leaves no signal, and the sweep that follows it. -/
theorem ends_statement (fuel : Nat) (s : Stmt) :
    Ends (execList fuel [s]) m fun _ m' => m'.signal = .normal →
      ∃ m₁, m₁.store.Sound ∧ m.scopes.Kept m₁.scopes ∧ m₁.config = m.config ∧
        Tidy False m.store m₁.store ∧ Swept m₁.scopes.sweepFloor m₁ m' := by
  cases fuel with
  | zero => exact Spec.outOfFuel trivial
  | succ fuel =>
    refine ((((contract fuel).exec hs Nothing.held).and_ends ((tidiness fuel).exec s m hs)).and_ends
      ((Regular.evaluation fuel).exec s).fixed.ends).ends_bind ?_
    intro _ m₁ hsafe ⟨⟨hleft, htidy⟩, hsetup⟩
    refine .bind_view ?_
    split
    · rename_i hsig
      have hkept : m.scopes.Kept m₁.scopes := hleft.kept (by simp [hsig])
      have htidy : Tidy False m.store m₁.store := htidy.mono (by simp [hsig])
      refine Spec.bind ((swept_finishStatement hsafe.sound).mono fun _ m₂ hswept => ?_)
      cases fuel with
      | zero => exact Spec.outOfFuel trivial
      | succ fuel => exact Spec.pure fun _ => ⟨m₁, hsafe.sound, hkept, hsetup.2, htidy, hswept⟩
    · rename_i hsig
      exact Spec.pure fun h => absurd h hsig

end Lists

/-- With sweeping on, a list of statements that leaves no signal leaves no temporary that is due. -/
theorem ends_list_swept (hs : m.store.Sound) (hsweep : m.config.sweep = true)
    (hdue : ∀ q b, m.store.block? q = some b →
      b.owner.isTemporaryFrom m.scopes.sweepFloor = false) (fuel : Nat) (ss : List Stmt) :
    Ends (execList fuel ss) m fun _ m' => m'.signal = .normal →
      ∀ q b, m'.store.block? q = some b → b.owner.isTemporaryFrom m.scopes.sweepFloor = false := by
  induction fuel generalizing ss m with
  | zero => exact Spec.outOfFuel trivial
  | succ fuel ih =>
    cases ss with
    | nil => exact Spec.pure fun _ => hdue
    | cons s rest =>
      refine (((contract fuel).exec hs Nothing.held).and_ends
        ((Regular.evaluation fuel).exec s).fixed.ends).ends_bind ?_
      intro _ m₁ hsafe₁ ⟨hleft, hsetup₁⟩
      refine .bind_view ?_
      split
      · refine (((runs_finishStatement hsafe₁.sound Nothing.held).and_ends
          (swept_finishStatement hsafe₁.sound)).and_ends
            Regular.finishStatement.fixed.ends).ends_bind ?_
        intro _ m₂ hsafe₂ ⟨⟨_, hswept⟩, hsetup₂⟩
        have hfloor : m₂.scopes.sweepFloor = m.scopes.sweepFloor := by
          rw [hswept.scopes]
          exact ScopeStack.sweepFloor_eq_of_trace hleft.trace
        rw [← hfloor]
        refine ih hsafe₂.sound ?_ ?_ rest
        · rw [hsetup₂.2, hsetup₁.2]
          exact hsweep
        · rw [hswept.scopes]
          exact hswept.due (by rw [hsetup₁.2]; exact hsweep)
      · rename_i hsig
        exact Spec.pure fun h => absurd h hsig

/-! ## Runs -/

/-- A run up to the end of its program. -/
def runProgram (fuel : Nat) : Exec Unit := do
  note .starting
  takeSnapshot
  let program ← view fun m => m.program
  recordingFault (execList fuel program)

theorem run_of_runProgram {fuel : Nat} (h : runProgram fuel m = .done () m₁) :
    run fuel m = finish m₁ := by
  obtain ⟨_, m₂, h₂, h⟩ := bind_eq_done.1 h
  obtain ⟨_, m₃, h₃, h⟩ := bind_eq_done.1 h
  obtain ⟨p, m₄, h₄, h⟩ := bind_eq_done.1 h
  simp only [run, bind_apply, h₂, h₃, h₄, h]

theorem ends_runProgram (hs : m.store.Sound) (fuel : Nat) :
    Ends (runProgram fuel) m fun _ m' => ∃ m₁, m₁.store = m.store ∧ m₁.config = m.config ∧
      execList fuel m.program m₁ = .done () m' := by
  refine Spec.bind (Spec.note (fun _ => trivial) fun j => ?_)
  refine (runs_takeSnapshot (m := { m with journal := j }) hs Nothing.live).ends_bind ?_
  rintro _ _ - ⟨h, rfl⟩
  refine .bind_view
    ⟨fun _ _ => trivial, fun _ m' ho => ?_, fun _ _ _ => trivial, fun _ _ => trivial⟩
  exact ⟨{ m with journal := j, history := h }, rfl, rfl, recordingFault_eq_done.1 ho⟩

theorem finish_eq_done (m : Machine) : ∃ m', finish m = .done () m' ∧ m'.store = m.store := by
  have hends : Ends finish m fun _ m' => m'.store = m.store :=
    Spec.bind (Spec.update trivial
      (Spec.bind (Spec.view (Spec.note (fun _ => trivial) fun _ => rfl))))
  exact ⟨_, rfl, hends.done () _ rfl⟩

end Exec

/-! ## Main result -/

theorem Store.Sound.mem_allocations {σ : Store} (hs : σ.Sound) {a : Allocation} :
    a ∈ σ.heap.allocations ↔ ∃ b, σ.block? a.pointer = some b ∧ b.owner = a.ownership := by
  constructor
  · intro ha
    exact ⟨⟨a.ownership, σ.heap.bytesAt a.pointer⟩, hs.heap.block?_eq_some.2 ⟨ha, rfl⟩, rfl⟩
  · intro ⟨b, hb, ho⟩
    have hmem := (hs.heap.block?_eq_some.1 hb).1
    rw [ho] at hmem
    exact hmem

/-- If everything live is bound in the one context there is. -/
theorem Store.Sound.mem_allocations_of_single {σ : Store} (hs : σ.Sound) {c : Context}
    (hc : σ.scopes.contexts = [c]) (hbound : ∀ p b, σ.block? p = some b → σ.Bound p)
    (a : Allocation) :
    a ∈ σ.heap.allocations ↔ ∃ n v, c.locals.get? n = some v ∧ a = ⟨v.pointer, .owned c.id⟩ := by
  have hmem : c ∈ σ.scopes.contexts := by rw [hc]; exact List.mem_singleton_self c
  refine hs.mem_allocations.trans ⟨?_, ?_⟩
  · intro ⟨b, hb, ho⟩
    obtain ⟨v, ⟨d, hd, n, hn⟩, hp⟩ := hbound a.pointer b hb
    rw [hc, List.mem_singleton] at hd
    subst hd
    obtain ⟨-, bytes, hv⟩ := hs.owned d hmem n v hn
    rw [hp, hb, Option.some.injEq] at hv
    refine ⟨n, v, hn, ?_⟩
    rw [hp, ← show a.ownership = .owned d.id by rw [← ho, hv]]
  · intro ⟨n, v, hn, ha⟩
    obtain ⟨-, bytes, hv⟩ := hs.owned c hmem n v hn
    rw [ha]
    exact ⟨_, hv, rfl⟩

/-- The storage of the names that the current context of `m'` has and that of `m` has not. -/
def Machine.NewlyBound (m m' : Machine) (a : Allocation) : Prop :=
  ∃ c c' n v, m.scopes.current? = some c ∧ m'.scopes.current? = some c' ∧
    c.locals.get? n = none ∧ c'.locals.get? n = some v ∧
    a = ⟨v.pointer, .owned m.scopes.currentId⟩

section Main

open Exec

variable {m m' m₁ : Machine} {fuel : Nat}

/-- What is bound after a statement was the storage of the same binding, or of none. -/
theorem Store.Sound.newlyBound (hs : m.store.Sound) (hs₁ : m₁.store.Sound)
    (hk : m.scopes.Kept m₁.scopes) (hscopes : m'.scopes = m₁.scopes) {p : Pointer} {b : Block}
    (hb : m₁.store.block? p = some b) (hp : m₁.store.Bound p) :
    (∃ b₀, m.store.block? p = some b₀ ∧ b₀.owner = b.owner) ∨ m.NewlyBound m' ⟨p, b.owner⟩ := by
  obtain ⟨v, ⟨d, hd, n, hn⟩, rfl⟩ := hp
  obtain ⟨-, bytes, hv⟩ := hs₁.owned d hd n v hn
  obtain rfl := Option.some.inj (hb.symm.trans hv)
  obtain ⟨-, c, c', rest, hc, hc', hg⟩ := hk
  have hid : c'.id = c.id := congrArg ScopeFrame.id hg.frame
  have hold : ∀ e ∈ m.scopes.contexts, e.locals.get? n = some v → e.id = d.id →
      ∃ b₀, m.store.block? v.pointer = some b₀ ∧ b₀.owner = .owned d.id := by
    intro e he hen hed
    obtain ⟨-, bytes₀, hb₀⟩ := hs.owned e he n v hen
    exact ⟨_, hb₀, by rw [hed]⟩
  rw [show m₁.store.scopes.contexts = _ from hc'] at hd
  rcases List.mem_cons.1 hd with rfl | hd
  · rcases hg.gained n v hn with hcn | hnone
    · exact .inl (hold c (by rw [hc]; exact List.mem_cons_self) hcn hid.symm)
    · refine .inr ⟨c, d, n, v, ?_, ?_, hnone c List.mem_cons_self, hn, ?_⟩
      · rw [ScopeStack.current?, hc, List.head?_cons]
      · rw [hscopes, ScopeStack.current?, hc', List.head?_cons]
      · rw [ScopeStack.currentId, hc, hid]
  · exact .inl (hold d (by rw [hc]; exact List.mem_cons_of_mem _ hd) hn rfl)

/-- With sweeping on, a statement of a list that leaves no signal leaves exactly what it found, but
for the temporaries that were due and with the storage of the names that it bound. -/
theorem Store.Sound.mem_allocations_statement (hs : m.store.Sound) (hsweep : m.config.sweep = true)
    {s : Stmt} (hdone : execList fuel [s] m = .done () m') (hend : m'.signal = .normal)
    (a : Allocation) :
    a ∈ m'.heap.allocations ↔
      (a ∈ m.heap.allocations ∧ a.ownership.isTemporaryFrom m.scopes.sweepFloor = false) ∨
        m.NewlyBound m' a := by
  obtain ⟨m₁, hs₁, hkept, hconfig, htidy, hswept⟩ :=
    (ends_statement hs fuel s).done () m' hdone hend
  obtain ⟨hsafe, -⟩ := ((contract fuel).list hs fun _ hp => hp).done () m' hdone
  have hfloor := ScopeStack.sweepFloor_eq_of_trace hkept.trace
  refine (hsafe.sound.mem_allocations (a := a)).trans ⟨?_, ?_⟩
  · intro ⟨b, hb, ho⟩
    have hb₁ := hswept.live _ _ hb
    have hdue := hswept.due (by rw [hconfig]; exact hsweep) _ _ hb
    rw [hfloor] at hdue
    have hadds := htidy.adds _ _ hb₁
    have hold : (∃ b₀, m.store.block? a.pointer = some b₀ ∧ b₀.owner = b.owner) →
        a ∈ m.heap.allocations ∧ a.ownership.isTemporaryFrom m.scopes.sweepFloor = false :=
      fun ⟨b₀, hb₀, ho₀⟩ => ⟨hs.mem_allocations.2 ⟨b₀, hb₀, ho₀.trans ho⟩, ho ▸ hdue⟩
    rcases hadds with h | hbound | ht | hf
    · exact .inl (hold h)
    · rcases hs.newlyBound hs₁ hkept hswept.scopes hb₁ hbound with h | hnew
      · exact .inl (hold h)
      · rw [ho] at hnew
        exact .inr hnew
    · have hdue' := hs.isTemporaryFrom_sweepFloor ht
      rw [show m.store.scopes = m.scopes from rfl, hdue] at hdue'
      cases hdue'
    · exact hf.1.elim
  · rintro (⟨ha, ht⟩ | ⟨c, c', n, v, hc, hc', -, hn, rfl⟩)
    · obtain ⟨b, hb, ho⟩ := hs.mem_allocations.1 ha
      obtain ⟨b₀, b', hb₀, hb', ho', -⟩ :=
        hsafe.frame.blocks a.pointer ⟨b, hb, by rw [ho]; exact ht⟩
      obtain rfl := Option.some.inj (hb.symm.trans hb₀)
      exact ⟨b', hb', ho'.trans ho⟩
    · have hmem : c' ∈ m'.scopes.contexts := List.mem_of_mem_head? hc'
      obtain ⟨-, bytes, hb⟩ := hsafe.sound.owned c' hmem n v hn
      refine ⟨_, hb, ?_⟩
      obtain ⟨-, d, d', rest, hd, hd', hg⟩ := hkept
      rw [hswept.scopes, ScopeStack.current?, hd', List.head?_cons, Option.some.injEq] at hc'
      rw [ScopeStack.currentId, hd, ← hc']
      exact congrArg Ownership.owned (congrArg ScopeFrame.id hg.frame)

/-- After a run that falls off the end of its program, exactly the storage of the global bindings is
live. -/
theorem Machine.mem_allocations_run {program : Program} {config : Config}
    (hsweep : config.sweep = true)
    (hdone : runProgram fuel (.initial program config) = .done () m₁)
    (hend : m₁.signal = .normal) :
    ∃ m', run fuel (.initial program config) = .done () m' ∧
      ∃ c, m'.scopes.contexts = [c] ∧ ∀ a, a ∈ m'.heap.allocations ↔
        ∃ n v, c.locals.get? n = some v ∧ a = ⟨v.pointer, .owned .global⟩ := by
  have hinitial := sound_initial program config
  obtain ⟨m₀, hstore, hconfig, hexec⟩ := (ends_runProgram hinitial fuel).done () m₁ hdone
  have hs₀ : m₀.store.Sound := by rw [hstore]; exact hinitial
  have hempty : ∀ p b, m₀.store.block? p ≠ some b := by
    rw [hstore]
    exact fun p b hb => by cases hb
  obtain ⟨hsafe, hleft⟩ := ((contract fuel).list hs₀ Nothing.held).done () m₁ hexec
  have htidy := (tidiness fuel).list _ m₀ hs₀ |>.done () m₁ hexec
  have hdue := (ends_list_swept hs₀ (by rw [hconfig]; exact hsweep)
    (fun q b hb => absurd hb (hempty q b)) fuel _).done () m₁ hexec hend
  obtain ⟨m', hfinish, hstore'⟩ := finish_eq_done m₁
  refine ⟨m', (run_of_runProgram hdone).trans hfinish, ?_⟩
  obtain ⟨-, c, c', rest, hc, hc', hg⟩ := hleft.kept (by simp [hend])
  rw [show m₀.scopes = _ from congrArg Store.scopes hstore] at hc
  obtain ⟨rfl, rfl⟩ := List.cons.inj hc
  have hid : c'.id = .global := congrArg ScopeFrame.id hg.frame
  refine ⟨c', (congrArg (fun σ => σ.scopes.contexts) hstore').trans hc', fun a => ?_⟩
  rw [show m'.heap = m₁.heap from congrArg Store.heap hstore', ← hid]
  refine hsafe.sound.mem_allocations_of_single hc' (fun p b hb => ?_) a
  rcases htidy.adds p b hb with ⟨b₀, hb₀, -⟩ | hbound | ht | hret
  · exact absurd hb₀ (hempty p b₀)
  · exact hbound
  · have hdue' := hs₀.isTemporaryFrom_sweepFloor ht
    rw [show m₀.store.scopes = m₀.scopes from rfl, hdue p b hb] at hdue'
    cases hdue'
  · rw [hend] at hret
    cases hret.1

/-- Statements do not leak while sweeping is on. A statement of a list that leaves no signal leaves
exactly what it found, but for the temporaries that were due and with the storage of the names that
it bound; after a run that falls off the end of its program, exactly the storage of the global
bindings is live. -/
theorem statements_leak_nothing :
    (∀ {m m' : Machine} {s : Stmt} {fuel : Nat}, m.Visited → m.config.sweep = true →
      execList fuel [s] m = .done () m' → m'.signal = .normal →
      ∀ a, a ∈ m'.heap.allocations ↔
        (a ∈ m.heap.allocations ∧ a.ownership.isTemporaryFrom m.scopes.sweepFloor = false) ∨
          m.NewlyBound m' a) ∧
    ∀ {program : Program} {config : Config} {m₁ : Machine} {fuel : Nat}, config.sweep = true →
      runProgram fuel (.initial program config) = .done () m₁ → m₁.signal = .normal →
      ∃ m', run fuel (.initial program config) = .done () m' ∧
        ∃ c, m'.scopes.contexts = [c] ∧ ∀ a, a ∈ m'.heap.allocations ↔
          ∃ n v, c.locals.get? n = some v ∧ a = ⟨v.pointer, .owned .global⟩ :=
  ⟨fun h hsweep hdone hend => h.sound.mem_allocations_statement hsweep hdone hend,
    Machine.mem_allocations_run⟩

/-- A call in a condition, whose actual binds a name, and one that stands alone. -/
def callTwice : Program :=
  [.function "f" ["p"]
      [.ret (some (.binary .and (.identifier "p" 2) (.identifier "p" 2) 2)) 2] 1,
    .cond (.call "f" [.assign "x" (.literal (.boolean true) 3) 3] 3)
      [.expr (.assign "y" (.identifier "x" 4) 4)] none 3,
    .expr (.call "f" [.identifier "x" 5] 5)]

/-- In the scope that a fault left open, a statement binds a name; and a run ends with one global
name. -/
theorem statements_leak_nothing_stranded :
    (Machine.stranded.Visited ∧ Machine.stranded.config.sweep = true ∧
      ∃ m', execList 9 [.expr (.assign "r" (.identifier "q" 6) 6)] .stranded = .done () m' ∧
        m'.signal = .normal ∧ Machine.stranded.NewlyBound m' ⟨⟨3, 1, 5⟩, .owned 1⟩) ∧
    (runProgram 12 (.initial callTwice { heapCapacity := 8 })).state.signal = .normal ∧
    (run 12 (.initial callTwice { heapCapacity := 8 })).state.heap.allocations.length = 1 ∧
    ∃ m', run 12 (.initial callTwice { heapCapacity := 8 }) = .done () m' ∧
      ∃ c, m'.scopes.contexts = [c] ∧ ∀ a, a ∈ m'.heap.allocations ↔
        ∃ n v, c.locals.get? n = some v ∧ a = ⟨v.pointer, .owned .global⟩ := by
  have hvisited : Machine.stranded.Visited := .reached Machine.reachable_stranded
  have hsweep : Machine.stranded.config.sweep = true := by decide +kernel
  have hdone : execList 9 [.expr (.assign "r" (.identifier "q" 6) 6)] .stranded = .done () _ :=
    Outcome.eq_done (by decide +kernel)
  have hend :
      (runProgram 12 (.initial callTwice { heapCapacity := 8 })).state.signal = .normal := by
    decide +kernel
  have hbound := (statements_leak_nothing.1 hvisited hsweep hdone (by decide +kernel)
    ⟨⟨3, 1, 5⟩, .owned 1⟩).1 (by decide +kernel)
  refine ⟨⟨hvisited, hsweep, _, hdone, by decide +kernel, hbound.resolve_left (by decide +kernel)⟩,
    hend, by decide +kernel, ?_⟩
  exact statements_leak_nothing.2 rfl (Outcome.eq_done (by decide +kernel)) hend

end Main

end HeapWalk
