import HeapWalk.Proofs.Storage

/-!
# What the scope operations do

Pushing a scope, popping it, binding a name, defining a function and storing a return value keep a
store sound (`Store.Sound.push`, `.pop`, `.bind`, `.relabel`), and the ranges of older scopes as they
are. A pop takes off the heap exactly what belongs to the popped scope.
-/

set_option autoImplicit false

namespace HeapWalk

open Store

/-- What storage sees of a context. -/
def Context.core (c : Context) : ScopeId × Bindings Variable := (c.id, c.locals)

namespace Store

/-! ## Pushing and popping -/

/-- A store after a push. -/
def push (σ : Store) (kind : ScopeKind) (name : String) : Store :=
  ⟨σ.heap, (σ.scopes.push kind name).2⟩

theorem binds_push {σ : Store} {kind : ScopeKind} {name : String} {v : Variable} :
    (σ.push kind name).Binds v ↔ σ.Binds v := by
  constructor
  · rintro ⟨c, hc, n, hn⟩
    rcases List.mem_cons.1 hc with rfl | hc
    · cases hn
    · exact ⟨c, hc, n, hn⟩
  · rintro ⟨c, hc, n, hn⟩
    exact ⟨c, List.mem_cons_of_mem _ hc, n, hn⟩

theorem Sound.push {σ : Store} (h : σ.Sound) (kind : ScopeKind) (name : String) :
    (σ.push kind name).Sound := by
  refine ⟨h.heap, List.cons_ne_nil _ _, List.pairwise_cons.2 ⟨h.below, h.ids⟩, ?_, ?_, ?_, ?_, ?_⟩
  · intro c hc
    rcases List.mem_cons.1 hc with rfl | hc
    · exact Nat.lt_succ_self _
    · exact Nat.lt_succ_of_lt (h.below c hc)
  · intro c hc
    rcases List.mem_cons.1 hc with rfl | hc
    · exact List.Pairwise.nil
    · exact h.ordered c hc
  · intro c hc n v hn
    rcases List.mem_cons.1 hc with rfl | hc
    · cases hn
    · exact h.owned c hc n v hn
  · intro c hc n n' v v' hn
    rcases List.mem_cons.1 hc with rfl | hc
    · cases hn
    · exact h.apart c hc n n' v v' hn
  · intro p b hb
    obtain ⟨c, hc, hid⟩ := h.housed p b hb
    exact ⟨c, List.mem_cons_of_mem _ hc, hid⟩

theorem Frame.push {P : Pointer → Prop} {σ : Store} (hP : ∀ p, P p → σ.Live p)
    (kind : ScopeKind) (name : String) : Frame P σ (σ.push kind name) := by
  refine ⟨(Frame.refl hP).blocks, fun p _ hb => ?_⟩
  obtain ⟨v, hv, hp⟩ := hb
  exact ⟨v, binds_push.1 hv, hp⟩

/-- `τ` is `σ` without its innermost context `c` and all that belongs to it. -/
structure Pops (σ τ : Store) (c : Context) (rest : List Context) : Prop where
  before : σ.scopes.contexts = c :: rest
  scopes : τ.scopes = { σ.scopes with contexts := rest }
  heap : τ.heap.WellFormed
  blocks : ∀ q, τ.block? q = (σ.block? q).filter fun b => b.owner.scope != c.id

namespace Pops

variable {σ τ : Store} {c : Context} {rest : List Context} (h : σ.Pops τ c rest)
include h

theorem block?_of_ne {q : Pointer} {b : Block} (hb : σ.block? q = some b)
    (hne : b.owner.scope ≠ c.id) : τ.block? q = some b := by
  rw [h.blocks, hb]
  exact Option.filter_some_pos (by simpa using hne)

theorem block?_of_some {q : Pointer} {b : Block} (hb : τ.block? q = some b) :
    σ.block? q = some b ∧ b.owner.scope ≠ c.id := by
  rw [h.blocks, Option.filter_eq_some_iff] at hb
  exact ⟨hb.1, by simpa using hb.2⟩

theorem holds {v : Variable} {o : Ownership} (hv : σ.Holds v o) (ho : o.scope ≠ c.id) :
    τ.Holds v o := by
  obtain ⟨hsize, bytes, hb⟩ := hv
  exact ⟨hsize, bytes, h.block?_of_ne hb ho⟩

theorem binds {v : Variable} (hv : τ.Binds v) : σ.Binds v := by
  obtain ⟨d, hd, n, hn⟩ := hv
  rw [h.scopes] at hd
  exact ⟨d, by rw [h.before]; exact List.mem_cons_of_mem _ hd, n, hn⟩

theorem sound (hs : σ.Sound) (hne : rest ≠ []) : τ.Sound := by
  have hmem : ∀ d ∈ rest, d ∈ σ.scopes.contexts := fun d hd => by
    rw [h.before]; exact List.mem_cons_of_mem _ hd
  have hids := hs.ids
  rw [h.before, List.pairwise_cons] at hids
  have hscopes := h.scopes
  refine ⟨h.heap, by rw [hscopes]; exact hne, by rw [hscopes]; exact hids.2, ?_, ?_, ?_, ?_, ?_⟩
  · rw [hscopes]
    exact fun d hd => hs.below d (hmem d hd)
  · rw [hscopes]
    exact fun d hd => hs.ordered d (hmem d hd)
  · rw [hscopes]
    intro d hd n v hn
    obtain ⟨hsize, bytes, hb⟩ := hs.owned d (hmem d hd) n v hn
    exact ⟨hsize, bytes, h.block?_of_ne hb (Nat.ne_of_lt (hids.1 d hd))⟩
  · rw [hscopes]
    exact fun d hd => hs.apart d (hmem d hd)
  · intro p b hb
    obtain ⟨hb, hbc⟩ := h.block?_of_some hb
    obtain ⟨d, hd, hid⟩ := hs.housed p b hb
    rw [h.before] at hd
    rcases List.mem_cons.1 hd with rfl | hd
    · exact absurd hid.symm hbc
    · exact ⟨d, by rw [hscopes]; exact hd, hid⟩

theorem frame {P : Pointer → Prop} (hP : ∀ p, P p → σ.Live p)
    (hn : ∀ p b, P p → σ.block? p = some b → b.owner.scope ≠ c.id) : Frame P σ τ := by
  refine ⟨fun p hp => ?_, fun p _ hb => ?_⟩
  · obtain ⟨b, hb⟩ := hP p hp
    exact ⟨b, b, hb, h.block?_of_ne hb (hn p b hp hb), rfl, .inr rfl⟩
  · obtain ⟨v, hv, hp⟩ := hb
    exact ⟨v, h.binds hv, hp⟩

end Pops

/-! ## Changes of contexts in place -/

theorem mem_of_core {cs ds : List Context} (h : cs.map Context.core = ds.map Context.core)
    {c : Context} (hc : c ∈ cs) : ∃ d ∈ ds, d.id = c.id ∧ d.locals = c.locals := by
  have hm : c.core ∈ ds.map Context.core := h ▸ List.mem_map_of_mem hc
  obtain ⟨d, hd, hcore⟩ := List.mem_map.1 hm
  exact ⟨d, hd, congrArg Prod.fst hcore, congrArg Prod.snd hcore⟩

section Relabel
variable {σ : Store} {t : ScopeStack}
  (hcore : t.contexts.map Context.core = σ.scopes.contexts.map Context.core)
include hcore

theorem binds_relabel {v : Variable} : Binds ⟨σ.heap, t⟩ v ↔ σ.Binds v := by
  constructor
  · rintro ⟨c, hc, n, hn⟩
    obtain ⟨d, hd, -, hl⟩ := mem_of_core hcore hc
    exact ⟨d, hd, n, hl ▸ hn⟩
  · rintro ⟨c, hc, n, hn⟩
    obtain ⟨d, hd, -, hl⟩ := mem_of_core hcore.symm hc
    exact ⟨d, hd, n, hl ▸ hn⟩

/-- Functions, kinds, names and return values of contexts do not matter to storage. -/
theorem Sound.relabel (h : σ.Sound) (hnext : t.nextId = σ.scopes.nextId) :
    Sound ⟨σ.heap, t⟩ := by
  refine ⟨h.heap, fun he => h.nonempty ?_, ?_, ?_, ?_, ?_, ?_, ?_⟩
  · have : t.contexts = [] := he
    rw [this] at hcore
    exact List.map_eq_nil_iff.1 hcore.symm
  · have hp : (σ.scopes.contexts.map Context.core).Pairwise fun x y => y.1 < x.1 :=
      List.pairwise_map.2 h.ids
    rw [← hcore] at hp
    exact List.pairwise_map.1 hp
  · intro c hc
    obtain ⟨d, hd, hid, -⟩ := mem_of_core hcore hc
    show c.id < t.nextId
    rw [← hid, hnext]
    exact h.below d hd
  · intro c hc
    obtain ⟨d, hd, -, hl⟩ := mem_of_core hcore hc
    exact hl ▸ h.ordered d hd
  · intro c hc n v hn
    obtain ⟨d, hd, hid, hl⟩ := mem_of_core hcore hc
    exact hid ▸ h.owned d hd n v (hl ▸ hn)
  · intro c hc n n' v v' hn hn'
    obtain ⟨d, hd, -, hl⟩ := mem_of_core hcore hc
    exact h.apart d hd n n' v v' (hl ▸ hn) (hl ▸ hn')
  · intro p b hb
    obtain ⟨c, hc, hid⟩ := h.housed p b hb
    obtain ⟨d, hd, hid', -⟩ := mem_of_core hcore.symm hc
    exact ⟨d, hd, hid'.trans hid⟩

theorem Frame.relabel {P : Pointer → Prop} (hP : ∀ p, P p → σ.Live p) :
    Frame P σ ⟨σ.heap, t⟩ := by
  refine ⟨(Frame.refl hP).blocks, fun p _ hb => ?_⟩
  obtain ⟨v, hv, hp⟩ := hb
  exact ⟨v, (binds_relabel hcore).1 hv, hp⟩

end Relabel

theorem core_define (s : ScopeStack) (f : FunctionDef) :
    (s.define f).contexts.map Context.core = s.contexts.map Context.core := by
  unfold ScopeStack.define
  split <;> simp_all [Context.core]

theorem core_storeReturn (x : Option Variable) (cs : List Context) :
    (ScopeStack.storeReturn x cs).map Context.core = cs.map Context.core :=
  ScopeStack.map_storeReturn (fun _ _ => rfl) x cs

/-! ## Binding a name -/

section Bind
variable {σ : Store} {c : Context} {rest : List Context} {v : Variable}
  (hc : σ.scopes.contexts = c :: rest) (name : String)
include hc

theorem contexts_bind :
    (σ.scopes.bind name v).contexts = { c with locals := c.locals.insert name v } :: rest := by
  rw [ScopeStack.bind, hc]

theorem binds_bind {w : Variable} (hw : Binds ⟨σ.heap, σ.scopes.bind name v⟩ w) :
    w = v ∨ σ.Binds w := by
  obtain ⟨d, hd, n, hn⟩ := hw
  rw [contexts_bind hc name] at hd
  rcases List.mem_cons.1 hd with rfl | hd
  · rw [Bindings.get?_insert] at hn
    split at hn
    · exact .inl (Option.some.inj hn).symm
    · exact .inr ⟨c, by rw [hc]; exact List.mem_cons_self, n, hn⟩
  · exact .inr ⟨d, by rw [hc]; exact List.mem_cons_of_mem _ hd, n, hn⟩

theorem binds_bind_self : Binds ⟨σ.heap, σ.scopes.bind name v⟩ v := by
  refine ⟨{ c with locals := c.locals.insert name v }, ?_, name, ?_⟩
  · rw [contexts_bind hc name]
    exact List.mem_cons_self
  · rw [Bindings.get?_insert, if_pos rfl]

/-- A name may be bound to storage that its context owns and no other name is bound to. -/
theorem Sound.bind (h : σ.Sound) (hv : σ.Holds v (.owned c.id)) (hn : ¬ σ.Bound v.pointer) :
    Sound ⟨σ.heap, σ.scopes.bind name v⟩ := by
  have hmem : ∀ {d}, d ∈ c :: rest → d ∈ σ.scopes.contexts := fun hd => by rw [hc]; exact hd
  have hctx := contexts_bind (v := v) hc name
  have hnext := σ.scopes.nextId_bind name v
  have hids := h.ids
  have hfree : ∀ n w, c.locals.get? n = some w → w.pointer ≠ v.pointer := fun n w hw he =>
    hn ⟨w, ⟨c, hmem List.mem_cons_self, n, hw⟩, he⟩
  rw [hc] at hids
  refine ⟨h.heap, by rw [hctx]; exact List.cons_ne_nil _ _,
    by rw [hctx]; exact List.pairwise_cons.2 (List.pairwise_cons.1 hids), ?_, ?_, ?_, ?_, ?_⟩
  · rw [hctx, hnext]
    intro d hd
    rcases List.mem_cons.1 hd with rfl | hd
    · exact h.below c (hmem List.mem_cons_self)
    · exact h.below d (hmem (List.mem_cons_of_mem _ hd))
  · rw [hctx]
    intro d hd
    rcases List.mem_cons.1 hd with rfl | hd
    · exact (h.ordered c (hmem List.mem_cons_self)).insert name v
    · exact h.ordered d (hmem (List.mem_cons_of_mem _ hd))
  · rw [hctx]
    intro d hd n w hw
    rcases List.mem_cons.1 hd with rfl | hd
    · rw [Bindings.get?_insert] at hw
      split at hw
      · obtain rfl := Option.some.inj hw
        exact hv
      · exact h.owned c (hmem List.mem_cons_self) n w hw
    · exact h.owned d (hmem (List.mem_cons_of_mem _ hd)) n w hw
  · rw [hctx]
    intro d hd n n' w w' hw hw' hp
    rcases List.mem_cons.1 hd with rfl | hd
    · rw [Bindings.get?_insert] at hw hw'
      split at hw <;> split at hw'
      · simp_all
      · obtain rfl := Option.some.inj hw
        exact absurd hp.symm (hfree n' w' hw')
      · obtain rfl := Option.some.inj hw'
        exact absurd hp (hfree n w hw)
      · exact h.apart c (hmem List.mem_cons_self) n n' w w' hw hw' hp
    · exact h.apart d (hmem (List.mem_cons_of_mem _ hd)) n n' w w' hw hw' hp
  · intro p b hb
    obtain ⟨d, hd, hid⟩ := h.housed p b hb
    rw [hc] at hd
    unfold Open
    rw [hctx]
    rcases List.mem_cons.1 hd with rfl | hd
    · exact ⟨_, List.mem_cons_self, hid⟩
    · exact ⟨d, List.mem_cons_of_mem _ hd, hid⟩

theorem Frame.bind {P : Pointer → Prop} (hP : ∀ p, P p → σ.Live p) (hn : ¬ P v.pointer) :
    Frame P σ ⟨σ.heap, σ.scopes.bind name v⟩ := by
  refine ⟨(Frame.refl hP).blocks, fun p hp hb => ?_⟩
  obtain ⟨w, hw, hwp⟩ := hb
  rcases binds_bind hc name hw with rfl | hw
  · exact absurd (hwp ▸ hp) hn
  · exact ⟨w, hw, hwp⟩

/-- The innermost context grows if the name was not visible. -/
theorem kept_bind (hl : σ.scopes.lookupVariable name = none) :
    σ.scopes.Kept (σ.scopes.bind name v) := by
  have hnone : ∀ d ∈ c :: rest, d.locals.get? name = none := by
    rw [ScopeStack.lookupVariable, List.findSome?_eq_none_iff, hc] at hl
    exact hl
  refine ⟨Nat.le_of_eq (σ.scopes.nextId_bind name v).symm, c, _, rest, hc,
    contexts_bind hc name, rfl, rfl, fun n w hw => ?_, fun n w hw => ?_⟩
  · rw [Bindings.get?_insert, if_neg, hw]
    rintro rfl
    rw [hnone c List.mem_cons_self] at hw
    cases hw
  · rw [Bindings.get?_insert] at hw
    split at hw
    · rename_i hnn
      exact .inr (hnn ▸ hnone)
    · exact .inl hw

end Bind

end Store

/-! ## Computations -/

namespace Exec.Spec

variable {m : Machine} {V : Machine → Prop} {E : Option Fault → Machine → Prop}

theorem enterScope {kind : ScopeKind} {name : String} {Q : ScopeId → Machine → Prop}
    (hV : ∀ j, V { m with scopes := (m.scopes.push kind name).2, journal := j })
    (hQ : ∀ j, Q m.scopes.nextId
      { m with scopes := (m.scopes.push kind name).2, journal := j }) :
    Spec (enterScope kind name) m V E Q :=
  bind (view (bind (update (hV _) (bind (note hV fun j => pure (hQ j))))))

theorem noteFreeing {c : Context} {b : Bindings Variable} {Q : Unit → Machine → Prop}
    (hV : ∀ j, V { m with journal := j }) (hQ : ∀ j, Q () { m with journal := j }) :
    Spec (noteFreeing c b) m V E Q := by
  induction b generalizing m with
  | nil => exact pure (hQ m.journal)
  | cons x rest ih =>
    unfold Exec.noteFreeing
    refine bind (view ?_)
    split
    · exact bind (note hV fun j => ih hV hQ)
    · exact ih hV hQ

theorem noteFreed {ps : List Pointer} {Q : Unit → Machine → Prop}
    (hV : ∀ j, V { m with journal := j }) (hQ : ∀ j, Q () { m with journal := j }) :
    Spec (noteFreed ps) m V E Q := by
  induction ps generalizing m with
  | nil => exact pure (hQ m.journal)
  | cons p ps ih => exact bind (note hV fun j => ih hV hQ)

theorem exitScope {c : Context} {rest : List Context} (hc : m.scopes.contexts = c :: rest)
    {h : Heap} (hh : h = m.heap.reclaimAll (m.heap.handlesWhere fun o => o.scope == c.id))
    {Q : Unit → Machine → Prop} (hV : ∀ j, V { m with journal := j })
    (hV' : ∀ j, V { m with scopes := { m.scopes with contexts := rest }, heap := h, journal := j })
    (hQ : ∀ j,
      Q () { m with scopes := { m.scopes with contexts := rest }, heap := h, journal := j }) :
    Spec exitScope m V E Q := by
  unfold Exec.exitScope
  refine bind (view ?_)
  rw [ScopeStack.current?, hc, List.head?_cons]
  refine bind (noteFreeing hV fun j => bind (view (bind ?_)))
  have htail : m.scopes.contexts.tail = rest := by rw [hc]; rfl
  subst htail
  subst hh
  exact update (hV' _) (bind (noteFreed hV' fun j => note hV' hQ))

end Exec.Spec

/-- What a pop makes of a machine's store. -/
theorem Store.pops_of_exit {m : Machine} (hw : m.heap.WellFormed) {c : Context}
    {rest : List Context} (hc : m.scopes.contexts = c :: rest) :
    m.store.Pops ⟨m.heap.reclaimAll (m.heap.handlesWhere fun o => o.scope == c.id),
      { m.scopes with contexts := rest }⟩ c rest := by
  obtain ⟨hw', hb⟩ := hw.reclaimAll_handlesWhere fun o => o.scope == c.id
  exact ⟨hc, rfl, hw', hb⟩

end HeapWalk
