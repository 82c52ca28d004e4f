import HeapWalk.Proofs.Relation

/-!
# Steps of the machine and steps without a heap

`Sim x m y s Q`: if the computation `x` is done from the machine `m`, so is `y` from the state `s`,
with results in `Q`; and if `x` stops on a fault other than that the heap is full, `y` stops on the
same fault, in a state that is related. What the machine does to the heap alone has no counterpart
(`Sim.left`).
-/

set_option autoImplicit false

namespace HeapWalk

open Store Reference

/-! ## Operands -/

/-- `v` and `o` are values of the same expression. -/
inductive Denotes (m : Machine) (v : Variable) : Operand → Prop where
  | value {x : Value} {scope : ScopeId} {bytes : List UInt8}
    (hsize : v.pointer.size = v.type.size)
    (hb : m.store.block? v.pointer = some ⟨.temporary scope, bytes⟩)
    (hdec : Value.decode bytes v.type = some x) : Denotes m v (.value x)
  | cell {c : Context} {n : String} (hc : c ∈ m.scopes.contexts)
    (hn : c.locals.get? n = some v) : Denotes m v (.cell c.id n)

namespace Denotes

variable {m m' : Machine} {s : State} {v : Variable} {o : Operand}

theorem read (h : Denotes m v o) (hR : Rel m s) :
    ∃ x, m.heap.Carries v x ∧ Eval.read o s = .ok x s := by
  cases h with
  | value hsize hb hdec => exact ⟨_, ⟨hsize, _, hb, hdec⟩, rfl⟩
  | @cell c n hc hn =>
    obtain ⟨x, hx, hcarries⟩ := cell?_of_mem hR.contexts hR.sound.ids hc hn
    exact ⟨x, hcarries, Eval.read_cell hx⟩

/-- An operand keeps its meaning while its range is respected. -/
theorem frame (h : Denotes m v o) (hs : m.store.Sound)
    (hf : Frame (· = v.pointer) m.store m'.store) (hk : m.scopes.Kept m'.scopes) :
    Denotes m' v o := by
  cases h with
  | value hsize hb hdec =>
    obtain ⟨b, b', hb₀, hb', howner, hbytes⟩ := hf.blocks v.pointer rfl
    obtain rfl := Option.some.inj (hb₀.symm.trans hb)
    rcases hbytes with hbound | hbytes
    · exact absurd hbound (hs.not_bound_of_temporary hb)
    · obtain ⟨o', bytes'⟩ := b'
      obtain rfl : o' = _ := howner
      obtain rfl : bytes' = _ := hbytes
      exact .value hsize hb' hdec
  | @cell c n hc hn =>
    obtain ⟨-, d, d', rest, hm, hm', hg⟩ := hk
    rw [hm] at hc
    rcases List.mem_cons.1 hc with rfl | hc
    · have hid : c.id = d'.id := congrArg ScopeFrame.id hg.frame.symm
      rw [hid]
      exact .cell (by rw [hm']; exact List.mem_cons_self) (hg.kept n v hn)
    · exact .cell (by rw [hm']; exact List.mem_cons_of_mem _ hc) hn

/-- What was just bound is the cell of the innermost context. -/
theorem bind (hs : m.store.Sound) (n : String) (v : Variable) :
    Denotes { m with scopes := m.scopes.bind n v } v (.cell (m.scopes.bind n v).currentId n) := by
  obtain ⟨c, rest, hc⟩ := List.exists_cons_of_ne_nil hs.nonempty
  have hctx : (m.scopes.bind n v).contexts = _ := contexts_bind (σ := m.store) hc n
  have hid : (m.scopes.bind n v).currentId = c.id := by rw [ScopeStack.currentId, hctx]
  rw [hid]
  refine .cell (c := { c with locals := c.locals.insert n v }) ?_ ?_
  · show _ ∈ (m.scopes.bind n v).contexts
    rw [hctx]
    exact List.mem_cons_self
  · rw [Bindings.get?_insert, if_pos rfl]

/-- Operands see nothing but the store. -/
theorem of_store (h : Denotes m v o) (hstore : m'.store = m.store) : Denotes m' v o := by
  cases h with
  | value hsize hb hdec => exact .value hsize (by rw [hstore]; exact hb) hdec
  | cell hc hn =>
    have hscopes : m'.scopes = m.scopes := congrArg Store.scopes hstore
    exact .cell (by rw [hscopes]; exact hc) hn

end Denotes

/-! ## Simulation -/

structure Sim {α β : Type} (x : Exec α) (m : Machine) (y : Eval β) (s : State)
    (Q : α → Machine → β → State → Prop) : Prop where
  done : ∀ a m', x m = .done a m' → ∃ b s', y s = .ok b s' ∧ Q a m' b s'
  fault : ∀ e m', x m = .fault e m' → e.code ≠ .outOfMemory →
    ∃ s', y s = .error (.fault e) s' ∧ Rel m' s'

namespace Sim

variable {α β γ δ : Type} {x : Exec α} {y : Eval β} {m m' : Machine} {s s' : State}
  {Q : α → Machine → β → State → Prop}

theorem mono {R : α → Machine → β → State → Prop} (h : Sim x m y s Q)
    (hQ : ∀ a m' b s', Q a m' b s' → R a m' b s') : Sim x m y s R := by
  refine ⟨fun a m' ho => ?_, h.fault⟩
  obtain ⟨b, s', hy, hq⟩ := h.done a m' ho
  exact ⟨b, s', hy, hQ a m' b s' hq⟩

theorem pure {a : α} {b : β} (h : Q a m b s) : Sim (Pure.pure a) m (Pure.pure b) s Q := by
  refine ⟨fun a' m' ho => ?_, fun e m' ho => by cases ho⟩
  cases ho
  exact ⟨b, s, rfl, h⟩

theorem bind {f : α → Exec γ} {g : β → Eval δ} {R : γ → Machine → δ → State → Prop}
    (h : Sim x m y s Q) (hf : ∀ a m' b s', Q a m' b s' → Sim (f a) m' (g b) s' R) :
    Sim (x >>= f) m (y >>= g) s R := by
  refine ⟨fun c m' ho => ?_, fun e m' ho he => ?_⟩
  · obtain ⟨a, m₁, hx, hfa⟩ := Exec.bind_eq_done.1 ho
    obtain ⟨b, s₁, hy, hq⟩ := h.done a m₁ hx
    rw [Eval.bind_apply, hy]
    exact (hf a m₁ b s₁ hq).done c m' hfa
  · rw [Eval.bind_apply]
    rcases Exec.bind_eq_fault.1 ho with hx | ⟨a, m₁, hx, hfa⟩
    · obtain ⟨s', hy, hR⟩ := h.fault e m' hx he
      rw [hy]
      exact ⟨s', rfl, hR⟩
    · obtain ⟨b, s₁, hy, hq⟩ := h.done a m₁ hx
      rw [hy]
      exact (hf a m₁ b s₁ hq).fault e m' hfa he

theorem raise {e : Fault} (h : Rel m s) :
    Sim (Exec.raise e : Exec α) m (Eval.fail e : Eval β) s Q := by
  refine ⟨fun a m' ho => (by cases ho), fun e' m' ho _ => ?_⟩
  cases ho
  exact ⟨s, rfl, h⟩

/-- A step of the machine alone, which stops only for want of memory. -/
theorem left {x : Exec γ} {f : γ → Exec α} {V : Machine → Prop} {S : γ → Machine → Prop}
    (hx : Exec.Spec x m V (fun e _ => Exec.ForMemory e) S)
    (hf : ∀ c m₁, S c m₁ → Sim (f c) m₁ y s Q) : Sim (x >>= f) m y s Q := by
  refine ⟨fun a m' ho => ?_, fun e m' ho he => ?_⟩
  · obtain ⟨c, m₁, hc, hfc⟩ := Exec.bind_eq_done.1 ho
    exact (hf c m₁ (hx.done c m₁ hc)).done a m' hfc
  · rcases Exec.bind_eq_fault.1 ho with hc | ⟨c, m₁, hc, hfc⟩
    · have hmem : some e.code = some Code.outOfMemory := hx.fault e m' hc
      exact absurd (Option.some.inj hmem) he
    · exact (hf c m₁ (hx.done c m₁ hc)).fault e m' hfc he

/-- The same as the last step. -/
theorem last {V : Machine → Prop} {S : α → Machine → Prop}
    (hx : Exec.Spec x m V (fun e _ => Exec.ForMemory e) S)
    (hS : ∀ a m', S a m' → ∃ b s', y s = .ok b s' ∧ Q a m' b s') : Sim x m y s Q := by
  refine ⟨fun a m' ho => hS a m' (hx.done a m' ho), fun e m' ho he => ?_⟩
  have hmem : some e.code = some Code.outOfMemory := hx.fault e m' ho
  exact absurd (Option.some.inj hmem) he

theorem stores {x : Exec γ} {f : γ → Exec α} {P : Pointer → Prop} {S : γ → Machine → Prop}
    (hx : Exec.Stores P x m S)
    (hf : ∀ c m₁, Exec.HeapWork P m m₁ → S c m₁ → Sim (f c) m₁ y s Q) : Sim (x >>= f) m y s Q :=
  left (Exec.Spec.mono hx (fun _ h => h) (fun _ _ h => h.1) fun _ _ h => h) fun c m₁ h =>
    hf c m₁ h.1 h.2

theorem lastStores {P : Pointer → Prop} {S : α → Machine → Prop} (hx : Exec.Stores P x m S)
    (hS : ∀ a m', Exec.HeapWork P m m' → S a m' → ∃ b s', y s = .ok b s' ∧ Q a m' b s') :
    Sim x m y s Q :=
  last (Exec.Spec.mono hx (fun _ h => h) (fun _ _ h => h.1) fun _ _ h => h) fun a m' h =>
    hS a m' h.1 h.2

theorem view {f : Machine → γ} {g : γ → Exec α} (h : Sim (g (f m)) m y s Q) :
    Sim (Exec.view f >>= g) m y s Q :=
  left (Exec.Spec.view (V := fun _ => True) (Q := fun c m' => c = f m ∧ m = m') ⟨rfl, rfl⟩) <| by
    rintro _ _ ⟨rfl, rfl⟩
    exact h

theorem update {f : Machine → Machine} {g : Unit → Exec α} (h : Sim (g ()) (f m) y s Q) :
    Sim (Exec.update f >>= g) m y s Q :=
  left (Exec.Spec.update (V := fun _ => True) (Q := fun _ m' => f m = m') trivial rfl) <| by
    rintro _ _ rfl
    exact h

theorem note {e : Event} {g : Unit → Exec α}
    (h : ∀ j, Sim (g ()) { m with journal := j } y s Q) : Sim (Exec.note e >>= g) m y s Q :=
  left (Exec.Spec.note (V := fun _ => True) (Q := fun _ m' => ∃ j, { m with journal := j } = m')
    (fun _ => trivial) fun j => ⟨j, rfl⟩) <| by
    rintro _ _ ⟨j, rfl⟩
    exact h j

/-- A note as the last step. -/
theorem lastNote {e : Event} {Q : Unit → Machine → β → State → Prop}
    (h : ∀ j, ∃ b s', y s = .ok b s' ∧ Q () { m with journal := j } b s') :
    Sim (Exec.note e) m y s Q :=
  last (Exec.Spec.note (V := fun _ => True) (Q := fun _ m' => ∃ j, { m with journal := j } = m')
    (fun _ => trivial) fun j => ⟨j, rfl⟩) <| by
    rintro _ _ ⟨j, rfl⟩
    exact h j

theorem echo {text : String} {g : Unit → Exec α}
    (h : ∀ j, Sim (g ()) { m with journal := j } y s Q) : Sim (Exec.echo text >>= g) m y s Q :=
  left (Exec.Spec.echo (V := fun _ => True) (Q := fun _ m' => ∃ j, { m with journal := j } = m')
    (fun _ => trivial) fun j => ⟨j, rfl⟩) <| by
    rintro _ _ ⟨j, rfl⟩
    exact h j

/-- A step of the machine to which the other side does nothing. -/
theorem alone {x : Exec γ} {f : γ → Exec α} {S : γ → Machine → Unit → State → Prop}
    (h : Sim x m (Pure.pure ()) s S) (hf : ∀ c m₁, S c m₁ () s → Sim (f c) m₁ y s Q) :
    Sim (x >>= f) m y s Q := by
  have h' : Sim x m (Pure.pure ()) s fun c m₁ _ s₁ => S c m₁ () s ∧ s₁ = s := by
    refine ⟨fun c m₁ ho => ?_, h.fault⟩
    obtain ⟨_, _, ⟨⟩, hS⟩ := h.done c m₁ ho
    exact ⟨(), s, rfl, hS, rfl⟩
  refine h'.bind (g := fun _ => y) ?_
  rintro c m₁ _ _ ⟨hS, rfl⟩
  exact hf c m₁ hS

/-- Both sides update their state. -/
theorem both {f : Machine → Machine} {g : State → State} {Q : Unit → Machine → Unit → State → Prop}
    (h : Q () (f m) () (g s)) : Sim (Exec.update f) m (modify g) s Q := by
  refine ⟨fun a m' ho => ?_, fun e m' ho => by cases ho⟩
  cases ho
  exact ⟨(), g s, rfl, h⟩

theorem outOfFuel : Sim (Exec.outOfFuel : Exec α) m y s Q :=
  ⟨fun _ _ ho => (by cases ho), fun _ _ ho => (by cases ho)⟩

/-- A step of the other side alone. -/
theorem right {y : Eval γ} {g : γ → Eval β} {c : γ} (hy : y s = .ok c s')
    (h : Sim x m (g c) s' Q) : Sim x m (y >>= g) s Q := by
  refine ⟨fun a m' ho => ?_, fun e m' ho he => ?_⟩
  · rw [Eval.bind_apply, hy]
    exact h.done a m' ho
  · rw [Eval.bind_apply, hy]
    exact h.fault e m' ho he

/-- What is known of the machine's side may be used. -/
theorem and_runs (h : Sim x m y s Q) {P : Pointer → Prop} {S : α → Machine → Prop}
    (hx : Exec.Runs P x m S) :
    Sim x m y s fun a m' b s' => Q a m' b s' ∧ Exec.Safe P m m' ∧ S a m' := by
  refine ⟨fun a m' ho => ?_, h.fault⟩
  obtain ⟨b, s', hy, hq⟩ := h.done a m' ho
  exact ⟨b, s', hy, hq, hx.done a m' ho⟩

end Sim

/-! ## Expressions -/

/-- No range has to survive a single step as a whole. -/
theorem none_live {σ : Store} : ∀ p, (fun _ : Pointer => False) p → σ.Live p := fun _ h => h.elim

theorem none_held {σ : Store} : ∀ p, (fun _ : Pointer => False) p → σ.Held p := fun _ h => h.elim

namespace Running

variable {α β : Type} {m m' : Machine} {s : State}

theorem ne_ret (h : Running m s) : m.signal ≠ .ret := by
  rw [h.normal]
  simp

theorem transport (h : Running m s) (hwork : Exec.HeapWork (fun _ => False) m m')
    (hb : ∀ p b, m.store.Bound p → m.store.block? p = some b → m'.store.block? p = some b) :
    Running m' s :=
  ⟨h.toRel.transport h.ne_ret hwork.same hwork.sound hb, by rw [hwork.same]; exact h.normal⟩

/-- Storage is put where no binding has its own. -/
theorem puts (h : Running m s) (hwork : Exec.HeapWork (fun _ => False) m m') {p : Pointer}
    {b : Option Block} (hputs : m.store.Puts m'.store p b) (hn : ¬ m.store.Bound p) :
    Running m' s :=
  h.transport hwork fun _ _ hq hb => (hputs.other fun he => hn (he ▸ hq)).trans hb

theorem note (h : Running m s) (j : Journal) : Running { m with journal := j } s :=
  ⟨h.toRel.note j, h.normal⟩

variable (h : Running m s)
include h

theorem not_bound_of_dead {p : Pointer} (hp : m.store.block? p = none) : ¬ m.store.Bound p := by
  intro hbound
  obtain ⟨_, _, hb⟩ := h.sound.live_of_bound hbound
  rw [hp] at hb
  cases hb

/-- What evaluating an expression comes to on both sides. -/
theorem sim_allocValue (x : Value) :
    Sim (Exec.allocValue x) m (pure (.value x)) s fun v m' o s' =>
      Running m' s' ∧ Denotes m' v o := by
  refine .lastStores (Exec.stores_allocValue h.sound none_live x) ?_
  rintro v m' hwork ⟨htype, hsize, hnone, bytes, hdec, hputs⟩
  refine ⟨_, _, rfl, h.puts hwork hputs (h.not_bound_of_dead hnone), ?_⟩
  exact .value (by rw [hsize, htype]) hputs.self (by rw [htype]; exact hdec)

theorem sim_readIdentifier (name : String) :
    Sim (Exec.readIdentifier name) m (Eval.readIdentifier name) s fun v m' o s' =>
      Running m' s' ∧ Denotes m' v o := by
  unfold Exec.readIdentifier Eval.readIdentifier
  refine .view (.right rfl ?_)
  rcases find?_of_lookup (n := name) h.contexts with ⟨hm, hs⟩ | ⟨c, hc, v, x, hn, hv, hm, hs⟩
  · rw [show m.scopes.lookupVariable name = none from hm, show s.find? name = none from hs]
    exact .raise h.toRel
  · rw [show m.scopes.lookupVariable name = some v from hm, show s.find? name = _ from hs]
    obtain ⟨hsize, b, hb, hdec⟩ := hv
    refine .view ?_
    refine .lastStores (Exec.stores_duplicate h.sound none_live hb (o := .temporary _)
      h.sound.currentId_open) ?_
    rintro w m' hwork ⟨htype, hwsize, hnone, hputs⟩
    refine ⟨_, _, rfl, h.puts hwork hputs (h.not_bound_of_dead hnone), ?_⟩
    exact .value (by rw [hwsize, htype, hsize]) hputs.self (by rw [htype]; exact hdec)

/-- Both sides read the same value. -/
theorem sim_readValue {v : Variable} {o : Operand} (hv : Denotes m v o) :
    Sim (Exec.readValue v) m (Eval.read o) s fun x m' x' s' =>
      x = x' ∧ x.type = v.type ∧ m = m' ∧ s = s' := by
  obtain ⟨x, hx, hread⟩ := hv.read h.toRel
  obtain ⟨hsize, b, hb, hdec⟩ := hx
  refine .lastStores (Exec.stores_readValue h.sound none_live hb hsize) ?_
  rintro x' m' - ⟨rfl, hdec'⟩
  obtain rfl := Option.some.inj (hdec'.symm.trans hdec)
  exact ⟨_, _, hread, rfl, Value.type_of_decode hdec, rfl, rfl⟩

/-- Discarding operands before a fault does not touch bindings. -/
theorem sim_discard_raise {vs : List Variable} {e : Fault} {Q : α → Machine → β → State → Prop} :
    Sim (do Exec.discard vs; Exec.raise e) m (Eval.fail e) s Q := by
  refine .stores (Exec.stores_discard h.sound none_live vs fun _ _ _ _ _ h => h) ?_
  intro _ m₁ hwork hkeep
  refine .raise (h.transport hwork fun p b hp hb => hkeep p b hb ?_).toRel
  obtain ⟨_, _, hb'⟩ := h.sound.live_of_bound hp
  obtain rfl := Option.some.inj (hb.symm.trans hb')
  rfl

theorem sim_applyUnary (op : UnaryOp) {v : Variable} {o : Operand} (hv : Denotes m v o) :
    Sim (Exec.applyUnary op v) m (Eval.applyUnary op o) s fun v m' o s' =>
      Running m' s' ∧ Denotes m' v o := by
  obtain ⟨x, hx, hread⟩ := hv.read h.toRel
  have htype : x.type = v.type := hx.type
  unfold Exec.applyUnary Eval.applyUnary
  refine .right hread ?_
  rw [← htype]
  cases x with
  | number n =>
    obtain ⟨hsize, b, hb, hdec⟩ := hx
    refine .stores (Exec.stores_readNumber h.sound none_live op hb hsize htype.symm) ?_
    rintro n' m' - ⟨rfl, hdec'⟩
    obtain rfl : n' = n := by simpa [hdec] using hdec'.symm
    exact h.sim_allocValue _
  | boolean b => exact h.sim_discard_raise

theorem sim_applyBinary (op : BinaryOp) {l r : Variable} {o o' : Operand} (hl : Denotes m l o)
    (hr : Denotes m r o') :
    Sim (Exec.applyBinary op l r) m (Eval.applyBinary op o o') s fun v m' o s' =>
      Running m' s' ∧ Denotes m' v o := by
  unfold Exec.applyBinary Eval.applyBinary
  refine (h.sim_readValue hl).bind ?_
  rintro x _ _ _ ⟨rfl, hx, rfl, rfl⟩
  refine (h.sim_readValue hr).bind ?_
  rintro y _ _ _ ⟨rfl, hy, rfl, rfl⟩
  cases op.apply x y with
  | some z => exact h.sim_allocValue z
  | none =>
    rw [← hx, ← hy]
    exact h.sim_discard_raise

theorem sim_testCondition (construct : Construct) {v : Variable} {o : Operand}
    (hv : Denotes m v o) :
    Sim (Exec.testCondition construct v) m (Eval.testCondition construct o) s fun b m' b' s' =>
      b = b' ∧ m = m' ∧ s = s' := by
  unfold Exec.testCondition Eval.testCondition
  refine (h.sim_readValue hv).bind ?_
  rintro x _ _ _ ⟨rfl, htype, rfl, rfl⟩
  cases x with
  | boolean b => exact .pure ⟨rfl, rfl, rfl⟩
  | number n =>
    rw [← htype]
    exact h.sim_discard_raise

theorem sim_findFunction (name : String) :
    Sim (Exec.findFunction name) m (Eval.findFunction name) s fun f m' f' s' =>
      f = f' ∧ m = m' ∧ s = s' := by
  unfold Exec.findFunction Eval.findFunction
  refine .view (.right rfl ?_)
  rw [show s.function? name = m.scopes.lookupFunction name from function?_of_lookup h.contexts]
  cases m.scopes.lookupFunction name with
  | none => exact .raise h.toRel
  | some f =>
    refine .view (.right rfl ?_)
    rw [show s.callDepth = m.scopes.callDepth from callDepth_of_same h.contexts,
      show callLimit = maxCallDepth from rfl]
    by_cases hd : m.scopes.callDepth < maxCallDepth
    · rw [if_pos hd, if_pos hd]
      exact .pure ⟨rfl, rfl, rfl⟩
    · rw [if_neg hd, if_neg hd]
      exact .raise h.toRel

/-- A name is bound to a value that was handed over. -/
theorem bindHanded {v w : Variable} {x : Value} {m₁ : Machine} (name : String)
    (hv : m.heap.Carries v x) (hwork : Exec.HeapWork (fun _ => False) m m₁)
    (hw : Handed (fun _ => False) m.store v (.owned m.scopes.currentId) w m₁.store) :
    Running { m₁ with scopes := m₁.scopes.bind name w } (s.bind name x) := by
  obtain ⟨b, -, hputs⟩ := hw.puts
  have h₁ : Running m₁ s := h.puts hwork hputs hw.unbound
  obtain ⟨bytes, hb, hdec⟩ := hw.decode hv
  have hcarries : m₁.heap.Carries w x := ⟨hw.size, _, hb, hdec⟩
  have hscopes : m₁.scopes = m.scopes := hw.scopes
  exact ⟨h₁.toRel.bind name (by rw [hscopes]; exact hw.holds) hw.not_bound hcarries, h₁.normal⟩

theorem sim_assign (target : String) {v : Variable} {o : Operand} (hv : Denotes m v o) :
    Sim (Exec.assign target v) m (Eval.assign target o) s fun v m' o s' =>
      Running m' s' ∧ Denotes m' v o := by
  obtain ⟨x, hx, hread⟩ := hv.read h.toRel
  unfold Exec.assign Eval.assign
  refine .right hread (.view (.right rfl ?_))
  rcases find?_of_lookup (n := target) h.contexts with
    ⟨hm, hs⟩ | ⟨c, hc, bound, old, hn, hold, hm, hs⟩
  · rw [show m.scopes.lookupVariable target = none from hm, show s.find? target = none from hs]
    refine .view ?_
    refine .stores (Exec.stores_handOver h.sound none_live hx.usable (o := .owned _)
      h.sound.currentId_open) ?_
    intro w m₁ hwork hw
    have h₂ := h.bindHanded target hx hwork hw
    refine .update (.note fun j => .right rfl (.right rfl (.pure ⟨h₂.note j, ?_⟩)))
    rw [h₂.toRel.currentId]
    exact (Denotes.bind hwork.sound target w).of_store rfl
  · rw [show m.scopes.lookupVariable target = some bound from hm, show s.find? target = _ from hs]
    dsimp only
    rw [← hold.type, ← hx.type]
    by_cases htype : old.type = x.type
    · rw [if_pos htype, if_pos htype]
      have htypes : bound.type = v.type := by rw [← hold.type, ← hx.type, htype]
      obtain ⟨hbsize, b, hb, -⟩ := hold
      obtain ⟨hsize, b', hb', hdec⟩ := hx
      refine .stores (Exec.stores_copy h.sound none_live hb (fun hp => hp.elim) hb'
        (by rw [hsize, hbsize, htypes])) ?_
      intro _ m₁ hwork hputs
      have h₁ : Running m₁ (s.overwrite c.id target x) :=
        ⟨h.toRel.overwrite h.ne_ret hc hn hwork.same hwork.sound hputs (by rw [htypes]; exact hdec),
          by rw [hwork.same]; exact h.normal⟩
      refine .note fun j => .right rfl (.pure ⟨h₁.note j, ?_⟩)
      exact .cell (by rw [show m₁.scopes = m.scopes from hwork.same.scopes]; exact hc) hn
    · rw [if_neg htype, if_neg htype]
      exact h.sim_discard_raise

theorem sim_printVariable {v : Variable} {o : Operand} (hv : Denotes m v o) (line : Nat) :
    Sim (Exec.printVariable v line) m (Eval.printOperand o line) s fun v m' o s' =>
      Running m' s' ∧ Denotes m' v o := by
  unfold Exec.printVariable Eval.printOperand
  refine (h.sim_readValue hv).bind ?_
  rintro x _ _ _ ⟨rfl, -, rfl, rfl⟩
  refine .echo fun j => .update (.right rfl (.pure ⟨⟨⟨h.sound, h.record, h.rooted, ?_, h.line,
    h.signal, h.nextId, h.contexts⟩, h.normal⟩, hv.of_store rfl⟩))
  exact congrArg (Array.push · _) h.output

theorem sim_goToLine (line : Nat) :
    Sim (Exec.goToLine line) m (Eval.goToLine line) s fun _ m' _ s' => Running m' s' := by
  refine .both ?_
  split
  · exact ⟨⟨h.sound, h.record, h.rooted, h.output, rfl, h.signal, h.nextId, h.contexts⟩, h.normal⟩
  · exact h

/-! ## Statements -/

theorem sim_setSignal (signal : Signal) :
    Sim (Exec.setSignal signal) m (Eval.setSignal signal) s fun _ m' _ s' => Rel m' s' :=
  .both (h.toRel.withSignal (h.toRel.returnValue_eq_none h.ne_ret) signal)

theorem sim_defineFunction (f : FunctionDef) :
    Sim (Exec.defineFunction f) m (Eval.define f) s fun _ m' _ s' => Rel m' s' :=
  .note fun j => .both (h.toRel.define f j)

/-- What a `return` hands back carries the value on. -/
theorem sim_handBack {r : Option Variable} {r' : Option Value}
    (hr : Option.Rel m.heap.Carries r r') {caller : ScopeId}
    (hcaller : m.scopes.callerId? = some caller) :
    Sim (Exec.handBack caller r) m (pure ()) s fun w m' _ s' =>
      Running m' s' ∧ m'.scopes = m.scopes ∧ m'.heap.SameHandBack caller w r' := by
  cases hr with
  | none => exact .pure ⟨h, rfl, .inl ⟨rfl, rfl⟩⟩
  | @some v x hv =>
    refine .stores (Exec.stores_handOver h.sound none_live hv.usable (o := .temporary caller)
      (ScopeStack.mem_of_callerId? hcaller)) ?_
    intro w m₁ hwork hw
    obtain ⟨b, -, hputs⟩ := hw.puts
    obtain ⟨bytes, hb, hdec⟩ := hw.decode hv
    exact .pure ⟨h.puts hwork hputs hw.unbound, hwork.same.scopes,
      .inr ⟨w, x, bytes, rfl, rfl, hw.size, hb, hdec⟩⟩

theorem sim_leaveFunction {r : Option Variable} {r' : Option Value}
    (hr : Option.Rel m.heap.Carries r r') :
    Sim (Exec.leaveFunction r) m (Eval.leaveFunction r') s fun _ m' _ s' => Rel m' s' := by
  unfold Exec.leaveFunction Eval.leaveFunction Exec.storeReturned
  refine Sim.bind (Q := fun _ m' _ s' => Rel { m' with signal := .ret }
    { s' with signal := .ret }) (.view ?_) fun _ _ _ _ h' => .both h'
  cases hcaller : m.scopes.callerId? with
  | some caller =>
    refine .alone (h.sim_handBack hr hcaller) ?_
    rintro w m₁ ⟨h₁, hscopes, hw⟩
    exact .both (h₁.toRel.leave h₁.ne_ret (by rw [hscopes]; exact hcaller) hw)
  | none =>
    exact .lastNote fun j => ⟨_, _, rfl, (h.note j).toRel.leave_top h.ne_ret hcaller r'⟩

/-! What only the machine does has no effect on bindings. -/

theorem sim_sweepFrom (floor : ScopeId) :
    Sim (Exec.sweepFrom floor) m (pure ()) s fun _ m' _ s' => Running m' s' := by
  refine .lastStores (Exec.stores_freeWhere h.sound none_live (fun _ => rfl) fun _ _ h => h.elim) ?_
  intro _ m' hwork hblocks
  refine ⟨_, _, rfl, h.transport hwork fun p b hp hb => ?_⟩
  obtain ⟨_, _, hb'⟩ := h.sound.live_of_bound hp
  rw [hblocks, hb', Option.filter_some_pos rfl, ← hb', hb]

theorem sim_sweepStatement :
    Sim Exec.sweepStatement m (pure ()) s fun _ m' _ s' => Running m' s' := by
  unfold Exec.sweepStatement
  refine .view ?_
  split
  · refine .view (.alone (h.sim_sweepFrom _) ?_)
    intro count m₁ h₁
    split
    · exact .lastNote fun j => ⟨_, _, rfl, h₁.note j⟩
    · exact .pure h₁
  · exact .pure h

theorem sim_takeSnapshot :
    Sim Exec.takeSnapshot m (pure ()) s fun _ m' _ s' => m' = m ∧ s' = s := by
  refine .last (V := fun _ => True) (S := fun _ m' => m' = m) (.attempt ?_ ?_) ?_
  · intro m' hm'
    rw [h.record, if_neg (by simp)] at hm'
    exact ⟨trivial, (Except.ok.inj hm').symm⟩
  · intro e he
    rw [h.record, if_neg (by simp)] at he
    cases he
  · rintro _ _ rfl
    exact ⟨_, _, rfl, rfl, rfl⟩

theorem sim_finishStatement :
    Sim Exec.finishStatement m (pure ()) s fun _ m' _ s' => Running m' s' := by
  refine .alone h.sim_sweepStatement fun _ m₁ h₁ => h₁.sim_takeSnapshot.mono ?_
  rintro _ _ _ _ ⟨rfl, rfl⟩
  exact h₁

theorem sim_sweepCondition :
    Sim Exec.sweepCondition m (pure ()) s fun _ m' _ s' => Running m' s' := by
  unfold Exec.sweepCondition
  refine .view ?_
  split
  · exact .view (.alone (h.sim_sweepFrom _) fun _ _ h₁ => .pure h₁)
  · exact .pure h

theorem sim_loopCondition {x : Option (Exec Variable)} {y : Option (Eval Operand)}
    (hxy : Option.Rel
      (fun x y => Sim x m y s fun v m' o s' => Running m' s' ∧ Denotes m' v o) x y) :
    Sim (Exec.loopCondition x) m (Eval.loopCondition y) s fun b m' b' s' =>
      b = b' ∧ Running m' s' := by
  cases hxy with
  | none => exact .pure ⟨rfl, h⟩
  | some hxy =>
    refine hxy.bind ?_
    rintro v m₁ o s₁ ⟨h₁, hv⟩
    rw [← bind_pure (Eval.testCondition .loop o)]
    refine (h₁.sim_testCondition .loop hv).bind ?_
    rintro b _ _ _ ⟨rfl, rfl, rfl⟩
    exact .alone h₁.sim_sweepCondition fun _ m₂ h₂ => .pure ⟨rfl, h₂⟩

/-! ## Scopes -/

theorem sim_enterScope (kind : ScopeKind) (name : String) :
    Sim (Exec.enterScope kind name) m (modify fun s => s.push kind name) s fun id m' _ s' =>
      Running m' s' ∧ id = m.scopes.nextId ∧ m'.scopes = (m.scopes.push kind name).2 :=
  .last (V := fun _ => True)
    (S := fun id m' => Running m' (s.push kind name) ∧ id = m.scopes.nextId ∧
      m'.scopes = (m.scopes.push kind name).2)
    (.enterScope (fun _ => trivial) fun j => ⟨⟨h.toRel.push kind name j, h.normal⟩, rfl, rfl⟩)
    fun _ _ hS => ⟨_, _, rfl, hS⟩

end Running

/-- A pop does not look at the signal. -/
theorem sim_exitScope {m : Machine} {s : State} {signal : Signal}
    (h : Rel { m with signal := signal } { s with signal := signal }) {c : Context}
    {rest : List Context} (hc : m.scopes.contexts = c :: rest) (hne : rest ≠ []) :
    Sim Exec.exitScope m (modify fun s => { s with contexts := s.contexts.tail }) s
      fun _ m' _ s' => Rel { m' with signal := signal } { s' with signal := signal } ∧
        m.store.Pops m'.store c rest ∧ m'.signal = m.signal ∧ s'.signal = s.signal := by
  have hpops := pops_of_exit h.sound.heap hc
  refine .last (V := fun _ => True) (.exitScope hc rfl (fun _ => trivial) (fun _ => trivial)
    (Q := fun _ m' => Rel { m' with signal := signal }
        { s with contexts := s.contexts.tail, signal := signal } ∧
      m.store.Pops m'.store c rest ∧ m'.signal = m.signal) fun j => ?_) ?_
  · exact ⟨h.pop hc hne hpops j, hpops, rfl⟩
  · rintro _ m' ⟨h', hp, hsig⟩
    exact ⟨_, _, rfl, h', hp, hsig, rfl⟩

/-- A construct other than a function, in a scope of its own. -/
theorem Running.sim_withScope {α β : Type} {m : Machine} {s : State} (h : Running m s)
    {kind : ScopeKind} {name : String} {body : ScopeId → Exec α} {body' : Eval β}
    {R : α → β → Signal → Prop}
    (hbody : ∀ id m₁ s₁, Running m₁ s₁ → Sim (body id) m₁ body' s₁ fun a m₂ b s₂ =>
      Rel m₂ s₂ ∧ m₂.scopes.trace = m₁.scopes.trace ∧ R a b m₂.signal) :
    Sim (Exec.withScope kind name body) m (Eval.within kind name body') s fun a m' b s' =>
      Rel m' s' ∧ R a b m'.signal := by
  unfold Exec.withScope Eval.within
  refine (h.sim_enterScope kind name).bind ?_
  rintro id m₁ _ s₁ ⟨h₁, -, hpush⟩
  refine (hbody id m₁ s₁ h₁).bind ?_
  rintro a m₂ b s₂ ⟨h₂, htrace, hR⟩
  -- the context of the construct is the innermost, above that of `m`
  obtain ⟨c, rest, hc⟩ := List.exists_cons_of_ne_nil h₂.sound.nonempty
  have hc' : m₂.scopes.contexts = c :: rest := hc
  have hrest : rest ≠ [] := by
    rintro rfl
    rw [hpush, ScopeStack.trace, hc'] at htrace
    exact h.sound.nonempty (List.map_eq_nil_iff.1 (List.cons.inj htrace).2.symm)
  have h₂' : Rel { m₂ with signal := m₂.signal } { s₂ with signal := m₂.signal } := h₂.ownSignal
  refine (sim_exitScope h₂' hc' hrest).bind ?_
  rintro _ m₃ _ s₃ ⟨h₃, -, hsig, hsig'⟩
  refine .pure ⟨h₃.of_signal hsig (hsig'.trans h₂.signal.symm), ?_⟩
  rw [hsig]
  exact hR

theorem Rel.sim_finishRound {m : Machine} {s : State} (h : Rel m s) :
    Sim Exec.finishRound m Eval.finishRound s fun b m' b' s' =>
      Rel m' s' ∧ b = b' ∧ (b = true → m'.signal = .normal) ∧ m'.scopes = m.scopes := by
  unfold Exec.finishRound Eval.finishRound
  refine .view (.right rfl ?_)
  rw [← h.signal]
  cases hsig : m.signal with
  | normal => exact .pure ⟨h, rfl, fun _ => hsig, rfl⟩
  | ret => exact .pure ⟨h, rfl, fun hb => (by cases hb), rfl⟩
  | brk =>
    have hreturn := h.returnValue_eq_none (by rw [hsig]; simp)
    exact .update (.right rfl (.pure ⟨h.withSignal hreturn .normal, rfl, fun _ => rfl, rfl⟩))

/-! ## Actuals -/

theorem readAll_of_denotes {m : Machine} {s : State} (h : Rel m s) {vs : List Variable}
    {os : List Operand} (hvs : List.Forall₂ (Denotes m) vs os) :
    ∃ xs, Eval.readAll os s = .ok xs s ∧ List.Forall₂ m.heap.Carries vs xs := by
  induction hvs with
  | nil => exact ⟨[], rfl, .nil⟩
  | @cons v o vs os hv _ ih =>
    obtain ⟨x, hx, hread⟩ := hv.read h
    obtain ⟨xs, hreads, hxs⟩ := ih
    refine ⟨x :: xs, ?_, .cons hx hxs⟩
    unfold Eval.readAll
    rw [Eval.bind_apply, hread]
    dsimp only
    rw [Eval.bind_apply, hreads]
    rfl

/-- The actuals of a call hold values while the parameters are bound. -/
theorem sim_bindParameters {c : Context} {rest : List Context} {params : List String}
    {vs : List Variable} {xs : List Value} {m : Machine} {s : State} (h : Running m s)
    (hc : m.scopes.contexts = c :: rest) (hvs : List.Forall₂ m.heap.Carries vs xs) :
    Sim (Exec.bindParameters c.id (params.zip vs)) m (Eval.bindParameters (params.zip xs)) s
      fun _ m' _ s' => Running m' s' := by
  induction params generalizing m s c vs xs with
  | nil => exact .pure h
  | cons param params ih =>
    cases hvs with
    | nil => exact .pure h
    | @cons v x vs xs hv hvs =>
      have hid : m.scopes.currentId = c.id := by rw [ScopeStack.currentId, hc]
      refine .stores (Exec.stores_handOver h.sound none_live hv.usable (o := .owned c.id)
        (hid ▸ h.sound.currentId_open)) ?_
      intro w m₁ hwork hw
      have hc₁ : m₁.scopes.contexts = c :: rest := by rw [hwork.same.scopes, hc]
      have h₂ := h.bindHanded param hv hwork (hid ▸ hw)
      refine .update (.right rfl ?_)
      refine ih (c := { c with locals := Bindings.insert param w c.locals }) h₂
        (contexts_bind (σ := m₁.store) hc₁ param) ?_
      exact hvs.imp fun u y hu => hw.carries hu

end HeapWalk
