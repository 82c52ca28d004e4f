import HeapWalk.Proofs.Steps

/-!
# What evaluation does

One induction on the fuel gives, for each of the six mutual functions, what it does to storage
(`Exec.Contract`). An expression leaves all that was live as it was; it gets a scope of its own only
for the body of a function, and everything older than that scope is out of reach of the sweeps in
the body. A statement leaves all that no sweep between statements takes.
-/

set_option autoImplicit false

namespace HeapWalk

open Store

namespace Exec

variable {α : Type} {P : Pointer → Prop} {m m₁ m₂ m₃ : Machine}

/-! ## Scopes of constructs -/

section Scopes

variable (hs : m.store.Sound) (hP : ∀ p, P p → m.store.Live p)
include hs hP

theorem runs_enterScope (kind : ScopeKind) (name : String) :
    Runs P (enterScope kind name) m fun id m' =>
      id = m.scopes.nextId ∧ ∃ j, m' =
        { m with scopes := (m.scopes.push kind name).2, journal := j } := by
  have hsafe : ∀ j, Safe P m { m with scopes := (m.scopes.push kind name).2, journal := j } :=
    fun _ => ⟨hs.push kind name, .push hP kind name⟩
  exact Spec.enterScope hsafe fun j => ⟨hsafe j, rfl, j, rfl⟩

theorem runs_exitScope {c : Context} {rest : List Context} (hc : m.scopes.contexts = c :: rest)
    (hne : rest ≠ []) (hn : ∀ p b, P p → m.store.block? p = some b → b.owner.scope ≠ c.id) :
    Runs P exitScope m fun _ m' => m.store.Pops m'.store c rest ∧ m'.signal = m.signal := by
  have hpops := pops_of_exit hs.heap hc
  have hsafe := fun j => (⟨hpops.sound hs hne, hpops.frame hP hn⟩ : Safe P m
    { m with
      scopes := { m.scopes with contexts := rest }
      heap := m.heap.reclaimAll (m.heap.handlesWhere fun o => o.scope == c.id)
      journal := j })
  exact Spec.exitScope hc rfl (fun _ => ⟨hs, .refl hP⟩) hsafe fun j => ⟨hsafe j, hpops, rfl⟩

end Scopes

/-- What was live before a push does not belong to the pushed scope. -/
theorem Safe.ne_nextId (hs : m.store.Sound) (h : Safe P m m₁) {p : Pointer} {b : Block} (hp : P p)
    (hb : m₁.store.block? p = some b) : b.owner.scope ≠ m.scopes.nextId := by
  obtain ⟨b₀, b', hb₀, hb', ho, -⟩ := h.frame.blocks p hp
  rw [hb, Option.some.injEq] at hb'
  rw [hb', ho]
  exact Nat.ne_of_lt (hs.lt_nextId hb₀)

/-- The stack when the body of a construct is over: its context is the innermost, and a return value
went to a context below. -/
theorem Left.of_push {kind : ScopeKind} {name : String} (hk : kind ≠ .function)
    (hpush : m₁.scopes = (m.scopes.push kind name).2) (h : Left P m₁ m₂) :
    m.scopes.nextId ≤ m₂.scopes.nextId ∧ ∃ c rest, m₂.scopes.contexts = c :: rest ∧
      c.id = m.scopes.nextId ∧
      (rest = m.scopes.contexts ∨
        (m₂.signal = .ret ∧ ∃ value, rest = ScopeStack.storeReturn value m.scopes.contexts ∧
          ∀ v ∈ value, Returned P m₂.store v)) := by
  obtain ⟨kept, hkept, h⟩ := h
  rw [hpush] at hkept
  obtain ⟨hn, c, hc, hid, hset⟩ := hkept.of_push hk
  rcases h with heq | ⟨hret, value, heq, hr⟩
  · exact ⟨by rw [heq]; exact hn, c, m.scopes.contexts, by rw [heq, hc], hid, .inl rfl⟩
  · exact ⟨by rw [heq]; exact hn, c, _, by rw [heq, hset], hid, .inr ⟨hret, value, rfl, hr⟩⟩

theorem storeReturn_ne_nil {value : Option Variable} {cs : List Context} (h : cs ≠ []) :
    ScopeStack.storeReturn value cs ≠ [] := by
  intro he
  have := core_storeReturn value cs
  rw [he] at this
  exact h (List.map_eq_nil_iff.1 this.symm)

theorem runs_withScope (hs : m.store.Sound) {kind : ScopeKind} (hk : kind ≠ .function)
    {name : String} {body : ScopeId → Exec α} {R : α → Signal → Prop}
    (hH : ∀ p, P p → m.store.Held p)
    (hbody : ∀ id m₁, m₁.store.Sound → (∀ p, P p → m₁.store.Held p) →
      Runs P (body id) m₁ fun a m₂ => Left P m₁ m₂ ∧ R a m₂.signal) :
    Runs P (withScope kind name body) m fun a m' => Left P m m' ∧ R a m'.signal := by
  have hP := fun p hp => (hH p hp).live
  unfold withScope
  refine (runs_enterScope hs hP kind name).bind ?_
  rintro id _ hsafe₁ ⟨rfl, j, rfl⟩
  refine (hbody _ _ hsafe₁.sound fun p hp => (hH p hp).push hs hk).bind ?_
  rintro a m₂ hsafe₂ ⟨hleft, hR⟩
  have hsafe := hsafe₁.trans hsafe₂
  obtain ⟨hn, c, rest, hc, hid, hrest⟩ := hleft.of_push hk rfl
  have hne : rest ≠ [] := by
    rcases hrest with rfl | ⟨-, value, rfl, -⟩
    · exact hs.nonempty
    · exact storeReturn_ne_nil hs.nonempty
  refine (runs_exitScope hsafe.sound hsafe.live hc hne fun p b hp hb => ?_).bind ?_
  · rw [hid]
    exact hsafe.ne_nextId hs hp hb
  rintro _ m₃ hsafe₃ ⟨hpops, hsig⟩
  refine runs_pure hsafe₃.sound hsafe₃.live ⟨?_, by rw [hsig]; exact hR⟩
  have hscopes : m₃.scopes = { m₂.scopes with contexts := rest } := hpops.scopes
  refine ⟨{ m.scopes with nextId := m₂.scopes.nextId }, .of_contexts hs.nonempty rfl hn, ?_⟩
  rcases hrest with rfl | ⟨hret, value, rfl, hr⟩
  · exact .inl hscopes
  · refine .inr ⟨hsig.trans hret, value, hscopes, fun v hv => ?_⟩
    obtain ⟨caller, hcaller, hh, hnP⟩ := hr v hv
    -- the caller is older than the scope that goes
    have hcaller' : m.scopes.callerId? = some caller := by
      rw [← hcaller, ← ScopeStack.callerId?_push hk]
      exact (ScopeStack.callerId?_eq_of_trace hleft.trace).symm
    obtain ⟨d, hd, hdid⟩ := ScopeStack.mem_of_callerId? hcaller'
    have hlt : caller < m.scopes.nextId := hdid ▸ hs.below d hd
    refine ⟨caller, ?_, hpops.holds hh (by rw [hid]; exact Nat.ne_of_lt hlt), hnP⟩
    rw [← hcaller']
    refine ScopeStack.callerId?_eq_of_trace ?_
    rw [show m₃.store.scopes = _ from hscopes]
    exact ScopeStack.trace_setReturnValue m.scopes value

/-! ## Function bodies -/

/-- What a call does in the scope of the function. -/
def functionBody (fuel : Nat) (f : FunctionDef) (actuals : List Variable) (scope : ScopeId) :
    Exec (Option Variable) := do
  bindParameters scope (f.params.zip actuals)
  execList fuel f.body
  setSignal .normal
  view fun m => m.scopes.current?.bind (·.returnValue)

/-- Parameters are bound in the innermost context, and nothing else of the stack changes. -/
theorem runs_bindParameters {pairs : List (String × Variable)} {c : Context} {rest : List Context}
    (hs : m.store.Sound) (hP : ∀ p, P p → m.store.Live p) (hc : m.scopes.contexts = c :: rest)
    (hps : ∀ x ∈ pairs, Usable P m.store x.2) :
    Runs P (bindParameters c.id pairs) m fun _ m' =>
      ∃ locals, m'.scopes = ⟨{ c with locals := locals } :: rest, m.scopes.nextId⟩ := by
  induction pairs generalizing m c with
  | nil =>
    refine runs_pure hs hP ⟨c.locals, ?_⟩
    rw [← hc]
  | cons x pairs ih =>
    obtain ⟨param, actual⟩ := x
    have hid : m.scopes.currentId = c.id := by rw [ScopeStack.currentId, hc]
    have hopen : m.store.Open c.id := hid ▸ hs.currentId_open
    unfold bindParameters
    refine (Runs.of_stores (stores_handOver hs hP (hps _ List.mem_cons_self) (o := .owned c.id)
      hopen)).bind ?_
    rintro w m₁ hsafe₁ ⟨-, hw⟩
    have hscopes : m₁.scopes = m.scopes := hw.scopes
    have hc₁ : m₁.scopes.contexts = c :: rest := by rw [hscopes, hc]
    refine (runs_bindVariable hsafe₁.sound hsafe₁.live param (hscopes ▸ hid ▸ hw.holds) hw.spared
      hw.not_bound).bind ?_
    rintro _ _ hsafe₂ rfl
    refine (ih hsafe₂.sound hsafe₂.live (contexts_bind (σ := m₁.store) hc₁ param)
      fun y hy => hw.usable (hps y (List.mem_cons_of_mem _ hy))).mono ?_
    rintro _ m₃ - ⟨locals, h₃⟩
    refine ⟨locals, h₃.trans (congrArg (ScopeStack.mk _) ?_)⟩
    exact (m₁.scopes.nextId_bind param w).trans (by rw [hscopes])

/-- The stack when the body of a function is over: its context is the innermost, and what it returns
was handed to the caller. -/
theorem Left.returned {c caller : Context} {rest : List Context}
    (hc : m.scopes.contexts = c :: caller :: rest) (hf : c.isFunction = true)
    (hr : c.returnValue = none) (h : Left P m m₁) :
    m.scopes.nextId ≤ m₁.scopes.nextId ∧ ∃ c', m₁.scopes.contexts = c' :: caller :: rest ∧
      c'.id = c.id ∧
      ∀ v ∈ c'.returnValue, m₁.store.Holds v (.temporary caller.id) ∧ ¬ P v.pointer := by
  have htrace := h.trace
  obtain ⟨kept, hkept, h⟩ := h
  obtain ⟨hn, d, hd, hid, hvalue, hset⟩ := hkept.of_function hc hf
  rcases h with heq | ⟨-, value, heq, hv⟩
  · refine ⟨by rw [heq]; exact hn, d, by rw [heq, hd], hid, ?_⟩
    rw [hvalue, hr]
    exact fun _ h => by cases h
  · refine ⟨by rw [heq]; exact hn, { d with returnValue := value }, by rw [heq, hset], hid,
      fun v hmem => ?_⟩
    obtain ⟨id, hcaller, hh, hnP⟩ := hv v hmem
    have hmid : m₁.scopes.callerId? = some caller.id :=
      (ScopeStack.callerId?_eq_of_trace htrace).trans (ScopeStack.callerId?_of_function hc hf)
    rw [show m₁.store.scopes.callerId? = some caller.id from hmid] at hcaller
    obtain rfl := Option.some.inj hcaller
    exact ⟨hh, hnP⟩

/-! ## The contracts -/

/-- A first operand outlives the evaluation of what follows it. -/
theorem runs_keeping (hs : m.store.Sound) (hP : ∀ p, P p → m.store.Live p) {v : Variable}
    (hv : Result P m.store v) {x : Exec α} {Q : α → Machine → Prop}
    (hx : ∀ {P' : Pointer → Prop}, (∀ p, P p → P' p) → (∀ p, P' p → m.store.Live p) →
      Runs P' x m fun a m' => m.scopes.Kept m'.scopes ∧ Q a m') :
    Runs P x m fun a m' => m.scopes.Kept m'.scopes ∧ Result P m'.store v ∧ Q a m' := by
  have hP' : ∀ p, P p ∨ p = v.pointer → m.store.Live p := by
    rintro p (hp | rfl)
    · exact hP p hp
    · obtain ⟨-, b, hb, -⟩ := hv.usable hs
      exact ⟨b, hb⟩
  refine ((hx (fun p hp => .inl hp) hP').mono ?_).shrink fun p hp => .inl hp
  rintro a m' hsafe ⟨hk, hq⟩
  exact ⟨hk, hv.frame hsafe.frame (.inr rfl) hk, hq⟩

/-- What evaluating several expressions leaves. -/
def YieldsAll (P : Pointer → Prop) (m : Machine) (vs : List Variable) (m' : Machine) : Prop :=
  m.scopes.Kept m'.scopes ∧ ∀ v ∈ vs, Result P m'.store v

/-- What a call leaves: its value, if it has one, is a fresh temporary. -/
def Answers (P : Pointer → Prop) (m : Machine) (r : Option Variable) (m' : Machine) : Prop :=
  m.scopes.Kept m'.scopes ∧ ∀ v ∈ r, Fresh P m'.store v

/-- What evaluation with the given fuel does. -/
structure Contract (fuel : Nat) : Prop where
  eval : ∀ {e P m}, m.store.Sound → (∀ p, P p → m.store.Live p) →
    Runs P (eval fuel e) m (Yields P m)
  actuals : ∀ {f params args P m}, m.store.Sound → (∀ p, P p → m.store.Live p) →
    Runs P (evalActuals fuel f params args) m (YieldsAll P m)
  call : ∀ {name args line P m}, m.store.Sound → (∀ p, P p → m.store.Live p) →
    Runs P (call fuel name args line) m (Answers P m)
  exec : ∀ {s P m}, m.store.Sound → (∀ p, P p → m.store.Held p) →
    Runs P (exec fuel s) m fun _ => Left P m
  list : ∀ {ss P m}, m.store.Sound → (∀ p, P p → m.store.Held p) →
    Runs P (execList fuel ss) m fun _ => Left P m
  loop : ∀ {condition body rounds P m}, m.store.Sound → (∀ p, P p → m.store.Held p) →
    Runs P (execLoop fuel condition body rounds) m fun _ => Left P m

namespace Contract

theorem zero : Contract 0 where
  eval hs hP := runs_outOfFuel hs hP
  actuals hs hP := runs_outOfFuel hs hP
  call hs hP := runs_outOfFuel hs hP
  exec hs hH := runs_outOfFuel hs fun p hp => (hH p hp).live
  list hs hH := runs_outOfFuel hs fun p hp => (hH p hp).live
  loop hs hH := runs_outOfFuel hs fun p hp => (hH p hp).live

variable {fuel : Nat} (ih : Contract fuel)
include ih

theorem eval_succ {e : Expr} (hs : m.store.Sound) (hP : ∀ p, P p → m.store.Live p) :
    Runs P (Exec.eval (fuel + 1) e) m (Yields P m) := by
  unfold Exec.eval
  refine (runs_goToLine hs hP).bind ?_
  rintro _ m₁ hsafe₁ ⟨l, h₁⟩
  have hscopes : m₁.scopes = m.scopes := by rw [h₁]
  have hs₁ := hsafe₁.sound
  have hP₁ := hsafe₁.live
  suffices h : Runs P _ m₁ (Yields P m₁) by
    refine h.mono fun v m' _ hy => ?_
    rwa [Yields, hscopes] at hy
  cases e with
  | literal value line => exact (runs_allocValue hs₁ hP₁ value).mono fun _ _ _ hy => hy.yields
  | identifier name line =>
    exact (runs_readIdentifier hs₁ hP₁ name).mono fun _ _ _ hy => hy.yields
  | unary op operand line =>
    refine (ih.eval hs₁ hP₁).bind ?_
    rintro v m₂ hsafe ⟨hk, hv⟩
    refine (runs_applyUnary hsafe.sound hsafe.live op (hv.usable hsafe.sound)).mono ?_
    exact fun w m' _ hy => ⟨hk.trans hy.1, .inl hy.2⟩
  | binary op left right line =>
    refine (ih.eval hs₁ hP₁).bind ?_
    rintro l m₂ hsafe ⟨hk, hl⟩
    refine (runs_keeping hsafe.sound hsafe.live hl fun hsub hP' =>
      (ih.eval hsafe.sound hP').mono fun r m' _ hy => ⟨hy.1, hy.2.mono hsub⟩).bind ?_
    rintro r m₃ hsafe' ⟨hk', hl', hr⟩
    refine (runs_applyBinary hsafe'.sound hsafe'.live op (hl'.usable hsafe'.sound)
      (hr.usable hsafe'.sound)).mono ?_
    exact fun w m' _ hy => ⟨(hk.trans hk').trans hy.1, .inl hy.2⟩
  | assign target value line =>
    refine (ih.eval hs₁ hP₁).bind ?_
    rintro v m₂ hsafe ⟨hk, hv⟩
    refine (runs_assign hsafe.sound hsafe.live target (hv.usable hsafe.sound)).mono ?_
    exact fun w m' _ hy => ⟨hk.trans hy.1, hy.2⟩
  | print operand line =>
    refine (ih.eval hs₁ hP₁).bind ?_
    rintro v m₂ hsafe ⟨hk, hv⟩
    refine (runs_printVariable hsafe.sound hsafe.live hv line).mono ?_
    exact fun w m' _ hy => ⟨hk.trans hy.1, hy.2⟩
  | call name args line =>
    refine (ih.call hs₁ hP₁).bind ?_
    rintro r m₂ hsafe ⟨hk, hr⟩
    cases r with
    | none => exact runs_raise hsafe.sound hsafe.live (by simp [Fault.code])
    | some v => exact runs_pure hsafe.sound hsafe.live ⟨hk, .inl (hr v rfl)⟩
  | composite shape line => exact runs_raise hs₁ hP₁ (by simp [Fault.code])

theorem actuals_succ {f : String} {params : List String} {args : List Expr}
    (hs : m.store.Sound) (hP : ∀ p, P p → m.store.Live p) :
    Runs P (evalActuals (fuel + 1) f params args) m (YieldsAll P m) := by
  cases params with
  | nil => exact runs_pure hs hP ⟨.refl hs.nonempty, fun _ h => by cases h⟩
  | cons param params =>
    cases args with
    | nil => exact runs_raise hs hP (by simp [Fault.code])
    | cons arg args =>
      refine (ih.eval hs hP).bind ?_
      rintro v m₁ hsafe ⟨hk, hv⟩
      refine (runs_keeping hsafe.sound hsafe.live hv fun hsub hP' =>
        (ih.actuals hsafe.sound hP').mono fun vs m' _ hy =>
          ⟨hy.1, fun w hw => (hy.2 w hw).mono hsub⟩).bind ?_
      rintro vs m₂ hsafe' ⟨hk', hv', hvs⟩
      refine runs_pure hsafe'.sound hsafe'.live ⟨hk.trans hk', fun w hw => ?_⟩
      rcases List.mem_cons.1 hw with rfl | hw
      · exact hv'
      · exact hvs w hw

theorem runs_functionBody {f : FunctionDef} {actuals : List Variable} {c caller : Context}
    {rest : List Context} (hs : m.store.Sound) (hH : ∀ p, P p → m.store.Held p)
    (hc : m.scopes.contexts = c :: caller :: rest) (hf : c.isFunction = true)
    (hr : c.returnValue = none) (hv : ∀ v ∈ actuals, Usable P m.store v) :
    Runs P (functionBody fuel f actuals c.id) m fun r m' =>
      m.scopes.nextId ≤ m'.scopes.nextId ∧ ∃ c',
        m'.scopes.contexts = c' :: caller :: rest ∧ c'.id = c.id ∧
        ∀ v ∈ r, m'.store.Holds v (.temporary caller.id) ∧ ¬ P v.pointer := by
  unfold functionBody
  refine (runs_bindParameters hs (fun p hp => (hH p hp).live) hc fun x hx => ?_).bind ?_
  · exact hv x.2 (List.of_mem_zip hx).2
  rintro _ m₁ hsafe₁ ⟨locals, h₁⟩
  have htrace : m₁.scopes.trace = m.scopes.trace := by
    rw [h₁, ScopeStack.trace, ScopeStack.trace, hc]
    rfl
  have hH₁ := hsafe₁.frame.held (ScopeStack.sweepFloor_eq_of_trace htrace) hH
  refine (ih.list hsafe₁.sound hH₁).bind ?_
  rintro _ m₂ hsafe₂ hleft
  obtain ⟨hn, c', hc', hid, hreturned⟩ :=
    hleft.returned (c := { c with locals := locals }) (by rw [h₁]) hf hr
  refine (runs_setSignal hsafe₂.sound hsafe₂.live).bind ?_
  rintro _ _ hsafe₃ rfl
  refine runs_view hsafe₃.sound hsafe₃.live ⟨?_, c', hc', hid, ?_⟩
  · rw [h₁] at hn
    exact hn
  · rw [ScopeStack.current?, hc']
    exact hreturned

/-- The scope of a function from its push to its pop. -/
theorem runs_functionScope {f : FunctionDef} {actuals : List Variable} (hs : m.store.Sound)
    (hP : ∀ p, P p → m.store.Live p) (hv : ∀ v ∈ actuals, Usable P m.store v) :
    Runs P (withScope .function f.name (functionBody fuel f actuals)) m (Answers P m) := by
  obtain ⟨caller, rest, hcaller⟩ := List.exists_cons_of_ne_nil hs.nonempty
  have hlt : caller.id < m.scopes.nextId :=
    hs.below caller (by rw [hcaller]; exact List.mem_cons_self)
  unfold withScope
  refine (runs_enterScope hs hP .function f.name).bind ?_
  rintro _ _ hsafe₁ ⟨rfl, j, rfl⟩
  have hctx : (m.scopes.push .function f.name).2.contexts =
      { id := m.scopes.nextId, kind := .function, name := f.name } :: caller :: rest := by
    rw [← hcaller]
    rfl
  refine (ih.runs_functionBody hsafe₁.sound (fun p hp => (hP p hp).held_push hs) hctx rfl rfl
    hv).bind ?_
  rintro r m₂ hsafe₂ ⟨hn, c, hc, hid, hr⟩
  have hsafe := hsafe₁.trans hsafe₂
  refine (runs_exitScope hsafe.sound hsafe.live hc (List.cons_ne_nil _ _)
    fun p b hp hb => ?_).bind ?_
  · rw [hid]
    exact hsafe.ne_nextId hs hp hb
  rintro _ m₃ hsafe₃ ⟨hpops, -⟩
  have hscopes : m₃.scopes = ⟨caller :: rest, m₂.scopes.nextId⟩ := hpops.scopes
  refine runs_pure hsafe₃.sound hsafe₃.live ⟨.of_contexts hs.nonempty ?_ ?_, fun v hmem => ?_⟩
  · rw [hscopes]
    exact hcaller.symm
  · rw [hscopes]
    exact Nat.le_trans (Nat.le_succ _) hn
  · obtain ⟨hh, hnP⟩ := hr v hmem
    have hcur : m₃.store.scopes.currentId = caller.id := by
      rw [show m₃.store.scopes = _ from hscopes]
      rfl
    refine ⟨?_, hnP⟩
    rw [hcur]
    -- the caller's scope is older than the one that went
    exact hpops.holds hh (by rw [hid]; exact Nat.ne_of_lt hlt)

theorem call_succ {name : String} {args : List Expr} {line : Nat} (hs : m.store.Sound)
    (hP : ∀ p, P p → m.store.Live p) :
    Runs P (Exec.call (fuel + 1) name args line) m (Answers P m) := by
  unfold Exec.call
  refine (runs_goToLine hs hP).bind ?_
  rintro _ _ hsafe₁ ⟨l, rfl⟩
  refine Runs.bind_view ?_
  refine (runs_findFunction hsafe₁.sound hsafe₁.live name).bind ?_
  rintro f _ - rfl
  refine (ih.actuals hsafe₁.sound hsafe₁.live).bind ?_
  rintro vs m₂ hsafe₂ ⟨hk, hvs⟩
  refine (runs_note hsafe₂.sound hsafe₂.live).bind ?_
  rintro _ _ hsafe₃ ⟨j, rfl⟩
  refine (ih.runs_functionScope hsafe₃.sound hsafe₃.live fun v hv =>
    (hvs v hv).usable hsafe₂.sound).bind ?_
  rintro r m₄ hsafe₄ ⟨hk', hr⟩
  refine (runs_update hsafe₄.sound hsafe₄.live rfl).bind ?_
  rintro _ _ hsafe₅ rfl
  exact runs_pure hsafe₅.sound hsafe₅.live ⟨hk.trans hk', hr⟩

theorem list_succ {ss : List Stmt} (hs : m.store.Sound) (hH : ∀ p, P p → m.store.Held p) :
    Runs P (execList (fuel + 1) ss) m fun _ => Left P m := by
  have hP := fun p hp => (hH p hp).live
  cases ss with
  | nil => exact runs_pure hs hP (.of_kept (.refl hs.nonempty))
  | cons s rest =>
    refine (ih.exec hs hH).bind ?_
    rintro _ m₁ hsafe₁ hleft
    refine Runs.bind_view ?_
    split
    · rename_i hsig
      have hk : m.scopes.Kept m₁.scopes := hleft.kept (by rw [hsig]; simp)
      have hH₁ := hsafe₁.frame.held (ScopeStack.sweepFloor_eq_of_trace hk.trace) hH
      refine (runs_finishStatement hsafe₁.sound hH₁).bind ?_
      rintro _ m₂ hsafe₂ ⟨hscopes, -⟩
      have hH₂ := hsafe₂.frame.held (congrArg ScopeStack.sweepFloor hscopes) hH₁
      refine (ih.list hsafe₂.sound hH₂).mono fun _ m₃ _ h => .trans ?_ h
      rwa [hscopes]
    · exact runs_pure hsafe₁.sound hsafe₁.live hleft

theorem loop_succ {condition : Option Expr} {body : List Stmt} {rounds : Nat}
    (hs : m.store.Sound) (hH : ∀ p, P p → m.store.Held p) :
    Runs P (execLoop (fuel + 1) condition body rounds) m fun _ => Left P m := by
  have hP := fun p hp => (hH p hp).live
  unfold execLoop
  refine (runs_loopCondition hs hH fun x hx => ?_).bind ?_
  · obtain ⟨c, -, rfl⟩ := Option.map_eq_some_iff.1 hx
    exact ih.eval hs hP
  intro proceed m₁ hsafe₁ hk
  have hH₁ := hsafe₁.frame.held (ScopeStack.sweepFloor_eq_of_trace hk.trace) hH
  split
  · refine (runs_withScope (R := fun again signal => again = true → signal = .normal) hsafe₁.sound
      (by simp) hH₁ fun _ m₂ hs₂ hH₂ => ?_).bind ?_
    · refine (ih.list hs₂ hH₂).bind ?_
      rintro _ m₃ hsafe₃ hleft
      refine (runs_finishRound hsafe₃.sound hsafe₃.live).mono ?_
      exact fun again m₄ _ ⟨hstore, hret, hagain⟩ => ⟨hleft.of_store hstore hret, hagain⟩
    · rintro again m₂ hsafe₂ ⟨hleft, hagain⟩
      split
      · have hk₂ : m₁.scopes.Kept m₂.scopes := hleft.kept (by rw [hagain (by assumption)]; simp)
        have hH₂ := hsafe₂.frame.held (ScopeStack.sweepFloor_eq_of_trace hk₂.trace) hH₁
        exact (ih.loop hsafe₂.sound hH₂).mono fun _ m₃ _ h => .trans (hk.trans hk₂) h
      · refine (runs_note hsafe₂.sound hsafe₂.live).mono ?_
        rintro _ _ - ⟨j, rfl⟩
        exact .trans hk (hleft.of_store rfl fun h => h)
  · refine (runs_note hsafe₁.sound hsafe₁.live).mono ?_
    rintro _ _ - ⟨j, rfl⟩
    exact .of_kept hk

theorem runs_block (hs : m.store.Sound) (hH : ∀ p, P p → m.store.Held p) (name : String)
    (body : List Stmt) :
    Runs P (withScope .block name fun _ => execList fuel body) m fun _ => Left P m :=
  (runs_withScope (R := fun _ _ => True) hs (by simp) hH fun _ _ hs₁ hH₁ =>
    (ih.list hs₁ hH₁).mono fun _ _ _ h => ⟨h, trivial⟩).mono fun _ _ _ h => h.1

theorem exec_succ {s : Stmt} (hs : m.store.Sound) (hH : ∀ p, P p → m.store.Held p) :
    Runs P (Exec.exec (fuel + 1) s) m fun _ => Left P m := by
  have hP := fun p hp => (hH p hp).live
  unfold Exec.exec
  refine (runs_goToLine hs hP).bind ?_
  rintro _ m₁ hsafe₁ ⟨l, h₁⟩
  have hs₁ := hsafe₁.sound
  have hH₁ : ∀ p, P p → m₁.store.Held p := by
    rw [show m₁.store = m.store by rw [h₁]; rfl]
    exact hH
  have hP₁ := fun p hp => (hH₁ p hp).live
  suffices h : Runs P _ m₁ fun _ => Left P m₁ by
    refine h.mono fun v m' _ hy => hy.trans ?_
    rw [h₁]
    exact .refl hs.nonempty
  split
  · refine (ih.call hs₁ hP₁).bind ?_
    rintro r m₂ hsafe ⟨hk, -⟩
    exact runs_pure hsafe.sound hsafe.live (.of_kept hk)
  · refine (ih.eval hs₁ hP₁).bind ?_
    rintro v m₂ hsafe ⟨hk, -⟩
    exact runs_pure hsafe.sound hsafe.live (.of_kept hk)
  · exact ih.runs_block hs₁ hH₁ _ _
  · refine (ih.eval hs₁ hP₁).bind ?_
    rintro v m₂ hsafe ⟨hk, hv⟩
    refine (runs_testCondition hsafe.sound hsafe.live .cond (hv.usable hsafe.sound)).bind ?_
    rintro b _ - rfl
    have hH₂ := hsafe.frame.held (ScopeStack.sweepFloor_eq_of_trace hk.trace) hH₁
    split
    · exact (ih.runs_block hsafe.sound hH₂ _ _).mono fun _ _ _ h => h.trans hk
    · split
      · exact (ih.runs_block hsafe.sound hH₂ _ _).mono fun _ _ _ h => h.trans hk
      · exact runs_pure hsafe.sound hsafe.live (.of_kept hk)
  · exact ih.loop hs₁ hH₁
  · exact runs_defineFunction hs₁ hP₁ _
  · exact runs_leaveFunction hs₁ hP₁ fun _ h => by cases h
  · refine (ih.eval hs₁ hP₁).bind ?_
    rintro v m₂ hsafe ⟨hk, hv⟩
    refine (runs_leaveFunction hsafe.sound hsafe.live ?_).mono fun _ _ _ h => h.trans hk
    rintro _ ⟨⟩
    exact hv.usable hsafe.sound
  · refine (runs_setSignal hs₁ hP₁).mono ?_
    rintro _ _ - rfl
    exact .of_kept (.refl hs₁.nonempty)

theorem succ : Contract (fuel + 1) where
  eval := ih.eval_succ
  actuals := ih.actuals_succ
  call := ih.call_succ
  exec := ih.exec_succ
  list := ih.list_succ
  loop := ih.loop_succ

end Contract

theorem contract (fuel : Nat) : Contract fuel := by
  induction fuel with
  | zero => exact .zero
  | succ fuel ih => exact ih.succ

end Exec

end HeapWalk
