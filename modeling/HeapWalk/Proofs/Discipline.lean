import HeapWalk.Proofs.Footprint
import HeapWalk.Proofs.Session
import HeapWalk.Report

/-!
# The discipline of the stack

However evaluation ends, the contexts that were on the stack are still there. If it is done, the
stack is what it was but for new names in the innermost context, and for the return value of the
innermost function if a `return` is pending (`Exec.Settled`). If it is stopped, the scopes that were
left open lie above (`ScopeStack.Under`). A signal is only left by a statement that is done: an
expression, and whatever is stopped, leaves the signal it found or none.

All this is read off the text of evaluation alone; it does not depend on what the heap holds, nor on
whether names and heap agree.
-/

set_option autoImplicit false

namespace HeapWalk

/-! ## Stacks that lie under others -/

namespace ScopeStack

variable {s t u : ScopeStack}

/-- The contexts of `s` are the bottom part of `t`, after the innermost of them has grown. -/
def Under (s t : ScopeStack) : Prop :=
  ∃ above c c' rest, s.contexts = c :: rest ∧ t.contexts = above ++ c' :: rest ∧ c.Grows rest c'

theorem Kept.under (h : s.Kept t) : s.Under t := by
  obtain ⟨-, c, c', rest, hs, ht, hg⟩ := h
  exact ⟨[], c, c', rest, hs, ht, hg⟩

theorem Kept.trans_under (h₁ : s.Kept t) (h₂ : t.Under u) : s.Under u := by
  obtain ⟨-, c, c', rest, hs, ht, hg⟩ := h₁
  obtain ⟨above, d, d', rest', ht', hu, hg'⟩ := h₂
  rw [ht, List.cons.injEq] at ht'
  obtain ⟨rfl, rfl⟩ := ht'
  exact ⟨above, c, d', rest, hs, hu, hg.trans hg'⟩

theorem Under.of_append (h : s.contexts ≠ []) {above : List Context}
    (ht : t.contexts = above ++ s.contexts) : s.Under t := by
  obtain ⟨c, rest, hs⟩ := List.exists_cons_of_ne_nil h
  exact ⟨above, c, c, rest, hs, hs ▸ ht, .refl rest c⟩

/-- What lies under a stack with one more context lies under whatever that one does. -/
theorem Under.of_cons (h : s.contexts ≠ []) {c : Context} (hc : t.contexts = c :: s.contexts)
    (hu : t.Under u) : s.Under u := by
  obtain ⟨above, d, d', rest, ht, hu, -⟩ := hu
  rw [hc, List.cons.injEq] at ht
  obtain ⟨rfl, rfl⟩ := ht
  have happend : u.contexts = (above ++ [d']) ++ s.contexts := by rw [hu]; simp
  exact .of_append h happend

theorem Kept.nonempty (h : s.Kept t) : t.contexts ≠ [] := by
  obtain ⟨-, c, c', rest, -, ht, -⟩ := h
  rw [ht]
  exact List.cons_ne_nil _ _

end ScopeStack

namespace Exec

variable {α β : Type} {m m₁ m₂ m₃ : Machine}

/-! ## Ways to end -/

/-- A signal that an expression may leave. -/
def Quiet (m m' : Machine) : Prop := m'.signal = m.signal ∨ m'.signal = .normal

/-- What a computation that is stopped leaves. -/
structure Halted (m m' : Machine) : Prop where
  stack : m.scopes.Under m'.scopes
  quiet : Quiet m m'

/-- What an expression leaves. -/
structure Passed (m m' : Machine) : Prop where
  stack : m.scopes.Kept m'.scopes
  quiet : Quiet m m'

/-- What a statement leaves. -/
def Settled (m m' : Machine) : Prop :=
  ∃ kept, m.scopes.Kept kept ∧
    (m'.scopes = kept ∨ (m'.signal = .ret ∧ ∃ value, m'.scopes = kept.setReturnValue value))

theorem Quiet.trans (h₁ : Quiet m₁ m₂) (h₂ : Quiet m₂ m₃) : Quiet m₁ m₃ := by
  rcases h₂ with h₂ | h₂
  · exact h₁.imp h₂.trans h₂.trans
  · exact .inr h₂

theorem Passed.trans (h₁ : Passed m₁ m₂) (h₂ : Passed m₂ m₃) : Passed m₁ m₃ :=
  ⟨h₁.stack.trans h₂.stack, h₁.quiet.trans h₂.quiet⟩

theorem Passed.toHalted (h : Passed m m₁) : Halted m m₁ := ⟨h.stack.under, h.quiet⟩

theorem Passed.halted (h₁ : Passed m₁ m₂) (h₂ : Halted m₂ m₃) : Halted m₁ m₃ :=
  ⟨h₁.stack.trans_under h₂.stack, h₁.quiet.trans h₂.quiet⟩

theorem Passed.settled (h₁ : Passed m₁ m₂) (h₂ : Settled m₂ m₃) : Settled m₁ m₃ := by
  obtain ⟨kept, hk, h⟩ := h₂
  exact ⟨kept, h₁.stack.trans hk, h⟩

theorem Passed.of_same (hne : m.scopes.contexts ≠ []) (h : m.SameStack m₁) : Passed m m₁ := by
  refine ⟨?_, .inl h.2⟩
  rw [h.1]
  exact .refl hne

theorem Passed.refl (hne : m.scopes.contexts ≠ []) : Passed m m := .of_same hne ⟨rfl, rfl⟩

theorem Settled.of_kept (h : m.scopes.Kept m₁.scopes) : Settled m m₁ := ⟨_, h, .inl rfl⟩

theorem Settled.of_same (h : Settled m m₁) (hscopes : m₂.scopes = m₁.scopes)
    (hret : m₁.signal = .ret → m₂.signal = .ret) : Settled m m₂ := by
  obtain ⟨kept, hk, heq | ⟨hsig, value, heq⟩⟩ := h
  · exact ⟨kept, hk, .inl (hscopes.trans heq)⟩
  · exact ⟨kept, hk, .inr ⟨hret hsig, value, hscopes.trans heq⟩⟩

/-- A statement that leaves no signal is like an expression. -/
theorem Settled.passed (h : Settled m m₁) (hsig : m₁.signal = .normal) : Passed m m₁ := by
  obtain ⟨kept, hk, heq | ⟨hret, -⟩⟩ := h
  · exact ⟨heq ▸ hk, .inr hsig⟩
  · rw [hsig] at hret
    cases hret

/-! ## Orderly computations -/

/-- If `x` is stopped the stack of `m` lies under the one that is left; if it is done, what it
leaves is in `Q`. -/
def Orderly (x : Exec α) (m : Machine) (Q : α → Machine → Prop) : Prop :=
  Spec x m (fun _ => True) (fun _ => Halted m) Q

namespace Orderly

variable {Q : α → Machine → Prop}

theorem bind {x : Exec α} {f : α → Exec β} {R : β → Machine → Prop} (hx : Orderly x m Q)
    (hf : ∀ a m₁, Q a m₁ → Passed m m₁ ∧ Orderly (f a) m₁ R) : Orderly (x >>= f) m R := by
  refine Spec.bind (hx.mono (fun _ h => h) (fun _ _ h => h) fun a m₁ hq => ?_)
  obtain ⟨hp, ho⟩ := hf a m₁ hq
  exact ho.mono (fun _ h => h) (fun _ _ h => hp.halted h) fun _ _ h => h

theorem mono {x : Exec α} {R : α → Machine → Prop} (hx : Orderly x m Q)
    (hR : ∀ a m', Q a m' → R a m') : Orderly x m R :=
  Spec.mono hx (fun _ h => h) (fun _ _ h => h) hR

theorem pure {a : α} (h : Q a m) : Orderly (pure a) m Q := Spec.pure h

theorem bind_view {f : Machine → α} {g : α → Exec β} {R : β → Machine → Prop}
    (h : Orderly (g (f m)) m R) : Orderly (view f >>= g) m R :=
  Spec.bind (Spec.view h)

theorem bind_update {f : Machine → Machine} {g : Unit → Exec β} {R : β → Machine → Prop}
    (hf : Passed m (f m)) (h : Orderly (g ()) (f m) R) : Orderly (update f >>= g) m R :=
  bind (Q := fun _ m₁ => m₁ = f m) (Spec.update trivial rfl) <| by
    rintro _ _ rfl
    exact ⟨hf, h⟩

variable (hne : m.scopes.contexts ≠ [])
include hne

theorem of_steady {x : Exec α} (hx : Steady x) : Orderly x m fun _ => m.SameStack :=
  (Leads.spec hx m).mono (fun _ h => h) (fun _ _ h => (Passed.of_same hne h).toHalted)
    fun _ _ h => h

/-- A steady step in a sequence. -/
theorem bind_steady {x : Exec α} {f : α → Exec β} {R : β → Machine → Prop} (hx : Steady x)
    (hf : ∀ a m₁, m.SameStack m₁ → Orderly (f a) m₁ R) : Orderly (x >>= f) m R :=
  (of_steady hne hx).bind fun a m₁ h => ⟨.of_same hne h, hf a m₁ h⟩

theorem outOfFuel : Orderly outOfFuel m Q :=
  Spec.outOfFuel (Passed.refl hne).toHalted

end Orderly

/-- What is stopped after an orderly beginning. -/
theorem Passed.spec (h : Passed m m₁) {x : Exec α} {Q : α → Machine → Prop}
    (hx : Orderly x m₁ Q) : Spec x m₁ (fun _ => True) (fun _ => Halted m) Q :=
  Spec.mono hx (fun _ h => h) (fun _ _ h' => h.halted h') fun _ _ h => h

/-! ## Single steps -/

section Steps

variable (hne : m.scopes.contexts ≠ [])
include hne

theorem orderly_assign (target : String) (v : Variable) :
    Orderly (assign target v) m fun _ => Passed m := by
  unfold assign
  refine .bind_view ?_
  split
  · split
    · refine (Orderly.of_steady hne ?_).mono fun _ _ h => .of_same hne h
      exact ((HeapOnly.copy _ _).bind fun _ => (HeapOnly.note _).bind fun _ =>
        HeapOnly.pure _).steady
    · refine (Orderly.of_steady hne (HeapOnly.steady ?_)).mono fun _ _ h => .of_same hne h
      exact (HeapOnly.discard _).bind fun _ => .raise _ nofun
  · rename_i hl
    refine .bind_view (.bind_steady hne (HeapOnly.rehome _ _).steady fun w m₁ h₁ => ?_)
    obtain ⟨c, rest, hc⟩ := List.exists_cons_of_ne_nil hne
    have hkept : m₁.scopes.Kept (m₁.scopes.bind target w) := by
      rw [h₁.1]
      exact Store.kept_bind (σ := m.store) hc target hl
    have hbind : Passed m₁ { m₁ with scopes := m₁.scopes.bind target w } := ⟨hkept, .inl rfl⟩
    refine .bind_update hbind (.bind_steady hkept.nonempty (HeapOnly.note _).steady ?_)
    intro _ m₃ h₃
    exact .pure (((Passed.of_same hne h₁).trans hbind).trans (.of_same hkept.nonempty h₃))

theorem orderly_leaveFunction (value : Option Variable) :
    Orderly (leaveFunction value) m fun _ => Settled m := by
  have hstore : Orderly (storeReturned value) m fun _ m₁ =>
      Settled m { m₁ with signal := .ret } := by
    unfold storeReturned
    refine .bind_view ?_
    split
    · refine .bind_steady hne (HeapOnly.handBack _ _).steady fun returned m₁ h₁ => ?_
      refine Spec.update trivial ⟨m.scopes, .refl hne, .inr ⟨rfl, returned, ?_⟩⟩
      rw [← h₁.1]
    · refine (Orderly.of_steady hne (HeapOnly.note _).steady).mono fun _ m₁ h₁ => ?_
      exact .of_kept (Passed.of_same hne h₁).stack
  -- nothing can stop what follows
  exact Spec.bind (hstore.mono fun _ _ h => Spec.update trivial h)

theorem orderly_defineFunction (f : FunctionDef) :
    Orderly (defineFunction f) m fun _ => Settled m := by
  unfold defineFunction
  refine .bind_steady hne (HeapOnly.note _).steady fun _ m₁ h₁ => ?_
  refine Spec.update trivial (.of_kept ?_)
  show m.scopes.Kept (m₁.scopes.define f)
  rw [h₁.1]
  exact .define hne f

theorem orderly_loopCondition {condition : Option (Exec Variable)}
    (hc : ∀ x ∈ condition, Orderly x m fun _ => Passed m) :
    Orderly (loopCondition condition) m fun _ => Passed m := by
  cases condition with
  | none => exact .pure (.refl hne)
  | some x =>
    refine (hc x rfl).bind fun v m₁ h₁ => ⟨h₁, ?_⟩
    have hrest : Steady (do
        let proceed ← testCondition .loop v
        sweepCondition
        pure proceed) :=
      ((HeapOnly.testCondition _ _).bind fun _ => HeapOnly.sweepCondition.bind fun _ =>
        HeapOnly.pure _).steady
    exact (Orderly.of_steady h₁.stack.nonempty hrest).mono fun _ _ h =>
      h₁.trans (.of_same h₁.stack.nonempty h)

omit hne in
/-- A round that is over leaves no `break`, and the loop goes on only if it leaves no signal. -/
theorem orderly_finishRound (h : Settled m m₁) :
    Spec finishRound m₁ (fun _ => True) (fun _ => Halted m) fun again m₂ =>
      Settled m m₂ ∧ m₂.signal ≠ .brk ∧ (again = true → m₂.signal = .normal) := by
  unfold finishRound
  refine Spec.bind (Spec.view ?_)
  cases hsig : m₁.signal with
  | normal => exact Spec.pure ⟨h, by simp [hsig], fun _ => hsig⟩
  | brk =>
    refine Spec.bind (Spec.update trivial (Spec.pure ⟨h.of_same rfl ?_, by simp, fun _ => rfl⟩))
    rw [hsig]
    intro hret
    cases hret
  | ret => exact Spec.pure ⟨h, by simp [hsig], fun h => by cases h⟩

end Steps

/-! ## Scopes of constructs -/

theorem Halted.of_cons (h : Halted m₁ m₂) (hne : m.scopes.contexts ≠ []) {c : Context}
    (hc : m₁.scopes.contexts = c :: m.scopes.contexts) (hsig : m₁.signal = m.signal) :
    Halted m m₂ := by
  have hq := h.quiet
  rw [Quiet, hsig] at hq
  exact ⟨h.stack.of_cons hne hc, hq⟩

/-- The stack when the body of a construct is over: what is below its context is as it was, or took
a return value. -/
theorem Settled.of_push {kind : ScopeKind} {name : String} (hk : kind ≠ .function)
    (hpush : m₁.scopes = (m.scopes.push kind name).2) (h : Settled m₁ m₂) :
    m.scopes.nextId ≤ m₂.scopes.nextId ∧ ∃ c rest, m₂.scopes.contexts = c :: rest ∧
      (rest = m.scopes.contexts ∨
        (m₂.signal = .ret ∧ ∃ value, rest = ScopeStack.storeReturn value m.scopes.contexts)) := by
  obtain ⟨kept, hkept, h⟩ := h
  rw [hpush] at hkept
  obtain ⟨hn, c, hc, -, hset⟩ := hkept.of_push hk
  rcases h with heq | ⟨hret, value, heq⟩
  · exact ⟨by rw [heq]; exact hn, c, m.scopes.contexts, by rw [heq, hc], .inl rfl⟩
  · exact ⟨by rw [heq]; exact hn, c, _, by rw [heq, hset], .inr ⟨hret, value, rfl⟩⟩

theorem orderly_withScope (hne : m.scopes.contexts ≠ []) {kind : ScopeKind}
    (hk : kind ≠ .function) {name : String} {body : ScopeId → Exec α} {R : α → Signal → Prop}
    (hbody : ∀ id m₁, m₁.scopes.contexts ≠ [] →
      Orderly (body id) m₁ fun a m₂ => Settled m₁ m₂ ∧ R a m₂.signal) :
    Orderly (withScope kind name body) m fun a m' => Settled m m' ∧ R a m'.signal ∧
      (m'.signal ≠ .ret → m'.scopes.contexts = m.scopes.contexts) := by
  unfold withScope
  refine Spec.bind (Spec.enterScope (fun _ => trivial) fun j => Spec.bind ?_)
  refine Spec.mono (hbody _ _ (List.cons_ne_nil _ _)) (fun _ h => h)
    (fun _ _ h => h.of_cons hne rfl rfl) ?_
  rintro a m₂ ⟨hsettled, hR⟩
  obtain ⟨hn, c, rest, hc, hrest⟩ := hsettled.of_push hk rfl
  refine Spec.bind (Spec.exitScope hc rfl (fun _ => trivial) (fun _ => trivial) fun j' => ?_)
  refine Spec.pure ⟨⟨{ m.scopes with nextId := m₂.scopes.nextId }, .of_contexts hne rfl hn, ?_⟩,
    hR, fun hsig => hrest.resolve_right fun h => hsig h.1⟩
  rcases hrest with rfl | ⟨hret, value, rfl⟩
  · exact .inl rfl
  · exact .inr ⟨hret, value, rfl⟩

/-- `m'` is `m` with other variables in the innermost context `c`, above `rest`. -/
def Rebound (m : Machine) (c : Context) (rest : List Context) (m' : Machine) : Prop :=
  m'.signal = m.signal ∧
    ∃ locals, m'.scopes = ⟨{ c with locals := locals } :: rest, m.scopes.nextId⟩

theorem Rebound.of_same {c : Context} {rest : List Context} (hc : m.scopes.contexts = c :: rest)
    (h : m.SameStack m₁) : Rebound m c rest m₁ :=
  ⟨h.2, c.locals, by rw [h.1, ← hc]⟩

/-- Parameters are bound in the innermost context, and nothing else of the stack changes, even if
one cannot be bound. -/
theorem spec_bindParameters (scope : ScopeId) (pairs : List (String × Variable)) {c : Context}
    {rest : List Context} (hc : m.scopes.contexts = c :: rest) :
    Spec (bindParameters scope pairs) m (fun _ => True) (fun _ => Rebound m c rest)
      fun _ => Rebound m c rest := by
  induction pairs generalizing m c with
  | nil => exact Spec.pure (.of_same hc ⟨rfl, rfl⟩)
  | cons x pairs ih =>
    obtain ⟨param, actual⟩ := x
    unfold bindParameters
    refine Spec.bind ((Leads.spec (HeapOnly.rehome actual (.owned scope)).steady m).mono
      (fun _ h => h) (fun _ _ h => .of_same hc h) fun v m₁ h₁ => ?_)
    refine Spec.bind (Spec.update trivial ?_)
    have hc₁ : m₁.scopes.contexts = c :: rest := by rw [h₁.1, hc]
    have hbound : ∀ m', Rebound { m₁ with scopes := m₁.scopes.bind param v }
        { c with locals := c.locals.insert param v } rest m' → Rebound m c rest m' := by
      rintro m' ⟨hsig, locals, hscopes⟩
      refine ⟨hsig.trans h₁.2, locals, hscopes.trans (congrArg (ScopeStack.mk _) ?_)⟩
      exact (m₁.scopes.nextId_bind param v).trans (by rw [h₁.1])
    exact (ih (Store.contexts_bind (σ := m₁.store) hc₁ param)).mono (fun _ h => h)
      (fun _ => hbound) fun _ => hbound

/-! ## Functions -/

/-- What executing any list of statements with the given fuel does to the stack. -/
def ListsOrderly (fuel : Nat) : Prop :=
  ∀ ss m, m.scopes.contexts ≠ [] → Orderly (execList fuel ss) m fun _ => Settled m

/-- When the body of a function is over, its context is the innermost one. -/
theorem Settled.of_function {c : Context} {rest : List Context}
    (hc : m.scopes.contexts = c :: rest) (hf : c.isFunction = true) (h : Settled m m₁) :
    m.scopes.nextId ≤ m₁.scopes.nextId ∧ ∃ c', m₁.scopes.contexts = c' :: rest := by
  obtain ⟨kept, hkept, h⟩ := h
  obtain ⟨hn, d, hd, -, -, hset⟩ := hkept.of_function hc hf
  rcases h with heq | ⟨-, value, heq⟩
  · exact ⟨by rw [heq]; exact hn, d, by rw [heq, hd]⟩
  · exact ⟨by rw [heq]; exact hn, _, by rw [heq, hset]⟩

theorem orderly_functionScope {fuel : Nat} (ih : ListsOrderly fuel)
    (hne : m.scopes.contexts ≠ []) (f : FunctionDef) (actuals : List Variable) :
    Orderly (withScope .function f.name (functionBody fuel f actuals)) m fun _ m' =>
      Passed m m' ∧ m'.scopes.contexts = m.scopes.contexts := by
  unfold withScope functionBody
  refine Spec.bind (Spec.enterScope (fun _ => trivial) fun j => Spec.bind (Spec.bind ?_))
  refine (spec_bindParameters _ _ rfl).mono (fun _ h => h) ?_ ?_
  · rintro _ m₂ ⟨hsig, locals, hscopes⟩
    have hne₂ : m₂.scopes.contexts ≠ [] := by rw [hscopes]; exact List.cons_ne_nil _ _
    exact (Passed.refl hne₂).toHalted.of_cons hne (congrArg _ hscopes) hsig
  rintro _ m₂ ⟨hsig, locals, hscopes⟩
  have hc₂ : m₂.scopes.contexts =
      { id := m.scopes.nextId, kind := .function, name := f.name, locals := locals } ::
        m.scopes.contexts := by
    rw [hscopes]
  refine Spec.bind (Spec.mono (ih f.body m₂ (by rw [hc₂]; exact List.cons_ne_nil _ _))
    (fun _ h => h) (fun _ _ h => h.of_cons hne hc₂ hsig) fun _ m₃ h₃ => ?_)
  obtain ⟨hn, c, hc⟩ := h₃.of_function hc₂ rfl
  refine Spec.bind (Spec.update trivial (Spec.view (Spec.bind ?_)))
  refine Spec.exitScope (m := { m₃ with signal := .normal }) hc rfl (fun _ => trivial)
    (fun _ => trivial) fun j' => Spec.pure ⟨⟨.of_contexts hne rfl ?_, .inr rfl⟩, rfl⟩
  rw [hscopes] at hn
  exact Nat.le_trans (Nat.le_succ _) hn

/-! ## Evaluation -/

/-- What evaluation with the given fuel does to the stack and to the signal. -/
structure Discipline (fuel : Nat) : Prop where
  eval : ∀ e m, m.scopes.contexts ≠ [] → Orderly (eval fuel e) m fun _ => Passed m
  actuals : ∀ f params args m, m.scopes.contexts ≠ [] →
    Orderly (evalActuals fuel f params args) m fun _ => Passed m
  call : ∀ name args line m, m.scopes.contexts ≠ [] →
    Orderly (call fuel name args line) m fun _ => Passed m
  exec : ∀ s m, m.scopes.contexts ≠ [] → Orderly (exec fuel s) m fun _ => Settled m
  list : ListsOrderly fuel
  loop : ∀ condition body rounds m, m.scopes.contexts ≠ [] →
    Orderly (execLoop fuel condition body rounds) m fun _ m' =>
      Settled m m' ∧ (m'.signal = .brk → m.signal = .brk)

namespace Discipline

theorem zero : Discipline 0 where
  eval _ _ hne := .outOfFuel hne
  actuals _ _ _ _ hne := .outOfFuel hne
  call _ _ _ _ hne := .outOfFuel hne
  exec _ _ hne := .outOfFuel hne
  list _ _ hne := .outOfFuel hne
  loop _ _ _ _ hne := .outOfFuel hne

variable {fuel : Nat} (ih : Discipline fuel) (hne : m.scopes.contexts ≠ [])
include ih hne

/-- An operand, and a steady step that uses it. -/
theorem eval_then (e : Expr) {f : Variable → Exec α} (hf : ∀ v, Steady (f v)) :
    Orderly (Exec.eval fuel e >>= f) m fun _ => Passed m := by
  refine (ih.eval e m hne).bind fun v m₁ h₁ => ⟨h₁, ?_⟩
  exact (Orderly.of_steady h₁.stack.nonempty (hf v)).mono fun _ _ h =>
    h₁.trans (.of_same h₁.stack.nonempty h)

theorem eval_succ (e : Expr) : Orderly (Exec.eval (fuel + 1) e) m fun _ => Passed m := by
  unfold Exec.eval
  refine .bind_steady hne (.goToLine _) fun _ m₁ h₁ => ?_
  have hp₁ := Passed.of_same hne h₁
  have hne₁ := hp₁.stack.nonempty
  suffices h : Orderly _ m₁ fun _ => Passed m₁ from h.mono fun _ _ h => hp₁.trans h
  cases e with
  | literal value line =>
    exact (Orderly.of_steady hne₁ (HeapOnly.allocValue value).steady).mono fun _ _ h =>
      .of_same hne₁ h
  | identifier name line =>
    exact (Orderly.of_steady hne₁ (HeapOnly.readIdentifier name).steady).mono fun _ _ h =>
      .of_same hne₁ h
  | unary op operand line =>
    exact ih.eval_then hne₁ operand fun v => (HeapOnly.applyUnary op v).steady
  | binary op left right line =>
    refine (ih.eval left m₁ hne₁).bind fun l m₂ h₂ => ⟨h₂, ?_⟩
    exact (ih.eval_then h₂.stack.nonempty right fun r =>
      (HeapOnly.applyBinary op l r).steady).mono fun _ _ h => h₂.trans h
  | assign target value line =>
    refine (ih.eval value m₁ hne₁).bind fun v m₂ h₂ => ⟨h₂, ?_⟩
    exact (orderly_assign h₂.stack.nonempty target v).mono fun _ _ h => h₂.trans h
  | print operand line =>
    exact ih.eval_then hne₁ operand fun v => .printVariable v line
  | call name args line =>
    refine (ih.call name args line m₁ hne₁).bind fun r m₂ h₂ => ⟨h₂, ?_⟩
    cases r with
    | none => exact Spec.raise (Passed.refl h₂.stack.nonempty).toHalted
    | some v => exact .pure h₂
  | composite shape line => exact Spec.raise (Passed.refl hne₁).toHalted

theorem actuals_succ (f : String) (params : List String) (args : List Expr) :
    Orderly (evalActuals (fuel + 1) f params args) m fun _ => Passed m := by
  have hrefl := Passed.refl hne
  cases params with
  | nil => exact .pure hrefl
  | cons param params =>
    cases args with
    | nil => exact Spec.raise hrefl.toHalted
    | cons arg args =>
      refine (ih.eval arg m hne).bind fun v m₁ h₁ => ⟨h₁, ?_⟩
      refine (ih.actuals f params args m₁ h₁.stack.nonempty).bind fun vs m₂ h₂ => ⟨h₂, ?_⟩
      exact .pure (h₁.trans h₂)

theorem call_succ (name : String) (args : List Expr) (line : Nat) :
    Orderly (Exec.call (fuel + 1) name args line) m fun _ => Passed m := by
  unfold Exec.call
  refine .bind_steady hne (.goToLine _) fun _ m₁ h₁ => .bind_view ?_
  have hp₁ := Passed.of_same hne h₁
  refine .bind_steady hp₁.stack.nonempty (HeapOnly.findFunction name).steady fun f m₂ h₂ => ?_
  have hp₂ := hp₁.trans (.of_same hp₁.stack.nonempty h₂)
  refine (ih.actuals f.name f.params args m₂ hp₂.stack.nonempty).bind fun vs m₃ h₃ => ⟨h₃, ?_⟩
  refine .bind_steady h₃.stack.nonempty (HeapOnly.note _).steady fun _ m₄ h₄ => ?_
  have hp₄ := (hp₂.trans h₃).trans (.of_same h₃.stack.nonempty h₄)
  refine (orderly_functionScope ih.list hp₄.stack.nonempty f vs).bind ?_
  rintro r m₅ ⟨h₅, -⟩
  refine ⟨h₅, ?_⟩
  exact .bind_update (.of_same h₅.stack.nonempty ⟨rfl, rfl⟩)
    (.pure ((hp₄.trans h₅).trans (.of_same h₅.stack.nonempty ⟨rfl, rfl⟩)))

theorem block (name : String) (body : List Stmt) :
    Orderly (withScope .block name fun _ => execList fuel body) m fun _ => Settled m :=
  (orderly_withScope (R := fun _ _ => True) hne (by simp) fun _ m₁ hne₁ =>
    (ih.list body m₁ hne₁).mono fun _ _ h => ⟨h, trivial⟩).mono fun _ _ h => h.1

theorem exec_succ (s : Stmt) : Orderly (Exec.exec (fuel + 1) s) m fun _ => Settled m := by
  unfold Exec.exec
  refine .bind_steady hne (.goToLine _) fun _ m₁ h₁ => ?_
  have hp₁ := Passed.of_same hne h₁
  have hne₁ := hp₁.stack.nonempty
  suffices h : Orderly _ m₁ fun _ => Settled m₁ from h.mono fun _ _ h => hp₁.settled h
  split
  · exact (ih.call _ _ _ m₁ hne₁).bind fun _ _ h => ⟨h, .pure (.of_kept h.stack)⟩
  · exact (ih.eval _ m₁ hne₁).bind fun _ _ h => ⟨h, .pure (.of_kept h.stack)⟩
  · exact ih.block hne₁ _ _
  · refine (ih.eval _ m₁ hne₁).bind fun v m₂ h₂ => ⟨h₂, ?_⟩
    have hne₂ := h₂.stack.nonempty
    refine .bind_steady hne₂ (HeapOnly.testCondition .cond v).steady fun b m₃ h₃ => ?_
    have hp₃ := h₂.trans (.of_same hne₂ h₃)
    split
    · exact (ih.block hp₃.stack.nonempty _ _).mono fun _ _ h => hp₃.settled h
    · split
      · exact (ih.block hp₃.stack.nonempty _ _).mono fun _ _ h => hp₃.settled h
      · exact .pure (.of_kept hp₃.stack)
  · exact (ih.loop _ _ _ m₁ hne₁).mono fun _ _ h => h.1
  · exact orderly_defineFunction hne₁ _
  · exact orderly_leaveFunction hne₁ none
  · refine (ih.eval _ m₁ hne₁).bind fun v m₂ h₂ => ⟨h₂, ?_⟩
    exact (orderly_leaveFunction h₂.stack.nonempty _).mono fun _ _ h => h₂.settled h
  · exact Spec.update trivial (.of_kept (.refl hne₁))

theorem list_succ (ss : List Stmt) : Orderly (execList (fuel + 1) ss) m fun _ => Settled m := by
  cases ss with
  | nil => exact .pure (.of_kept (.refl hne))
  | cons s rest =>
    -- a statement that leaves a signal ends the list
    refine Spec.bind (Spec.mono (ih.exec s m hne) (fun _ h => h) (fun _ _ h => h) fun _ m₁ h₁ => ?_)
    refine Spec.bind (Spec.view ?_)
    split
    · rename_i hsig
      have hp₁ := h₁.passed hsig
      refine hp₁.spec (.bind_steady hp₁.stack.nonempty .finishStatement fun _ m₂ h₂ => ?_)
      have hp₂ := hp₁.trans (.of_same hp₁.stack.nonempty h₂)
      exact (ih.list rest m₂ hp₂.stack.nonempty).mono fun _ _ h => hp₂.settled h
    · exact Spec.pure h₁

/-- One round of a loop. -/
theorem round (body : List Stmt) :
    Orderly (withScope .loop "loop" fun _ => do execList fuel body; finishRound) m fun again m' =>
      Settled m m' ∧ (m'.signal ≠ .brk ∧ (again = true → m'.signal = .normal)) ∧
        (m'.signal ≠ .ret → m'.scopes.contexts = m.scopes.contexts) :=
  orderly_withScope (R := fun again signal => signal ≠ .brk ∧ (again = true → signal = .normal))
    hne (by simp) fun _ m₁ hne₁ => Spec.bind (Spec.mono (ih.list body m₁ hne₁)
      (fun _ h => h) (fun _ _ h => h) fun _ _ h => orderly_finishRound h)

theorem loop_succ (condition : Option Expr) (body : List Stmt) (rounds : Nat) :
    Orderly (execLoop (fuel + 1) condition body rounds) m fun _ m' =>
      Settled m m' ∧ (m'.signal = .brk → m.signal = .brk) := by
  unfold execLoop
  refine (orderly_loopCondition hne fun x hx => ?_).bind fun proceed m₁ h₁ => ⟨h₁, ?_⟩
  · obtain ⟨c, -, rfl⟩ := Option.map_eq_some_iff.1 hx
    exact ih.eval c m hne
  have hne₁ := h₁.stack.nonempty
  split
  · refine Spec.bind (Spec.mono (ih.round hne₁ body) (fun _ h => h) (fun _ _ h => h) ?_)
    rintro again m₂ ⟨hsettled, ⟨hbrk, hagain⟩, -⟩
    split
    · have hp₂ := hsettled.passed (hagain (by assumption))
      refine hp₂.spec ((ih.loop condition body _ m₂ hp₂.stack.nonempty).mono ?_)
      rintro _ m₃ ⟨h₃, hsig₃⟩
      exact ⟨h₁.settled (hp₂.settled h₃), fun h => absurd (hsig₃ h) hbrk⟩
    · refine Spec.note (fun _ => trivial) fun j => ⟨h₁.settled (hsettled.of_same rfl id), ?_⟩
      exact fun h => absurd h hbrk
  · refine Spec.note (fun _ => trivial) fun j => ⟨h₁.settled (.of_kept (.refl hne₁)), fun h => ?_⟩
    rcases h₁.quiet with hq | hq
    · exact hq.symm.trans h
    · rw [show m₁.signal = .brk from h] at hq
      cases hq

omit hne in
theorem succ : Discipline (fuel + 1) where
  eval e _ hne := ih.eval_succ hne e
  actuals f params args _ hne := ih.actuals_succ hne f params args
  call name args line _ hne := ih.call_succ hne name args line
  exec s _ hne := ih.exec_succ hne s
  list ss _ hne := ih.list_succ hne ss
  loop condition body rounds _ hne := ih.loop_succ hne condition body rounds

end Discipline

theorem discipline (fuel : Nat) : Discipline fuel := by
  induction fuel with
  | zero => exact .zero
  | succ fuel ih => exact ih.succ

end Exec

/-! ## Main result -/

namespace ScopeStack

/-- What becomes of the stack `s` while something runs in its innermost context: the contexts `cs`.
`returning` says whether the innermost function may have taken a return value. -/
structure Intact (s : ScopeStack) (returning : Prop) (cs : List Context) : Prop where
  /-- The same scopes, in the same order. -/
  frames : cs.map Context.frame = s.contexts.map Context.frame
  /-- Variables and functions below the innermost context are the same. -/
  below : cs.tail.map (fun c => (c.locals, c.functions)) =
    s.contexts.tail.map fun c => (c.locals, c.functions)
  /-- The innermost context keeps what its names are bound to. -/
  kept : ∀ c ∈ s.contexts.head?, ∀ c' ∈ cs.head?, ∀ n v,
    c.locals.get? n = some v → c'.locals.get? n = some v
  /-- A name that it gains was not visible. -/
  gained : ∀ c ∈ s.contexts.head?, ∀ c' ∈ cs.head?, ∀ n v,
    c'.locals.get? n = some v → c.locals.get? n = some v ∨ s.lookupVariable n = none
  /-- A return value changes only in the context of the innermost function. -/
  returned : ∀ (i : Nat) (c c' : Context), s.contexts[i]? = some c → cs[i]? = some c' →
    c'.returnValue = c.returnValue ∨ (returning ∧ i = s.contexts.findIdx Context.isFunction)

variable {s : ScopeStack} {returning : Prop} {c c' : Context} {rest : List Context}

theorem Intact.of_grows (hs : s.contexts = c :: rest) (hg : c.Grows rest c') :
    s.Intact returning (c' :: rest) := by
  refine ⟨by simp [hs, hg.frame], by simp [hs], ?_, ?_, ?_⟩
  · rw [hs]
    rintro _ ⟨⟩ _ ⟨⟩
    exact hg.kept
  · rw [hs]
    rintro _ ⟨⟩ _ ⟨⟩ n v hn
    refine (hg.gained n v hn).imp_right fun hnone => ?_
    rw [lookupVariable, List.findSome?_eq_none_iff, hs]
    exact hnone
  · rw [hs]
    intro i d d' hd hd'
    cases i with
    | zero =>
      obtain rfl := Option.some.inj hd
      obtain rfl := Option.some.inj hd'
      exact .inl hg.returnValue
    | succ i =>
      obtain rfl := Option.some.inj (hd.symm.trans hd')
      exact .inl rfl

theorem findIdx_isFunction_of_frames {cs ds : List Context}
    (h : cs.map Context.frame = ds.map Context.frame) :
    cs.findIdx Context.isFunction = ds.findIdx Context.isFunction := by
  have hmap : ∀ l : List Context, l.findIdx Context.isFunction =
      (l.map Context.frame).findIdx fun f => f.kind == .function := by
    intro l
    rw [List.findIdx_map]
    rfl
  rw [hmap, h, ← hmap]

/-- Only the context of the innermost function takes a return value. -/
theorem getElem?_storeReturn {value : Option Variable} {cs : List Context} {i : Nat}
    (hi : i ≠ cs.findIdx Context.isFunction) : (storeReturn value cs)[i]? = cs[i]? := by
  induction cs generalizing i with
  | nil => rfl
  | cons c cs ih =>
    unfold storeReturn
    rw [List.findIdx_cons] at hi
    cases hf : c.isFunction with
    | true =>
      rw [hf] at hi
      obtain ⟨j, rfl⟩ := Nat.exists_eq_succ_of_ne_zero hi
      rfl
    | false =>
      rw [hf] at hi
      cases i with
      | zero => rfl
      | succ i => exact ih fun h => hi (congrArg Nat.succ h)

theorem Intact.storeReturn {cs : List Context} (h : s.Intact returning cs) (hr : returning)
    (value : Option Variable) : s.Intact returning (storeReturn value cs) := by
  have hhead : ∀ c' ∈ (ScopeStack.storeReturn value cs).head?, ∃ d ∈ cs.head?,
      c'.locals = d.locals := by
    intro c' hc'
    have hmap := congrArg List.head?
      (map_storeReturn (g := Context.locals) (fun _ _ => rfl) value cs)
    rw [List.head?_map, List.head?_map, hc', Option.map_some] at hmap
    obtain ⟨d, hd, hl⟩ := Option.map_eq_some_iff.1 hmap.symm
    exact ⟨d, hd, hl.symm⟩
  refine ⟨?_, ?_, ?_, ?_, ?_⟩
  · rw [map_storeReturn (fun _ _ => rfl)]
    exact h.frames
  · rw [List.map_tail, map_storeReturn (fun _ _ => rfl), ← List.map_tail]
    exact h.below
  · intro c hc c' hc' n v hn
    obtain ⟨d, hd, hl⟩ := hhead c' hc'
    rw [hl]
    exact h.kept c hc d hd n v hn
  · intro c hc c' hc' n v hn
    obtain ⟨d, hd, hl⟩ := hhead c' hc'
    rw [hl] at hn
    exact h.gained c hc d hd n v hn
  · intro i c c' hc hc'
    by_cases hi : i = s.contexts.findIdx Context.isFunction
    · exact .inr ⟨hr, hi⟩
    · rw [getElem?_storeReturn fun he => hi (he.trans (findIdx_isFunction_of_frames h.frames))]
        at hc'
      exact h.returned i c c' hc hc'

end ScopeStack

/-- However it ends, a computation started on the stack `s` keeps it. -/
structure Outcome.KeepsStack {α : Type} (s : ScopeStack) (o : Outcome α) : Prop where
  done : ∀ a m, o = .done a m → s.Intact (m.signal = .ret) m.scopes.contexts
  fault : ∀ e m, o = .fault e m →
    (∃ above below, m.scopes.contexts = above ++ below ∧ s.Intact False below) ∧
      (m.diagnose e).trace = m.scopes.contexts.map Context.frame
  exhausted : ∀ m, o = .exhausted m →
    ∃ above below, m.scopes.contexts = above ++ below ∧ s.Intact False below

section Main

open Exec

variable {α : Type} {m m' : Machine}

theorem Exec.Settled.intact (h : Settled m m') :
    m.scopes.Intact (m'.signal = .ret) m'.scopes.contexts := by
  obtain ⟨kept, ⟨-, c, c', rest, hc, hk, hg⟩, heq | ⟨hret, value, heq⟩⟩ := h
  · rw [heq, hk]
    exact .of_grows hc hg
  · rw [heq, ScopeStack.setReturnValue, hk]
    exact (ScopeStack.Intact.of_grows hc hg).storeReturn hret value

theorem ScopeStack.Under.intact {s t : ScopeStack} (h : s.Under t) :
    ∃ above below, t.contexts = above ++ below ∧ s.Intact False below := by
  obtain ⟨above, c, c', rest, hs, ht, hg⟩ := h
  exact ⟨above, c' :: rest, ht, .of_grows hs hg⟩

theorem Exec.Orderly.keepsStack {x : Exec α} (h : Orderly x m fun _ => Settled m) :
    (x m).KeepsStack m.scopes where
  done a m' ho := (h.done a m' ho).intact
  fault e m' ho := ⟨(h.fault e m' ho).stack.intact, rfl⟩
  exhausted m' ho := (h.exhausted m' ho).stack.intact

/-- Expressions, statements and lists of statements keep the stack they are started on. If one is
done, the contexts are what they were but for names that the innermost one gains, and for the return
value of the innermost function while a `return` is pending. If one stops on a fault, the contexts
are the bottom of the stack that is reported. -/
theorem keepsStack_of_visited (h : m.Visited) (fuel : Nat) :
    (∀ e, (eval fuel e m).KeepsStack m.scopes) ∧ (∀ s, (exec fuel s m).KeepsStack m.scopes) ∧
      ∀ ss, (execList fuel ss m).KeepsStack m.scopes := by
  have hne : m.scopes.contexts ≠ [] := h.sound.nonempty
  refine ⟨fun e => ?_, fun s => ?_, fun ss => ?_⟩
  · exact (((discipline fuel).eval e m hne).mono fun _ _ h => .of_kept h.stack).keepsStack
  · exact ((discipline fuel).exec s m hne).keepsStack
  · exact ((discipline fuel).list ss m hne).keepsStack

/-- In the scope that a fault left open, a `return` out of a block, and a call that faults again, in
a third scope. -/
theorem keepsStack_stranded :
    Machine.stranded.Visited ∧
    (execList 9 [.block [.ret (some (.identifier "q" 5)) 5] 5] .stranded).state.signal = .ret ∧
    (execList 9 [.block [.ret (some (.identifier "q" 5)) 5] 5] .stranded).KeepsStack
      Machine.stranded.scopes ∧
    (execList 9 [.expr (.call "f" [.identifier "p" 5] 5)] .stranded).state.scopes.depth = 3 ∧
    (execList 9 [.expr (.call "f" [.identifier "p" 5] 5)] .stranded).KeepsStack
      Machine.stranded.scopes := by
  have hvisited : Machine.stranded.Visited := .reached Machine.reachable_stranded
  have hkeeps := (keepsStack_of_visited hvisited 9).2.2
  exact ⟨hvisited, by decide +kernel, hkeeps _, by decide +kernel,
    hkeeps [.expr (.call "f" [.identifier "p" 5] 5)]⟩

end Main

end HeapWalk
