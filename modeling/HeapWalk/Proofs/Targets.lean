import HeapWalk.Proofs.Discipline
import HeapWalk.Proofs.Tidiness

/-!
# The names that an expression binds

Evaluating an expression binds a name of its scope only where an assignment meets a name that is not
visible. All the names that it can assign there can be read off its text and the numbers of
parameters of the functions that are visible (`Expr.targets`). When it is done, all of them are
visible; so what is evaluated again in the same scope binds no name (`ScopeStack.Gains`).
-/

set_option autoImplicit false

namespace HeapWalk

mutual

/-- The names that are assigned in the scope where `e` is evaluated, if a call evaluates as many of
its actuals as `arity` says. -/
def Expr.targets (arity : String → Nat) : (e : Expr) → List String
  | .literal .. | .identifier .. | .composite .. => []
  | .unary _ operand _ | .print operand _ => operand.targets arity
  | .binary _ left right _ => left.targets arity ++ right.targets arity
  | .assign target value _ => value.targets arity ++ [target]
  | .call name args _ => Expr.actualTargets arity (arity name) args

/-- The names that the first actuals assign. -/
def Expr.actualTargets (arity : String → Nat) : (count : Nat) → List Expr → List String
  | count + 1, arg :: args => arg.targets arity ++ Expr.actualTargets arity count args
  | _, _ => []

end

theorem Expr.actualTargets_zero (arity : String → Nat) (args : List Expr) :
    Expr.actualTargets arity 0 args = [] := by
  cases args <;> rfl

namespace ScopeStack

variable {s t u : ScopeStack} {xs ys : List String}

/-- The number of parameters of a function that is visible. -/
def arity (s : ScopeStack) (name : String) : Nat :=
  ((s.lookupFunction name).map fun f => f.params.length).getD 0

def Visible (s : ScopeStack) (name : String) : Prop := (s.lookupVariable name).isSome = true

/-- `t` is `s` after the names were assigned in its innermost context. -/
structure Gains (s : ScopeStack) (names : List String) (t : ScopeStack) : Prop where
  kept : s.Kept t
  functions : t.lookupFunction = s.lookupFunction
  visible : ∀ n ∈ names, t.Visible n
  same : (∀ n ∈ names, s.Visible n) → t.contexts = s.contexts

theorem visible_iff {n : String} :
    s.Visible n ↔ ∃ c ∈ s.contexts, (c.locals.get? n).isSome = true := by
  rw [Visible, lookupVariable, List.findSome?_isSome_iff]

theorem Visible.of_contexts {n : String} (h : s.Visible n) (hc : t.contexts = s.contexts) :
    t.Visible n := by
  rwa [Visible, lookupVariable, hc]

theorem Kept.visible {n : String} (h : s.Kept t) (hn : s.Visible n) : t.Visible n := by
  obtain ⟨-, c, c', rest, hs, ht, hg⟩ := h
  obtain ⟨d, hd, hsome⟩ := visible_iff.1 hn
  rw [hs] at hd
  refine visible_iff.2 ?_
  rw [ht]
  rcases List.mem_cons.1 hd with rfl | hd
  · obtain ⟨v, hv⟩ := Option.isSome_iff_exists.1 hsome
    exact ⟨c', List.mem_cons_self, by rw [hg.kept n v hv]; rfl⟩
  · exact ⟨d, List.mem_cons_of_mem _ hd, hsome⟩

namespace Gains

theorem of_contexts (hk : s.Kept t) (hc : t.contexts = s.contexts) : s.Gains [] t where
  kept := hk
  functions := by
    funext name
    rw [lookupFunction, lookupFunction, hc]
  visible _ hn := by cases hn
  same _ := hc

theorem refl (hne : s.contexts ≠ []) : s.Gains [] s := .of_contexts (.refl hne) rfl

theorem arity_eq (h : s.Gains xs t) : t.arity = s.arity := by
  funext name
  rw [arity, arity, h.functions]

theorem trans (h₁ : s.Gains xs t) (h₂ : t.Gains ys u) : s.Gains (xs ++ ys) u where
  kept := h₁.kept.trans h₂.kept
  functions := h₂.functions.trans h₁.functions
  visible n hn := by
    rcases List.mem_append.1 hn with hx | hy
    · exact h₂.kept.visible (h₁.visible n hx)
    · exact h₂.visible n hy
  same h := by
    have hst := h₁.same fun n hn => h n (List.mem_append_left _ hn)
    have htu := h₂.same fun n hn => h₁.kept.visible (h n (List.mem_append_right _ hn))
    exact htu.trans hst

/-- A name that was visible is assigned: nothing is bound. -/
theorem of_visible {n : String} (hne : s.contexts ≠ []) (h : s.Visible n) : s.Gains [n] s where
  kept := .refl hne
  functions := rfl
  visible _ hn := List.mem_singleton.1 hn ▸ h
  same _ := rfl

/-- A name that was not visible is assigned: it is bound. -/
theorem of_bind {n : String} {v : Variable} (hne : s.contexts ≠ [])
    (h : s.lookupVariable n = none) : s.Gains [n] (s.bind n v) := by
  obtain ⟨c, rest, hc⟩ := List.exists_cons_of_ne_nil hne
  have hbind : (s.bind n v).contexts = { c with locals := c.locals.insert n v } :: rest := by
    rw [ScopeStack.bind, hc]
  refine ⟨Store.kept_bind (σ := ⟨.ofCapacity 0, s⟩) hc n h, ?_, fun m hm => ?_, fun hall => ?_⟩
  · funext name
    rw [lookupFunction, lookupFunction, hbind, hc]
    rfl
  · obtain rfl := List.mem_singleton.1 hm
    refine visible_iff.2 ⟨_, by rw [hbind]; exact List.mem_cons_self, ?_⟩
    rw [Bindings.get?_insert, if_pos rfl]
    rfl
  · have hn := hall n (List.mem_singleton_self n)
    rw [Visible, h] at hn
    cases hn

end Gains

end ScopeStack

namespace Exec

open ScopeStack

variable {α β : Type} {m m₁ : Machine}

theorem Steady.ends {x : Exec α} (hx : Steady x) : Ends x m fun _ m' => m'.scopes = m.scopes :=
  (Leads.spec hx m).mono (fun _ h => h) (fun _ _ _ => trivial) fun _ _ h => h.1

theorem Orderly.ends {x : Exec α} {Q : α → Machine → Prop} (h : Orderly x m Q) : Ends x m Q :=
  Spec.mono h (fun _ h => h) (fun _ _ _ => trivial) fun _ _ h => h

/-- A steady step before something that gains names. -/
theorem Ends.bind_steady {x : Exec α} {f : α → Exec β} {xs : List String} (hx : Steady x)
    (hf : ∀ a m₁, m₁.scopes = m.scopes → Ends (f a) m₁ fun _ m' => m₁.scopes.Gains xs m'.scopes) :
    Ends (x >>= f) m fun _ m' => m.scopes.Gains xs m'.scopes :=
  Spec.bind (hx.ends.mono fun a m₁ h => (hf a m₁ h).mono fun _ _ hg => h ▸ hg)

/-- A steady step after something that gains names. -/
theorem Ends.then_steady {x : Exec α} {f : α → Exec β} {xs : List String}
    (hx : Ends x m fun _ m' => m.scopes.Gains xs m'.scopes) (hf : ∀ a, Steady (f a)) :
    Ends (x >>= f) m fun _ m' => m.scopes.Gains xs m'.scopes :=
  Spec.bind (hx.mono fun a _ hg => (hf a).ends.mono fun _ _ h => h ▸ hg)

theorem gains_assign (hne : m.scopes.contexts ≠ []) (target : String) (v : Variable) :
    Ends (assign target v) m fun _ m' => m.scopes.Gains [target] m'.scopes := by
  unfold assign
  refine .bind_view ?_
  split
  · rename_i bound hl
    have hgains : m.scopes.Gains [target] m.scopes := .of_visible hne (by rw [Visible, hl]; rfl)
    split
    · refine (Steady.ends ?_).mono fun _ _ h => h ▸ hgains
      exact ((HeapOnly.copy _ _).bind fun _ => (HeapOnly.note _).bind fun _ =>
        HeapOnly.pure _).steady
    · exact .raise_after _ _
  · rename_i hl
    refine .bind_view (.bind_steady (HeapOnly.rehome _ _).steady fun w m₁ h₁ => ?_)
    refine Spec.bind (Spec.update trivial (Spec.bind (Spec.note (fun _ => trivial) fun j =>
      Spec.pure ?_)))
    exact .of_bind (by rw [h₁]; exact hne) (by rw [h₁]; exact hl)

/-! ## Evaluation -/

/-- The names that evaluation with the given fuel binds. -/
structure Naming (fuel : Nat) : Prop where
  eval : ∀ e m, m.scopes.contexts ≠ [] → Ends (eval fuel e) m fun _ m' =>
    m.scopes.Gains (e.targets m.scopes.arity) m'.scopes
  actuals : ∀ f params args m, m.scopes.contexts ≠ [] →
    Ends (evalActuals fuel f params args) m fun _ m' =>
      m.scopes.Gains (Expr.actualTargets m.scopes.arity params.length args) m'.scopes
  call : ∀ name args line m, m.scopes.contexts ≠ [] →
    Ends (call fuel name args line) m fun _ m' =>
      m.scopes.Gains (Expr.actualTargets m.scopes.arity (m.scopes.arity name) args) m'.scopes

namespace Naming

theorem zero : Naming 0 where
  eval _ _ _ := Spec.outOfFuel trivial
  actuals _ _ _ _ _ := Spec.outOfFuel trivial
  call _ _ _ _ _ := Spec.outOfFuel trivial

variable {fuel : Nat} (ih : Naming fuel) (hne : m.scopes.contexts ≠ [])
include ih hne

theorem eval_succ (e : Expr) : Ends (Exec.eval (fuel + 1) e) m fun _ m' =>
    m.scopes.Gains (e.targets m.scopes.arity) m'.scopes := by
  unfold Exec.eval
  refine .bind_steady (.goToLine _) fun _ m₁ h₁ => ?_
  rw [← h₁] at hne ⊢
  have hrefl := Gains.refl hne
  cases e with
  | literal value line =>
    exact (HeapOnly.allocValue value).steady.ends.mono fun _ _ h => h ▸ hrefl
  | identifier name line =>
    exact (HeapOnly.readIdentifier name).steady.ends.mono fun _ _ h => h ▸ hrefl
  | unary op operand line =>
    exact (ih.eval operand m₁ hne).then_steady fun v => (HeapOnly.applyUnary op v).steady
  | binary op left right line =>
    refine Spec.bind ((ih.eval left m₁ hne).mono fun l m₂ h₂ => ?_)
    have hright := ih.eval right m₂ h₂.kept.nonempty
    rw [h₂.arity_eq] at hright
    exact (hright.then_steady fun r => (HeapOnly.applyBinary op l r).steady).mono fun _ _ h =>
      h₂.trans h
  | assign target value line =>
    refine Spec.bind ((ih.eval value m₁ hne).mono fun v m₂ h₂ => ?_)
    exact (gains_assign h₂.kept.nonempty target v).mono fun _ _ h => h₂.trans h
  | print operand line =>
    exact (ih.eval operand m₁ hne).then_steady fun v => .printVariable v line
  | call name args line =>
    refine Spec.bind ((ih.call name args line m₁ hne).mono fun r m₂ h₂ => ?_)
    cases r with
    | none => exact Spec.raise trivial
    | some v => exact Spec.pure h₂
  | composite shape line => exact Spec.raise trivial

theorem actuals_succ (f : String) (params : List String) (args : List Expr) :
    Ends (evalActuals (fuel + 1) f params args) m fun _ m' =>
      m.scopes.Gains (Expr.actualTargets m.scopes.arity params.length args) m'.scopes := by
  cases params with
  | nil =>
    rw [List.length_nil, Expr.actualTargets_zero]
    exact Spec.pure (.refl hne)
  | cons param params =>
    cases args with
    | nil => exact Spec.raise trivial
    | cons arg args =>
      refine Spec.bind ((ih.eval arg m hne).mono fun v m₁ h₁ => ?_)
      have hrest := ih.actuals f params args m₁ h₁.kept.nonempty
      rw [h₁.arity_eq] at hrest
      exact Spec.bind (hrest.mono fun vs m₂ h₂ => Spec.pure (h₁.trans h₂))

/-- A call binds what its actuals bind: the scope of the function is gone. -/
theorem call_succ (name : String) (args : List Expr) (line : Nat) :
    Ends (Exec.call (fuel + 1) name args line) m fun _ m' =>
      m.scopes.Gains (Expr.actualTargets m.scopes.arity (m.scopes.arity name) args) m'.scopes := by
  unfold Exec.call
  refine .bind_steady (.goToLine _) fun _ m₁ h₁ => .bind_view ?_
  rw [← h₁] at hne ⊢
  refine Spec.bind (Spec.findFunction (fun f hf _ => ?_) trivial fun _ => trivial)
  have harity : m₁.scopes.arity name = f.params.length := by
    rw [arity, hf]
    rfl
  rw [harity]
  refine Spec.bind ((ih.actuals f.name f.params args m₁ hne).mono fun vs m₂ h₂ => ?_)
  refine Spec.bind (Spec.note (fun _ => trivial) fun j => Spec.bind ?_)
  refine (orderly_functionScope (m := { m₂ with journal := j }) (discipline fuel).list
    h₂.kept.nonempty f vs).ends.mono ?_
  rintro r m₃ ⟨hpassed, hcontexts⟩
  refine Spec.bind (Spec.update trivial (Spec.pure ?_))
  have h₃ : m₂.scopes.Gains [] m₃.scopes := .of_contexts hpassed.stack hcontexts
  rw [← List.append_nil (Expr.actualTargets _ _ _)]
  exact h₂.trans h₃

omit hne in
theorem succ : Naming (fuel + 1) where
  eval e _ hne := ih.eval_succ hne e
  actuals f params args _ hne := ih.actuals_succ hne f params args
  call name args line _ hne := ih.call_succ hne name args line

end Naming

theorem naming (fuel : Nat) : Naming fuel := by
  induction fuel with
  | zero => exact .zero
  | succ fuel ih => exact ih.succ

end Exec

end HeapWalk
