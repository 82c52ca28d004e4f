import HeapWalk.Proofs.Session

/-!
# More fuel

A computation that came to an end with some fuel comes to the same end with more (`Exec.Stable`), so
two runs that both end have one outcome, whatever fuel each was given (`run_eq_of_ended`).
-/

set_option autoImplicit false

namespace HeapWalk

/-- The computation came to an end, with a value or with a fault. -/
def Outcome.ended {α : Type} : Outcome α → Bool
  | done _ _ | fault _ _ => true
  | exhausted _ => false

namespace Exec

variable {α β : Type}

/-- `y` comes to the outcome of `x`, unless `x` ran out of fuel. -/
def Le (x y : Exec α) : Prop := ∀ m, (∃ m', x m = .exhausted m') ∨ y m = x m

namespace Le

theorem refl (x : Exec α) : Le x x := fun _ => .inr rfl

theorem trans {x y z : Exec α} (h₁ : Le x y) (h₂ : Le y z) : Le x z := by
  intro m
  rcases h₁ m with hout | heq
  · exact .inl hout
  · rcases h₂ m with ⟨m', hout⟩ | heq'
    · exact .inl ⟨m', heq ▸ hout⟩
    · exact .inr (heq'.trans heq)

theorem outOfFuel (y : Exec α) : Le outOfFuel y := fun m => .inl ⟨m, rfl⟩

theorem bind {x x' : Exec α} {f f' : α → Exec β} (hx : Le x x') (hf : ∀ a, Le (f a) (f' a)) :
    Le (x >>= f) (x' >>= f') := by
  intro m
  rw [bind_apply, bind_apply]
  rcases hx m with ⟨m', hout⟩ | heq
  · rw [hout]
    exact .inl ⟨m', rfl⟩
  · rw [heq]
    cases x m with
    | done a m' => exact hf a m'
    | fault e m' => exact .inr rfl
    | exhausted m' => exact .inl ⟨m', rfl⟩

theorem withScope (kind : ScopeKind) (name : String) {body body' : ScopeId → Exec α}
    (h : ∀ id, Le (body id) (body' id)) :
    Le (withScope kind name body) (withScope kind name body') :=
  bind (.refl _) fun id => bind (h id) fun _ => .refl _

theorem recordingFault {x y : Exec α} (h : Le x y) : Le (recordingFault x) (recordingFault y) := by
  intro m
  rcases h m with ⟨m', hout⟩ | heq
  · exact .inl ⟨m', recordingFault_eq_exhausted.2 hout⟩
  · right
    unfold Exec.recordingFault
    simp only [heq]

end Le

/-- One unit of fuel more changes no outcome. -/
structure Stable (fuel : Nat) : Prop where
  eval : ∀ e, Le (eval fuel e) (eval (fuel + 1) e)
  actuals : ∀ f params args,
    Le (evalActuals fuel f params args) (evalActuals (fuel + 1) f params args)
  call : ∀ name args line, Le (call fuel name args line) (call (fuel + 1) name args line)
  exec : ∀ s, Le (exec fuel s) (exec (fuel + 1) s)
  list : ∀ ss, Le (execList fuel ss) (execList (fuel + 1) ss)
  loop : ∀ condition body rounds,
    Le (execLoop fuel condition body rounds) (execLoop (fuel + 1) condition body rounds)

namespace Stable

theorem zero : Stable 0 where
  eval _ := .outOfFuel _
  actuals _ _ _ := .outOfFuel _
  call _ _ _ := .outOfFuel _
  exec _ := .outOfFuel _
  list _ := .outOfFuel _
  loop _ _ _ := .outOfFuel _

variable {fuel : Nat} (ih : Stable fuel)
include ih

theorem eval_succ (e : Expr) : Le (Exec.eval (fuel + 1) e) (Exec.eval (fuel + 2) e) := by
  unfold Exec.eval
  refine .bind (.refl _) fun _ => ?_
  cases e with
  | literal value line => exact .refl _
  | identifier name line => exact .refl _
  | unary op operand line => exact .bind (ih.eval _) fun _ => .refl _
  | binary op left right line =>
    exact .bind (ih.eval _) fun _ => .bind (ih.eval _) fun _ => .refl _
  | assign target value line => exact .bind (ih.eval _) fun _ => .refl _
  | print operand line => exact .bind (ih.eval _) fun _ => .refl _
  | call name args line => exact .bind (ih.call _ _ _) fun _ => .refl _
  | composite shape line => exact .refl _

theorem actuals_succ (f : String) (params : List String) (args : List Expr) :
    Le (evalActuals (fuel + 1) f params args) (evalActuals (fuel + 2) f params args) := by
  cases params with
  | nil => exact .refl _
  | cons param params =>
    cases args with
    | nil => exact .refl _
    | cons arg args => exact .bind (ih.eval _) fun _ => .bind (ih.actuals _ _ _) fun _ => .refl _

theorem call_succ (name : String) (args : List Expr) (line : Nat) :
    Le (Exec.call (fuel + 1) name args line) (Exec.call (fuel + 2) name args line) := by
  unfold Exec.call
  refine .bind (.refl _) fun _ => .bind (.refl _) fun _ => .bind (.refl _) fun f => ?_
  refine .bind (ih.actuals _ _ _) fun _ => .bind (.refl _) fun _ => .bind ?_ fun _ => .refl _
  exact .withScope _ _ fun _ => .bind (.refl _) fun _ => .bind (ih.list _) fun _ => .refl _

theorem block (name : String) (body : List Stmt) :
    Le (Exec.withScope .block name fun _ => execList fuel body)
      (Exec.withScope .block name fun _ => execList (fuel + 1) body) :=
  .withScope _ _ fun _ => ih.list body

theorem exec_succ (s : Stmt) : Le (Exec.exec (fuel + 1) s) (Exec.exec (fuel + 2) s) := by
  unfold Exec.exec
  refine .bind (.refl _) fun _ => ?_
  split
  · exact .bind (ih.call _ _ _) fun _ => .refl _
  · exact .bind (ih.eval _) fun _ => .refl _
  · exact ih.block _ _
  · refine .bind (ih.eval _) fun _ => .bind (.refl _) fun b => ?_
    split
    · exact ih.block _ _
    · split
      · exact ih.block _ _
      · exact .refl _
  · exact ih.loop _ _ _
  · exact .refl _
  · exact .refl _
  · exact .bind (ih.eval _) fun _ => .refl _
  · exact .refl _

theorem list_succ (ss : List Stmt) : Le (execList (fuel + 1) ss) (execList (fuel + 2) ss) := by
  cases ss with
  | nil => exact .refl _
  | cons s rest =>
    refine .bind (ih.exec _) fun _ => .bind (.refl _) fun signal => ?_
    split
    · exact .bind (.refl _) fun _ => ih.list _
    · exact .refl _

theorem loop_succ (condition : Option Expr) (body : List Stmt) (rounds : Nat) :
    Le (execLoop (fuel + 1) condition body rounds) (execLoop (fuel + 2) condition body rounds) := by
  unfold execLoop
  refine .bind ?_ fun proceed => ?_
  · cases condition with
    | none => exact .refl _
    | some c => exact .bind (ih.eval _) fun _ => .refl _
  · split
    · refine .bind (.withScope _ _ fun _ => .bind (ih.list _) fun _ => .refl _) fun again => ?_
      split
      · exact ih.loop _ _ _
      · exact .refl _
    · exact .refl _

theorem succ : Stable (fuel + 1) where
  eval := ih.eval_succ
  actuals := ih.actuals_succ
  call := ih.call_succ
  exec := ih.exec_succ
  list := ih.list_succ
  loop := ih.loop_succ

end Stable

theorem stable (fuel : Nat) : Stable fuel := by
  induction fuel with
  | zero => exact .zero
  | succ fuel ih => exact ih.succ

/-! ## Runs -/

variable {fuel fuel' : Nat} {m : Machine}

theorem run_le (h : fuel ≤ fuel') : Le (run fuel) (run fuel') := by
  induction h with
  | refl => exact .refl _
  | step _ ih =>
    exact ih.trans (.bind (.refl _) fun _ => .bind (.refl _) fun _ => .bind (.refl _) fun program =>
      .bind (((stable _).list program).recordingFault) fun _ => .refl _)

theorem run_eq_of_le (h : fuel ≤ fuel') (hended : (run fuel m).ended = true) :
    run fuel' m = run fuel m := by
  rcases run_le h m with ⟨m', hout⟩ | heq
  · rw [hout] at hended
    cases hended
  · exact heq

theorem run_eq_of_ended (h : (run fuel m).ended = true) (h' : (run fuel' m).ended = true) :
    run fuel' m = run fuel m := by
  rcases Nat.le_total fuel fuel' with hle | hle
  · exact run_eq_of_le hle h
  · exact (run_eq_of_le hle h').symm

end Exec

end HeapWalk
