import HeapWalk.Proofs.CallDepth

/-!
# Programs without loops

A program without loops comes to an end, whatever recursion its functions do: a call leaves less
depth for further calls, and everything else descends in the syntax. Fuel that covers twice the
syntax that is left, and twice the greatest function body for each call that is left
(`Machine.reserve`), is never used up.
-/

set_option autoImplicit false

namespace HeapWalk

/-! ## Loops in programs -/

mutual

/-- The statement contains no loop, nor does a function that it defines. -/
def Stmt.loopFree : Stmt → Bool
  | .expr _ | .ret _ _ | .brk _ => true
  | .loop _ _ _ => false
  | .block body _ | .function _ _ body _ => Stmt.allLoopFree body
  | .cond _ thenBranch elseBranch _ =>
    Stmt.allLoopFree thenBranch && Stmt.elseLoopFree elseBranch

def Stmt.allLoopFree : List Stmt → Bool
  | [] => true
  | s :: rest => s.loopFree && Stmt.allLoopFree rest

def Stmt.elseLoopFree : Option (List Stmt) → Bool
  | none => true
  | some body => Stmt.allLoopFree body

end

/-- The body of the function has no loop and is of the given size at most. -/
structure FunctionDef.Tame (size : Nat) (f : FunctionDef) : Prop where
  loopFree : Stmt.allLoopFree f.body = true
  small : sizeOf f.body ≤ size

/-- So are all functions that are defined. -/
def ScopeStack.Tame (size : Nat) (s : ScopeStack) : Prop :=
  ∀ c ∈ s.contexts, ∀ n f, c.functions.get? n = some f → f.Tame size

/-- What the calls that are still admitted may use: twice the greatest body for each. -/
def Machine.reserve (size : Nat) (m : Machine) : Nat :=
  (maxCallDepth - m.scopes.callDepth) * (2 * size)

namespace ScopeStack

variable {size : Nat} {s : ScopeStack}

theorem Tame.lookup (h : s.Tame size) {name : String} {f : FunctionDef}
    (hf : s.lookupFunction name = some f) : f.Tame size := by
  obtain ⟨c, hc, hn⟩ := List.exists_of_findSome?_eq_some hf
  exact h c hc name f hn

theorem Tame.push (h : s.Tame size) (kind : ScopeKind) (name : String) :
    (s.push kind name).2.Tame size := by
  intro c hc n f hf
  rcases List.mem_cons.1 hc with rfl | hc
  · cases hf
  · exact h c hc n f hf

theorem Tame.tail (h : s.Tame size) {c : Context} {rest : List Context}
    (hc : s.contexts = c :: rest) : Tame size { s with contexts := rest } :=
  fun d hd => h d (hc ▸ List.mem_cons_of_mem c hd)

theorem Tame.bind (h : s.Tame size) (name : String) (v : Variable) :
    (s.bind name v).Tame size := by
  unfold ScopeStack.bind
  split
  · exact h
  · rename_i c rest hc
    intro d hd
    rcases List.mem_cons.1 hd with rfl | hd
    · exact h c (hc ▸ List.mem_cons_self)
    · exact h d (hc ▸ List.mem_cons_of_mem c hd)

theorem Tame.define (h : s.Tame size) {f : FunctionDef} (hf : f.Tame size) :
    (s.define f).Tame size := by
  unfold ScopeStack.define
  split
  · exact h
  · rename_i c rest hc
    intro d hd n g hg
    rcases List.mem_cons.1 hd with rfl | hd
    · rw [Bindings.get?_insert] at hg
      split at hg
      · exact Option.some.inj hg ▸ hf
      · exact h c (hc ▸ List.mem_cons_self) n g hg
    · exact h d (hc ▸ List.mem_cons_of_mem c hd) n g hg

theorem Tame.setReturnValue (h : s.Tame size) (value : Option Variable) :
    (s.setReturnValue value).Tame size := by
  intro c hc
  have hmem : c.functions ∈ s.contexts.map Context.functions := by
    rw [← map_storeReturn (g := Context.functions) (fun _ _ => rfl) value]
    exact List.mem_map_of_mem hc
  obtain ⟨d, hd, heq⟩ := List.mem_map.1 hmem
  exact heq ▸ h d hd

end ScopeStack

namespace Machine

variable {size : Nat} {m m' : Machine}

theorem reserve_eq_of_trace (h : m'.scopes.trace = m.scopes.trace) :
    m'.reserve size = m.reserve size := by
  unfold reserve
  rw [ScopeStack.callDepth_eq_of_trace h]

theorem reserve_push {kind : ScopeKind} (hk : kind ≠ .function) {name : String}
    (h : m'.scopes.trace = (m.scopes.push kind name).2.trace) :
    m'.reserve size = m.reserve size := by
  unfold reserve
  rw [ScopeStack.callDepth_eq_of_trace h, ScopeStack.callDepth_push _ hk]

/-- A call that is admitted leaves the size of a function body. -/
theorem reserve_call (hdepth : m.scopes.callDepth < maxCallDepth) {name : String}
    (h : m'.scopes.trace = (m.scopes.push .function name).2.trace) :
    m'.reserve size + 2 * size = m.reserve size := by
  unfold reserve
  rw [ScopeStack.callDepth_eq_of_trace h, ScopeStack.callDepth_push_function, ← Nat.succ_mul]
  congr 1
  omega

end Machine

/-! ## Computations that do not run out of fuel -/

namespace Exec

variable {α β : Type} {size : Nat} {m : Machine}

/-- The computation comes to an end, and leaves the scopes and only tame functions. -/
def Concludes (size : Nat) (x : Exec α) (m : Machine) : Prop :=
  Spec x m (fun _ => True) (fun e _ => e ≠ none) fun _ m' =>
    m'.scopes.Tame size ∧ m'.scopes.trace = m.scopes.trace

/-- It does so on every machine with tame functions. -/
def Sure (size : Nat) (x : Exec α) : Prop := ∀ m, m.scopes.Tame size → Concludes size x m

theorem Concludes.bind {x : Exec α} {f : α → Exec β} (hx : Concludes size x m)
    (hf : ∀ a m₁, m₁.scopes.Tame size → m₁.scopes.trace = m.scopes.trace →
      Concludes size (f a) m₁) : Concludes size (x >>= f) m := by
  refine Spec.bind (Spec.mono hx (fun _ h => h) (fun _ _ h => h) fun a m₁ h₁ => ?_)
  exact Spec.mono (hf a m₁ h₁.1 h₁.2) (fun _ h => h) (fun _ _ h => h) fun _ _ h =>
    ⟨h.1, h.2.trans h₁.2⟩

theorem Concludes.withScope (hm : m.scopes.Tame size) {kind : ScopeKind} {name : String}
    {body : ScopeId → Exec α}
    (hbody : ∀ id m₁, m₁.scopes.Tame size →
      m₁.scopes.trace = (m.scopes.push kind name).2.trace → Concludes size (body id) m₁) :
    Concludes size (withScope kind name body) m := by
  refine Spec.bind (Spec.enterScope (fun _ => trivial) fun j => Spec.bind ?_)
  refine Spec.mono (hbody _ _ (hm.push kind name) rfl) (fun _ h => h) (fun _ _ h => h) ?_
  rintro a m₂ ⟨hm₂, htrace⟩
  obtain ⟨c, rest, hc, -, hrest⟩ := ScopeStack.contexts_of_trace htrace
  exact Spec.bind (Spec.exitScope hc rfl (fun _ => trivial) (fun _ => trivial) fun j' =>
    Spec.pure ⟨hm₂.tail hc, hrest⟩)

namespace Sure

theorem bind {x : Exec α} {f : α → Exec β} (hx : Sure size x) (hf : ∀ a, Sure size (f a)) :
    Sure size (x >>= f) :=
  fun m hm => (hx m hm).bind fun a m₁ hm₁ _ => hf a m₁ hm₁

theorem heapOnly {x : Exec α} (h : HeapOnly x) : Sure size x := by
  refine fun m hm => (h.spec m).mono (fun _ _ => trivial) (fun e _ he => ?_) fun _ m' hs => ?_
  · obtain ⟨⟨f, hf, -⟩, -⟩ := he
    exact Option.ne_none_iff_exists'.2 ⟨f, hf⟩
  · rw [hs.scopes]
    exact ⟨hm, rfl⟩

theorem update {f : Machine → Machine} (h : ∀ m : Machine, m.scopes.Tame size →
    (f m).scopes.Tame size ∧ (f m).scopes.trace = m.scopes.trace) : Sure size (update f) :=
  fun m hm => Spec.update trivial (h m hm)

theorem goToLine (line : Nat) : Sure size (goToLine line) := by
  refine update fun m hm => ?_
  split <;> exact ⟨hm, rfl⟩

theorem setSignal (signal : Signal) : Sure size (setSignal signal) := update fun _ hm => ⟨hm, rfl⟩

theorem bindVariable (name : String) (v : Variable) : Sure size (bindVariable name v) :=
  update fun _ hm => ⟨hm.bind name v, ScopeStack.trace_bind _ _ _⟩

theorem closed : Closed fun x => Sure size x where
  heapOnly := heapOnly
  bind := bind
  goToLine := goToLine
  bindVariable := bindVariable
  pushOutput _ := update fun _ hm => ⟨hm, rfl⟩

theorem finishStatement : Sure size finishStatement :=
  (heapOnly .sweepStatement).bind fun _ _ hm => Spec.takeSnapshot (fun _ => ⟨trivial, hm, rfl⟩)
    (fun _ _ _ => ⟨trivial, hm, rfl⟩) fun _ _ => nofun

theorem leaveFunction (value : Option Variable) : Sure size (leaveFunction value) := by
  refine .bind ((heapOnly (.view fun _ _ _ _ => rfl)).bind fun caller => ?_) fun _ => setSignal _
  cases caller with
  | none => exact heapOnly (.note _)
  | some caller =>
    refine (heapOnly (.handBack _ _)).bind fun returned => update fun m hm => ?_
    exact ⟨hm.setReturnValue returned, ScopeStack.trace_setReturnValue _ _⟩

theorem defineFunction {f : FunctionDef} (hf : f.Tame size) : Sure size (defineFunction f) := by
  refine (heapOnly (.note _)).bind fun _ => update fun m hm => ⟨hm.define hf, ?_⟩
  exact ScopeStack.trace_define m.scopes f

end Sure

/-- The function that is called is tame, and there is room for its call. -/
theorem spec_findFunction (hm : m.scopes.Tame size) (name : String) :
    Spec (findFunction name) m (fun _ => True) (fun e _ => e ≠ none) fun f m' =>
      m' = m ∧ f.Tame size ∧ m.scopes.callDepth < maxCallDepth :=
  Spec.findFunction (fun _ hf hdepth => ⟨rfl, hm.lookup hf, hdepth⟩) nofun fun _ => nofun

/-! ## Evaluation -/

/-- With so much fuel, what is left of the syntax is executed to its end. -/
structure Enough (size fuel : Nat) : Prop where
  eval : ∀ e m, m.scopes.Tame size → 2 * sizeOf e + m.reserve size < fuel →
    Concludes size (eval fuel e) m
  actuals : ∀ f params args m, m.scopes.Tame size → 2 * sizeOf args + m.reserve size < fuel →
    Concludes size (evalActuals fuel f params args) m
  call : ∀ name args line m, m.scopes.Tame size → 2 * sizeOf args + 1 + m.reserve size < fuel →
    Concludes size (call fuel name args line) m
  exec : ∀ s m, s.loopFree = true → sizeOf s ≤ size → m.scopes.Tame size →
    2 * sizeOf s + m.reserve size < fuel → Concludes size (exec fuel s) m
  list : ∀ ss m, Stmt.allLoopFree ss = true → sizeOf ss ≤ size → m.scopes.Tame size →
    2 * sizeOf ss + m.reserve size < fuel → Concludes size (execList fuel ss) m

namespace Enough

theorem zero (size : Nat) : Enough size 0 where
  eval _ _ _ h := absurd h (Nat.not_lt_zero _)
  actuals _ _ _ _ _ h := absurd h (Nat.not_lt_zero _)
  call _ _ _ _ _ h := absurd h (Nat.not_lt_zero _)
  exec _ _ _ _ _ h := absurd h (Nat.not_lt_zero _)
  list _ _ _ _ _ h := absurd h (Nat.not_lt_zero _)

variable {fuel : Nat} (ih : Enough size fuel) (hm : m.scopes.Tame size)
include ih hm

theorem eval_succ (e : Expr) (hfuel : 2 * sizeOf e + m.reserve size < fuel + 1) :
    Concludes size (Exec.eval (fuel + 1) e) m := by
  unfold Exec.eval
  refine (Sure.goToLine _ m hm).bind fun _ m₁ hm₁ ht₁ => ?_
  rw [← Machine.reserve_eq_of_trace ht₁] at hfuel
  cases e with
  | literal value line => exact Sure.heapOnly (.allocValue _) m₁ hm₁
  | identifier name line => exact Sure.heapOnly (.readIdentifier _) m₁ hm₁
  | unary op operand line =>
    rw [Expr.unary.sizeOf_spec] at hfuel
    exact (ih.eval operand m₁ hm₁ (by omega)).bind fun v m₂ hm₂ _ =>
      Sure.heapOnly (.applyUnary op v) m₂ hm₂
  | binary op left right line =>
    rw [Expr.binary.sizeOf_spec] at hfuel
    refine (ih.eval left m₁ hm₁ (by omega)).bind fun l m₂ hm₂ ht₂ => ?_
    rw [← Machine.reserve_eq_of_trace ht₂] at hfuel
    exact (ih.eval right m₂ hm₂ (by omega)).bind fun r m₃ hm₃ _ =>
      Sure.heapOnly (.applyBinary op l r) m₃ hm₃
  | assign target value line =>
    rw [Expr.assign.sizeOf_spec] at hfuel
    exact (ih.eval value m₁ hm₁ (by omega)).bind fun v m₂ hm₂ _ =>
      Sure.closed.assign target v m₂ hm₂
  | print operand line =>
    rw [Expr.print.sizeOf_spec] at hfuel
    exact (ih.eval operand m₁ hm₁ (by omega)).bind fun v m₂ hm₂ _ =>
      Sure.closed.printVariable v line m₂ hm₂
  | call name args line =>
    rw [Expr.call.sizeOf_spec] at hfuel
    refine (ih.call name args line m₁ hm₁ (by omega)).bind fun r m₂ hm₂ _ => ?_
    cases r with
    | none => exact Spec.raise (Option.some_ne_none _)
    | some v => exact Spec.pure ⟨hm₂, rfl⟩
  | composite shape line => exact Spec.raise (Option.some_ne_none _)

theorem actuals_succ (f : String) (params : List String) (args : List Expr)
    (hfuel : 2 * sizeOf args + m.reserve size < fuel + 1) :
    Concludes size (evalActuals (fuel + 1) f params args) m := by
  cases params with
  | nil => exact Spec.pure ⟨hm, rfl⟩
  | cons param params =>
    cases args with
    | nil => exact Spec.raise (Option.some_ne_none _)
    | cons arg args =>
      rw [List.cons.sizeOf_spec] at hfuel
      refine (ih.eval arg m hm (by omega)).bind fun v m₁ hm₁ ht₁ => ?_
      rw [← Machine.reserve_eq_of_trace ht₁] at hfuel
      exact (ih.actuals f params args m₁ hm₁ (by omega)).bind fun vs m₂ hm₂ _ =>
        Spec.pure ⟨hm₂, rfl⟩

theorem call_succ (name : String) (args : List Expr) (line : Nat)
    (hfuel : 2 * sizeOf args + 1 + m.reserve size < fuel + 1) :
    Concludes size (Exec.call (fuel + 1) name args line) m := by
  unfold Exec.call
  refine (Sure.goToLine _ m hm).bind fun _ m₁ hm₁ ht₁ => Spec.bind (Spec.view (Spec.bind ?_))
  rw [← Machine.reserve_eq_of_trace ht₁] at hfuel
  refine (spec_findFunction hm₁ name).mono (fun _ h => h) (fun _ _ h => h) ?_
  rintro f _ ⟨rfl, hf, hdepth⟩
  refine Concludes.bind (ih.actuals f.name f.params args _ hm₁ (by omega)) ?_
  intro actuals m₂ hm₂ ht₂
  refine (Sure.heapOnly (.note _) m₂ hm₂).bind fun _ m₃ hm₃ ht₃ => ?_
  replace ht₃ := ht₃.trans ht₂
  rw [← Machine.reserve_eq_of_trace ht₃] at hfuel
  rw [← ScopeStack.callDepth_eq_of_trace ht₃] at hdepth
  -- in the scope of the function there is less depth left, and fuel for its body
  refine (Concludes.withScope hm₃ fun scope m₄ hm₄ ht₄ => ?_).bind fun r m₅ hm₅ _ => ?_
  · refine (Sure.closed.bindParameters _ _ m₄ hm₄).bind fun _ m₅ hm₅ ht₅ => ?_
    have hreserve : m₅.reserve size + 2 * size = m₃.reserve size :=
      Machine.reserve_call hdepth (ht₅.trans ht₄)
    have hsmall := hf.small
    refine (ih.list f.body m₅ hf.loopFree hsmall hm₅ (by omega)).bind fun _ m₆ hm₆ _ => ?_
    exact (Sure.setSignal _ m₆ hm₆).bind fun _ m₇ hm₇ _ => Spec.view ⟨hm₇, rfl⟩
  · exact Spec.bind (Spec.update trivial (Spec.pure ⟨hm₅, rfl⟩))

theorem block (name : String) {body : List Stmt} (hfree : Stmt.allLoopFree body = true)
    (hsize : sizeOf body ≤ size) (hfuel : 2 * sizeOf body + m.reserve size < fuel) :
    Concludes size (withScope .block name fun _ => execList fuel body) m := by
  refine Concludes.withScope hm fun _ m₁ hm₁ ht₁ => ih.list body m₁ hfree hsize hm₁ ?_
  rwa [Machine.reserve_push (by nofun) ht₁]

theorem exec_succ (s : Stmt) (hfree : s.loopFree = true) (hsize : sizeOf s ≤ size)
    (hfuel : 2 * sizeOf s + m.reserve size < fuel + 1) :
    Concludes size (Exec.exec (fuel + 1) s) m := by
  unfold Exec.exec
  refine (Sure.goToLine _ m hm).bind fun _ m₁ hm₁ ht₁ => ?_
  rw [← Machine.reserve_eq_of_trace ht₁] at hfuel
  split
  · rename_i name args line
    rw [Stmt.expr.sizeOf_spec, Expr.call.sizeOf_spec] at hfuel
    exact (ih.call name args line m₁ hm₁ (by omega)).bind fun _ _ hm₂ _ => Spec.pure ⟨hm₂, rfl⟩
  · rename_i e _
    rw [Stmt.expr.sizeOf_spec] at hfuel
    exact (ih.eval e m₁ hm₁ (by omega)).bind fun _ _ hm₂ _ => Spec.pure ⟨hm₂, rfl⟩
  · rename_i body line
    rw [Stmt.block.sizeOf_spec] at hfuel hsize
    exact ih.block hm₁ _ hfree (by omega) (by omega)
  · rename_i condition thenBranch elseBranch line
    rw [Stmt.cond.sizeOf_spec] at hfuel hsize
    have hboth := Bool.and_eq_true_iff.1 hfree
    refine (ih.eval condition m₁ hm₁ (by omega)).bind fun v m₂ hm₂ ht₂ => ?_
    refine (Sure.heapOnly (.testCondition _ v) m₂ hm₂).bind fun b m₃ hm₃ ht₃ => ?_
    rw [← Machine.reserve_eq_of_trace (ht₃.trans ht₂)] at hfuel
    split
    · exact ih.block hm₃ _ hboth.1 (by omega) (by omega)
    · split
      · rw [Option.some.sizeOf_spec] at hfuel hsize
        exact ih.block hm₃ _ hboth.2 (by omega) (by omega)
      · exact Spec.pure ⟨hm₃, rfl⟩
  · cases hfree
  · rename_i name params body line
    rw [Stmt.function.sizeOf_spec] at hsize
    have hf : FunctionDef.Tame size ⟨name, params, body, line⟩ := ⟨hfree, by dsimp only; omega⟩
    exact Sure.defineFunction hf m₁ hm₁
  · exact Sure.leaveFunction none m₁ hm₁
  · rename_i e line
    rw [Stmt.ret.sizeOf_spec, Option.some.sizeOf_spec] at hfuel
    exact (ih.eval e m₁ hm₁ (by omega)).bind fun v m₂ hm₂ _ => Sure.leaveFunction _ m₂ hm₂
  · exact Sure.setSignal _ m₁ hm₁

theorem list_succ (ss : List Stmt) (hfree : Stmt.allLoopFree ss = true) (hsize : sizeOf ss ≤ size)
    (hfuel : 2 * sizeOf ss + m.reserve size < fuel + 1) :
    Concludes size (execList (fuel + 1) ss) m := by
  cases ss with
  | nil => exact Spec.pure ⟨hm, rfl⟩
  | cons s rest =>
    rw [List.cons.sizeOf_spec] at hfuel hsize
    have hboth := Bool.and_eq_true_iff.1 hfree
    refine (ih.exec s m hboth.1 (by omega) hm (by omega)).bind fun _ m₁ hm₁ ht₁ => ?_
    refine Spec.bind (Spec.view ?_)
    split
    · refine (Sure.finishStatement m₁ hm₁).bind fun _ m₂ hm₂ ht₂ => ?_
      rw [← Machine.reserve_eq_of_trace (ht₂.trans ht₁)] at hfuel
      exact ih.list rest m₂ hboth.2 (by omega) hm₂ (by omega)
    · exact Spec.pure ⟨hm₁, rfl⟩

omit hm in
theorem succ : Enough size (fuel + 1) where
  eval e _ hm := ih.eval_succ hm e
  actuals f params args _ hm := ih.actuals_succ hm f params args
  call name args line _ hm := ih.call_succ hm name args line
  exec s _ hfree hsize hm := ih.exec_succ hm s hfree hsize
  list ss _ hfree hsize hm := ih.list_succ hm ss hfree hsize

end Enough

theorem enough (size fuel : Nat) : Enough size fuel := by
  induction fuel with
  | zero => exact .zero size
  | succ fuel ih => exact ih.succ

/-! ## Runs -/

theorem ended_run {program : Program} (hfree : Stmt.allLoopFree program = true) (config : Config)
    {fuel : Nat} (hfuel : 2 * sizeOf program +
      (Machine.initial program config).reserve (sizeOf program) < fuel) :
    (run fuel (.initial program config)).ended = true := by
  have htame : (Machine.initial program config).scopes.Tame (sizeOf program) := by
    intro c hc n f hf
    obtain rfl := List.mem_singleton.1 hc
    cases hf
  have hprogram : ∀ journal history, Spec (do recordingFault (execList fuel program); finish)
      { Machine.initial program config with journal, history } (fun _ => True)
      (fun e _ => e ≠ none) fun _ _ => True := by
    intro journal history
    have hlist := (enough _ fuel).list program
      { Machine.initial program config with journal, history } hfree (Nat.le_refl _) htame hfuel
    refine Spec.bind (Spec.mono (Spec.recordingFault hlist (fun _ _ _ => ⟨trivial, nofun⟩)
      fun _ h => h) (fun _ h => h) (fun _ _ h => h) fun _ m₁ h₁ => ?_)
    exact Spec.bind (Spec.update trivial (Spec.bind (Spec.view
      (Spec.note (fun _ => trivial) fun _ => trivial))))
  have hrun : Spec (run fuel) (.initial program config) (fun _ => True) (fun e _ => e ≠ none)
      fun _ _ => True := by
    refine Spec.bind (Spec.note (fun _ => trivial) fun j => Spec.bind ?_)
    exact Spec.takeSnapshot (fun _ => ⟨trivial, Spec.bind (Spec.view (hprogram j _))⟩)
      (fun history _ _ => ⟨trivial, Spec.bind (Spec.view (hprogram j history))⟩) fun _ _ => nofun
  cases ho : run fuel (.initial program config) with
  | done _ _ => rfl
  | fault _ _ => rfl
  | exhausted m' => exact absurd rfl (hrun.exhausted m' ho)

end Exec

/-! ## Main result -/

/-- At no time are more than 200 functions running. Therefore a run of a program without loops comes
to an end, on every configuration: from some fuel on it has one outcome, which is an end or a
fault. -/
theorem callDepth_bounds_runs :
    (∀ m : Machine, m.Visited → m.scopes.callDepth ≤ 200) ∧
    ∀ (program : Program) (config : Config), Stmt.allLoopFree program = true →
      ∃ o : Outcome Unit, o.ended = true ∧
        ∃ enough, ∀ fuel, enough ≤ fuel → Exec.run fuel (.initial program config) = o := by
  refine ⟨fun m hm => hm.shallow, fun program config hfree => ?_⟩
  let enough := 2 * sizeOf program + (Machine.initial program config).reserve (sizeOf program) + 1
  have hended : (Exec.run enough (.initial program config)).ended = true :=
    Exec.ended_run hfree config (Nat.lt_succ_self _)
  exact ⟨_, hended, enough, fun fuel hle => Exec.run_eq_of_le hle hended⟩

/-- Two functions that call each other without end. -/
def endless : Program :=
  [.function "f" [] [.expr (.call "g" [] 2)] 1, .function "g" [] [.ret (some (.call "f" [] 4)) 4] 3,
    .expr (.call "f" [] 5)]

/-- A machine in which one function is running, and a recursion that the limit ends. -/
theorem callDepth_bounds_endless :
    (Machine.stranded.Visited ∧ Machine.stranded.scopes.callDepth = 1 ∧
      Machine.stranded.scopes.callDepth ≤ 200) ∧
    Stmt.allLoopFree endless = true ∧
    ∃ o enough, (∀ fuel, enough ≤ fuel →
        Exec.run fuel (.initial endless { heapCapacity := 4 }) = o) ∧
      o.fault? = some (.callDepthExceeded "f" 200) := by
  have hvisited : Machine.stranded.Visited := .reached Machine.reachable_stranded
  have hfault : (Exec.run 900 (.initial endless { heapCapacity := 4 })).fault? =
      some (.callDepthExceeded "f" 200) := by
    decide +kernel
  have hended : (Exec.run 900 (.initial endless { heapCapacity := 4 })).ended = true := by
    rw [Outcome.eq_fault hfault]
    rfl
  obtain ⟨hdepth, hruns⟩ := callDepth_bounds_runs
  obtain ⟨o, ho, enough, hrun⟩ := hruns endless { heapCapacity := 4 } rfl
  refine ⟨⟨hvisited, by decide +kernel, hdepth _ hvisited⟩, rfl, o, enough, hrun, ?_⟩
  have ho' := hrun enough (Nat.le_refl enough)
  rw [← ho'] at ho ⊢
  rw [Exec.run_eq_of_ended hended ho, hfault]

end HeapWalk
