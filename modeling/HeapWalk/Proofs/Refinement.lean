import HeapWalk.Proofs.Fuel
import HeapWalk.Proofs.Simulation

/-!
# Programs mean the same without a heap

One induction on the fuel gives `Simulates`: from related states, each of the six mutual functions
does the same with a heap and without. Where an operand waits for the evaluation of another one,
what is known of its range (`Exec.Contract`) keeps it readable.

A run that is not stopped by a full heap ends as the program does without a heap, and `Agrees` with
it on everything that can be seen. More fuel leaves the same machine, which determines the state
without a heap, so the program `Terminates` there too.
-/

set_option autoImplicit false

namespace HeapWalk

open Store Reference

/-! ## Evaluation -/

/-- The same result on both sides, or none. -/
def SameResult (m : Machine) (r : Option Variable) (r' : Option Value) : Prop :=
  Option.Rel (fun v x => Denotes m v (.value x)) r r'

structure Simulates (fuel : Nat) : Prop where
  eval : ∀ {e m s}, Running m s → Sim (Exec.eval fuel e) m (Eval.eval fuel e) s
    fun v m' o s' => Running m' s' ∧ Denotes m' v o
  actuals : ∀ {f params args m s}, Running m s →
    Sim (Exec.evalActuals fuel f params args) m (Eval.evalActuals fuel f params args) s
      fun vs m' os s' => Running m' s' ∧ List.Forall₂ (Denotes m') vs os
  call : ∀ {name args line m s}, Running m s →
    Sim (Exec.call fuel name args line) m (Eval.call fuel name args line) s
      fun r m' r' s' => Running m' s' ∧ SameResult m' r r'
  exec : ∀ {stmt m s}, Running m s →
    Sim (Exec.exec fuel stmt) m (Eval.exec fuel stmt) s fun _ m' _ s' => Rel m' s'
  list : ∀ {stmts m s}, Running m s →
    Sim (Exec.execList fuel stmts) m (Eval.execList fuel stmts) s fun _ m' _ s' => Rel m' s'
  loop : ∀ {condition body rounds m s}, Running m s →
    Sim (Exec.execLoop fuel condition body rounds) m (Eval.execLoop fuel condition body) s
      fun _ m' _ s' => Rel m' s'

/-- What a call does in the context of the function. -/
def Reference.Eval.functionBody (fuel : Nat) (f : FunctionDef) (values : List Value) :
    Eval (Option Value) := do
  Eval.bindParameters (f.params.zip values)
  Eval.execList fuel f.body
  Eval.setSignal .normal
  Eval.returned

/-- The range of an operand may be asked to survive. -/
theorem Denotes.live {m : Machine} {s : State} {v : Variable} {o : Operand} (h : Denotes m v o)
    (hR : Rel m s) : ∀ p, p = v.pointer → m.store.Live p := by
  rintro _ rfl
  obtain ⟨x, ⟨-, b, hb, -⟩, -⟩ := h.read hR
  exact ⟨b, hb⟩

namespace Simulates

theorem zero : Simulates 0 where
  eval _ := .outOfFuel
  actuals _ := .outOfFuel
  call _ := .outOfFuel
  exec _ := .outOfFuel
  list _ := .outOfFuel
  loop _ := .outOfFuel

variable {fuel : Nat} {m : Machine} {s : State} (ih : Simulates fuel) (h : Running m s)
include ih h

theorem eval_succ {e : Expr} : Sim (Exec.eval (fuel + 1) e) m (Eval.eval (fuel + 1) e) s
    fun v m' o s' => Running m' s' ∧ Denotes m' v o := by
  unfold Exec.eval Eval.eval
  refine (h.sim_goToLine e.line).bind ?_
  intro _ m₁ _ s₁ h₁
  cases e with
  | literal value line => exact h₁.sim_allocValue value
  | identifier name line => exact h₁.sim_readIdentifier name
  | unary op operand line =>
    refine (ih.eval h₁).bind ?_
    rintro v m₂ o s₂ ⟨h₂, hv⟩
    exact h₂.sim_applyUnary op hv
  | binary op left right line =>
    refine (ih.eval h₁).bind ?_
    rintro l m₂ o s₂ ⟨h₂, hl⟩
    -- the left operand waits while the right one is evaluated
    refine ((ih.eval h₂).and_runs ((Exec.contract fuel).eval h₂.sound (hl.live h₂.toRel))).bind ?_
    rintro r m₃ o' s₃ ⟨⟨h₃, hr⟩, hsafe, hk, -⟩
    exact h₃.sim_applyBinary op (hl.frame h₂.sound hsafe.frame hk) hr
  | assign target value line =>
    refine (ih.eval h₁).bind ?_
    rintro v m₂ o s₂ ⟨h₂, hv⟩
    exact h₂.sim_assign target hv
  | print operand line =>
    refine (ih.eval h₁).bind ?_
    rintro v m₂ o s₂ ⟨h₂, hv⟩
    exact h₂.sim_printVariable hv line
  | call name args line =>
    refine (ih.call h₁).bind ?_
    rintro r m₂ r' s₂ ⟨h₂, hr⟩
    cases hr with
    | none => exact .raise h₂.toRel
    | some hv => exact .pure ⟨h₂, hv⟩
  | composite shape line => exact .raise h₁.toRel

theorem actuals_succ {f : String} {params : List String} {args : List Expr} :
    Sim (Exec.evalActuals (fuel + 1) f params args) m (Eval.evalActuals (fuel + 1) f params args) s
      fun vs m' os s' => Running m' s' ∧ List.Forall₂ (Denotes m') vs os := by
  cases params with
  | nil => exact .pure ⟨h, .nil⟩
  | cons param params =>
    cases args with
    | nil => exact .raise h.toRel
    | cons arg args =>
      refine (ih.eval h).bind ?_
      rintro v m₁ o s₁ ⟨h₁, hv⟩
      refine ((ih.actuals h₁).and_runs
        ((Exec.contract fuel).actuals h₁.sound (hv.live h₁.toRel))).bind ?_
      rintro vs m₂ os s₂ ⟨⟨h₂, hvs⟩, hsafe, hk, -⟩
      exact .pure ⟨h₂, .cons (hv.frame h₁.sound hsafe.frame hk) hvs⟩

/-- When the body of a function is over, what it returns is in the caller's scope, and the contexts
below that of the function are as they were. -/
theorem sim_functionBody {f : FunctionDef} {vs : List Variable} {xs : List Value}
    {c caller : Context} {rest : List Context} (hc : m.scopes.contexts = c :: caller :: rest)
    (hf : c.isFunction = true) (hr : c.returnValue = none)
    (hvs : List.Forall₂ m.heap.Carries vs xs) :
    Sim (Exec.functionBody fuel f vs c.id) m (Eval.functionBody fuel f xs) s
      fun r m' r' s' =>
        (∃ signal, Rel { m' with signal := signal } { s' with signal := signal }) ∧
        m'.signal = .normal ∧ s'.signal = .normal ∧
        (∃ c', m'.scopes.contexts = c' :: caller :: rest ∧ c'.id = c.id) ∧
        m'.heap.SameHandBack caller.id r r' := by
  have husable : ∀ v ∈ vs, Usable (fun _ => False) m.store v :=
    ((List.forall₂_and_left vs xs).1 (hvs.imp fun _ _ hv => ⟨hv.usable, hv⟩)).1
  unfold Exec.functionBody Eval.functionBody
  refine ((sim_bindParameters h hc hvs).and_runs (Exec.runs_bindParameters h.sound none_live hc
    fun x hx => husable x.2 (List.of_mem_zip hx).2)).bind ?_
  rintro _ m₁ _ s₁ ⟨h₁, -, locals, hscopes⟩
  refine ((ih.list h₁).and_runs ((Exec.contract fuel).list h₁.sound none_held)).bind ?_
  rintro _ m₂ _ s₂ ⟨h₂, -, hleft⟩
  obtain ⟨-, c', hc', hid, hreturned⟩ :=
    hleft.returned (c := { c with locals := locals }) (by rw [hscopes]) hf hr
  obtain ⟨d, ds, hs, hcd, -⟩ := h₂.innermost hc'
  refine .update (.right rfl ?_)
  refine .last (V := fun _ => True) (.view (Q := fun r m' => r = c'.returnValue ∧
    m' = { m₂ with signal := .normal }) ⟨?_, rfl⟩) ?_
  · show m₂.scopes.current?.bind _ = _
    rw [ScopeStack.current?, hc']
    rfl
  rintro _ _ ⟨rfl, rfl⟩
  refine ⟨d.returned, { s₂ with signal := .normal }, ?_, ⟨m₂.signal, h₂.ownSignal⟩, rfl, rfl,
    ⟨c', hc', hid⟩, ?_⟩
  · have hhead : s₂.contexts.head?.bind (·.returned) = d.returned := by
      rw [hs]
      rfl
    rw [← hhead]
    rfl
  · rcases hcd.returned with hnone | ⟨-, v, x, o, bytes, hv, hx, hsize, hb, hdec, -⟩
    · exact .inl hnone
    · obtain ⟨⟨-, bytes', hb'⟩, -⟩ := hreturned v hv
      have hblock := Option.some.inj (hb.symm.trans hb')
      injection hblock with howner
      exact .inr ⟨v, x, bytes, hv, hx, hsize, howner ▸ hb, hdec⟩

theorem sim_functionScope {f : FunctionDef} {vs : List Variable} {xs : List Value}
    (hvs : List.Forall₂ m.heap.Carries vs xs) :
    Sim (Exec.withScope .function f.name (Exec.functionBody fuel f vs)) m
      (Eval.within .function f.name (Eval.functionBody fuel f xs)) s
      fun r m' r' s' => Running m' s' ∧ SameResult m' r r' := by
  obtain ⟨caller, rest, hcaller⟩ := List.exists_cons_of_ne_nil h.sound.nonempty
  have hlt : caller.id < m.scopes.nextId :=
    h.sound.below caller (by rw [hcaller]; exact List.mem_cons_self)
  unfold Exec.withScope Eval.within
  refine ((h.sim_enterScope .function f.name).and_runs
    (Exec.runs_enterScope h.sound none_live .function f.name)).bind ?_
  rintro _ m₁ _ s₁ ⟨⟨h₁, rfl, hpush⟩, -, -, j, hm₁⟩
  have hctx : m₁.scopes.contexts =
      { id := m.scopes.nextId, kind := .function, name := f.name } :: caller :: rest := by
    rw [hpush, ← hcaller]
    rfl
  have hvs₁ : List.Forall₂ m₁.heap.Carries vs xs := by
    rw [hm₁]
    exact hvs
  refine (ih.sim_functionBody h₁ hctx rfl rfl hvs₁).bind ?_
  rintro r m₂ r' s₂ ⟨⟨signal, h₂⟩, hsig, hsig', ⟨c, hc, hid⟩, hr⟩
  refine (sim_exitScope h₂ hc (List.cons_ne_nil _ _)).bind ?_
  rintro _ m₃ _ s₃ ⟨h₃, hpops, hsig₃, hsig₃'⟩
  have hscopes : m₃.scopes = ⟨caller :: rest, m₂.scopes.nextId⟩ := hpops.scopes
  -- the contexts of the caller returned nothing
  have hnone : ∀ d ∈ m₃.scopes.contexts, d.returnValue = none := by
    rw [hscopes]
    exact hcaller ▸ h.toRel.returnValue_eq_none h.ne_ret
  have h₄ : Rel { m₃ with signal := .normal } { s₃ with signal := .normal } :=
    h₃.withSignal hnone .normal
  refine .pure ⟨⟨h₄.of_signal (hsig₃.trans hsig) (hsig₃'.trans hsig'), hsig₃.trans hsig⟩, ?_⟩
  rcases hr with ⟨rfl, rfl⟩ | ⟨v, x, bytes, rfl, rfl, hsize, hb, hdec⟩
  · exact .none
  · refine .some (.value hsize (hpops.block?_of_ne hb ?_) hdec)
    rw [hid]
    exact Nat.ne_of_lt hlt

theorem call_succ {name : String} {args : List Expr} {line : Nat} :
    Sim (Exec.call (fuel + 1) name args line) m (Eval.call (fuel + 1) name args line) s
      fun r m' r' s' => Running m' s' ∧ SameResult m' r r' := by
  unfold Exec.call Eval.call
  refine (h.sim_goToLine line).bind ?_
  intro _ m₁ _ s₁ h₁
  refine .view (.right rfl ?_)
  refine (h₁.sim_findFunction name).bind ?_
  rintro f _ _ _ ⟨rfl, rfl, rfl⟩
  refine (ih.actuals h₁).bind ?_
  rintro vs m₂ os s₂ ⟨h₂, hvs⟩
  obtain ⟨xs, hread, hxs⟩ := readAll_of_denotes h₂.toRel hvs
  refine .note fun j => .right hread ?_
  refine (ih.sim_functionScope (h₂.note j) hxs).bind ?_
  rintro r m₃ r' s₃ ⟨h₃, hr⟩
  refine .update (.right rfl (.pure ⟨⟨⟨h₃.sound, h₃.record, h₃.rooted, h₃.output, h₁.line,
    h₃.signal, h₃.nextId, h₃.contexts⟩, h₃.normal⟩, ?_⟩))
  cases hr with
  | none => exact .none
  | some hv => exact .some (hv.of_store rfl)

theorem sim_block (name : String) (body : List Stmt) :
    Sim (Exec.withScope .block name fun _ => Exec.execList fuel body) m
      (Eval.within .block name (Eval.execList fuel body)) s fun _ m' _ s' => Rel m' s' := by
  refine (h.sim_withScope (R := fun _ _ _ => True) fun _ m₁ s₁ h₁ => ?_).mono fun _ _ _ _ h => h.1
  refine ((ih.list h₁).and_runs ((Exec.contract fuel).list h₁.sound none_held)).mono ?_
  rintro _ m₂ _ s₂ ⟨h₂, -, hleft⟩
  exact ⟨h₂, hleft.trace, trivial⟩

theorem exec_succ {stmt : Stmt} : Sim (Exec.exec (fuel + 1) stmt) m (Eval.exec (fuel + 1) stmt) s
    fun _ m' _ s' => Rel m' s' := by
  unfold Exec.exec Eval.exec
  refine (h.sim_goToLine stmt.line).bind ?_
  intro _ m₁ _ s₁ h₁
  cases stmt with
  | expr e =>
    cases e with
    | call name args line => exact (ih.call h₁).bind fun _ _ _ _ h₂ => .pure h₂.1.toRel
    | _ => exact (ih.eval h₁).bind fun _ _ _ _ h₂ => .pure h₂.1.toRel
  | block body line => exact ih.sim_block h₁ _ _
  | cond condition thenBranch elseBranch line =>
    refine (ih.eval h₁).bind ?_
    rintro v m₂ o s₂ ⟨h₂, hv⟩
    refine (h₂.sim_testCondition .cond hv).bind ?_
    rintro b _ _ _ ⟨rfl, rfl, rfl⟩
    cases b with
    | true => exact ih.sim_block h₂ _ _
    | false =>
      cases elseBranch with
      | some branch => exact ih.sim_block h₂ _ _
      | none => exact .pure h₂.toRel
  | loop condition body line => exact ih.loop h₁
  | function name params body line => exact h₁.sim_defineFunction _
  | ret value line =>
    cases value with
    | none => exact h₁.sim_leaveFunction .none
    | some e =>
      refine (ih.eval h₁).bind ?_
      rintro v m₂ o s₂ ⟨h₂, hv⟩
      obtain ⟨x, hx, hread⟩ := hv.read h₂.toRel
      exact .right hread (h₂.sim_leaveFunction (.some hx))
  | brk line => exact h₁.sim_setSignal .brk

theorem list_succ {stmts : List Stmt} :
    Sim (Exec.execList (fuel + 1) stmts) m (Eval.execList (fuel + 1) stmts) s
      fun _ m' _ s' => Rel m' s' := by
  cases stmts with
  | nil => exact .pure h.toRel
  | cons stmt rest =>
    refine (ih.exec h).bind ?_
    intro _ m₁ _ s₁ h₁
    refine .view (.right rfl ?_)
    rw [← h₁.signal]
    by_cases hsig : m₁.signal = .normal
    · rw [if_pos hsig, if_pos hsig]
      exact .alone (Running.sim_finishStatement ⟨h₁, hsig⟩) fun _ _ h₂ => ih.list h₂
    · rw [if_neg hsig, if_neg hsig]
      exact .pure h₁

theorem loop_succ {condition : Option Expr} {body : List Stmt} {rounds : Nat} :
    Sim (Exec.execLoop (fuel + 1) condition body rounds) m
      (Eval.execLoop (fuel + 1) condition body) s fun _ m' _ s' => Rel m' s' := by
  unfold Exec.execLoop Eval.execLoop
  refine (h.sim_loopCondition ?_).bind ?_
  · cases condition with
    | none => exact .none
    | some c => exact .some (ih.eval h)
  rintro proceed m₁ _ s₁ ⟨rfl, h₁⟩
  cases proceed with
  | false => exact .lastNote fun j => ⟨_, _, rfl, h₁.toRel.note j⟩
  | true =>
    rw [if_pos rfl, if_pos rfl]
    refine (h₁.sim_withScope (R := fun again again' signal => again = again' ∧
      (again = true → signal = .normal)) fun _ m₂ s₂ h₂ => ?_).bind ?_
    · refine ((ih.list h₂).and_runs ((Exec.contract fuel).list h₂.sound none_held)).bind ?_
      rintro _ m₃ _ s₃ ⟨h₃, -, hleft⟩
      refine h₃.sim_finishRound.mono ?_
      rintro again m₄ again' s₄ ⟨h₄, hsame, hagain, hscopes⟩
      exact ⟨h₄, by rw [hscopes, hleft.trace], hsame, hagain⟩
    · rintro again m₂ _ s₂ ⟨h₂, rfl, hagain⟩
      cases again with
      | true => exact ih.loop ⟨h₂, hagain rfl⟩
      | false => exact .lastNote fun j => ⟨_, _, rfl, h₂.note j⟩

omit h in
theorem succ : Simulates (fuel + 1) where
  eval h := ih.eval_succ h
  actuals h := ih.actuals_succ h
  call h := ih.call_succ h
  exec h := ih.exec_succ h
  list h := ih.list_succ h
  loop h := ih.loop_succ h

end Simulates

theorem simulates (fuel : Nat) : Simulates fuel := by
  induction fuel with
  | zero => exact .zero
  | succ fuel ih => exact ih.succ

/-! ## Runs -/

/-- What can be seen of a machine can be seen of the state. -/
structure Agrees (m : Machine) (s : State) : Prop where
  output : m.output = s.output
  line : m.line = s.line
  trace : m.scopes.trace = s.trace
  /-- Each context has the same names, of the same types, and a variable reads as the cell. -/
  cells : List.Forall₂
    (fun c d => List.Forall₂
      (fun x y => x.1 = y.1 ∧ x.2.type = y.2.type ∧ m.readValue x.2 = .ok y.2) c.locals d.cells)
    m.scopes.contexts s.contexts

section Runs

variable {m : Machine} {s : State}

theorem Heap.Carries.readValue (hw : m.heap.WellFormed) {v : Variable} {x : Value}
    (h : m.heap.Carries v x) : m.readValue v = .ok x := by
  obtain ⟨-, b, hb, hdec⟩ := h
  unfold Machine.readValue
  rw [hw.readValue_eq hb, hdec]

/-- Related states agree, whatever the signals are. -/
theorem Rel.agrees {signal : Signal}
    (h : Rel { m with signal := signal } { s with signal := signal }) : Agrees m s := by
  refine ⟨h.output, h.line, h.trace.symm, h.contexts.imp fun c d hcd => ?_⟩
  exact hcd.cells.imp fun x y hxy => ⟨hxy.1, hxy.2.type.symm, hxy.2.readValue h.sound.heap⟩

theorem running_initial (program : Program) {config : Config} (hrecord : config.record = false) :
    Running (.initial program config) .initial := by
  refine ⟨⟨Machine.sound_initial program config, hrecord, ?_, rfl, rfl, rfl, rfl,
    .cons ⟨rfl, rfl, .nil, .inl ⟨rfl, rfl⟩⟩ .nil⟩, rfl⟩
  rintro f ⟨⟩
  exact fun hkind => by cases hkind

theorem sim_recordingFault {α β : Type} {x : Exec α} {y : Eval β}
    {Q : α → Machine → β → State → Prop} (h : Sim x m y s Q) :
    Sim (Exec.recordingFault x) m y s Q := by
  refine ⟨fun a m' ho => h.done a m' (Exec.recordingFault_eq_done.1 ho), fun e m' ho he => ?_⟩
  obtain ⟨m₁, hx, rfl⟩ := Exec.recordingFault_eq_fault.1 ho
  obtain ⟨s', hy, h'⟩ := h.fault e m₁ hx he
  refine ⟨s', hy, ?_⟩
  rwa [Exec.recordFault, h'.record, if_neg (by simp)]

/-- At the end of a run the signal is dropped; but for the signals the states were related. -/
structure Rel.Finished (m : Machine) (s : State) : Prop where
  rel : ∃ signal, Rel { m with signal := signal } { s with signal := signal }
  signal : s.signal = .normal

theorem sim_finish (h : Rel m s) :
    Sim Exec.finish m (Eval.setSignal .normal) s fun _ m' _ s' => Rel.Finished m' s' := by
  unfold Exec.finish
  refine .update (.view (.lastNote fun j => ⟨_, _, rfl, ⟨m.signal, ?_⟩, rfl⟩))
  exact ⟨h.sound, h.record, h.rooted, h.output, h.line, rfl, h.nextId, h.contexts⟩

theorem sim_run (program : Program) {config : Config} (hrecord : config.record = false)
    (fuel : Nat) :
    Sim (Exec.run fuel) (.initial program config) (Eval.run fuel program) .initial
      fun _ m' _ s' => Rel.Finished m' s' := by
  have h := running_initial program hrecord
  unfold Exec.run Eval.run
  refine .note fun j => .alone (h.note j).sim_takeSnapshot ?_
  rintro _ _ ⟨rfl, -⟩
  refine .view ((sim_recordingFault ((simulates fuel).list (h.note j))).bind ?_)
  exact fun _ _ _ _ h' => sim_finish h'

end Runs

/-- A run that the size of the heap does not stop is that of the program without a heap: it comes to
the end if the program does, stops on the same fault if the program does, and leaves the same
output, line, scopes and values. -/
theorem run_agrees_without_heap (program : Program) (config : Config)
    (hrecord : config.record = false) (fuel : Nat) :
    (∀ m, Exec.run fuel (.initial program config) = .done () m →
      ∃ s, Terminates program (.ok () s) ∧ Agrees m s) ∧
    (∀ e m, Exec.run fuel (.initial program config) = .fault e m → e.code ≠ .outOfMemory →
      ∃ s, Terminates program (.error (.fault e) s) ∧ Agrees m s) := by
  have hsim := sim_run program hrecord
  -- With more fuel the machine is the same, and it determines the state without a heap.
  refine ⟨fun m hrun => ?_, fun e m hrun he => ?_⟩
  · obtain ⟨_, s, -, ⟨signal, hrel⟩, hsignal⟩ := (hsim fuel).done () m hrun
    refine ⟨s, ⟨fuel, fun fuel' hle => ?_⟩, hrel.agrees⟩
    have hrun' := (Exec.run_eq_of_le hle (by rw [hrun]; rfl)).trans hrun
    obtain ⟨_, s', hs', ⟨signal', hrel'⟩, hsignal'⟩ := (hsim fuel').done () m hrun'
    rw [hs', hrel.unique hrel' (hsignal.trans hsignal'.symm)]
  · obtain ⟨s, -, hrel⟩ := (hsim fuel).fault e m hrun he
    refine ⟨s, ⟨fuel, fun fuel' hle => ?_⟩, hrel.but_signal.agrees⟩
    have hrun' := (Exec.run_eq_of_le hle (by rw [hrun]; rfl)).trans hrun
    obtain ⟨s', hs', hrel'⟩ := (hsim fuel').fault e m hrun' he
    rw [hs', hrel.but_signal.unique hrel'.but_signal (hrel.signal.symm.trans hrel'.signal)]

/-- In its last line the left operand is the cell of `x`, which the call on the right overwrites. -/
def operandOverwritten : Program :=
  [.function "f" ["p"]
    [.loop none
      [.cond (.identifier "p" 2) [.expr (.assign "x" (.literal (.boolean false) 3) 3), .brk 3] none
        2] 2,
      .ret (some (.identifier "p" 4)) 4] 1,
    .expr (.print (.binary .and (.assign "x" (.literal (.boolean true) 5) 5)
      (.call "f" [.identifier "x" 5] 5) 5) 5)]

/-- With just enough room the program comes to its end, and prints `false`. -/
theorem operandOverwritten_agrees_without_heap :
    ∃ m s, Exec.run 16 (.initial operandOverwritten { heapCapacity := 4 }) = .done () m ∧
      Terminates operandOverwritten (.ok () s) ∧ Agrees m s ∧ s.output = #[⟨"false", 5⟩] := by
  have hout : (match Exec.run 16 (.initial operandOverwritten { heapCapacity := 4 }) with
      | .done _ m => some m.output
      | _ => none) = some #[⟨"false", 5⟩] := by
    decide +kernel
  cases hrun : Exec.run 16 (.initial operandOverwritten { heapCapacity := 4 }) with
  | done _ m =>
    rw [hrun] at hout
    obtain ⟨s, hterminates, hagrees⟩ :=
      (run_agrees_without_heap operandOverwritten _ rfl 16).1 m hrun
    exact ⟨m, s, rfl, hterminates, hagrees, hagrees.output.symm.trans (Option.some.inj hout)⟩
  | fault e m => rw [hrun] at hout; cases hout
  | exhausted m => rw [hrun] at hout; cases hout

end HeapWalk
