import HeapWalk.Proofs.Refinement
import HeapWalk.Proofs.Targets

/-!
# Which value an operand has

The operands of an operator are read when both have been evaluated, and the actuals of a call when
its parameters are bound. Most expressions evaluate to a fresh temporary (`Exec.runs_eval_fresh`),
which nothing that is evaluated later writes to; so it does not matter when it is read. An
assignment, and a print of one, evaluates to the storage of the assigned name
(`Exec.ends_eval_assigned`), which may be overwritten before it is read.
-/

set_option autoImplicit false

namespace HeapWalk

open Store

/-- The name whose storage the expression evaluates to, if it does not make storage of its own. -/
def Expr.assigned? : Expr → Option String
  | .assign target _ _ => some target
  | .print operand _ => operand.assigned?
  | _ => none

/-! ## Names and values -/

/-- A name that is visible stays bound to the same variable. -/
theorem ScopeStack.Kept.lookupVariable {s t : ScopeStack} (h : s.Kept t) {name : String}
    {v : Variable} (hv : s.lookupVariable name = some v) : t.lookupVariable name = some v := by
  obtain ⟨-, c, c', rest, hs, ht, hgrows⟩ := h
  rw [ScopeStack.lookupVariable, hs, List.findSome?_cons] at hv
  rw [ScopeStack.lookupVariable, ht, List.findSome?_cons]
  cases hc : c.locals.get? name with
  | some w =>
    rw [hc] at hv
    rw [hgrows.kept name w hc]
    exact hv
  | none =>
    rw [hc] at hv
    obtain ⟨d, hd, hdv⟩ := List.exists_of_findSome?_eq_some hv
    cases hc' : c'.locals.get? name with
    | none => exact hv
    | some w =>
      -- a new name was bound nowhere
      rcases hgrows.gained name w hc' with hold | hnew
      · rw [hc] at hold
        cases hold
      · rw [hnew d (List.mem_cons_of_mem _ hd)] at hdv
        cases hdv

theorem ScopeStack.lookupVariable_bind {s : ScopeStack} (h : s.contexts ≠ []) (name : String)
    (v : Variable) (n : String) :
    (s.bind name v).lookupVariable n = if n = name then some v else s.lookupVariable n := by
  obtain ⟨c, rest, hc⟩ := List.exists_cons_of_ne_nil h
  simp only [ScopeStack.bind, ScopeStack.lookupVariable, hc, List.findSome?_cons,
    Bindings.get?_insert]
  by_cases hn : n = name
  · simp [hn]
  · simp [hn]

theorem Store.Usable.carries {P : Pointer → Prop} {σ : Store} {v : Variable} (hs : σ.Sound)
    (h : Usable P σ v) : ∃ a, σ.heap.Carries v a := by
  obtain ⟨hsize, b, hb, -⟩ := h
  have hlen : v.type.size ≤ b.bytes.length := by
    rw [hs.heap.length_bytes hb, hsize]
  obtain ⟨a, hdec⟩ := Value.decode_isSome hlen
  exact ⟨a, hsize, b, hb, hdec⟩

namespace Exec

variable {P : Pointer → Prop} {m m₁ m₂ : Machine} {fuel : Nat} {e : Expr}

/-! ## Results of expressions -/

theorem ends_printVariable (v : Variable) (line : Nat) :
    Ends (printVariable v line) m fun w m' => w = v ∧ m'.store = m.store := by
  refine .bind_askHeap fun value => Spec.bind (Spec.echo (fun _ => trivial) fun j => ?_)
  exact Spec.bind (Spec.update trivial (Spec.pure ⟨rfl, rfl⟩))

theorem runs_eval_fresh (he : e.assigned? = none) (hs : m.store.Sound)
    (hP : ∀ p, P p → m.store.Live p) : Runs P (eval fuel e) m (YieldsFresh P m) := by
  induction fuel generalizing e m with
  | zero => exact runs_outOfFuel hs hP
  | succ fuel ih =>
    unfold eval
    refine (runs_goToLine hs hP).bind fun _ m₁ hsafe₁ hline => ?_
    obtain ⟨l, rfl⟩ := hline
    have hs₁ := hsafe₁.sound
    have hP₁ := hsafe₁.live
    cases e with
    | literal value line => exact runs_allocValue hs₁ hP₁ value
    | identifier name line => exact runs_readIdentifier hs₁ hP₁ name
    | unary op operand line =>
      refine ((contract fuel).eval hs₁ hP₁).bind fun v m₂ hsafe hv => ?_
      refine (runs_applyUnary hsafe.sound hsafe.live op (hv.2.usable hsafe.sound)).mono ?_
      exact fun w m' _ hy => ⟨hv.1.trans hy.1, hy.2⟩
    | binary op left right line =>
      refine ((contract fuel).eval hs₁ hP₁).bind fun l m₂ hsafe hl => ?_
      refine (runs_keeping hsafe.sound hsafe.live hl.2 fun hsub hP' =>
        ((contract fuel).eval hsafe.sound hP').mono fun r m' _ hy =>
          ⟨hy.1, hy.2.mono hsub⟩).bind fun r m₃ hsafe' hr => ?_
      obtain ⟨hk, hl', hr⟩ := hr
      refine (runs_applyBinary hsafe'.sound hsafe'.live op (hl'.usable hsafe'.sound)
        (hr.usable hsafe'.sound)).mono ?_
      exact fun w m' _ hy => ⟨(hl.1.trans hk).trans hy.1, hy.2⟩
    | assign target value line => simp [Expr.assigned?] at he
    | print operand line =>
      refine (ih (e := operand) he hs₁ hP₁).bind fun v m₂ hsafe hv => ?_
      refine ((runs_printVariable hsafe.sound hsafe.live (.inl hv.2) line).and_ends
        (ends_printVariable v line)).mono fun w m' _ hw => ?_
      obtain ⟨-, rfl, hstore⟩ := hw
      unfold YieldsFresh
      rw [show m'.scopes = m₂.scopes from congrArg Store.scopes hstore, hstore]
      exact hv
    | call name args line =>
      refine ((contract fuel).call hs₁ hP₁).bind fun r m₂ hsafe hr => ?_
      cases r with
      | none => exact runs_raise hsafe.sound hsafe.live (by simp [Fault.code])
      | some v => exact runs_pure hsafe.sound hsafe.live ⟨hr.1, hr.2 v rfl⟩
    | composite shape line => exact runs_raise hs₁ hP₁ (by simp [Fault.code])

theorem ends_assign (hne : m.scopes.contexts ≠ []) (target : String) (v : Variable) :
    Ends (assign target v) m fun w m' => m'.scopes.lookupVariable target = some w := by
  unfold assign
  refine .bind_view ?_
  split
  · rename_i bound hl
    split
    · refine Spec.bind ((HeapOnly.copy _ _).steady.ends.mono fun _ m₁ h₁ => ?_)
      refine Spec.bind (Spec.note (fun _ => trivial) fun j => Spec.pure ?_)
      rw [← hl]
      exact congrArg (ScopeStack.lookupVariable · target) h₁
    · exact .raise_after _ _
  · refine .bind_view (Spec.bind ((HeapOnly.rehome _ _).steady.ends.mono fun w m₁ h₁ => ?_))
    refine Spec.bind (Spec.update trivial (Spec.bind (Spec.note (fun _ => trivial) fun j =>
      Spec.pure ?_)))
    exact (ScopeStack.lookupVariable_bind (h₁ ▸ hne) target w target).trans (if_pos rfl)

theorem ends_eval_assigned {name : String} (he : e.assigned? = some name) (hs : m.store.Sound) :
    Ends (eval fuel e) m fun v m' => m'.scopes.lookupVariable name = some v := by
  induction fuel generalizing e m with
  | zero => exact Spec.outOfFuel trivial
  | succ fuel ih =>
    unfold eval
    refine (runs_goToLine hs Nothing.live).ends_bind fun _ m₁ hsafe₁ _ => ?_
    cases e with
    | assign target value line =>
      obtain rfl : target = name := by simpa [Expr.assigned?] using he
      refine ((contract fuel).eval hsafe₁.sound Nothing.live).ends_bind fun v m₂ hsafe _ => ?_
      exact ends_assign hsafe.sound.nonempty target v
    | print operand line =>
      refine Spec.bind ((ih (e := operand) he hsafe₁.sound).mono fun v m₂ hv => ?_)
      refine (ends_printVariable v line).mono fun w m' hw => ?_
      obtain ⟨rfl, hstore⟩ := hw
      rw [show m'.scopes = m₂.scopes from congrArg Store.scopes hstore]
      exact hv
    | _ => simp [Expr.assigned?] at he

/-! ## What evaluation leaves of an operand -/

/-- A temporary is not written to by what is evaluated later. -/
theorem Safe.carries (hs : m.store.Sound) {v : Variable} {a : Value}
    (h : Safe (· = v.pointer) m m₁) {s : ScopeId} (hv : m.store.Holds v (.temporary s))
    (ha : m.heap.Carries v a) : m₁.heap.Carries v a := by
  obtain ⟨-, bytes, hb⟩ := hv
  refine ha.of_block fun b hb' => ?_
  obtain ⟨b₀, b₁, hb₀, hb₁, -, hbytes⟩ := h.frame.blocks v.pointer rfl
  have hunbound : ¬ m.store.Bound v.pointer := hs.not_bound_of_temporary hb
  obtain rfl : b₀ = b := Option.some.inj (hb₀.symm.trans hb')
  refine ⟨b₁.owner, ?_⟩
  rw [← hbytes.resolve_left hunbound]
  exact hb₁

theorem allocate_eq_done {size address : Nat} (hplace : m.heap.findPlace size = .ok address)
    (o : Ownership) : ∃ p m', allocate size o m = .done p m' := by
  unfold allocate
  rw [bind_apply, askHeap_eq_done hplace]
  exact ⟨_, _, rfl⟩

/-- A value for which the heap has a place is stored there. -/
theorem allocValue_eq_done (hs : m.store.Sound) {value : Value} {address : Nat}
    (hplace : m.heap.findPlace value.type.size = .ok address) :
    ∃ v m', allocValue value m = .done v m' ∧ m'.heap.Carries v value := by
  obtain ⟨p, m₁, halloc⟩ := allocate_eq_done hplace (.temporary m.scopes.currentId)
  obtain ⟨hwork, hsize, -, hputs⟩ :=
    (stores_allocate hs Nothing.live _ (o := .temporary _) hs.currentId_open).done p m₁ halloc
  obtain ⟨bytes, henc⟩ := value.encode_isSome (Nat.le_of_eq hsize.symm)
  have hwrite : m₁.heap.bytesToWrite p value = .ok bytes :=
    (hwork.sound.heap.bytesToWrite_eq hputs.self value).trans (by rw [henc])
  have hdone : allocValue value m =
      .done ⟨p, value.type⟩ { m₁ with heap := m₁.heap.store p.address bytes } := by
    unfold allocValue currentScope
    rw [bind_apply, view]
    simp only
    rw [bind_apply, halloc]
    simp only [writeValue]
    rw [bind_apply, bind_apply, askHeap_eq_done hwrite]
    rfl
  obtain ⟨-, htype, hsize', -, bytes', hdec, hputs'⟩ :=
    (stores_allocValue hs Nothing.live value).done _ _ hdone
  exact ⟨_, _, hdone, by rw [hsize', htype], _, hputs'.self, by rw [htype]; exact hdec⟩

theorem applyBinary_eq_allocValue {op : BinaryOp} {l r : Variable} {a b value : Value}
    (hl : m.readValue l = .ok a) (hr : m.readValue r = .ok b) (hv : op.apply a b = some value) :
    applyBinary op l r m = allocValue value m := by
  unfold applyBinary readValue
  rw [bind_apply, askHeap_eq_done hl]
  simp only
  rw [bind_apply, askHeap_eq_done hr]
  simp only [hv]

/-- `a` is what `v` holds in `m'`, where `v` is what `e` was evaluated to when the machine was `m`:
the value that it had then, or that the assigned name has now. -/
structure Reads (e : Expr) (m : Machine) (v : Variable) (m' : Machine) (a : Value) : Prop where
  now : m'.readValue v = .ok a
  before : e.assigned? = none → m.readValue v = .ok a
  name : ∀ name, e.assigned? = some name → m'.valueOf? name = some a

theorem reads_of_safe {v : Variable} (hs : m.store.Sound) (hv : eval fuel e m = .done v m₁)
    (hsafe : Safe (· = v.pointer) m₁ m₂) (hkept : m₁.scopes.Kept m₂.scopes) :
    ∃ a, Reads e m₁ v m₂ a := by
  obtain ⟨hsafe₁, -, hresult⟩ := ((contract fuel).eval hs Nothing.live).done v m₁ hv
  have hs₁ := hsafe₁.sound
  cases he : e.assigned? with
  | none =>
    obtain ⟨-, -, hholds, -⟩ := (runs_eval_fresh he hs Nothing.live).done v m₁ hv
    obtain ⟨a, ha⟩ := (hresult.usable hs₁).carries hs₁
    have ha₂ := hsafe.carries hs₁ hholds ha
    exact ⟨a, ha₂.readValue hsafe.sound.heap, fun _ => ha.readValue hs₁.heap,
      fun name hname => by simp [he] at hname⟩
  | some name =>
    have hresult₂ := hresult.frame hsafe.frame rfl hkept
    obtain ⟨a, ha⟩ := (hresult₂.usable hsafe.sound).carries hsafe.sound
    have ha := ha.readValue hsafe.sound.heap
    have hlookup := hkept.lookupVariable ((ends_eval_assigned he hs).done v m₁ hv)
    refine ⟨a, ha, fun h => by simp [he] at h, fun name' hname => ?_⟩
    obtain rfl : name = name' := Option.some.inj (he.symm.trans hname)
    simp [Machine.valueOf?, hlookup, ha, Except.toOption]

/-- The storage of an operand is live when the rest is evaluated. -/
theorem live_of_eval {v : Variable} (hs : m.store.Sound) (hv : eval fuel e m = .done v m₁) :
    ∀ p, p = v.pointer → m₁.store.Live p := by
  obtain ⟨hsafe, -, hresult⟩ := ((contract fuel).eval hs Nothing.live).done v m₁ hv
  obtain ⟨-, b, hb, -⟩ := hresult.usable hsafe.sound
  intro p hp
  exact ⟨b, hp ▸ hb⟩

/-! ## Operators -/

theorem binary_reads_operands {op : BinaryOp} {left right : Expr} {line : Nat} {l r : Variable}
    (hs : m.store.Sound) (hl : (do goToLine line; eval fuel left) m = .done l m₁)
    (hr : eval fuel right m₁ = .done r m₂) :
    ∃ a b, Reads left m₁ l m₂ a ∧ m₂.readValue r = .ok b ∧
      ∀ value address, op.apply a b = some value →
        m₂.heap.findPlace value.type.size = .ok address →
        ∃ v m₃, eval (fuel + 1) (.binary op left right line) m = .done v m₃ ∧
          m₃.readValue v = .ok value := by
  obtain ⟨_, m₀, hline, hl⟩ := bind_eq_done.1 hl
  have hs₀ := ((runs_goToLine hs Nothing.live).done _ _ hline).1.sound
  have hs₁ := (((contract fuel).eval hs₀ Nothing.live).done l m₁ hl).1.sound
  obtain ⟨hsafe, hkept, hresult⟩ := ((contract fuel).eval hs₁ (live_of_eval hs₀ hl)).done r m₂ hr
  have hs₂ := hsafe.sound
  obtain ⟨a, ha⟩ := reads_of_safe hs₀ hl hsafe hkept
  obtain ⟨b, hb⟩ := (hresult.usable hs₂).carries hs₂
  have hb := hb.readValue hs₂.heap
  refine ⟨a, b, ha, hb, fun value address hvalue hplace => ?_⟩
  obtain ⟨v, m₃, halloc, hv⟩ := allocValue_eq_done hs₂ hplace
  have hs₃ := ((stores_allocValue hs₂ Nothing.live value).done v m₃ halloc).1.sound
  refine ⟨v, m₃, ?_, hv.readValue hs₃.heap⟩
  rw [eval, bind_apply, show goToLine (Expr.binary op left right line).line m = _ from hline]
  simp only
  rw [bind_apply, hl]
  simp only
  rw [bind_apply, hr]
  exact (applyBinary_eq_allocValue ha.now hb hvalue).trans halloc

/-! ## Parameters -/

/-- The variables of the actuals that a call evaluates, each with the machine as its evaluation left
it. -/
def evaluations : (fuel : Nat) → (params : List String) → List Expr → Machine →
    List (Variable × Machine)
  | fuel + 1, _ :: params, arg :: args, m =>
    match eval fuel arg m with
    | .done v m₁ => (v, m₁) :: evaluations fuel params args m₁
    | _ => []
  | _, _, _, _ => []

/-- Opens the scope of a function and binds its parameters. -/
def enterFunction (f : FunctionDef) (actuals : List Variable) : Exec Unit := do
  note (.called f.name actuals.length)
  let scope ← enterScope .function f.name
  bindParameters scope (f.params.zip actuals)

/-- Executes the body of a function whose parameters are bound, and leaves its scope. -/
def runFunction (fuel : Nat) (f : FunctionDef) (callerLine : Nat) : Exec (Option Variable) := do
  execList fuel f.body
  setSignal .normal
  let result ← view fun m => m.scopes.current?.bind (·.returnValue)
  exitScope
  update fun m => { m with line := callerLine }
  pure result

/-- A call opens the scope of the function before it executes the body. -/
theorem call_apply (fuel : Nat) (name : String) (args : List Expr) (line : Nat) (m : Machine) :
    call (fuel + 1) name args line m =
      (do
        goToLine line
        let callerLine ← view fun m => m.line
        let f ← findFunction name
        let vs ← evalActuals fuel f.name f.params args
        enterFunction f vs
        runFunction fuel f callerLine) m := by
  rw [call]
  refine bind_congr fun _ _ => bind_congr fun callerLine _ => bind_congr fun f _ =>
    bind_congr fun vs m₁ => ?_
  rw [enterFunction, runFunction, bind_assoc]
  refine bind_congr fun _ m₂ => ?_
  rw [withScope, bind_assoc, bind_assoc]
  refine bind_congr fun scope m₃ => ?_
  rw [bind_assoc, bind_assoc]
  refine bind_congr fun _ m₄ => ?_
  rw [bind_assoc]
  refine bind_congr fun _ m₅ => ?_
  rw [bind_assoc]
  refine bind_congr fun _ m₆ => bind_congr fun result m₇ => ?_
  rw [bind_assoc]
  exact bind_congr fun _ _ => rfl

theorem call_eq {name : String} {args : List Expr} {line : Nat} {f : FunctionDef}
    {vs : List Variable} {m₀ : Machine} (hf : (do goToLine line; findFunction name) m = .done f m₀)
    (hvs : evalActuals fuel f.name f.params args m₀ = .done vs m₁)
    (henter : enterFunction f vs m₁ = .done () m₂) :
    call (fuel + 1) name args line m = runFunction fuel f m₀.line m₂ := by
  obtain ⟨_, m', hline, hf⟩ := bind_eq_done.1 hf
  obtain rfl : m₀ = m' := (Spec.findFunction (V := fun _ => True) (E := fun _ _ => True)
    (Q := fun _ m₁ => m₁ = m') (fun _ _ _ => rfl) trivial fun _ => trivial).done f m₀ hf
  rw [call_apply, bind_of_done hline, bind_of_done rfl, bind_of_done hf, bind_of_done hvs,
    bind_of_done henter]

/-- Each actual is read from the machine that all actuals leave. -/
theorem reads_of_evalActuals {f : String} {params : List String} {args : List Expr}
    {vs : List Variable} (hs : m.store.Sound)
    (h : evalActuals fuel f params args m = .done vs m₁) {k : Nat} (hk : k < params.length) :
    ∃ arg v mₖ a, args[k]? = some arg ∧ vs[k]? = some v ∧
      (evaluations fuel params args m)[k]? = some (v, mₖ) ∧ Reads arg mₖ v m₁ a := by
  induction params generalizing fuel args vs m k with
  | nil => simp at hk
  | cons param params ih =>
    cases fuel with
    | zero => simp [evalActuals, outOfFuel] at h
    | succ fuel =>
      cases args with
      | nil => simp [evalActuals, raise] at h
      | cons arg args =>
        rw [evalActuals] at h
        obtain ⟨v, m₂, hv, h⟩ := bind_eq_done.1 h
        obtain ⟨rest, m₃, hrest, h⟩ := bind_eq_done.1 h
        obtain ⟨rfl, rfl⟩ : v :: rest = vs ∧ m₃ = m₁ := by
          simpa [Pure.pure, Exec.pure] using h
        have hs₂ := (((contract fuel).eval hs Nothing.live).done v m₂ hv).1.sound
        obtain ⟨hsafe, hkept, -⟩ :=
          ((contract fuel).actuals hs₂ (live_of_eval hs hv)).done rest m₃ hrest
        simp only [evaluations, hv]
        cases k with
        | zero =>
          obtain ⟨a, ha⟩ := reads_of_safe hs hv hsafe hkept
          exact ⟨arg, v, m₂, a, by simp, by simp, by simp, ha⟩
        | succ k =>
          obtain ⟨arg', v', mₖ, a, harg, hv', hmem, ha⟩ :=
            ih hs₂ hrest (by simpa using hk)
          exact ⟨arg', v', mₖ, a, by simpa using harg, by simpa using hv', by simpa using hmem, ha⟩

/-- Binding parameters leaves every value where it was, and binds each name to the last value that
is given for it. -/
theorem ends_bindParameters {pairs : List (String × Variable)} {c : Context} {rest : List Context}
    (hs : m.store.Sound) (hc : m.scopes.contexts = c :: rest)
    (hps : ∀ x ∈ pairs, ∃ a, m.heap.Carries x.2 a) :
    Ends (bindParameters c.id pairs) m fun _ m' =>
      (∀ u a, m.heap.Carries u a → m'.heap.Carries u a) ∧
      (∀ name, name ∉ pairs.map Prod.fst →
        m'.scopes.lookupVariable name = m.scopes.lookupVariable name) ∧
      ∀ (k : Nat) name v a, pairs[k]? = some (name, v) →
        (∀ j > k, (pairs.map Prod.fst)[j]? ≠ some name) → m.heap.Carries v a →
        ∃ w, m'.scopes.lookupVariable name = some w ∧ m'.heap.Carries w a := by
  induction pairs generalizing m c with
  | nil => exact Spec.pure ⟨fun _ _ h => h, fun _ _ => rfl, fun k name v a h => by simp at h⟩
  | cons x pairs ih =>
    obtain ⟨param, actual⟩ := x
    have hid : m.scopes.currentId = c.id := by rw [ScopeStack.currentId, hc]
    obtain ⟨a, ha⟩ := hps _ List.mem_cons_self
    unfold bindParameters
    refine (Runs.of_stores (stores_handOver hs Nothing.live ha.usable (o := .owned c.id)
      (hid ▸ hs.currentId_open))).ends_bind fun w m₁ hsafe hw => ?_
    obtain ⟨-, hw⟩ := hw
    have hscopes : m₁.scopes = m.scopes := hw.scopes
    have hc₁ : m₁.scopes.contexts = c :: rest := by rw [hscopes, hc]
    have hlookup := ScopeStack.lookupVariable_bind hsafe.sound.nonempty param w
    obtain ⟨bytes, hb, hdec⟩ := hw.decode ha
    have hwa : m₁.heap.Carries w a := ⟨hw.size, _, hb, hdec⟩
    refine (runs_bindVariable hsafe.sound Nothing.live param (hscopes ▸ hid ▸ hw.holds) id
      hw.not_bound).ends_bind fun _ m₂ hsafe₂ hm₂ => ?_
    subst hm₂
    refine (ih hsafe₂.sound (contexts_bind (σ := m₁.store) hc₁ param) fun y hy => ?_).mono
      fun _ m₃ h₃ => ?_
    · obtain ⟨b, hb⟩ := hps y (List.mem_cons_of_mem _ hy)
      exact ⟨b, hw.carries hb⟩
    obtain ⟨hkept, hother, hparams⟩ := h₃
    refine ⟨fun u b hu => hkept u b (hw.carries hu), fun name hname => ?_,
      fun k name v b hk hlast hv => ?_⟩
    · simp only [List.map_cons, List.mem_cons, not_or] at hname
      rw [hother name hname.2, ← hscopes]
      exact (hlookup name).trans (if_neg hname.1)
    · cases k with
      | zero =>
        obtain ⟨rfl, rfl⟩ : param = name ∧ actual = v := by simpa using hk
        -- no later parameter has this name
        have hname : param ∉ pairs.map Prod.fst := by
          intro hmem
          obtain ⟨j, hj⟩ := List.mem_iff_getElem?.1 hmem
          exact hlast (j + 1) (Nat.succ_pos j) (by simpa using hj)
        obtain ⟨-, b₀, hb₀, hdec₀⟩ := ha
        obtain ⟨-, b₁, hb₁, hdec₁⟩ := hv
        obtain rfl := Option.some.inj (hb₀.symm.trans hb₁)
        obtain rfl := Option.some.inj (hdec₀.symm.trans hdec₁)
        refine ⟨w, ?_, hkept w a hwa⟩
        rw [hother param hname]
        exact (hlookup param).trans (if_pos rfl)
      | succ k =>
        refine hparams k name v b (by simpa using hk) (fun j hj => ?_) (hw.carries hv)
        have := hlast (j + 1) (Nat.succ_lt_succ hj)
        simpa using this

/-- When the body of a function starts, each parameter has the value of its actual. -/
theorem call_binds_actuals {name : String} {args : List Expr} {line : Nat} {f : FunctionDef}
    {vs : List Variable} {m₀ : Machine} (hs : m.store.Sound)
    (hf : (do goToLine line; findFunction name) m = .done f m₀)
    (hvs : evalActuals fuel f.name f.params args m₀ = .done vs m₁)
    (henter : enterFunction f vs m₁ = .done () m₂) {k : Nat} {param : String}
    (hk : f.params[k]? = some param) (hlast : ∀ j > k, f.params[j]? ≠ some param) :
    ∃ arg v mₖ a, args[k]? = some arg ∧ (evaluations fuel f.params args m₀)[k]? = some (v, mₖ) ∧
      Reads arg mₖ v m₁ a ∧ m₂.valueOf? param = some a := by
  have hs₀ : m₀.store.Sound := by
    refine ((runs_goToLine hs Nothing.live).bind (R := fun _ _ => True) fun _ m' hsafe _ => ?_).done
      f m₀ hf |>.1.sound
    exact (runs_findFunction hsafe.sound Nothing.live name).mono fun _ _ _ _ => trivial
  obtain ⟨hsafe₁, -, hresults⟩ := ((contract fuel).actuals hs₀ Nothing.live).done vs m₁ hvs
  have hs₁ := hsafe₁.sound
  obtain ⟨arg, v, mₖ, a, harg, hv, hmem, ha⟩ :=
    reads_of_evalActuals hs₀ hvs (List.getElem?_eq_some_iff.1 hk).1
  refine ⟨arg, v, mₖ, a, harg, hmem, ha, ?_⟩
  obtain ⟨_, m₃, hnote, henter⟩ := bind_eq_done.1 henter
  obtain ⟨hsafe₃, j, rfl⟩ := (runs_note hs₁ Nothing.live).done _ _ hnote
  obtain ⟨scope, m₄, hscope, hbind⟩ := bind_eq_done.1 henter
  obtain ⟨hsafe₄, rfl, j', rfl⟩ :=
    (runs_enterScope hsafe₃.sound Nothing.live .function f.name).done _ _ hscope
  have hcarries : ∀ u ∈ vs, ∃ b, m₁.heap.Carries u b :=
    fun u hu => ((hresults u hu).usable hs₁).carries hs₁
  have hpairs : ∀ x ∈ f.params.zip vs, ∃ b, m₁.heap.Carries x.2 b :=
    fun x hx => hcarries x.2 (List.of_mem_zip hx).2
  have hs₂ := ((runs_bindParameters hsafe₄.sound Nothing.live rfl fun x hx => by
    obtain ⟨b, hb⟩ := hpairs x hx
    exact hb.usable).done _ _ hbind).1.sound
  obtain ⟨-, -, hparams⟩ := (ends_bindParameters hsafe₄.sound rfl hpairs).done _ _ hbind
  obtain ⟨b, hb⟩ := hcarries v (List.mem_of_getElem? hv)
  have hlast' : ∀ i > k, ((f.params.zip vs).map Prod.fst)[i]? ≠ some param := by
    intro i hi hmem
    rw [List.getElem?_map] at hmem
    obtain ⟨x, hx, rfl⟩ := Option.map_eq_some_iff.1 hmem
    exact hlast i hi (List.getElem?_zip_eq_some.1 hx).1
  obtain ⟨w, hlookup, hw⟩ :=
    hparams k param v b (List.getElem?_zip_eq_some.2 ⟨hk, hv⟩) hlast' hb
  obtain rfl : a = b := Except.ok.inj (ha.now.symm.trans (hb.readValue hs₁.heap))
  simp [Machine.valueOf?, hlookup, hw.readValue hs₂.heap, Except.toOption]

end Exec

/-! ## Main results -/

/-- The value of a computation that is done. -/
def Outcome.value? {α : Type} : Outcome α → Option α
  | done a _ => some a
  | fault _ _ | exhausted _ => none

theorem Outcome.eq_done_of_value? {α : Type} {o : Outcome α} {a : α} (h : o.value? = some a) :
    o = .done a o.state := by
  cases o with
  | done a' m => simpa [value?, state] using h
  | fault e m => simp [value?] at h
  | exhausted m => simp [value?] at h

open Exec in
/-- An operator is applied to the values that its operands had when they were evaluated, and each
parameter of a call gets the value that its actual had, up to one case: of an operand or actual that
is an assignment, or prints one, it is the value that the assigned name has in the end. -/
theorem operands_keep_values {m : Machine} (h : m.Visited) (fuel : Nat) :
    (∀ (op : BinaryOp) (left right : Expr) (line : Nat) (l r : Variable) (m₁ m₂ : Machine),
      (do goToLine line; eval fuel left) m = .done l m₁ → eval fuel right m₁ = .done r m₂ →
      ∃ a b, Reads left m₁ l m₂ a ∧ m₂.readValue r = .ok b ∧
        ∀ value address, op.apply a b = some value →
          m₂.heap.findPlace value.type.size = .ok address →
          ∃ v m₃, eval (fuel + 1) (.binary op left right line) m = .done v m₃ ∧
            m₃.readValue v = .ok value) ∧
    (∀ (name : String) (args : List Expr) (line : Nat) (f : FunctionDef) (vs : List Variable)
      (m₀ m₁ m₂ : Machine), (do goToLine line; findFunction name) m = .done f m₀ →
      evalActuals fuel f.name f.params args m₀ = .done vs m₁ →
      enterFunction f vs m₁ = .done () m₂ →
      call (fuel + 1) name args line m = runFunction fuel f m₀.line m₂ ∧
        ∀ (k : Nat) (param : String), f.params[k]? = some param →
          (∀ j > k, f.params[j]? ≠ some param) →
          ∃ arg v mₖ a, args[k]? = some arg ∧
            (evaluations fuel f.params args m₀)[k]? = some (v, mₖ) ∧
            Reads arg mₖ v m₁ a ∧ m₂.valueOf? param = some a) :=
  ⟨fun _ _ _ _ _ _ _ _ hl hr => binary_reads_operands h.sound hl hr,
    fun _ _ _ _ _ _ _ _ hf hvs henter => ⟨call_eq hf hvs henter, fun _ _ hk hlast =>
      call_binds_actuals h.sound hf hvs henter hk hlast⟩⟩

/-- A machine on which `x` is bound and a function of two parameters is defined. -/
def Machine.primed : Machine :=
  ((Operation.execute
    [.function "f" ["p", "q"] [.ret (some (.identifier "p" 2)) 2] 1,
      .expr (.assign "x" (.literal (.boolean true) 3) 3)]).perform 5
    (.initial [] { heapCapacity := 8 })).state

/-- Overwrites `x`. -/
def Expr.clearing : Expr := .assign "x" (.literal (.boolean false) 4) 4

/-- The name `x` is read on the left and overwritten on the right: the operator and the parameter
get the old value. -/
theorem operands_keep_values_primed :
    Machine.primed.Visited ∧
    (∃ v m, Exec.eval 3 (.binary .or (.identifier "x" 4) .clearing 4) .primed = .done v m ∧
      m.readValue v = .ok (.boolean true)) ∧
    ∃ f m, Exec.call 5 "f" [.identifier "x" 4, .clearing] 4 .primed = Exec.runFunction 4 f 4 m ∧
      m.valueOf? "p" = some (.boolean true) := by
  have hprimed : Machine.primed.Visited := .reached (.perform _ _ (.initial _ _))
  have hlast : ∀ j > 0, ["p", "q"][j]? ≠ some "p" := by
    intro j hj
    rcases j with _ | _ | j
    · exact absurd hj (Nat.lt_irrefl 0)
    · decide
    · simp
  refine ⟨hprimed, ?_, ?_⟩
  · have hl : (do Exec.goToLine 4; Exec.eval 2 (.identifier "x" 4)) Machine.primed =
        .done ⟨⟨6, 1, 2⟩, .boolean⟩ _ := Outcome.eq_done_of_value? (by decide +kernel)
    have hr : Exec.eval 2 .clearing
        ((do Exec.goToLine 4; Exec.eval 2 (.identifier "x" 4)) Machine.primed).state =
        .done ⟨⟨7, 1, 1⟩, .boolean⟩ _ := Outcome.eq_done_of_value? (by decide +kernel)
    obtain ⟨a, b, ha, hb, hvalue⟩ := (operands_keep_values hprimed 2).1 .or _ _ _ _ _ _ _ hl hr
    obtain rfl : Value.boolean true = a :=
      Except.ok.inj ((show Machine.readValue _ _ = _ by decide +kernel).symm.trans (ha.before rfl))
    obtain rfl : Value.boolean false = b :=
      Except.ok.inj ((show Machine.readValue _ _ = _ by decide +kernel).symm.trans hb)
    exact hvalue (.boolean true) 4 rfl (by decide +kernel)
  · have hf : (do Exec.goToLine 4; Exec.findFunction "f") Machine.primed =
        .done ⟨"f", ["p", "q"], [.ret (some (.identifier "p" 2)) 2], 1⟩ _ :=
      Outcome.eq_done_of_value? rfl
    have hvs : Exec.evalActuals 4 "f" ["p", "q"] [.identifier "x" 4, .clearing]
        ((do Exec.goToLine 4; Exec.findFunction "f") Machine.primed).state =
        .done [⟨⟨6, 1, 2⟩, .boolean⟩, ⟨⟨7, 1, 1⟩, .boolean⟩] _ :=
      Outcome.eq_done_of_value? (by decide +kernel)
    have henter : Exec.enterFunction ⟨"f", ["p", "q"], [.ret (some (.identifier "p" 2)) 2], 1⟩
        [⟨⟨6, 1, 2⟩, .boolean⟩, ⟨⟨7, 1, 1⟩, .boolean⟩]
        (Exec.evalActuals 4 "f" ["p", "q"] [.identifier "x" 4, .clearing]
          ((do Exec.goToLine 4; Exec.findFunction "f") Machine.primed).state).state =
        .done () _ := Outcome.eq_done (by decide +kernel)
    obtain ⟨hcall, hparams⟩ :=
      (operands_keep_values hprimed 4).2 "f" _ 4 _ _ _ _ _ hf hvs henter
    obtain ⟨arg, v, m₁, a, harg, hmem, ha, hp⟩ := hparams 0 "p" rfl hlast
    obtain rfl := Option.some.inj harg
    have hread : ((Exec.evaluations 4 ["p", "q"] [.identifier "x" 4, .clearing]
        ((do Exec.goToLine 4; Exec.findFunction "f") Machine.primed).state)[0]?.map fun x =>
          x.2.readValue x.1) = some (.ok (.boolean true)) := by
      decide +kernel
    rw [hmem, Option.map_some, Option.some.injEq, ha.before rfl] at hread
    rw [Except.ok.inj hread] at hp
    exact ⟨_, _, hcall, hp⟩

/-- The operand on the left is the storage of `x`, which the right overwrites before it is read: the
disjunction of `true` and `false` is `false`. -/
theorem operand_overwritten_before_read :
    ∃ (m m₁ m₂ m₃ : Machine) (l r v : Variable), m.Visited ∧
      (do Exec.goToLine 1; Exec.eval 2 (.assign "x" (.literal (.boolean true) 1) 1)) m =
        .done l m₁ ∧
      Exec.eval 2 (.assign "x" (.literal (.boolean false) 1) 1) m₁ = .done r m₂ ∧
      m₁.readValue l = .ok (.boolean true) ∧ m₂.readValue r = .ok (.boolean false) ∧
      BinaryOp.or.apply (.boolean true) (.boolean false) = some (.boolean true) ∧
      Exec.eval 3 (.binary .or (.assign "x" (.literal (.boolean true) 1) 1)
        (.assign "x" (.literal (.boolean false) 1) 1) 1) m = .done v m₃ ∧
      m₃.readValue v = .ok (.boolean false) :=
  ⟨.initial [] { heapCapacity := 8 }, _, _, _, ⟨⟨7, 1, 1⟩, .boolean⟩, ⟨⟨7, 1, 1⟩, .boolean⟩,
    ⟨⟨5, 1, 3⟩, .boolean⟩, .reached (.initial _ _),
    Outcome.eq_done_of_value? (by decide +kernel), Outcome.eq_done_of_value? (by decide +kernel),
    by decide +kernel, by decide +kernel, rfl, Outcome.eq_done_of_value? (by decide +kernel),
    by decide +kernel⟩

end HeapWalk
