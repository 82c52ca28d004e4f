import HeapWalk.Proofs.Storage

/-!
# What the single steps leave alone

Most steps of evaluation are built from questions to the machine and changes of its heap and
journal, and so touch nothing else (`Exec.HeapOnly`). A few more write the output, the line or the
history, but not the stack of scopes and not the signal (`Exec.Steady`).

All that evaluation does is built from steps that neither see the history nor touch it
(`Exec.Tacit`), and from snapshots (`Exec.Regular`). What holds of each of them holds of evaluation:
so nothing at all touches the program and the configuration (`Exec.Fixed`).
-/

set_option autoImplicit false

namespace HeapWalk

namespace Machine

/-- `m'` has the scopes and the signal of `m`. -/
def SameStack (m m' : Machine) : Prop := m'.scopes = m.scopes ∧ m'.signal = m.signal

theorem SameStack.trans {m₁ m₂ m₃ : Machine} (h₁ : m₁.SameStack m₂) (h₂ : m₂.SameStack m₃) :
    m₁.SameStack m₃ :=
  ⟨h₂.1.trans h₁.1, h₂.2.trans h₁.2⟩

/-- `m'` has the program and the configuration of `m`. -/
def SameSetup (m m' : Machine) : Prop := m'.program = m.program ∧ m'.config = m.config

theorem SameSetup.trans {m₁ m₂ m₃ : Machine} (h₁ : m₁.SameSetup m₂) (h₂ : m₂.SameSetup m₃) :
    m₁.SameSetup m₃ :=
  ⟨h₂.1.trans h₁.1, h₂.2.trans h₁.2⟩

/-- The machine with another history, and other orders whether to keep one and of what size. -/
def withHistory (m : Machine) (record : Bool) (limit : Nat) (history : History) : Machine :=
  { m with config := { m.config with record, historyLimit := limit }, history }

/-- `f` shows nothing of the history. -/
def Unaware {α : Type} (f : Machine → α) : Prop :=
  ∀ m record limit history, f (m.withHistory record limit history) = f m

/-- `f` neither looks at the history nor touches it, keeps the setup, and takes nothing off the
output. -/
structure Discreet (f : Machine → Machine) : Prop where
  withHistory : ∀ (m : Machine) record limit history,
    f (m.withHistory record limit history) = (f m).withHistory record limit history
  setup : ∀ m : Machine, m.SameSetup (f m)
  output : ∀ m : Machine, m.output.toList <+: (f m).output.toList

/-- An update of the heap, the scopes, the line and the signal is discreet. -/
theorem Discreet.of_parts {f : Machine → Machine}
    (h : ∀ (m : Machine) record limit history,
      f (m.withHistory record limit history) = (f m).withHistory record limit history)
    (hf : ∀ m : Machine, f m = { m with
      heap := (f m).heap, scopes := (f m).scopes, line := (f m).line, signal := (f m).signal }) :
    Discreet f := by
  refine ⟨h, fun m => ?_, fun m => ?_⟩
  · rw [hf m]
    exact ⟨rfl, rfl⟩
  · have hout : (f m).output = m.output := by rw [hf m]
    exact hout ▸ List.prefix_rfl

end Machine

namespace Exec

variable {α β : Type}

/-- Whatever its outcome, the computation leads from each machine to one that `R` relates it to. -/
def Leads (R : Machine → Machine → Prop) (x : Exec α) : Prop := ∀ m : Machine, R m (x m).state

/-- The computation is built from questions to the machine, which do not concern its history, and
from changes of its heap and journal. -/
inductive HeapOnly : {α : Type} → Exec α → Prop where
  | pure {α : Type} (a : α) : HeapOnly (pure a)
  | bind {α β : Type} {x : Exec α} {f : α → Exec β} (hx : HeapOnly x)
    (hf : ∀ a, HeapOnly (f a)) : HeapOnly (x >>= f)
  | view {α : Type} {f : Machine → α} (hf : Machine.Unaware f) : HeapOnly (view f)
  | raise {α : Type} (e : Fault) (he : e.code ≠ .snapshotLimitExceeded) :
    HeapOnly (raise e : Exec α)
  | askHeap {α : Type} (f : Heap → Except HeapError α) : HeapOnly (askHeap f)
  | updateHeap (f : Heap → Heap) : HeapOnly (updateHeap f)
  | note (e : Event) : HeapOnly (note e)
  | echo (text : String) : HeapOnly (echo text)

/-- The computation is built from steps that touch only the heap, and from discreet updates. -/
inductive Tacit : {α : Type} → Exec α → Prop where
  | heapOnly {α : Type} {x : Exec α} (h : HeapOnly x) : Tacit x
  | update {f : Machine → Machine} (hf : Machine.Discreet f) : Tacit (update f)
  | outOfFuel {α : Type} : Tacit (outOfFuel : Exec α)
  | bind {α β : Type} {x : Exec α} {f : α → Exec β} (hx : Tacit x) (hf : ∀ a, Tacit (f a)) :
    Tacit (x >>= f)

/-- The computation is built from tacit steps and snapshots. -/
inductive Regular : {α : Type} → Exec α → Prop where
  | tacit {α : Type} {x : Exec α} (h : Tacit x) : Regular x
  | takeSnapshot : Regular takeSnapshot
  | bind {α β : Type} {x : Exec α} {f : α → Exec β} (hx : Regular x) (hf : ∀ a, Regular (f a)) :
    Regular (x >>= f)

/-- A class of computations that has what touches only the heap, bindings and output, and is closed
under sequencing. -/
structure StepClosed (C : {α : Type} → Exec α → Prop) : Prop where
  heapOnly : ∀ {α : Type} {x : Exec α}, HeapOnly x → C x
  bind : ∀ {α β : Type} {x : Exec α} {f : α → Exec β}, C x → (∀ a, C (f a)) → C (x >>= f)
  bindVariable : ∀ name v, C (bindVariable name v)
  pushOutput : ∀ l : OutputLine, C (update fun m => { m with output := m.output.push l })

/-- Such a class that also has the steps from line to line. -/
structure Closed (C : {α : Type} → Exec α → Prop) : Prop extends StepClosed C where
  goToLine : ∀ line, C (goToLine line)

/-- The computation leaves the scopes and the signal as they are. -/
def Steady (x : Exec α) : Prop := Leads Machine.SameStack x

/-- The computation leaves the program and the configuration as they are. -/
def Fixed (x : Exec α) : Prop := Leads Machine.SameSetup x

theorem Leads.bind {R : Machine → Machine → Prop}
    (htrans : ∀ {m₁ m₂ m₃}, R m₁ m₂ → R m₂ m₃ → R m₁ m₃) {x : Exec α} {f : α → Exec β}
    (hx : Leads R x) (hf : ∀ a, Leads R (f a)) : Leads R (x >>= f) := by
  intro m
  have h₁ := hx m
  rw [bind_apply]
  cases hm : x m with
  | done a m₁ =>
    rw [hm] at h₁
    exact htrans h₁ (hf a m₁)
  | fault e m₁ =>
    rw [hm] at h₁
    exact h₁
  | exhausted m₁ =>
    rw [hm] at h₁
    exact h₁

theorem Leads.spec {R : Machine → Machine → Prop} {x : Exec α} (hx : Leads R x) (m : Machine) :
    Spec x m (fun _ => True) (fun _ => R m) fun _ => R m := by
  have h := hx m
  refine ⟨fun _ _ => trivial, fun a m' ho => ?_, fun e m' ho => ?_, fun m' ho => ?_⟩
  all_goals
    rw [ho] at h
    exact h

/-! ## Steps that touch only the heap -/

namespace HeapOnly

/-- Such a step changes nothing else at any time, and is stopped only by a fault that does not tell
of the history. -/
theorem spec {x : Exec α} (h : HeapOnly x) (m : Machine) :
    Spec x m m.SameButHeap
      (fun e m' => (∃ f ∈ e, f.code ≠ .snapshotLimitExceeded) ∧ m.SameButHeap m')
      fun _ => m.SameButHeap := by
  induction h generalizing m with
  | pure a => exact Spec.pure (.refl m)
  | bind _ _ ihx ihf =>
    refine Spec.bind ((ihx m).mono (fun _ h => h) (fun _ _ h => h) fun a m₁ h₁ => ?_)
    exact (ihf a m₁).mono (fun _ h => h₁.trans h) (fun _ _ h => ⟨h.1, h₁.trans h.2⟩)
      fun _ _ h => h₁.trans h
  | view => exact Spec.view (.refl m)
  | raise e he => exact Spec.raise ⟨⟨e, rfl, he⟩, .refl m⟩
  | askHeap f =>
    refine Spec.askHeap (fun _ _ => .refl m) fun e _ => ⟨⟨.heap e, rfl, ?_⟩, .refl m⟩
    cases e <;> nofun
  | updateHeap f => exact Spec.update rfl rfl
  | note e => exact Spec.note (fun _ => rfl) fun _ => rfl
  | echo text => exact Spec.echo (fun _ => rfl) fun _ => rfl

theorem leads {x : Exec α} (h : HeapOnly x) : Leads Machine.SameButHeap x :=
  fun m => (h.spec m).state (fun _ _ h => h.2) fun _ _ h => h

theorem steady {x : Exec α} (h : HeapOnly x) : Steady x := by
  intro m
  rw [h.leads m]
  exact ⟨rfl, rfl⟩

theorem fixed {x : Exec α} (h : HeapOnly x) : Fixed x := by
  intro m
  rw [h.leads m]
  exact ⟨rfl, rfl⟩

theorem allocate (size : Nat) (o : Ownership) : HeapOnly (allocate size o) :=
  (askHeap _).bind fun _ => (view fun _ _ _ _ => rfl).bind fun _ => (updateHeap _).bind fun _ =>
    (note _).bind fun _ => pure _

theorem free (p : Pointer) : HeapOnly (free p) :=
  (askHeap _).bind fun _ => (updateHeap _).bind fun _ => note _

theorem writeValue (p : Pointer) (value : Value) : HeapOnly (writeValue p value) :=
  (askHeap _).bind fun _ => updateHeap _

theorem copy (source target : Pointer) : HeapOnly (copy source target) :=
  (askHeap _).bind fun _ => updateHeap _

theorem setOwnership (p : Pointer) (o : Ownership) : HeapOnly (setOwnership p o) :=
  (askHeap _).bind fun _ => updateHeap _

theorem noteFreed (ps : List Pointer) : HeapOnly (noteFreed ps) := by
  induction ps with
  | nil => exact pure ()
  | cons p ps ih => exact (note _).bind fun _ => ih

theorem freeWhere (doomed : Ownership → Bool) : HeapOnly (freeWhere doomed) :=
  (view fun _ _ _ _ => rfl).bind fun _ => (updateHeap _).bind fun _ => (noteFreed _).bind fun _ =>
    pure _

theorem allocValue (value : Value) : HeapOnly (allocValue value) :=
  (view fun _ _ _ _ => rfl).bind fun _ => (allocate _ _).bind fun _ =>
    (writeValue _ _).bind fun _ => pure _

theorem duplicate (v : Variable) (o : Ownership) : HeapOnly (duplicate v o) :=
  (askHeap _).bind fun _ => (allocate _ _).bind fun _ => (copy _ _).bind fun _ => pure _

theorem rehome (v : Variable) (o : Ownership) : HeapOnly (rehome v o) := by
  refine (askHeap _).bind fun owner => ?_
  cases owner with
  | temporary scope => exact (setOwnership _ _).bind fun _ => pure v
  | owned scope => exact duplicate v o

theorem discard (vs : List Variable) : HeapOnly (discard vs) := by
  induction vs with
  | nil => exact pure ()
  | cons v vs ih =>
    refine (view fun _ _ _ _ => rfl).bind fun temporary => ?_
    split
    · exact (free _).bind fun _ => ih
    · exact ih

theorem readIdentifier (name : String) : HeapOnly (readIdentifier name) := by
  refine (view fun _ _ _ _ => rfl).bind fun found => ?_
  cases found with
  | none => exact raise _ nofun
  | some v => exact (view fun _ _ _ _ => rfl).bind fun _ => duplicate _ _

theorem readNumber (op : UnaryOp) (v : Variable) : HeapOnly (readNumber op v) := by
  refine (askHeap _).bind fun value => ?_
  cases value with
  | number n => exact pure n
  | boolean b => exact raise _ nofun

theorem applyUnary (op : UnaryOp) (v : Variable) : HeapOnly (applyUnary op v) := by
  unfold Exec.applyUnary
  split
  · exact (readNumber op v).bind fun n => allocValue _
  · exact (discard _).bind fun _ => raise _ nofun

theorem applyBinary (op : BinaryOp) (l r : Variable) : HeapOnly (applyBinary op l r) := by
  refine (askHeap _).bind fun a => (askHeap _).bind fun b => ?_
  split
  · exact allocValue _
  · exact (discard _).bind fun _ => raise _ (by simp [Fault.code])

theorem testCondition (construct : Construct) (v : Variable) :
    HeapOnly (testCondition construct v) := by
  refine (askHeap _).bind fun value => ?_
  cases value with
  | number n => exact (discard _).bind fun _ => raise _ nofun
  | boolean b => exact pure b

theorem findFunction (name : String) : HeapOnly (findFunction name) := by
  refine (view fun _ _ _ _ => rfl).bind fun found => ?_
  cases found with
  | none => exact raise _ nofun
  | some f =>
    refine (view fun _ _ _ _ => rfl).bind fun depth => ?_
    split
    · exact pure f
    · exact raise _ nofun

theorem handBack (caller : ScopeId) (value : Option Variable) :
    HeapOnly (handBack caller value) := by
  cases value with
  | none => exact pure none
  | some v => exact (rehome _ _).bind fun _ => pure _

theorem sweepStatement : HeapOnly sweepStatement := by
  refine (view fun _ _ _ _ => rfl).bind fun sweep => ?_
  split
  · refine (view fun _ _ _ _ => rfl).bind fun floor => (freeWhere _).bind fun count => ?_
    split
    · exact note _
    · exact pure ()
  · exact pure ()

theorem sweepCondition : HeapOnly sweepCondition := by
  refine (view fun _ _ _ _ => rfl).bind fun sweep => ?_
  split
  · exact (view fun _ _ _ _ => rfl).bind fun _ => (freeWhere _).bind fun _ => pure ()
  · exact pure ()

theorem noteFreeing (c : Context) (b : Bindings Variable) : HeapOnly (noteFreeing c b) := by
  induction b with
  | nil => exact pure ()
  | cons x rest ih =>
    refine (view fun _ _ _ _ => rfl).bind fun owner => ?_
    split
    · exact (note _).bind fun _ => ih
    · exact ih

end HeapOnly

/-! ## Snapshots -/

theorem Spec.takeSnapshot {m : Machine} {V : Machine → Prop} {E : Option Fault → Machine → Prop}
    {Q : Unit → Machine → Prop} (hoff : m.config.record = false → V m ∧ Q () m)
    (hok : ∀ history, m.history.push (m.snapshot false) = .ok history →
      takeSnapshot.Passes m { m with history } → V { m with history } ∧ Q () { m with history })
    (herror : ∀ r, m.history.push (m.snapshot false) = .error r →
      E (some (.snapshotLimitExceeded m.history.used m.history.limit)) m) :
    Spec takeSnapshot m V E Q := by
  refine Spec.attempt (fun m₁ ho => ?_) fun e ho => ?_
  · have hp := ho
    split at ho
    · split at ho <;> cases ho
      exact hok _ (by assumption) hp
    · rename_i hr
      cases ho
      exact hoff (by simpa using hr)
  · split at ho
    · split at ho <;> cases ho
      exact herror _ (by assumption)
    · cases ho

theorem state_takeSnapshot (m : Machine) :
    ∃ history, (takeSnapshot m).state = { m with history } := by
  have h : Spec takeSnapshot m (fun _ => True) (fun _ m' => ∃ history, m' = { m with history })
      fun _ m' => ∃ history, m' = { m with history } :=
    Spec.takeSnapshot (fun _ => ⟨trivial, m.history, rfl⟩)
      (fun history _ _ => ⟨trivial, history, rfl⟩)
      fun _ _ => ⟨m.history, rfl⟩
  exact h.state (fun _ _ h => h) fun _ _ h => h

/-! ## Steps that leave the scopes and the signal alone -/

namespace Steady

theorem bind {x : Exec α} {f : α → Exec β} (hx : Steady x) (hf : ∀ a, Steady (f a)) :
    Steady (x >>= f) :=
  Leads.bind .trans hx hf

theorem update {f : Machine → Machine} (hf : ∀ m : Machine, m.SameStack (f m)) :
    Steady (update f) :=
  hf

theorem goToLine (line : Nat) : Steady (goToLine line) := by
  refine update fun m => ?_
  split <;> exact ⟨rfl, rfl⟩

theorem printVariable (v : Variable) (line : Nat) : Steady (printVariable v line) :=
  (HeapOnly.askHeap _).steady.bind fun _ => (HeapOnly.echo _).steady.bind fun _ =>
    (update fun _ => ⟨rfl, rfl⟩).bind fun _ => (HeapOnly.pure v).steady

theorem takeSnapshot : Steady takeSnapshot := by
  intro m
  obtain ⟨history, heq⟩ := state_takeSnapshot m
  rw [heq]
  exact ⟨rfl, rfl⟩

theorem finishStatement : Steady finishStatement :=
  HeapOnly.sweepStatement.steady.bind fun _ => takeSnapshot

end Steady

/-! ## Steps of expressions -/

namespace StepClosed

variable {C : {α : Type} → Exec α → Prop} (hC : StepClosed C)
include hC

theorem printVariable (v : Variable) (line : Nat) : C (printVariable v line) :=
  hC.bind (hC.heapOnly (.askHeap _)) fun _ => hC.bind (hC.heapOnly (.echo _)) fun _ =>
    hC.bind (hC.pushOutput _) fun _ => hC.heapOnly (.pure v)

theorem assign (target : String) (v : Variable) : C (assign target v) := by
  refine hC.bind (hC.heapOnly (.view fun _ _ _ _ => rfl)) fun found => ?_
  cases found with
  | some bound =>
    dsimp only
    split
    · exact hC.heapOnly ((HeapOnly.copy _ _).bind fun _ => (HeapOnly.note _).bind fun _ => .pure _)
    · exact hC.heapOnly ((HeapOnly.discard _).bind fun _ => .raise _ nofun)
  | none =>
    refine hC.bind (hC.heapOnly (.view fun _ _ _ _ => rfl)) fun _ =>
      hC.bind (hC.heapOnly (.rehome _ _)) fun _ => hC.bind (hC.bindVariable _ _) fun _ => ?_
    exact hC.heapOnly ((HeapOnly.note _).bind fun _ => .pure _)

theorem bindParameters (scope : ScopeId) (pairs : List (String × Variable)) :
    C (bindParameters scope pairs) := by
  induction pairs with
  | nil => exact hC.heapOnly (.pure ())
  | cons x pairs ih =>
    exact hC.bind (hC.heapOnly (.rehome _ _)) fun _ => hC.bind (hC.bindVariable _ _) fun _ => ih

theorem loopCondition {condition : Option (Exec Variable)} (hc : ∀ x ∈ condition, C x) :
    C (loopCondition condition) := by
  cases condition with
  | none => exact hC.heapOnly (.pure true)
  | some x =>
    exact hC.bind (hc x rfl) fun _ => hC.bind (hC.heapOnly (.testCondition _ _)) fun _ =>
      hC.heapOnly (HeapOnly.sweepCondition.bind fun _ => .pure _)

end StepClosed

namespace Closed

variable {C : {α : Type} → Exec α → Prop} (hC : Closed C)
include hC

theorem eval_succ {fuel : Nat} (heval : ∀ e, C (eval fuel e))
    (hcall : ∀ name args line, C (call fuel name args line)) (e : Expr) :
    C (eval (fuel + 1) e) := by
  unfold Exec.eval
  refine hC.bind (hC.goToLine _) fun _ => ?_
  cases e with
  | literal value line => exact hC.heapOnly (.allocValue _)
  | identifier name line => exact hC.heapOnly (.readIdentifier _)
  | unary op operand line => exact hC.bind (heval _) fun _ => hC.heapOnly (.applyUnary _ _)
  | binary op left right line =>
    exact hC.bind (heval _) fun _ => hC.bind (heval _) fun _ => hC.heapOnly (.applyBinary _ _ _)
  | assign target value line => exact hC.bind (heval _) fun _ => hC.assign _ _
  | print operand line => exact hC.bind (heval _) fun _ => hC.printVariable _ _
  | call name args line =>
    refine hC.bind (hcall _ _ _) fun r => ?_
    cases r with
    | none => exact hC.heapOnly (.raise _ nofun)
    | some v => exact hC.heapOnly (.pure v)
  | composite shape line => exact hC.heapOnly (.raise _ nofun)

theorem actuals_succ {fuel : Nat} (heval : ∀ e, C (eval fuel e))
    (hactuals : ∀ f params args, C (evalActuals fuel f params args)) (f : String)
    (params : List String) (args : List Expr) : C (evalActuals (fuel + 1) f params args) := by
  cases params with
  | nil => exact hC.heapOnly (.pure [])
  | cons param params =>
    cases args with
    | nil => exact hC.heapOnly (.raise _ nofun)
    | cons arg args =>
      exact hC.bind (heval _) fun _ => hC.bind (hactuals _ _ _) fun _ => hC.heapOnly (.pure _)

end Closed

/-! ## Steps that neither see nor touch the history -/

namespace Tacit

theorem revise {f : Machine → Machine}
    (h : ∀ (m : Machine) record limit history,
      f (m.withHistory record limit history) = (f m).withHistory record limit history)
    (hf : ∀ m : Machine, f m = { m with
      heap := (f m).heap, scopes := (f m).scopes, line := (f m).line, signal := (f m).signal }) :
    Tacit (Exec.update f) :=
  update (.of_parts h hf)

theorem goToLine (line : Nat) : Tacit (goToLine line) := by
  refine revise (fun _ _ _ _ => ?_) fun _ => ?_
  all_goals
    by_cases h : 0 < line
  · simp only [if_pos h, Machine.withHistory]
  · simp only [if_neg h]
  · simp only [if_pos h]
  · simp only [if_neg h]

theorem setSignal (signal : Signal) : Tacit (setSignal signal) :=
  revise (fun _ _ _ _ => rfl) fun _ => rfl

theorem bindVariable (name : String) (v : Variable) : Tacit (bindVariable name v) :=
  revise (fun _ _ _ _ => rfl) fun _ => rfl

theorem closed : Closed @Tacit where
  heapOnly := heapOnly
  bind := bind
  goToLine := goToLine
  bindVariable := bindVariable
  pushOutput l := by
    refine update ⟨fun _ _ _ _ => rfl, fun _ => ⟨rfl, rfl⟩, fun m => ?_⟩
    rw [Array.toList_push]
    exact List.prefix_append _ _

theorem defineFunction (f : FunctionDef) : Tacit (defineFunction f) :=
  (heapOnly (.note _)).bind fun _ => revise (fun _ _ _ _ => rfl) fun _ => rfl

theorem leaveFunction (value : Option Variable) : Tacit (leaveFunction value) := by
  refine .bind ((heapOnly (.view fun _ _ _ _ => rfl)).bind fun caller => ?_) fun _ => setSignal _
  cases caller with
  | none => exact heapOnly (.note _)
  | some caller =>
    exact (heapOnly (.handBack _ _)).bind fun _ => revise (fun _ _ _ _ => rfl) fun _ => rfl

theorem enterScope (kind : ScopeKind) (name : String) : Tacit (enterScope kind name) := by
  refine (heapOnly (.view fun _ _ _ _ => rfl)).bind fun id => ?_
  exact .bind (revise (fun _ _ _ _ => rfl) fun _ => rfl) fun _ =>
    heapOnly ((HeapOnly.note _).bind fun _ => .pure id)

theorem exitScope : Tacit exitScope := by
  refine (heapOnly (.view fun _ _ _ _ => rfl)).bind fun current => ?_
  cases current with
  | none => exact heapOnly (.pure ())
  | some c =>
    refine (heapOnly (.noteFreeing _ _)).bind fun _ =>
      (heapOnly (.view fun _ _ _ _ => rfl)).bind fun _ => ?_
    exact .bind (revise (fun _ _ _ _ => rfl) fun _ => rfl) fun _ =>
      heapOnly ((HeapOnly.noteFreed _).bind fun _ => .note _)

theorem finishRound : Tacit finishRound := by
  refine (heapOnly (.view fun _ _ _ _ => rfl)).bind fun signal => ?_
  cases signal with
  | normal => exact heapOnly (.pure true)
  | brk => exact (setSignal _).bind fun _ => heapOnly (.pure false)
  | ret => exact heapOnly (.pure false)

theorem fixed {x : Exec α} (h : Tacit x) : Fixed x := by
  induction h with
  | heapOnly h => exact h.fixed
  | update hf => exact hf.setup
  | outOfFuel => exact fun _ => ⟨rfl, rfl⟩
  | bind _ _ ihx ihf => exact Leads.bind .trans ihx ihf

end Tacit

/-! ## Evaluation -/

namespace Regular

theorem heapOnly {x : Exec α} (h : HeapOnly x) : Regular x := tacit (.heapOnly h)

theorem closed : Closed @Regular where
  heapOnly := heapOnly
  bind := bind
  goToLine line := tacit (.goToLine line)
  bindVariable name v := tacit (.bindVariable name v)
  pushOutput l := tacit (Tacit.closed.pushOutput l)

theorem finishStatement : Regular finishStatement :=
  (heapOnly .sweepStatement).bind fun _ => takeSnapshot

theorem withScope (kind : ScopeKind) (name : String) {body : ScopeId → Exec α}
    (hbody : ∀ id, Regular (body id)) : Regular (withScope kind name body) :=
  (tacit (.enterScope kind name)).bind fun id => (hbody id).bind fun a =>
    (tacit .exitScope).bind fun _ => heapOnly (.pure a)

theorem fixed {x : Exec α} (h : Regular x) : Fixed x := by
  induction h with
  | tacit h => exact h.fixed
  | takeSnapshot =>
    intro m
    obtain ⟨history, heq⟩ := state_takeSnapshot m
    rw [heq]
    exact ⟨rfl, rfl⟩
  | bind _ _ ihx ihf => exact Leads.bind .trans ihx ihf

/-- Evaluation with the given fuel is regular. -/
structure Evaluation (fuel : Nat) : Prop where
  eval : ∀ e, Regular (eval fuel e)
  actuals : ∀ f params args, Regular (evalActuals fuel f params args)
  call : ∀ name args line, Regular (call fuel name args line)
  exec : ∀ s, Regular (exec fuel s)
  list : ∀ ss, Regular (execList fuel ss)
  loop : ∀ condition body rounds, Regular (execLoop fuel condition body rounds)

namespace Evaluation

theorem zero : Evaluation 0 where
  eval _ := tacit .outOfFuel
  actuals _ _ _ := tacit .outOfFuel
  call _ _ _ := tacit .outOfFuel
  exec _ := tacit .outOfFuel
  list _ := tacit .outOfFuel
  loop _ _ _ := tacit .outOfFuel

variable {fuel : Nat} (ih : Evaluation fuel)
include ih

theorem call_succ (name : String) (args : List Expr) (line : Nat) :
    Regular (Exec.call (fuel + 1) name args line) := by
  unfold Exec.call
  refine (tacit (.goToLine _)).bind fun _ => (heapOnly (.view fun _ _ _ _ => rfl)).bind fun _ =>
    (heapOnly (.findFunction _)).bind fun f => (ih.actuals _ _ _).bind fun actuals =>
      (heapOnly (.note _)).bind fun _ => ?_
  refine .bind (withScope _ _ fun scope => ?_) fun r => ?_
  · exact (closed.bindParameters _ _).bind fun _ => (ih.list _).bind fun _ =>
      (tacit (.setSignal _)).bind fun _ => heapOnly (.view fun _ _ _ _ => rfl)
  · exact .bind (tacit (.revise (fun _ _ _ _ => rfl) fun _ => rfl)) fun _ => heapOnly (.pure r)

theorem block (name : String) (body : List Stmt) :
    Regular (Exec.withScope .block name fun _ => execList fuel body) :=
  withScope _ _ fun _ => ih.list body

theorem exec_succ (s : Stmt) : Regular (Exec.exec (fuel + 1) s) := by
  unfold Exec.exec
  refine (tacit (.goToLine _)).bind fun _ => ?_
  split
  · exact (ih.call _ _ _).bind fun _ => heapOnly (.pure _)
  · exact (ih.eval _).bind fun _ => heapOnly (.pure _)
  · exact ih.block _ _
  · refine (ih.eval _).bind fun _ => (heapOnly (.testCondition _ _)).bind fun b => ?_
    split
    · exact ih.block _ _
    · split
      · exact ih.block _ _
      · exact heapOnly (.pure ())
  · exact ih.loop _ _ _
  · exact tacit (.defineFunction _)
  · exact tacit (.leaveFunction _)
  · exact (ih.eval _).bind fun _ => tacit (.leaveFunction _)
  · exact tacit (.setSignal _)

theorem list_succ (ss : List Stmt) : Regular (execList (fuel + 1) ss) := by
  cases ss with
  | nil => exact heapOnly (.pure ())
  | cons s rest =>
    refine (ih.exec s).bind fun _ => (heapOnly (.view fun _ _ _ _ => rfl)).bind fun signal => ?_
    split
    · exact finishStatement.bind fun _ => ih.list rest
    · exact heapOnly (.pure ())

theorem loop_succ (condition : Option Expr) (body : List Stmt) (rounds : Nat) :
    Regular (execLoop (fuel + 1) condition body rounds) := by
  unfold execLoop
  refine (closed.loopCondition fun x hx => ?_).bind fun proceed => ?_
  · obtain ⟨c, -, rfl⟩ := Option.map_eq_some_iff.1 hx
    exact ih.eval c
  · split
    · refine (withScope _ _ fun _ => (ih.list body).bind fun _ => tacit .finishRound).bind
        fun again => ?_
      split
      · exact ih.loop _ _ _
      · exact heapOnly (.note _)
    · exact heapOnly (.note _)

theorem succ : Evaluation (fuel + 1) where
  eval := closed.eval_succ ih.eval ih.call
  actuals := closed.actuals_succ ih.eval ih.actuals
  call := ih.call_succ
  exec := ih.exec_succ
  list := ih.list_succ
  loop := ih.loop_succ

end Evaluation

theorem evaluation (fuel : Nat) : Evaluation fuel := by
  induction fuel with
  | zero => exact .zero
  | succ fuel ih => exact ih.succ

end Regular

end Exec

end HeapWalk
