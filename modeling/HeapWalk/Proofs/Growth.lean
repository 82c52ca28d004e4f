import HeapWalk.Proofs.Session
import HeapWalk.Proofs.Shift

/-!
# Growing the heap

Two machines run the same program, one on a heap with `d` more bytes at its low end. As long as the
smaller heap suffices they go in step: each computation of the one is that of the other with every
handle shifted (`Exec.Follows`), whether it touches the heap, the scopes that hold handles into it,
or the operands that are still pending. So a run that fitted is not changed by a larger heap.

All this is read off the text of evaluation. That a run never reports a handle, and so never a
shifted one, is the contract of evaluation.
-/

set_option autoImplicit false

namespace HeapWalk

def Fault.shift (d : Nat) : Fault → Fault
  | heap e => heap (e.shift d)
  | e => e

/-- A fault that does not tell of a handle is the same everywhere. -/
theorem Fault.shift_eq {d : Nat} {e : Fault} (h : e.code ≠ .invalidPointer) : e.shift d = e := by
  cases e with
  | heap e =>
    cases e with
    | outOfMemory => rfl
    | invalidPointer => exact absurd rfl h
    | overrun => exact absurd rfl h
  | _ => rfl

def Config.withCapacity (config : Config) (capacity : Nat) : Config :=
  { config with heapCapacity := capacity }

/-- The machine with `d` more bytes at the low end of its heap. -/
def Machine.shift (d : Nat) (m : Machine) : Machine :=
  { m with
    config := m.config.withCapacity (m.config.heapCapacity + d)
    heap := m.heap.shift d
    scopes := m.scopes.shift d }

/-- `m` does not record, and `m'` is `m` with `d` more bytes, up to the journal. -/
def Machine.Raised (d : Nat) (m m' : Machine) : Prop :=
  m.config.record = false ∧ ∃ j, m' = { m.shift d with journal := j }

/-- The outcome of a computation, and that of the same computation on a heap with `d` more bytes. If
the first was not stopped for want of memory or fuel, the second is the first, shifted; `f` shifts
its value. -/
def Outcome.Follows {α β : Type} (d : Nat) (f : α → β) : Outcome α → Outcome β → Prop
  | done a m, o => ∃ m', o = .done (f a) m' ∧ m.Raised d m'
  | fault e m, o => e.code = .outOfMemory ∨ ∃ m', o = .fault (e.shift d) m' ∧ m.Raised d m'
  | exhausted _, _ => True

namespace Exec

variable {α β γ δ : Type} {d : Nat}

/-- From a machine with `d` more bytes, `y` does what `x` does. -/
def Follows (d : Nat) (f : α → β) (x : Exec α) (y : Exec β) : Prop :=
  ∀ m m' : Machine, m.Raised d m' → (x m).Follows d f (y m')

/-- A computation that only writes the journal. -/
def Noting (x : Exec Unit) : Prop := ∀ m : Machine, ∃ j, x m = .done () { m with journal := j }

/-! ## Computations that write the journal -/

namespace Noting

theorem pure : Noting (pure ()) := fun m => ⟨m.journal, rfl⟩

theorem note (e : Event) : Noting (note e) := by
  intro m
  refine ⟨((Exec.note e) m).state.journal, ?_⟩
  show Outcome.done () (if m.config.filter.admits e then _ else m) = _
  cases h : m.config.filter.admits e <;> simp [Exec.note, update, Outcome.state, h]

theorem echo (text : String) : Noting (echo text) := by
  intro m
  refine ⟨((Exec.echo text) m).state.journal, ?_⟩
  show Outcome.done () (if m.config.echo then _ else m) = _
  cases h : m.config.echo <;> simp [Exec.echo, update, Outcome.state, h]

theorem bind {x y : Exec Unit} (hx : Noting x) (hy : Noting y) : Noting (do x; y) := by
  intro m
  obtain ⟨j, h⟩ := hx m
  obtain ⟨j', h'⟩ := hy { m with journal := j }
  exact ⟨j', by rw [bind_apply, h]; exact h'⟩

theorem bind_view {f : Machine → α} {k : α → Exec Unit} (hk : ∀ a, Noting (k a)) :
    Noting (view f >>= k) :=
  fun m => hk (f m) m

theorem noteFreed (ps : List Pointer) : Noting (noteFreed ps) := by
  induction ps with
  | nil => exact pure
  | cons p ps ih => exact (note _).bind ih

theorem noteFreeing (c : Context) (b : Bindings Variable) : Noting (noteFreeing c b) := by
  induction b with
  | nil => exact pure
  | cons p rest ih =>
    refine bind_view fun owner => ?_
    split
    · exact (note _).bind ih
    · exact ih

end Noting

/-! ## Rules -/

namespace Follows

theorem bind {f : α → γ} {g : β → δ} {x : Exec α} {y : Exec γ} {k : α → Exec β} {l : γ → Exec δ}
    (hx : Follows d f x y) (hk : ∀ a, Follows d g (k a) (l (f a))) :
    Follows d g (x >>= k) (y >>= l) := by
  intro m m' hr
  have h := hx m m' hr
  rw [bind_apply, bind_apply]
  cases hm : x m with
  | done a m₁ =>
    rw [hm] at h
    obtain ⟨m₁', h', hr₁⟩ := h
    rw [h']
    exact hk a m₁ m₁' hr₁
  | fault e m₁ =>
    rw [hm] at h
    rcases h with hmemory | ⟨m₁', h', hr₁⟩
    · exact .inl hmemory
    · rw [h']
      exact .inr ⟨m₁', rfl, hr₁⟩
  | exhausted m₁ => trivial

theorem pure (f : α → β) (a : α) : Follows d f (pure a) (pure (f a)) :=
  fun _ m' hr => ⟨m', rfl, hr⟩

theorem view {f : α → β} {g : Machine → α} {g' : Machine → β}
    (h : ∀ m j, g' { m.shift d with journal := j } = f (g m)) :
    Follows d f (view g) (view g') := by
  intro m m' hr
  obtain ⟨hrec, j, rfl⟩ := hr
  exact ⟨_, by rw [← h m j]; rfl, hrec, j, rfl⟩

theorem update {u u' : Machine → Machine}
    (h : ∀ m m', m.Raised d m' → (u m).Raised d (u' m')) :
    Follows d id (update u) (update u') :=
  fun m m' hr => ⟨u' m', rfl, h m m' hr⟩

theorem raise (f : α → β) (e : Fault) :
    Follows d f (raise e) (raise (e.shift d)) :=
  fun _ m' hr => .inr ⟨m', rfl, hr⟩

theorem outOfFuel (f : α → β) : Follows d f outOfFuel outOfFuel := fun _ _ _ => trivial

/-- What the journal holds does not matter. -/
theorem noting {x y : Exec Unit} (hx : Noting x) (hy : Noting y) : Follows d id x y := by
  intro m m' hr
  obtain ⟨hrec, j, rfl⟩ := hr
  obtain ⟨j₁, h₁⟩ := hx m
  obtain ⟨j₂, h₂⟩ := hy { m.shift d with journal := j }
  rw [h₁, h₂]
  exact ⟨_, rfl, hrec, j₂, rfl⟩

theorem askHeap {f : α → β} {q : Heap → Except HeapError α} {q' : Heap → Except HeapError β}
    (h : ∀ heap : Heap, q' (heap.shift d) = shiftAnswer d f (q heap)) :
    Follows d f (askHeap q) (askHeap q') := by
  intro m m' hr
  obtain ⟨hrec, j, rfl⟩ := hr
  have hq : q' { m.shift d with journal := j }.heap = shiftAnswer d f (q m.heap) := h m.heap
  unfold Exec.askHeap
  dsimp only
  rw [hq]
  cases q m.heap with
  | ok a => exact ⟨_, rfl, hrec, j, rfl⟩
  | error e => exact .inr ⟨_, rfl, hrec, j, rfl⟩

/-- The search for free bytes finds the shifted place, if it found one. -/
theorem findPlace (size : Nat) :
    Follows d (· + d) (Exec.askHeap fun h => h.findPlace size)
      (Exec.askHeap fun h => h.findPlace size) := by
  intro m m' hr
  obtain ⟨hrec, j, rfl⟩ := hr
  unfold Exec.askHeap
  dsimp only
  cases hfind : m.heap.findPlace size with
  | ok address =>
    have hshift : { m.shift d with journal := j }.heap.findPlace size = .ok (address + d) :=
      m.heap.findPlace_shift d hfind
    rw [hshift]
    exact ⟨_, rfl, hrec, j, rfl⟩
  | error e =>
    rcases m.heap.findPlace_cases size with ⟨a, ha, -⟩ | herror
    · rw [ha] at hfind
      cases hfind
    · rw [herror] at hfind
      cases hfind
      exact .inl rfl

theorem updateHeap {u w : Heap → Heap} (h : ∀ heap : Heap, w (heap.shift d) = (u heap).shift d) :
    Follows d id (updateHeap u) (updateHeap w) := by
  refine update fun m m' hr => ?_
  obtain ⟨hrec, j, rfl⟩ := hr
  exact ⟨hrec, j, by simp [Machine.shift, h]⟩

theorem updateScopes {u w : ScopeStack → ScopeStack}
    (h : ∀ s : ScopeStack, w (s.shift d) = (u s).shift d) :
    Follows d id (Exec.update fun m => { m with scopes := u m.scopes })
      (Exec.update fun m => { m with scopes := w m.scopes }) := by
  refine update fun m m' hr => ?_
  obtain ⟨hrec, j, rfl⟩ := hr
  exact ⟨hrec, j, by simp [Machine.shift, h]⟩

/-! ## Storage -/

theorem allocate (size : Nat) (o : Ownership) :
    Follows d (Pointer.shift d) (allocate size o) (allocate size o) := by
  refine (findPlace size).bind fun address =>
    (view (f := id) fun _ _ => rfl).bind fun generation => ?_
  refine (updateHeap fun h => h.reserve_shift d ⟨address, size, generation⟩ o).bind fun _ => ?_
  exact (noting (.note _) (.note _)).bind fun _ =>
    pure (Pointer.shift d) ⟨address, size, generation⟩

theorem free (p : Pointer) : Follows d id (free p) (free (p.shift d)) :=
  (askHeap fun h => h.validate_shift d p).bind fun _ =>
    (updateHeap fun h => h.reclaim_shift d p).bind fun _ => noting (.note _) (.note _)

theorem writeValue (p : Pointer) (value : Value) :
    Follows d id (writeValue p value) (writeValue (p.shift d) value) :=
  (askHeap fun h => h.bytesToWrite_shift d p value).bind fun bytes =>
    updateHeap fun h => h.store_shift d p.address bytes

theorem copy (source target : Pointer) :
    Follows d id (copy source target) (copy (source.shift d) (target.shift d)) :=
  (askHeap fun h => h.bytesToCopy_shift d source target).bind fun bytes =>
    updateHeap fun h => h.store_shift d target.address bytes

theorem setOwnership (p : Pointer) (o : Ownership) :
    Follows d id (setOwnership p o) (setOwnership (p.shift d) o) :=
  (askHeap fun h => h.validate_shift d p).bind fun _ =>
    updateHeap fun h => h.reassign_shift d p.address o

theorem freeWhere (doomed : Ownership → Bool) :
    Follows d id (freeWhere doomed) (freeWhere doomed) := by
  refine (view (f := List.map (Pointer.shift d)) fun m _ =>
    m.heap.handlesWhere_shift d doomed).bind fun handles => ?_
  refine (updateHeap fun h => h.reclaimAll_shift d handles).bind fun _ => ?_
  refine (noting (.noteFreed _) (.noteFreed _)).bind fun _ => ?_
  rw [List.length_map]
  exact pure id _

theorem currentScope : Follows d id currentScope currentScope :=
  view fun m _ => ScopeStack.currentId_eq_of_trace (m.scopes.trace_shift d)

theorem readValue (v : Variable) : Follows d id (readValue v) (readValue (v.shift d)) :=
  askHeap fun h => h.readValue_shift d v.pointer v.type

theorem allocValue (value : Value) :
    Follows d (Variable.shift d) (allocValue value) (allocValue value) :=
  currentScope.bind fun scope => (allocate _ (.temporary scope)).bind fun p =>
    (writeValue p value).bind fun _ => pure (Variable.shift d) ⟨p, value.type⟩

theorem duplicate (v : Variable) (o : Ownership) :
    Follows d (Variable.shift d) (duplicate v o) (duplicate (v.shift d) o) :=
  (askHeap fun h => h.validate_shift d v.pointer).bind fun _ => (allocate _ o).bind fun p =>
    (copy v.pointer p).bind fun _ => pure (Variable.shift d) ⟨p, v.type⟩

theorem rehome (v : Variable) (o : Ownership) :
    Follows d (Variable.shift d) (rehome v o) (rehome (v.shift d) o) := by
  refine (askHeap fun h => h.ownership_shift d v.pointer).bind fun owner => ?_
  cases owner with
  | temporary scope => exact (setOwnership v.pointer o).bind fun _ => pure _ v
  | owned scope => exact duplicate v o

theorem isTemporary_shift (m : Machine) (j : Journal) (v : Variable) :
    isTemporary { m.shift d with journal := j } (v.shift d) = isTemporary m v := by
  have howner : { m.shift d with journal := j }.heap.ownership (v.shift d).pointer =
      shiftAnswer d id (m.heap.ownership v.pointer) :=
    m.heap.ownership_shift d v.pointer
  unfold isTemporary
  rw [howner]
  cases m.heap.ownership v.pointer <;> rfl

theorem discard (vs : List Variable) :
    Follows d id (discard vs) (discard (vs.map (Variable.shift d))) := by
  induction vs with
  | nil => exact pure id ()
  | cons v vs ih =>
    refine (view (f := id) fun m j => isTemporary_shift m j v).bind fun temporary => ?_
    cases temporary with
    | false => exact ih
    | true => exact (free v.pointer).bind fun _ => ih

/-! ## Scopes -/

theorem enterScope (kind : ScopeKind) (name : String) :
    Follows d id (enterScope kind name) (enterScope kind name) := by
  refine (view (f := id) fun _ _ => rfl).bind fun scope => ?_
  have hpush := updateScopes (u := fun s => (s.push kind name).2)
    (w := fun s => (s.push kind name).2) fun s => s.push_shift d kind name
  exact hpush.bind fun _ => (noting (.note _) (.note _)).bind fun _ => pure id scope

theorem exitScope : Follows d id exitScope exitScope := by
  refine (view (f := Option.map (Context.shift d)) fun m _ =>
    m.scopes.current?_shift d).bind fun current => ?_
  cases current with
  | none => exact pure id ()
  | some c =>
    refine (noting (.noteFreeing _ _) (.noteFreeing _ _)).bind fun _ => ?_
    refine (view (f := List.map (Pointer.shift d)) fun m _ =>
      m.heap.handlesWhere_shift d _).bind fun handles => ?_
    refine (update fun m m' hr => ?_).bind fun _ =>
      (noting (.noteFreed _) (.noteFreed _)).bind fun _ => noting (.note _) (.note _)
    obtain ⟨hrec, j, rfl⟩ := hr
    exact ⟨hrec, j, by simp [Machine.shift, ScopeStack.shift, Heap.reclaimAll_shift, List.map_tail]⟩

theorem withScope (kind : ScopeKind) (name : String) {f : α → β} {body : ScopeId → Exec α}
    {body' : ScopeId → Exec β} (h : ∀ id, Follows d f (body id) (body' id)) :
    Follows d f (withScope kind name body) (withScope kind name body') :=
  (enterScope kind name).bind fun id => (h id).bind fun a => exitScope.bind fun _ => pure f a

theorem bindVariable (name : String) (v : Variable) :
    Follows d id (bindVariable name v) (bindVariable name (v.shift d)) :=
  updateScopes (u := fun s => s.bind name v) (w := fun s => s.bind name (v.shift d))
    fun s => s.bind_shift d name v

theorem defineFunction (f : FunctionDef) : Follows d id (defineFunction f) (defineFunction f) :=
  (noting (.note _) (.note _)).bind fun _ =>
    updateScopes (u := fun s => s.define f) (w := fun s => s.define f) fun s => s.define_shift d f

/-- A machine that does not record takes no snapshot. -/
theorem takeSnapshot : Follows d id takeSnapshot takeSnapshot := by
  have heq : ∀ m : Machine, m.config.record = false → Exec.takeSnapshot m = .done () m := by
    intro m hrec
    simp [Exec.takeSnapshot, attempt, hrec]
  intro m m' hr
  obtain ⟨hrec, j, rfl⟩ := hr
  rw [heq m hrec, heq { m.shift d with journal := j } hrec]
  exact ⟨_, rfl, hrec, j, rfl⟩

theorem goToLine (line : Nat) : Follows d id (goToLine line) (goToLine line) := by
  refine update fun m m' hr => ?_
  obtain ⟨hrec, j, rfl⟩ := hr
  by_cases hline : 0 < line
  · simp only [hline, if_true]
    exact ⟨hrec, j, rfl⟩
  · simp only [hline, if_false]
    exact ⟨hrec, j, rfl⟩

theorem setSignal (signal : Signal) : Follows d id (setSignal signal) (setSignal signal) := by
  refine update fun m m' hr => ?_
  obtain ⟨hrec, j, rfl⟩ := hr
  exact ⟨hrec, j, rfl⟩

/-! ## Single steps of evaluation -/

/-- The variable that a name is bound to. -/
theorem lookup (name : String) :
    Follows d (Option.map (Variable.shift d)) (Exec.view fun m => m.scopes.lookupVariable name)
      (Exec.view fun m => m.scopes.lookupVariable name) :=
  view fun m _ => m.scopes.lookupVariable_shift d name

theorem readIdentifier (name : String) :
    Follows d (Variable.shift d) (readIdentifier name) (readIdentifier name) := by
  refine (lookup name).bind fun found => ?_
  cases found with
  | none => exact raise _ _
  | some v => exact currentScope.bind fun scope => duplicate v (.temporary scope)

theorem readNumber (op : UnaryOp) (v : Variable) :
    Follows d id (readNumber op v) (readNumber op (v.shift d)) := by
  refine (readValue v).bind fun value => ?_
  cases value with
  | number n => exact pure _ n
  | boolean b => exact raise _ _

theorem applyUnary (op : UnaryOp) (v : Variable) :
    Follows d (Variable.shift d) (applyUnary op v) (applyUnary op (v.shift d)) := by
  unfold Exec.applyUnary
  by_cases htype : v.type = .number
  · have htype' : (v.shift d).type = .number := htype
    simp only [if_pos htype, if_pos htype']
    exact (readNumber op v).bind fun n => allocValue (.number (op.apply n))
  · have htype' : ¬ (v.shift d).type = .number := htype
    simp only [if_neg htype, if_neg htype']
    exact (discard [v]).bind fun _ => raise _ _

theorem applyBinary (op : BinaryOp) (l r : Variable) :
    Follows d (Variable.shift d) (applyBinary op l r) (applyBinary op (l.shift d) (r.shift d)) := by
  refine (readValue l).bind fun a => (readValue r).bind fun b => ?_
  simp only [id]
  cases op.apply a b with
  | some value => exact allocValue value
  | none => exact (discard [l, r]).bind fun _ => raise _ _

theorem assign (target : String) (v : Variable) :
    Follows d (Variable.shift d) (assign target v) (assign target (v.shift d)) := by
  refine (lookup target).bind fun found => ?_
  cases found with
  | some bound =>
    by_cases htype : bound.type = v.type
    · have htype' : (bound.shift d).type = (v.shift d).type := htype
      simp only [Option.map_some, if_pos htype, if_pos htype']
      exact (copy v.pointer bound.pointer).bind fun _ => (noting (.note _) (.note _)).bind fun _ =>
        pure _ bound
    · have htype' : ¬ (bound.shift d).type = (v.shift d).type := htype
      simp only [Option.map_some, if_neg htype, if_neg htype']
      exact (discard [v]).bind fun _ => raise _ _
  | none =>
    exact currentScope.bind fun scope => (rehome v (.owned scope)).bind fun w =>
      (bindVariable target w).bind fun _ => (noting (.note _) (.note _)).bind fun _ => pure _ w

theorem printVariable (v : Variable) (line : Nat) :
    Follows d (Variable.shift d) (printVariable v line) (printVariable (v.shift d) line) := by
  refine (readValue v).bind fun value => (noting (.echo _) (.echo _)).bind fun _ => ?_
  refine (update fun m m' hr => ?_).bind fun _ => pure _ v
  obtain ⟨hrec, j, rfl⟩ := hr
  exact ⟨hrec, j, rfl⟩

theorem testCondition (construct : Construct) (v : Variable) :
    Follows d id (testCondition construct v) (testCondition construct (v.shift d)) := by
  refine (readValue v).bind fun value => ?_
  cases value with
  | number n => exact (discard [v]).bind fun _ => raise _ _
  | boolean b => exact pure id b

theorem findFunction (name : String) : Follows d id (findFunction name) (findFunction name) := by
  refine (view (f := id) fun m _ => m.scopes.lookupFunction_shift d name).bind fun found => ?_
  cases found with
  | none => exact raise _ _
  | some f =>
    refine (view (f := id) fun m _ => m.scopes.callDepth_shift d).bind fun depth => ?_
    simp only [id]
    split
    · exact pure id f
    · exact raise _ _

theorem bindParameters (scope : ScopeId) (params : List String) (actuals : List Variable) :
    Follows d id (bindParameters scope (params.zip actuals))
      (bindParameters scope (params.zip (actuals.map (Variable.shift d)))) := by
  induction params generalizing actuals with
  | nil => exact pure id ()
  | cons param params ih =>
    cases actuals with
    | nil => exact pure id ()
    | cons v vs =>
      exact (rehome v (.owned scope)).bind fun w => (bindVariable param w).bind fun _ => ih vs

theorem handBack (caller : ScopeId) (value : Option Variable) :
    Follows d (Option.map (Variable.shift d)) (handBack caller value)
      (handBack caller (value.map (Variable.shift d))) := by
  cases value with
  | none => exact pure _ none
  | some v => exact (rehome v (.temporary caller)).bind fun w => pure _ (some w)

theorem leaveFunction (value : Option Variable) :
    Follows d id (leaveFunction value) (leaveFunction (value.map (Variable.shift d))) := by
  refine bind (f := id) ?_ fun _ => setSignal .ret
  refine (view (f := id) fun m _ =>
    ScopeStack.callerId?_eq_of_trace (m.scopes.trace_shift d)).bind fun caller => ?_
  cases caller with
  | none => exact noting (.note _) (.note _)
  | some caller =>
    refine (handBack caller value).bind fun returned => ?_
    exact updateScopes (u := fun s => s.setReturnValue returned)
      (w := fun s => s.setReturnValue (returned.map (Variable.shift d)))
      fun s => s.setReturnValue_shift d returned

/-- Both machines sweep, or neither does. -/
theorem sweeping : Follows d id (Exec.view fun m => m.config.sweep)
    (Exec.view fun m => m.config.sweep) :=
  view fun _ _ => rfl

theorem sweepStatement : Follows d id sweepStatement sweepStatement := by
  refine sweeping.bind fun sweep => ?_
  cases sweep with
  | false => exact pure id ()
  | true =>
    refine (view (f := id) fun m _ =>
      ScopeStack.sweepFloor_eq_of_trace (m.scopes.trace_shift d)).bind fun floor => ?_
    refine (freeWhere _).bind fun count => ?_
    simp only [id]
    split
    · exact noting (.note _) (.note _)
    · exact pure id ()

theorem finishStatement : Follows d id finishStatement finishStatement :=
  sweepStatement.bind fun _ => takeSnapshot

theorem sweepCondition : Follows d id sweepCondition sweepCondition := by
  refine sweeping.bind fun sweep => ?_
  cases sweep with
  | false => exact pure id ()
  | true => exact currentScope.bind fun scope => (freeWhere _).bind fun _ => pure id ()

theorem loopCondition {condition : Option (Exec Variable)}
    (h : ∀ x ∈ condition, Follows d (Variable.shift d) x x) :
    Follows d id (loopCondition condition) (loopCondition condition) := by
  cases condition with
  | none => exact pure id true
  | some x =>
    exact (h x rfl).bind fun v => (testCondition .loop v).bind fun proceed =>
      sweepCondition.bind fun _ => pure id proceed

theorem finishRound : Follows d id finishRound finishRound := by
  refine (view (f := id) fun _ _ => rfl).bind fun signal => ?_
  cases signal with
  | normal => exact pure id true
  | brk => exact (setSignal .normal).bind fun _ => pure id false
  | ret => exact pure id false

/-! ## Evaluation -/

/-- Evaluation with the given fuel, on a heap and on one with `d` more bytes. -/
structure Evaluation (d fuel : Nat) : Prop where
  eval : ∀ e, Follows d (Variable.shift d) (eval fuel e) (eval fuel e)
  actuals : ∀ f params args, Follows d (List.map (Variable.shift d))
    (evalActuals fuel f params args) (evalActuals fuel f params args)
  call : ∀ name args line, Follows d (Option.map (Variable.shift d)) (call fuel name args line)
    (call fuel name args line)
  exec : ∀ s, Follows d id (exec fuel s) (exec fuel s)
  list : ∀ ss, Follows d id (execList fuel ss) (execList fuel ss)
  loop : ∀ condition body rounds, Follows d id (execLoop fuel condition body rounds)
    (execLoop fuel condition body rounds)

namespace Evaluation

theorem zero : Evaluation d 0 where
  eval _ := outOfFuel _
  actuals _ _ _ := outOfFuel _
  call _ _ _ := outOfFuel _
  exec _ := outOfFuel _
  list _ := outOfFuel _
  loop _ _ _ := outOfFuel _

variable {fuel : Nat} (ih : Evaluation d fuel)
include ih

theorem eval_succ (e : Expr) :
    Follows d (Variable.shift d) (Exec.eval (fuel + 1) e) (Exec.eval (fuel + 1) e) := by
  unfold Exec.eval
  refine (goToLine e.line).bind fun _ => ?_
  cases e with
  | literal value line => exact allocValue value
  | identifier name line => exact readIdentifier name
  | unary op operand line => exact (ih.eval operand).bind fun v => applyUnary op v
  | binary op left right line =>
    exact (ih.eval left).bind fun l => (ih.eval right).bind fun r => applyBinary op l r
  | assign target value line => exact (ih.eval value).bind fun v => assign target v
  | print operand line => exact (ih.eval operand).bind fun v => printVariable v line
  | call name args line =>
    refine (ih.call name args line).bind fun r => ?_
    cases r with
    | none => exact raise _ _
    | some v => exact pure _ v
  | composite shape line => exact raise _ _

theorem actuals_succ (f : String) (params : List String) (args : List Expr) :
    Follows d (List.map (Variable.shift d)) (evalActuals (fuel + 1) f params args)
      (evalActuals (fuel + 1) f params args) := by
  cases params with
  | nil => exact pure _ []
  | cons param params =>
    cases args with
    | nil => exact raise _ _
    | cons arg args =>
      exact (ih.eval arg).bind fun v => (ih.actuals f params args).bind fun vs => pure _ (v :: vs)

theorem functionBody (f : FunctionDef) (actuals : List Variable) (scope : ScopeId) :
    Follows d (Option.map (Variable.shift d)) (Exec.functionBody fuel f actuals scope)
      (Exec.functionBody fuel f (actuals.map (Variable.shift d)) scope) := by
  refine (bindParameters scope f.params actuals).bind fun _ => (ih.list f.body).bind fun _ =>
    (setSignal .normal).bind fun _ => view fun m j => ?_
  show (m.scopes.shift d).current?.bind (·.returnValue) = _
  rw [ScopeStack.current?_shift]
  cases m.scopes.current? <;> rfl

theorem call_succ (name : String) (args : List Expr) (line : Nat) :
    Follows d (Option.map (Variable.shift d)) (Exec.call (fuel + 1) name args line)
      (Exec.call (fuel + 1) name args line) := by
  unfold Exec.call
  refine (goToLine line).bind fun _ => (view (f := id) fun _ _ => rfl).bind fun callerLine => ?_
  refine (findFunction name).bind fun f => (ih.actuals f.name f.params args).bind fun vs => ?_
  refine (noting (.note _) (.note _)).bind fun _ => ?_
  refine (withScope .function f.name fun scope => ih.functionBody f vs scope).bind fun r => ?_
  refine (update fun m m' hr => ?_).bind fun _ => pure _ r
  obtain ⟨hrec, j, rfl⟩ := hr
  exact ⟨hrec, j, rfl⟩

theorem block (name : String) (body : List Stmt) :
    Follows d id (Exec.withScope .block name fun _ => execList fuel body)
      (Exec.withScope .block name fun _ => execList fuel body) :=
  withScope _ _ fun _ => ih.list body

theorem exec_succ (s : Stmt) :
    Follows d id (Exec.exec (fuel + 1) s) (Exec.exec (fuel + 1) s) := by
  unfold Exec.exec
  refine (goToLine s.line).bind fun _ => ?_
  split
  · exact (ih.call _ _ _).bind fun _ => pure id ()
  · exact (ih.eval _).bind fun _ => pure id ()
  · exact ih.block _ _
  · refine (ih.eval _).bind fun v => (testCondition .cond v).bind fun b => ?_
    simp only [id]
    split
    · exact ih.block _ _
    · split
      · exact ih.block _ _
      · exact pure id ()
  · exact ih.loop _ _ _
  · exact defineFunction _
  · exact leaveFunction none
  · exact (ih.eval _).bind fun v => leaveFunction (some v)
  · exact setSignal .brk

theorem list_succ (ss : List Stmt) :
    Follows d id (execList (fuel + 1) ss) (execList (fuel + 1) ss) := by
  cases ss with
  | nil => exact pure id ()
  | cons s rest =>
    refine (ih.exec s).bind fun _ => (view (f := id) fun _ _ => rfl).bind fun signal => ?_
    simp only [id]
    split
    · exact finishStatement.bind fun _ => ih.list rest
    · exact pure id ()

theorem loop_succ (condition : Option Expr) (body : List Stmt) (rounds : Nat) :
    Follows d id (execLoop (fuel + 1) condition body rounds)
      (execLoop (fuel + 1) condition body rounds) := by
  unfold execLoop
  refine (loopCondition fun x hx => ?_).bind fun proceed => ?_
  · obtain ⟨c, -, rfl⟩ := Option.map_eq_some_iff.1 hx
    exact ih.eval c
  cases proceed with
  | false => exact noting (.note _) (.note _)
  | true =>
    refine (withScope .loop "loop" fun _ => (ih.list body).bind fun _ => finishRound).bind
      fun again => ?_
    cases again with
    | false => exact noting (.note _) (.note _)
    | true => exact ih.loop condition body (rounds + 1)

theorem succ : Evaluation d (fuel + 1) where
  eval := ih.eval_succ
  actuals := ih.actuals_succ
  call := ih.call_succ
  exec := ih.exec_succ
  list := ih.list_succ
  loop := ih.loop_succ

end Evaluation

theorem evaluation (d fuel : Nat) : Evaluation d fuel := by
  induction fuel with
  | zero => exact .zero
  | succ fuel ih => exact ih.succ

/-! ## Runs -/

theorem recordingFault {f : α → β} {x : Exec α} {y : Exec β} (h : Follows d f x y) :
    Follows d f (recordingFault x) (recordingFault y) := by
  have heq : ∀ m : Machine, m.config.record = false → recordFault m = m := by
    intro m hrec
    simp [recordFault, hrec]
  intro m m' hr
  have hxy := h m m' hr
  unfold Exec.recordingFault
  dsimp only
  cases hx : x m with
  | done a m₁ =>
    rw [hx] at hxy
    obtain ⟨m₁', hy, hr₁⟩ := hxy
    rw [hy]
    exact ⟨m₁', rfl, hr₁⟩
  | fault e m₁ =>
    rw [hx] at hxy
    rcases hxy with hmemory | ⟨m₁', hy, hr₁⟩
    · exact .inl hmemory
    · obtain ⟨hrec, j, rfl⟩ := hr₁
      rw [hy]
      refine .inr ⟨{ m₁.shift d with journal := j }, ?_, ?_⟩
      · exact congrArg _ (heq { m₁.shift d with journal := j } hrec)
      · rw [heq m₁ hrec]
        exact ⟨hrec, j, rfl⟩
  | exhausted m₁ => trivial

theorem finish : Follows d id finish finish := by
  refine (update fun m m' hr => ?_).bind fun _ => ?_
  · obtain ⟨hrec, j, rfl⟩ := hr
    exact ⟨hrec, j, rfl⟩
  · refine (view (f := fun x => (x.1, x.2 + d)) fun m _ => ?_).bind fun _ =>
      noting (.note _) (.note _)
    exact Prod.ext (m.heap.occupied_shift d) (m.heap.capacity_shift d)

theorem run (fuel : Nat) : Follows d id (run fuel) (run fuel) :=
  (noting (.note _) (.note _)).bind fun _ => takeSnapshot.bind fun _ =>
    (view (f := id) fun _ _ => rfl).bind fun program =>
      ((evaluation d fuel).list program).recordingFault.bind fun _ => finish

end Follows

end Exec

/-! ## Main result -/

namespace Machine

/-- `m'` has the state of `m`, in a heap with `d` more bytes. -/
structure GrownBy (d : Nat) (m m' : Machine) : Prop where
  output : m'.output = m.output
  line : m'.line = m.line
  signal : m'.signal = m.signal
  finished : m'.finished = m.finished
  /-- The same scopes; each variable is at an address that is larger by `d`. -/
  scopes : m'.scopes = m.scopes.shift d
  generation : m'.heap.nextGeneration = m.heap.nextGeneration
  /-- The same allocations, each at an address that is larger by `d`. -/
  allocations : m'.heap.allocations = m.heap.allocations.map (Allocation.shift d)
  capacity : m'.heap.capacity = m.heap.capacity + d
  contents : ∀ i, m'.heap.bytes[i + d]? = m.heap.bytes[i]? ∧
    m'.heap.reserved[i + d]? = m.heap.reserved[i]?
  /-- The lowest bytes are zero and free. -/
  low : ∀ i < d, m'.heap.bytes[i]? = some 0 ∧ m'.heap.reserved[i]? = some false

theorem Raised.grownBy {d : Nat} {m m' : Machine} (h : m.Raised d m') : m.GrownBy d m' := by
  obtain ⟨-, j, rfl⟩ := h
  exact ⟨rfl, rfl, rfl, rfl, rfl, rfl, rfl, m.heap.capacity_shift d,
    fun i => ⟨getElem?_below d 0 _ i, getElem?_below d false _ i⟩,
    fun i hi => ⟨getElem?_below_of_lt d 0 _ hi, getElem?_below_of_lt d false _ hi⟩⟩

theorem raised_initial (program : Program) {config : Config} (hrec : config.record = false)
    {capacity capacity' : Nat} (hle : capacity ≤ capacity') :
    (initial program (config.withCapacity capacity)).Raised (capacity' - capacity)
      (initial program (config.withCapacity capacity')) := by
  have hsum : capacity + (capacity' - capacity) = capacity' := by omega
  refine ⟨hrec, #[], ?_⟩
  simp only [shift, initial, Config.withCapacity, Heap.shift_ofCapacity, hsum]
  rfl

end Machine

/-- A run that fitted into its heap is the same in a larger one. If it comes to its end, or to a
fault other than one for want of memory, then so does the run in the larger heap, with the same
state at shifted addresses. -/
theorem run_of_larger_heap {program : Program} {config : Config} (hrec : config.record = false)
    {capacity capacity' : Nat} (hle : capacity ≤ capacity') (fuel : Nat) :
    (∀ m, Exec.run fuel (.initial program (config.withCapacity capacity)) = .done () m →
      ∃ m', Exec.run fuel (.initial program (config.withCapacity capacity')) =
          .done () m' ∧ m.GrownBy (capacity' - capacity) m') ∧
    ∀ e m, Exec.run fuel (.initial program (config.withCapacity capacity)) = .fault e m →
      e.code ≠ .outOfMemory →
      ∃ m', Exec.run fuel (.initial program (config.withCapacity capacity')) =
          .fault e m' ∧ m.GrownBy (capacity' - capacity) m' := by
  have hfollows := Exec.Follows.run fuel _ _ (Machine.raised_initial program hrec hle)
  have hsound := Machine.sound_initial program (config.withCapacity capacity)
  constructor
  · intro m hdone
    rw [hdone] at hfollows
    obtain ⟨m', hdone', hr⟩ := hfollows
    exact ⟨m', hdone', hr.grownBy⟩
  · intro e m hfault hcode
    have hruns := Exec.runs_run (P := fun _ => False) hsound (fun _ h => h.elim) fuel
    have hpointer : e.code ≠ .invalidPointer := by
      simpa [Exec.Tolerable] using (hruns.fault e m hfault).1
    rw [hfault] at hfollows
    rcases hfollows with hmemory | ⟨m', hfault', hr⟩
    · exact absurd hmemory hcode
    · rw [Fault.shift_eq hpointer] at hfault'
      exact ⟨m', hfault', hr.grownBy⟩

/-- Binds two names; with three temporaries on the way, four bytes suffice. -/
def bindTwo : Program :=
  [.expr (.assign "x" (.literal (.boolean true) 1) 1),
    .expr (.assign "y" (.binary .and (.identifier "x" 2) (.identifier "x" 2) 2) 2)]

/-- A run to the end, and one to a fault, in four bytes and in seven. -/
theorem run_of_larger_heap_bindTwo :
    (({} : Config).record = false ∧ 4 ≤ 7) ∧
    (∃ m m', Exec.run 9 (.initial bindTwo (({} : Config).withCapacity 4)) = .done () m ∧
      m.heap.liveCount = 2 ∧
      Exec.run 9 (.initial bindTwo (({} : Config).withCapacity 7)) = .done () m' ∧
      m.GrownBy 3 m') ∧
    ∃ m m', Exec.run 9 (.initial (bindTwo ++ [.expr (.identifier "z" 3)])
        (({} : Config).withCapacity 4)) = .fault (.undefinedVariable "z") m ∧
      m.heap.liveCount = 2 ∧
      Exec.run 9 (.initial (bindTwo ++ [.expr (.identifier "z" 3)])
        (({} : Config).withCapacity 7)) = .fault (.undefinedVariable "z") m' ∧ m.GrownBy 3 m' := by
  have hle : 4 ≤ 7 := by decide
  have hdone : Exec.run 9 (.initial bindTwo (({} : Config).withCapacity 4)) = .done () _ :=
    Outcome.eq_done (by decide +kernel)
  have hfault : Exec.run 9 (.initial (bindTwo ++ [.expr (.identifier "z" 3)])
      (({} : Config).withCapacity 4)) = .fault (.undefinedVariable "z") _ :=
    Outcome.eq_fault (by decide +kernel)
  obtain ⟨m', hdone', hgrown⟩ := (run_of_larger_heap rfl hle 9).1 _ hdone
  obtain ⟨m₁', hfault', hgrown₁⟩ := (run_of_larger_heap rfl hle 9).2 _ _ hfault (by decide)
  exact ⟨⟨rfl, hle⟩, ⟨_, m', hdone, by decide +kernel, hdone', hgrown⟩, _, m₁', hfault,
    by decide +kernel, hfault', hgrown₁⟩

end HeapWalk
