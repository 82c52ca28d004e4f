import HeapWalk.Proofs.Footprint
import HeapWalk.Proofs.Fuel

/-!
# Recording is transparent

A machine that records and one that does not go through a run in lock step, for all that evaluation
sees of the history is whether a snapshot was refused. Up to the first refusal, which ends the
recording run, the two differ only in the history (`Outcome.Mirrors`); from there on the run that
does not record can only add to the output (`Exec.Transparent`).
-/

set_option autoImplicit false

namespace HeapWalk

/-- Nothing of the output of `m` is taken off in `m'`. -/
def Machine.Extends (m m' : Machine) : Prop := m.output.toList <+: m'.output.toList

namespace Outcome

variable {α : Type}

/-- The outcome with another history, as `Machine.withHistory`. -/
def withHistory (o : Outcome α) (record : Bool) (limit : Nat) (history : History) : Outcome α :=
  match o with
  | done a m => done a (m.withHistory record limit history)
  | fault e m => fault e (m.withHistory record limit history)
  | exhausted m => exhausted (m.withHistory record limit history)

/-- A recording machine comes to the second outcome where one that does not record comes to the
first: they differ in the history, or the recording machine was refused a snapshot before. -/
inductive Mirrors (limit : Nat) : Outcome α → Outcome α → Prop where
  | same {o : Outcome α} (history : History)
    (hcode : ∀ e ∈ o.fault?, e.code ≠ .snapshotLimitExceeded) :
    Mirrors limit o (o.withHistory true limit history)
  | refused {o : Outcome α} {e : Fault} {m' : Machine} (hcode : e.code = .snapshotLimitExceeded)
    (houtput : m'.Extends o.state) : Mirrors limit o (fault e m')

end Outcome

namespace Exec

variable {α β : Type}

/-! ## Steps that do not see the history -/

theorem bind_withHistory {x : Exec α} {f : α → Exec β} {record : Bool} {limit : Nat}
    {history : History}
    (hx : ∀ m, x (m.withHistory record limit history) = (x m).withHistory record limit history)
    (hf : ∀ a m,
      f a (m.withHistory record limit history) = (f a m).withHistory record limit history)
    (m : Machine) :
    (x >>= f) (m.withHistory record limit history) =
      ((x >>= f) m).withHistory record limit history := by
  rw [bind_apply, bind_apply, hx]
  cases x m with
  | done a m₁ => exact hf a m₁
  | fault e m₁ => rfl
  | exhausted m₁ => rfl

theorem note_withHistory (e : Event) (record : Bool) (limit : Nat) (history : History)
    (m : Machine) :
    note e (m.withHistory record limit history) =
      (note e m).withHistory record limit history := by
  unfold note update Outcome.withHistory
  by_cases h : m.config.filter.admits e = true <;> simp [Machine.withHistory, h]

theorem echo_withHistory (text : String) (record : Bool) (limit : Nat) (history : History)
    (m : Machine) :
    echo text (m.withHistory record limit history) =
      (echo text m).withHistory record limit history := by
  unfold echo update Outcome.withHistory
  by_cases h : m.config.echo = true <;> simp [Machine.withHistory, h]

theorem askHeap_withHistory (f : Heap → Except HeapError α) (record : Bool) (limit : Nat)
    (history : History) (m : Machine) :
    askHeap f (m.withHistory record limit history) =
      (askHeap f m).withHistory record limit history := by
  unfold askHeap Outcome.withHistory
  cases h : f m.heap <;> simp [Machine.withHistory, h]

theorem HeapOnly.withHistory {x : Exec α} (h : HeapOnly x) (record : Bool) (limit : Nat)
    (history : History) (m : Machine) :
    x (m.withHistory record limit history) = (x m).withHistory record limit history := by
  induction h generalizing m with
  | pure a => rfl
  | bind _ _ ihx ihf => exact bind_withHistory ihx ihf m
  | view hf => exact congrArg (Outcome.done · _) (hf m record limit history)
  | raise e he => rfl
  | askHeap f => exact askHeap_withHistory f record limit history m
  | updateHeap f => rfl
  | note e => exact note_withHistory e record limit history m
  | echo text => exact echo_withHistory text record limit history m

namespace Tacit

theorem withHistory {x : Exec α} (h : Tacit x) (record : Bool) (limit : Nat) (history : History)
    (m : Machine) :
    x (m.withHistory record limit history) = (x m).withHistory record limit history := by
  induction h generalizing m with
  | heapOnly h => exact h.withHistory record limit history m
  | update hf => exact congrArg (Outcome.done ()) (hf.withHistory m record limit history)
  | outOfFuel => rfl
  | bind _ _ ihx ihf => exact bind_withHistory ihx ihf m

/-- No such step is stopped by a refused snapshot. -/
theorem code_ne {x : Exec α} (h : Tacit x) (m : Machine) :
    ∀ e ∈ (x m).fault?, e.code ≠ .snapshotLimitExceeded := by
  induction h generalizing m with
  | heapOnly h =>
    intro e he
    obtain ⟨⟨f, hf, hcode⟩, -⟩ := (h.spec m).fault e _ (Outcome.eq_fault he)
    rwa [Option.some.inj hf]
  | update hf => exact nofun
  | outOfFuel => exact nofun
  | @bind _ _ x f _ _ ihx ihf =>
    intro e he
    rw [bind_apply] at he
    cases ho : x m with
    | done a m₁ =>
      rw [ho] at he
      exact ihf a m₁ e he
    | fault e' m₁ =>
      rw [ho] at he
      exact ihx m e (ho ▸ he)
    | exhausted m₁ =>
      rw [ho] at he
      cases he

theorem extends_state {x : Exec α} (h : Tacit x) : Leads Machine.Extends x := by
  induction h with
  | heapOnly h =>
    intro m
    rw [h.leads m]
    exact List.prefix_rfl
  | update hf => exact hf.output
  | outOfFuel => exact fun _ => List.prefix_rfl
  | bind _ _ ihx ihf => exact Leads.bind .trans ihx ihf

end Tacit

/-! ## Lock step -/

/-- Run by a machine that records, the computation mirrors what it does without recording. -/
structure Transparent (x : Exec α) : Prop where
  fixed : Fixed x
  output : Leads Machine.Extends x
  mirrors : ∀ (m : Machine) (limit : Nat) (history : History), m.config.record = false →
    (x m).Mirrors limit (x (m.withHistory true limit history))

namespace Transparent

theorem tacit {x : Exec α} (h : Tacit x) : Transparent x where
  fixed := h.fixed
  output := h.extends_state
  mirrors m limit history _ := by
    rw [h.withHistory]
    exact .same history (h.code_ne m)

theorem takeSnapshot : Transparent takeSnapshot where
  fixed := Regular.takeSnapshot.fixed
  output m := by
    obtain ⟨history, heq⟩ := state_takeSnapshot m
    rw [heq]
    exact List.prefix_rfl
  mirrors m limit history hr := by
    have hoff : Exec.takeSnapshot m = .done () m := by
      simp [Exec.takeSnapshot, attempt, hr]
    rw [hoff]
    cases hp : history.push ((m.withHistory true limit history).snapshot false) with
    | ok history' =>
      have hon : Exec.takeSnapshot (m.withHistory true limit history) =
          .done () (m.withHistory true limit history') := by
        unfold Machine.withHistory at hp ⊢
        simp [Exec.takeSnapshot, attempt, hp]
      rw [hon]
      exact .same history' nofun
    | error r =>
      have hon : Exec.takeSnapshot (m.withHistory true limit history) =
          .fault (.snapshotLimitExceeded history.used history.limit)
            (m.withHistory true limit history) := by
        unfold Machine.withHistory at hp ⊢
        simp [Exec.takeSnapshot, attempt, hp]
      rw [hon]
      exact .refused rfl List.prefix_rfl

theorem bind {x : Exec α} {f : α → Exec β} (hx : Transparent x) (hf : ∀ a, Transparent (f a)) :
    Transparent (x >>= f) where
  fixed := Leads.bind .trans hx.fixed fun a => (hf a).fixed
  output := Leads.bind .trans hx.output fun a => (hf a).output
  mirrors m limit history hr := by
    have hx₁ := hx.mirrors m limit history hr
    have hr₁ : (x m).state.config.record = false := by rw [(hx.fixed m).2]; exact hr
    rw [bind_apply, bind_apply]
    generalize x (m.withHistory true limit history) = o' at hx₁ ⊢
    cases hx₁ with
    | same history₁ hcode =>
      cases ho : x m with
      | done a m₁ =>
        rw [ho] at hr₁
        exact (hf a).mirrors m₁ limit history₁ hr₁
      | fault e m₁ =>
        rw [ho] at hcode
        exact .same (o := .fault e m₁) history₁ hcode
      | exhausted m₁ => exact .same (o := .exhausted m₁) history₁ nofun
    | refused hcode houtput =>
      refine .refused hcode (houtput.trans ?_)
      -- what follows without recording adds to the output at most
      cases ho : x m with
      | done a m₁ => exact (hf a).output m₁
      | fault e m₁ => exact List.prefix_rfl
      | exhausted m₁ => exact List.prefix_rfl

theorem regular {x : Exec α} (h : Regular x) : Transparent x := by
  induction h with
  | tacit h => exact tacit h
  | takeSnapshot => exact takeSnapshot
  | bind _ _ ihx ihf => exact bind ihx ihf

end Transparent

/-! ## Runs -/

theorem recordFault_eq (m : Machine) : ∃ history, recordFault m = { m with history } := by
  unfold recordFault
  split
  · split
    · exact ⟨_, rfl⟩
    · exact ⟨m.history, rfl⟩
  · exact ⟨m.history, rfl⟩

theorem state_recordingFault (x : Exec α) (m : Machine) :
    ∃ history, (recordingFault x m).state = { (x m).state with history } := by
  unfold recordingFault
  cases hx : x m with
  | done a m₁ => exact ⟨m₁.history, by simp [hx, Outcome.state]⟩
  | fault e m₁ =>
    obtain ⟨history, heq⟩ := recordFault_eq m₁
    exact ⟨history, by simp [hx, Outcome.state, heq]⟩
  | exhausted m₁ => exact ⟨m₁.history, by simp [hx, Outcome.state]⟩

theorem Tacit.finish : Tacit finish :=
  .bind (.update ⟨fun _ _ _ _ => rfl, fun _ => ⟨rfl, rfl⟩, fun _ => List.prefix_rfl⟩) fun _ =>
    .bind (.heapOnly (.view fun _ _ _ _ => rfl)) fun _ => .heapOnly (.note _)

namespace Transparent

theorem recordingFault {x : Exec α} (h : Transparent x) : Transparent (recordingFault x) where
  fixed m := by
    obtain ⟨history, heq⟩ := state_recordingFault x m
    rw [heq]
    exact h.fixed m
  output m := by
    obtain ⟨history, heq⟩ := state_recordingFault x m
    rw [heq]
    exact h.output m
  mirrors m limit history hr := by
    have hx := h.mirrors m limit history hr
    have hr₁ : (x m).state.config.record = false := by rw [(h.fixed m).2]; exact hr
    unfold Exec.recordingFault
    dsimp only
    generalize x (m.withHistory true limit history) = o' at hx ⊢
    generalize x m = o at hx hr₁ ⊢
    have hoff : ∀ m₁ : Machine, m₁.config.record = false → recordFault m₁ = m₁ :=
      fun m₁ h₁ => by simp [recordFault, h₁]
    cases hx with
    | same history₁ hcode =>
      cases o with
      | done a m₁ => exact .same (o := .done a m₁) history₁ hcode
      | exhausted m₁ => exact .same (o := .exhausted m₁) history₁ hcode
      | fault e m₁ =>
        obtain ⟨history₂, heq⟩ := recordFault_eq (m₁.withHistory true limit history₁)
        dsimp only [Outcome.withHistory]
        rw [hoff m₁ hr₁, heq]
        exact .same (o := .fault e m₁) history₂ hcode
    | @refused e m' hcode houtput =>
      obtain ⟨history₂, heq⟩ := recordFault_eq m'
      dsimp only
      rw [heq]
      refine .refused hcode ?_
      cases o with
      | done a m₁ => exact houtput
      | exhausted m₁ => exact houtput
      | fault e' m₁ =>
        dsimp only
        rw [hoff m₁ hr₁]
        exact houtput

theorem run (fuel : Nat) : Transparent (run fuel) :=
  bind (tacit (.heapOnly (.note _))) fun _ => bind takeSnapshot fun _ =>
    bind (tacit (.heapOnly (.view fun _ _ _ _ => rfl))) fun program =>
      bind (regular ((Regular.evaluation fuel).list program)).recordingFault fun _ =>
        tacit .finish

end Transparent

end Exec

/-! ## Main result -/

/-- The configuration without recording. -/
def Config.unrecorded (config : Config) : Config := { config with record := false }

/-- The configuration with recording, under the given limit. -/
def Config.recorded (config : Config) (limit : Nat) : Config :=
  { config with record := true, historyLimit := limit }

/-- The two outcomes have one result, and leave one output, line, heap and scope stack. -/
structure Outcome.Agrees {α : Type} (o o' : Outcome α) : Prop where
  done : o'.isDone = o.isDone
  fault : o'.fault? = o.fault?
  output : o'.state.output = o.state.output
  line : o'.state.line = o.state.line
  heap : o'.state.heap = o.state.heap
  scopes : o'.state.scopes = o.state.scopes

theorem Outcome.Mirrors.agrees {α : Type} {limit : Nat} {o o' : Outcome α}
    (h : o.Mirrors limit o') :
    ((∀ e ∈ o'.fault?, e.code ≠ .snapshotLimitExceeded) ∧ o.Agrees o') ∨
    (∃ e ∈ o'.fault?, e.code = .snapshotLimitExceeded) ∧
      o'.state.output.toList <+: o.state.output.toList := by
  cases h with
  | same history hcode => cases o <;> exact .inl ⟨hcode, rfl, rfl, rfl, rfl, rfl, rfl⟩
  | refused hcode houtput => exact .inr ⟨⟨_, rfl, hcode⟩, houtput⟩

/-- Of two runs that end, one that records and one that does not, the recording one is refused no
snapshot and agrees with the other, or it is refused one, having printed no more than the other. -/
theorem run_agrees_without_recording (program : Program) (config : Config) (limit : Nat)
    {fuel fuel' : Nat} {o o' : Outcome Unit}
    (ho : Exec.run fuel (.initial program config.unrecorded) = o)
    (ho' : Exec.run fuel' (.initial program (config.recorded limit)) = o')
    (hended : o.ended = true) (hended' : o'.ended = true) :
    ((∀ e ∈ o'.fault?, e.code ≠ .snapshotLimitExceeded) ∧ o.Agrees o') ∨
    (∃ e ∈ o'.fault?, e.code = .snapshotLimitExceeded) ∧
      o'.state.output.toList <+: o.state.output.toList := by
  subst ho ho'
  -- with the greater fuel both runs are as they were, and mirror each other
  have heq := Exec.run_eq_of_le (Nat.le_max_left fuel fuel') hended
  have heq' := Exec.run_eq_of_le (Nat.le_max_right fuel fuel') hended'
  have hmirrors := (Exec.Transparent.run (max fuel fuel')).mirrors
    (.initial program config.unrecorded) limit (History.empty limit) rfl
  rw [heq] at hmirrors
  rw [← heq']
  exact hmirrors.agrees

/-- Prints one line, and then another. -/
def printTwice : Program :=
  [.expr (.print (.literal (.boolean true) 1) 1), .expr (.print (.literal (.boolean false) 2) 2)]

/-- The configuration with a heap of four bytes. -/
def fourBytes : Config := { heapCapacity := 4 }

/-- With room for all snapshots the recording run agrees with the other; with room for the first one
it stops, and has printed one of the two lines. -/
theorem printTwice_agrees_without_recording :
    (∃ o o', Exec.run 9 (.initial printTwice fourBytes.unrecorded) = o ∧ o.ended = true ∧
      Exec.run 9 (.initial printTwice (fourBytes.recorded 500)) = o' ∧ o'.ended = true ∧
      o'.state.history.length = 3 ∧ o.Agrees o') ∧
    ∃ o o', Exec.run 9 (.initial printTwice fourBytes.unrecorded) = o ∧ o.ended = true ∧
      Exec.run 9 (.initial printTwice (fourBytes.recorded 260)) = o' ∧ o'.ended = true ∧
      o'.state.output = #[⟨"true", 1⟩] ∧ o'.state.output.toList <+: o.state.output.toList := by
  have hended : (Exec.run 9 (.initial printTwice fourBytes.unrecorded)).ended = true := by
    decide +kernel
  have hended₁ : (Exec.run 9 (.initial printTwice (fourBytes.recorded 500))).ended = true := by
    decide +kernel
  have hended₂ : (Exec.run 9 (.initial printTwice (fourBytes.recorded 260))).ended = true := by
    decide +kernel
  refine ⟨⟨_, _, rfl, hended, rfl, hended₁, by decide +kernel, ?_⟩,
    _, _, rfl, hended, rfl, hended₂, by decide +kernel, ?_⟩
  · have hfault : (Exec.run 9 (.initial printTwice (fourBytes.recorded 500))).fault? = none := by
      decide +kernel
    rcases run_agrees_without_recording printTwice fourBytes 500 rfl rfl hended hended₁ with
      ⟨-, hagrees⟩ | ⟨⟨e, he, -⟩, -⟩
    · exact hagrees
    · rw [hfault] at he
      cases he
  · have hfault : (Exec.run 9 (.initial printTwice (fourBytes.recorded 260))).fault? =
        some (.snapshotLimitExceeded 108 260) := by
      decide +kernel
    rcases run_agrees_without_recording printTwice fourBytes 260 rfl rfl hended hended₂ with
      ⟨hne, -⟩ | ⟨-, houtput⟩
    · exact absurd rfl (hne _ hfault)
    · exact houtput

end HeapWalk
