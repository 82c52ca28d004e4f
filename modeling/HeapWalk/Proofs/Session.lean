import HeapWalk.Proofs.Evaluation

/-!
# Sessions

A session performs one operation after the other on a machine, and goes on after a fault with what
the fault left: scopes that were not popped, and a pending `break` or `return`. The machines it can
come to are `Machine.Reachable`; with those in the middle of an operation they are
`Machine.Visited`.

No operation stops on a dead or wrongly sized handle, every machine that is visited has its bindings
in order, and evaluating an expression leaves in place whatever was live.
-/

set_option autoImplicit false

namespace HeapWalk

open Store

/-- What may be asked of a machine. -/
inductive Operation where
  | run
  | execute (statements : List Stmt)
  | evaluate (expression : Expr)
  | sweep

def Operation.perform (fuel : Nat) : Operation → Exec Unit
  | run => Exec.run fuel
  | execute statements => Exec.execList fuel statements
  | evaluate expression => do
    let _ ← Exec.eval fuel expression
  | sweep => do
    let _ ← Exec.sweepAll

/-- The fault that ended a computation. -/
def Outcome.fault? {α : Type} : Outcome α → Option Fault
  | done _ _ | exhausted _ => none
  | fault e _ => some e

def Outcome.isDone {α : Type} : Outcome α → Bool
  | done _ _ => true
  | fault _ _ | exhausted _ => false

theorem Outcome.eq_done {o : Outcome Unit} (h : o.isDone = true) : o = .done () o.state := by
  cases o with
  | done _ m => rfl
  | fault _ _ => cases h
  | exhausted _ => cases h

theorem Outcome.eq_fault {α : Type} {o : Outcome α} {e : Fault} (h : o.fault? = some e) :
    o = .fault e o.state := by
  cases o with
  | done _ _ => cases h
  | fault e' m => cases h; rfl
  | exhausted _ => cases h

namespace Machine

/-- The machine is left by some sequence of operations, whatever their outcomes. -/
inductive Reachable : Machine → Prop where
  | initial (program : Program) (config : Config) : Reachable (.initial program config)
  | perform {m : Machine} (op : Operation) (fuel : Nat) (h : Reachable m) :
    Reachable (op.perform fuel m).state

/-- The machine is left by some sequence of operations, or passed in the middle of the last one. -/
inductive Visited : Machine → Prop where
  | reached {m : Machine} (h : m.Reachable) : Visited m
  | passed {m m' : Machine} (op : Operation) (fuel : Nat) (h : m.Reachable)
    (hp : (op.perform fuel).Passes m m') : Visited m'

end Machine

namespace Exec

variable {α : Type} {P : Pointer → Prop} {m : Machine}

/-! ## Operations -/

theorem store_recordFault (m : Machine) : (recordFault m).store = m.store := by
  unfold recordFault
  split
  · split <;> rfl
  · rfl

theorem recordingFault_eq_done {x : Exec α} {a : α} {m' : Machine} :
    recordingFault x m = .done a m' ↔ x m = .done a m' := by
  unfold recordingFault
  cases hx : x m <;> simp [hx]

theorem recordingFault_eq_fault {x : Exec α} {e : Fault} {m' : Machine} :
    recordingFault x m = .fault e m' ↔ ∃ m₁, x m = .fault e m₁ ∧ recordFault m₁ = m' := by
  unfold recordingFault
  cases hx : x m <;> simp [hx, and_assoc]

theorem recordingFault_eq_exhausted {x : Exec α} {m' : Machine} :
    recordingFault x m = .exhausted m' ↔ x m = .exhausted m' := by
  unfold recordingFault
  cases hx : x m <;> simp [hx]

theorem Spec.recordingFault {x : Exec α} {V : Machine → Prop} {E E' : Option Fault → Machine → Prop}
    {Q : α → Machine → Prop} (h : Spec x m V E Q)
    (hfault : ∀ e m₁, E (some e) m₁ → V (recordFault m₁) ∧ E' (some e) (recordFault m₁))
    (hexhausted : ∀ m₁, E none m₁ → E' none m₁) : Spec (recordingFault x) m V E' Q := by
  refine ⟨?_, fun a m' ho => ?_, fun e m' ho => ?_, fun m' ho => ?_⟩
  · rintro m' (hp | ⟨e, m₁, hx, rfl⟩)
    · exact h.passes m' hp
    · exact (hfault e m₁ (h.fault e m₁ hx)).1
  · exact h.done a m' (recordingFault_eq_done.1 ho)
  · obtain ⟨m₁, hx, rfl⟩ := recordingFault_eq_fault.1 ho
    exact (hfault e m₁ (h.fault e m₁ hx)).2
  · exact hexhausted m' (h.exhausted m' (recordingFault_eq_exhausted.1 ho))

theorem runs_recordingFault {x : Exec α} {Q : α → Machine → Prop} (h : Runs P x m Q) :
    Runs P (recordingFault x) m Q := by
  refine Spec.recordingFault h (fun e m₁ he => ?_) fun _ he => he
  obtain ⟨hcode, hs, hf⟩ := he
  have hsafe : Safe P m (recordFault m₁) :=
    ⟨by rw [store_recordFault]; exact hs, by rw [store_recordFault]; exact hf⟩
  exact ⟨hsafe, hcode, hsafe⟩

theorem runs_finish (hs : m.store.Sound) (hP : ∀ p, P p → m.store.Live p) :
    Runs P finish m fun _ _ => True := by
  unfold finish
  refine (runs_update hs hP rfl).bind ?_
  rintro _ _ hsafe rfl
  refine Runs.bind_view ?_
  exact (runs_note hsafe.sound hsafe.live).mono fun _ _ _ _ => trivial

theorem runs_run (hs : m.store.Sound) (hH : ∀ p, P p → m.store.Held p) (fuel : Nat) :
    Runs P (run fuel) m fun _ _ => True := by
  unfold run
  refine (runs_note hs fun p hp => (hH p hp).live).bind ?_
  rintro _ _ hsafe₁ ⟨j, rfl⟩
  refine (runs_takeSnapshot hsafe₁.sound hsafe₁.live).bind ?_
  rintro _ _ hsafe₂ ⟨h, rfl⟩
  refine Runs.bind_view ?_
  refine (runs_recordingFault ((contract fuel).list hsafe₂.sound hH)).bind ?_
  intro _ m₃ hsafe₃ _
  exact runs_finish hsafe₃.sound hsafe₃.live

end Exec

/-- An operation keeps the store sound at every step. -/
theorem Operation.runs_perform {m : Machine} (hs : m.store.Sound) (op : Operation) (fuel : Nat) :
    Exec.Runs (fun _ => False) (op.perform fuel) m fun _ _ => True := by
  have hP : ∀ p, False → m.store.Live p := fun _ h => h.elim
  have hH : ∀ p, False → m.store.Held p := fun _ h => h.elim
  cases op with
  | run => exact Exec.runs_run hs hH fuel
  | execute ss => exact ((Exec.contract fuel).list hs hH).mono fun _ _ _ _ => trivial
  | evaluate e =>
    exact ((Exec.contract fuel).eval hs hP).bind fun _ _ hsafe _ =>
      Exec.runs_pure hsafe.sound hsafe.live trivial
  | sweep =>
    refine Exec.Runs.bind (Exec.Runs.of_stores (Exec.stores_freeWhere hs hP (fun _ => rfl) ?_))
      fun _ _ hsafe _ => Exec.runs_pure hsafe.sound hsafe.live trivial
    exact fun _ _ h => h.elim

namespace Machine

theorem sound_initial (program : Program) (config : Config) :
    (initial program config).store.Sound := by
  have hmem : ∀ {c}, c ∈ (initial program config).store.scopes.contexts →
      c = { id := .global, kind := .global, name := globalName } :=
    fun hc => List.mem_singleton.1 hc
  refine ⟨Heap.wellFormed_ofCapacity _, List.cons_ne_nil _ _, List.pairwise_singleton _ _,
    fun c hc => ?_, fun c hc => ?_, fun c hc n v hn => ?_, fun c hc n n' v v' hn => ?_,
    fun p b hb => ?_⟩
  · rw [hmem hc]
    exact Nat.lt_succ_self _
  · rw [hmem hc]
    exact List.Pairwise.nil
  · rw [hmem hc] at hn
    cases hn
  · rw [hmem hc] at hn
    cases hn
  · cases hb

theorem Reachable.sound {m : Machine} (h : m.Reachable) : m.store.Sound := by
  induction h with
  | initial program config => exact sound_initial program config
  | perform op fuel _ ih =>
    exact (op.runs_perform ih fuel).state (fun _ _ h => h.2.sound) fun _ _ h => h.1.sound

theorem Visited.sound {m : Machine} (h : m.Visited) : m.store.Sound := by
  cases h with
  | reached h => exact h.sound
  | passed op fuel h hp => exact ((op.runs_perform h.sound fuel).passes _ hp).sound

end Machine

/-! ## Main results -/

/-- Bindings and heap agree. -/
structure Machine.BindingInvariant (m : Machine) : Prop where
  /-- Ids rise from the bottom of the stack to its top; contexts stand innermost first. -/
  rising : m.scopes.contexts.Pairwise fun c d => d.id < c.id
  below : ∀ c ∈ m.scopes.contexts, c.id < m.scopes.nextId
  /-- A bound variable names a live range of the size of its type, which its context owns. -/
  owned : ∀ c ∈ m.scopes.contexts, ∀ n v, (n, v) ∈ c.locals →
    m.heap.isLive v.pointer = true ∧ m.heap.ownership v.pointer = .ok (.owned c.id) ∧
      v.pointer.size = v.type.size
  /-- Bindings that share a range are one and the same. -/
  apart : ∀ c ∈ m.scopes.contexts, ∀ c' ∈ m.scopes.contexts, ∀ n v n' v', (n, v) ∈ c.locals →
    (n', v') ∈ c'.locals → v.pointer = v'.pointer → c = c' ∧ n = n'
  /-- What is live, temporary or owned, belongs to an open scope. -/
  housed : ∀ a ∈ m.heap.allocations, ∃ c ∈ m.scopes.contexts, c.id = a.ownership.scope

/-- A machine that a fault in the body of a function left: the scope of the function is open, with
two bindings and an operand that nobody took. -/
def Machine.stranded : Machine :=
  ((Operation.execute
    [.function "f" ["p"]
      [.expr (.assign "q" (.identifier "p" 2) 2),
        .expr (.binary .and (.identifier "q" 3) (.identifier "y" 3) 3)] 1,
      .expr (.call "f" [.assign "x" (.literal (.boolean true) 4) 4] 4)]).perform 9
    (.initial [] { heapCapacity := 8 })).state

theorem Machine.reachable_stranded : stranded.Reachable :=
  .perform _ _ (.initial _ _)

section Main

variable {m : Machine}

/-- No operation of a session uses a handle that is dead or of the wrong size. -/
theorem code_ne_invalidPointer_of_perform (h : m.Reachable) (op : Operation) (fuel : Nat)
    {e : Fault} (hf : (op.perform fuel m).fault? = some e) : e.code ≠ .invalidPointer := by
  have hruns := op.runs_perform h.sound fuel
  cases ho : op.perform fuel m with
  | done _ _ => rw [ho] at hf; cases hf
  | exhausted _ => rw [ho] at hf; cases hf
  | fault e' m' =>
    rw [ho] at hf
    obtain rfl := Option.some.inj hf
    simpa [Exec.Tolerable] using (hruns.fault e' m' ho).1

/-- A session that goes on in the scope of the faulted function, and discards an operand. -/
theorem code_ne_invalidPointer_stranded :
    Machine.stranded.Reachable ∧
    ((Operation.evaluate (.binary .add (.identifier "q" 5) (.assign "x" (.identifier "p" 5) 5)
      5)).perform 9 .stranded).fault? = some (.operandType (.binary .add .boolean .boolean)) ∧
    (Fault.operandType (.binary .add .boolean .boolean)).code ≠ .invalidPointer :=
  ⟨Machine.reachable_stranded, by decide +kernel,
    code_ne_invalidPointer_of_perform Machine.reachable_stranded
      (.evaluate (.binary .add (.identifier "q" 5) (.assign "x" (.identifier "p" 5) 5) 5)) 9
      (by decide +kernel)⟩

theorem bindingInvariant_of_visited (h : m.Visited) : m.BindingInvariant := by
  have hs := h.sound
  have hw : m.heap.WellFormed := hs.heap
  have hget : ∀ c ∈ m.scopes.contexts, ∀ n v, (n, v) ∈ c.locals → c.locals.get? n = some v :=
    fun c hc n v hn => (hs.ordered c hc).get?_eq_some.2 hn
  refine ⟨hs.ids, hs.below, ?_, ?_, ?_⟩
  · intro c hc n v hn
    obtain ⟨hsize, bytes, hb⟩ := hs.owned c hc n v (hget c hc n v hn)
    exact ⟨hw.isLive_eq.trans (by rw [show m.heap.block? _ = _ from hb]; rfl),
      hw.ownership_eq_ok hb, hsize⟩
  · intro c hc c' hc' n v n' v' hn hn' hp
    exact hs.eq_of_pointer hc hc' (hget c hc n v hn) (hget c' hc' n' v' hn') hp
  · intro a ha
    exact hs.housed a.pointer ⟨a.ownership, _⟩ (hw.block?_eq_some.2 ⟨ha, rfl⟩)

/-- The machine that a fault left, and one in the middle of the next operation, which has pushed the
scope of a block. -/
theorem bindingInvariant_stranded :
    (Machine.stranded.Visited ∧ Machine.stranded.heap.allocations.length = 4 ∧
      Machine.stranded.BindingInvariant) ∧
    ∃ m : Machine, m.Visited ∧ m.scopes.depth = 3 ∧ m.BindingInvariant := by
  have hleft : Machine.stranded.Visited := .reached Machine.reachable_stranded
  have hblock : Machine.Visited
      { Machine.stranded with scopes := (Machine.stranded.scopes.push .block "block").2 } :=
    .passed (.execute [.block [] 0]) 3 Machine.reachable_stranded
      (.inl (.inr ⟨(), _, rfl, .inl (.inr ⟨_, _, rfl, .inl rfl⟩)⟩))
  exact ⟨⟨hleft, by decide +kernel, bindingInvariant_of_visited hleft⟩,
    _, hblock, by decide +kernel, bindingInvariant_of_visited hblock⟩

/-- Whatever evaluating an expression comes to, each allocation that was live is live with the same
handle and ownership, and holds the same bytes unless it was the storage of a binding. -/
theorem eval_keeps_allocations (h : m.Visited) (e : Expr) (fuel : Nat) :
    ∀ a ∈ m.heap.allocations,
      a ∈ (Exec.eval fuel e m).state.heap.allocations ∧
      (Exec.eval fuel e m).state.heap.isLive a.pointer = true ∧
      ((Exec.eval fuel e m).state.heap.bytesAt a.pointer = m.heap.bytesAt a.pointer ∨
        ∃ c ∈ m.scopes.contexts, ∃ n v, (n, v) ∈ c.locals ∧ v.pointer = a.pointer) := by
  intro a ha
  have hs := h.sound
  have hsafe : Exec.Safe m.store.Live m (Exec.eval fuel e m).state :=
    ((Exec.contract fuel).eval hs fun _ hp => hp).state (fun _ _ h => h.2) fun _ _ h => h.1
  have hb : m.store.block? a.pointer = some ⟨a.ownership, m.heap.bytesAt a.pointer⟩ :=
    hs.heap.block?_eq_some.2 ⟨ha, rfl⟩
  obtain ⟨b, b', hb₀, hb', howner, hbytes⟩ := hsafe.frame.blocks a.pointer ⟨_, hb⟩
  obtain rfl := Option.some.inj (hb₀.symm.trans hb)
  obtain ⟨hmem, hat⟩ := hsafe.sound.heap.block?_eq_some.1 hb'
  refine ⟨by rw [howner] at hmem; exact hmem, ?_, ?_⟩
  · exact hsafe.sound.heap.isLive_eq.trans (by rw [show Heap.block? _ _ = _ from hb']; rfl)
  · rcases hbytes with ⟨v, ⟨c, hc, n, hn⟩, hp⟩ | hbytes
    · exact .inr ⟨c, hc, n, v, (hs.ordered c hc).get?_eq_some.1 hn, hp⟩
    · exact .inl (hat.symm.trans hbytes)

/-- An assignment overwrites the storage of `x` and spares the operand left over. -/
theorem eval_keeps_stranded_operand :
    Machine.stranded.Visited ∧
    (⟨⟨4, 1, 4⟩, .temporary 1⟩ : Allocation) ∈ Machine.stranded.heap.allocations ∧
    (⟨⟨4, 1, 4⟩, .temporary 1⟩ : Allocation) ∈
      (Exec.eval 9 (.assign "x" (.literal (.boolean false) 5) 5) .stranded).state.heap.allocations :=
  ⟨.reached Machine.reachable_stranded, by decide +kernel,
    (eval_keeps_allocations (.reached Machine.reachable_stranded)
      (.assign "x" (.literal (.boolean false) 5) 5) 9 _ (by decide +kernel)).1⟩

end Main

end HeapWalk
