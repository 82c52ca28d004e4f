import HeapWalk.Proofs.Fuel
import HeapWalk.Proofs.Invariance

/-!
# The limit on calls

At no time of a session do more functions run than the limit admits (`Machine.Visited.shallow`): a
call is admitted before its actuals are evaluated and pushes its scope after that, but what is
evaluated in between leaves the stack as it was.
-/

set_option autoImplicit false

namespace HeapWalk

/-! ## Running functions -/

namespace ScopeStack

theorem callDepth_push_function (s : ScopeStack) (name : String) :
    (s.push .function name).2.callDepth = s.callDepth + 1 :=
  List.countP_cons_of_pos rfl

theorem callDepth_push (s : ScopeStack) {kind : ScopeKind} (hk : kind ≠ .function)
    (name : String) : (s.push kind name).2.callDepth = s.callDepth := by
  refine List.countP_cons_of_neg ?_
  simpa [Context.isFunction] using hk

end ScopeStack

namespace Machine

/-- No more functions are running than may. -/
def Shallow (m : Machine) : Prop := m.scopes.callDepth ≤ maxCallDepth

theorem Shallow.of_trace {m m' : Machine} (h : m.Shallow)
    (htrace : m'.scopes.trace = m.scopes.trace) : m'.Shallow := by
  unfold Shallow
  rw [ScopeStack.callDepth_eq_of_trace htrace]
  exact h

theorem invariant_shallow : Invariant Shallow where
  aside _ _ _ _ h := h
  printed _ h := h
  named hc hf _ h := h.of_trace (by simp [ScopeStack.trace, hc, hf])
  pushed {m kind name} hk h := by
    unfold Shallow
    by_cases hkind : kind = .function
    · subst hkind
      rw [ScopeStack.callDepth_push_function]
      exact hk rfl
    · rw [ScopeStack.callDepth_push _ hkind]
      exact h
  popped h := Nat.le_trans (List.tail_sublist _).countP_le h
  recorded _ _ h := h

theorem Near.shallow {m : Machine} (h : Near Shallow m) : m.Shallow := by
  rcases h with h | ⟨s, value, hs, h⟩
  · exact h
  · exact h.of_trace (by rw [hs]; exact ScopeStack.trace_setReturnValue s value)

end Machine

namespace Exec

open Machine

variable {α : Type} {m : Machine}

/-- A computation that keeps the store sound and upholds the limit. -/
theorem spec_shallow {x : Exec α} {Q R : α → Machine → Prop} (hruns : Runs (fun _ => False) x m Q)
    (hx : Upholds Shallow x m R) :
    Spec x m Shallow (fun _ => Shallow) fun a m' => m'.store.Sound ∧ R a m' :=
  ((hx fun m' hp => (hruns.passes m' hp).sound).and hruns).mono (fun _ h => h.1.shallow)
    (fun _ _ h => h.1.holds) fun _ _ h => ⟨h.2.1.sound, h.1⟩

theorem shallow_recordFault (h : m.Shallow) : (recordFault m).Shallow :=
  h.of_trace (congrArg (fun σ : Store => σ.scopes.trace) (store_recordFault m))

theorem shallow_run (hs : m.store.Sound) (hm : m.Shallow) (fuel : Nat) :
    Spec (run fuel) m Shallow (fun _ => Shallow) fun _ => Shallow := by
  have hP : ∀ p, False → m.store.Live p := fun _ h => h.elim
  unfold run
  refine Spec.bind (Spec.note (fun _ => hm) fun j => Spec.bind ?_)
  refine (spec_shallow (m := { m with journal := j }) (runs_takeSnapshot hs hP)
    (Calm.takeSnapshot invariant_shallow _ hm)).mono (fun _ h => h) (fun _ _ h => h) ?_
  rintro _ m₁ ⟨hs₁, hm₁, -⟩
  refine Spec.bind (Spec.view (Spec.bind ?_))
  have hlist := spec_shallow ((contract fuel).list hs₁ fun _ h => h.elim)
    ((invariant_shallow.evaluation fuel).list m₁.program m₁ hm₁)
  refine (hlist.recordingFault (fun e m₂ hm₂ => ?_) fun _ h => h).mono (fun _ h => h)
    (fun _ _ h => h) fun _ m₂ h₂ => ?_
  · exact ⟨shallow_recordFault hm₂, shallow_recordFault hm₂⟩
  · have hm₂ : m₂.Shallow := h₂.2.near.shallow
    exact Spec.bind (Spec.update hm₂ (Spec.bind (Spec.view
      (Spec.note (fun _ => hm₂) fun _ => hm₂))))

end Exec

theorem Operation.shallow_perform {m : Machine} (hs : m.store.Sound) (hm : m.Shallow)
    (op : Operation) (fuel : Nat) :
    Exec.Spec (op.perform fuel) m Machine.Shallow (fun _ => Machine.Shallow)
      fun _ => Machine.Shallow := by
  have hI := Machine.invariant_shallow
  have hruns := op.runs_perform hs fuel
  cases op with
  | run => exact Exec.shallow_run hs hm fuel
  | execute ss =>
    exact (Exec.spec_shallow hruns ((hI.evaluation fuel).list ss m hm)).mono (fun _ h => h)
      (fun _ _ h => h) fun _ _ h => h.2.near.shallow
  | evaluate e =>
    exact (Exec.spec_shallow hruns
      (((hI.evaluation fuel).eval e).bind (fun _ => .heapOnly hI (.pure ())) m hm)).mono
      (fun _ h => h) (fun _ _ h => h) fun _ _ h => h.2.1
  | sweep =>
    exact (Exec.spec_shallow hruns ((Exec.Calm.heapOnly hI (.freeWhere _)).bind
      (fun _ => .heapOnly hI (.pure ())) m hm)).mono
      (fun _ h => h) (fun _ _ h => h) fun _ _ h => h.2.1

namespace Machine

theorem Reachable.shallow {m : Machine} (h : m.Reachable) : m.Shallow := by
  induction h with
  | initial program config => exact Nat.zero_le _
  | perform op fuel hm ih =>
    exact (op.shallow_perform hm.sound ih fuel).state (fun _ _ h => h) fun _ _ h => h

theorem Visited.shallow {m : Machine} (h : m.Visited) : m.Shallow := by
  cases h with
  | reached h => exact h.shallow
  | passed op fuel h hp => exact (op.shallow_perform h.sound h.shallow fuel).passes _ hp

end Machine

end HeapWalk
