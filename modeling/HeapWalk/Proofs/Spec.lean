import HeapWalk.Machine.Run

/-!
# Specifications of computations

`Exec.Spec x m V E Q`: the computation `x`, started from `m`, passes only through machines in `V`;
if it is done, its value and the machine it leaves are in `Q`; and if it stops before, on a fault or
for want of fuel, the machine is in `E` for that fault (for no fault, if the fuel ran out). There is
one rule for each way of building a computation, so that a specification follows its text.
-/

set_option autoImplicit false

namespace HeapWalk.Exec

variable {α β : Type}

/-! ## Outcomes of a sequence -/

section Sequence
variable {x : Exec α} {f : α → Exec β} {m m' : Machine}

theorem bind_apply (x : Exec α) (f : α → Exec β) (m : Machine) :
    (x >>= f) m =
      match x m with
      | .done a m => f a m
      | .fault e m => .fault e m
      | .exhausted m => .exhausted m := rfl

theorem bind_eq_done {b : β} :
    (x >>= f) m = .done b m' ↔ ∃ a m₁, x m = .done a m₁ ∧ f a m₁ = .done b m' := by
  rw [bind_apply]
  cases x m <;> simp [and_assoc]

theorem bind_eq_fault {e : Fault} :
    (x >>= f) m = .fault e m' ↔
      x m = .fault e m' ∨ ∃ a m₁, x m = .done a m₁ ∧ f a m₁ = .fault e m' := by
  rw [bind_apply]
  cases x m <;> simp [and_assoc]

theorem bind_eq_exhausted :
    (x >>= f) m = .exhausted m' ↔
      x m = .exhausted m' ∨ ∃ a m₁, x m = .done a m₁ ∧ f a m₁ = .exhausted m' := by
  rw [bind_apply]
  cases x m <;> simp [and_assoc]

theorem bind_of_done {a : α} (h : x m = .done a m') : (x >>= f) m = f a m' := by
  rw [bind_apply, h]

theorem bind_of_fault {e : Fault} (h : x m = .fault e m') : (x >>= f) m = .fault e m' := by
  rw [bind_apply, h]

theorem bind_congr {g : α → Exec β} (h : ∀ a m, f a m = g a m) : (x >>= f) m = (x >>= g) m := by
  rw [bind_apply, bind_apply]
  cases x m <;> simp [h]

theorem bind_assoc {γ : Type} (x : Exec α) (f : α → Exec β) (g : β → Exec γ) (m : Machine) :
    (x >>= f >>= g) m = (x >>= fun a => f a >>= g) m := by
  simp only [bind_apply]
  cases x m <;> rfl

theorem askHeap_eq_done {q : Heap → Except HeapError α} {a : α} (h : q m.heap = .ok a) :
    askHeap q m = .done a m := by
  simp only [askHeap, h]

theorem askHeap_eq_fault {q : Heap → Except HeapError α} {e : HeapError}
    (h : q m.heap = .error e) : askHeap q m = .fault (.heap e) m := by
  simp only [askHeap, h]

end Sequence

/-! ## Specifications -/

structure Spec (x : Exec α) (m : Machine) (V : Machine → Prop)
    (E : Option Fault → Machine → Prop) (Q : α → Machine → Prop) : Prop where
  passes : ∀ m', x.Passes m m' → V m'
  done : ∀ a m', x m = .done a m' → Q a m'
  fault : ∀ e m', x m = .fault e m' → E (some e) m'
  exhausted : ∀ m', x m = .exhausted m' → E none m'

namespace Spec

variable {m : Machine} {V V' : Machine → Prop} {E E' : Option Fault → Machine → Prop}

theorem mono {x : Exec α} {Q Q' : α → Machine → Prop} (h : Spec x m V E Q)
    (hV : ∀ m', V m' → V' m') (hE : ∀ e m', E e m' → E' e m')
    (hQ : ∀ a m', Q a m' → Q' a m') : Spec x m V' E' Q' where
  passes m' hp := hV m' (h.passes m' hp)
  done a m' ho := hQ a m' (h.done a m' ho)
  fault e m' ho := hE _ m' (h.fault e m' ho)
  exhausted m' ho := hE _ m' (h.exhausted m' ho)

theorem and {x : Exec α} {Q Q' : α → Machine → Prop} (h : Spec x m V E Q)
    (h' : Spec x m V' E' Q') :
    Spec x m (fun m' => V m' ∧ V' m') (fun e m' => E e m' ∧ E' e m')
      fun a m' => Q a m' ∧ Q' a m' where
  passes m' hp := ⟨h.passes m' hp, h'.passes m' hp⟩
  done a m' ho := ⟨h.done a m' ho, h'.done a m' ho⟩
  fault e m' ho := ⟨h.fault e m' ho, h'.fault e m' ho⟩
  exhausted m' ho := ⟨h.exhausted m' ho, h'.exhausted m' ho⟩

/-- The machine as it is left, whatever the outcome. -/
theorem state {x : Exec α} {Q : α → Machine → Prop} (h : Spec x m V E Q)
    (hE : ∀ e m', E e m' → V' m') (hQ : ∀ a m', Q a m' → V' m') : V' (x m).state := by
  cases ho : x m with
  | done a m' => exact hQ a m' (h.done a m' ho)
  | fault e m' => exact hE _ m' (h.fault e m' ho)
  | exhausted m' => exact hE _ m' (h.exhausted m' ho)

/-- What nothing stops is done. -/
theorem exists_done {x : Exec α} {Q : α → Machine → Prop} (h : Spec x m V (fun _ _ => False) Q) :
    ∃ a m', x m = .done a m' ∧ Q a m' := by
  cases ho : x m with
  | done a m' => exact ⟨a, m', rfl, h.done a m' ho⟩
  | fault e m' => exact (h.fault e m' ho).elim
  | exhausted m' => exact (h.exhausted m' ho).elim

theorem pure {a : α} {Q : α → Machine → Prop} (h : Q a m) : Spec (pure a) m V E Q where
  passes _ hp := hp.elim
  done _ _ ho := by cases ho; exact h
  fault _ _ ho := by cases ho
  exhausted _ ho := by cases ho

theorem bind {x : Exec α} {f : α → Exec β} {Q : β → Machine → Prop}
    (h : Spec x m V E fun a m₁ => Spec (f a) m₁ V E Q) : Spec (x >>= f) m V E Q := by
  refine ⟨?_, fun b m' hb => ?_, fun e m' hb => ?_, fun m' hb => ?_⟩
  · rintro m' (hp | ⟨a, m₁, ho, hp⟩)
    · exact h.passes m' hp
    · exact (h.done a m₁ ho).passes m' hp
  · obtain ⟨a, m₁, ho, hf⟩ := bind_eq_done.1 hb
    exact (h.done a m₁ ho).done b m' hf
  · rcases bind_eq_fault.1 hb with ho | ⟨a, m₁, ho, hf⟩
    · exact h.fault e m' ho
    · exact (h.done a m₁ ho).fault e m' hf
  · rcases bind_eq_exhausted.1 hb with ho | ⟨a, m₁, ho, hf⟩
    · exact h.exhausted m' ho
    · exact (h.done a m₁ ho).exhausted m' hf

theorem view {f : Machine → α} {Q : α → Machine → Prop} (h : Q (f m) m) :
    Spec (view f) m V E Q where
  passes _ hp := hp.elim
  done _ _ ho := by cases ho; exact h
  fault _ _ ho := by cases ho
  exhausted _ ho := by cases ho

theorem update {f : Machine → Machine} {Q : Unit → Machine → Prop} (hV : V (f m))
    (hQ : Q () (f m)) : Spec (update f) m V E Q where
  passes _ hp := by rw [hp]; exact hV
  done _ _ ho := by cases ho; exact hQ
  fault _ _ ho := by cases ho
  exhausted _ ho := by cases ho

theorem raise {e : Fault} {Q : α → Machine → Prop} (h : E (some e) m) :
    Spec (raise e) m V E Q where
  passes _ hp := hp.elim
  done _ _ ho := by cases ho
  fault _ _ ho := by cases ho; exact h
  exhausted _ ho := by cases ho

theorem outOfFuel {Q : α → Machine → Prop} (h : E none m) : Spec outOfFuel m V E Q where
  passes _ hp := hp.elim
  done _ _ ho := by cases ho
  fault _ _ ho := by cases ho
  exhausted _ ho := by cases ho; exact h

theorem attempt {f : Machine → Except Fault Machine} {Q : Unit → Machine → Prop}
    (hV : ∀ m', f m = .ok m' → V m' ∧ Q () m') (hE : ∀ e, f m = .error e → E (some e) m) :
    Spec (attempt f) m V E Q := by
  refine ⟨fun m' hp => (hV m' hp).1, fun _ m' ho => ?_, fun e m' ho => ?_, fun m' ho => ?_⟩
  all_goals
    unfold Exec.attempt at ho
    cases hf : f m <;> simp only [hf] at ho <;> cases ho
  · exact (hV m' hf).2
  · exact hE e hf

theorem askHeap {f : Heap → Except HeapError α} {Q : α → Machine → Prop}
    (hQ : ∀ a, f m.heap = .ok a → Q a m)
    (hE : ∀ e, f m.heap = .error e → E (some (.heap e)) m) : Spec (askHeap f) m V E Q := by
  refine ⟨fun _ hp => hp.elim, fun a m' ho => ?_, fun e m' ho => ?_, fun m' ho => ?_⟩
  all_goals
    unfold Exec.askHeap at ho
    cases hf : f m.heap <;> simp only [hf] at ho <;> cases ho
  · exact hQ a hf
  · exact hE _ hf

theorem note {e : Event} {Q : Unit → Machine → Prop} (hV : ∀ j, V { m with journal := j })
    (hQ : ∀ j, Q () { m with journal := j }) : Spec (note e) m V E Q := by
  unfold Exec.note
  by_cases ha : m.config.filter.admits e = true
  · exact update (by rw [if_pos ha]; exact hV _) (by rw [if_pos ha]; exact hQ _)
  · exact update (by rw [if_neg ha]; exact hV _) (by rw [if_neg ha]; exact hQ _)

theorem echo {text : String} {Q : Unit → Machine → Prop} (hV : ∀ j, V { m with journal := j })
    (hQ : ∀ j, Q () { m with journal := j }) : Spec (echo text) m V E Q := by
  unfold Exec.echo
  by_cases he : m.config.echo = true
  · exact update (by rw [if_pos he]; exact hV _) (by rw [if_pos he]; exact hQ _)
  · exact update (by rw [if_neg he]; exact hV _) (by rw [if_neg he]; exact hQ _)

theorem findFunction {name : String} {Q : FunctionDef → Machine → Prop}
    (hQ : ∀ f, m.scopes.lookupFunction name = some f → m.scopes.callDepth < maxCallDepth → Q f m)
    (hnone : E (some (.undefinedFunction name)) m)
    (hdeep : ∀ f, E (some (.callDepthExceeded f maxCallDepth)) m) :
    Spec (findFunction name) m V E Q := by
  unfold Exec.findFunction
  refine bind (view ?_)
  split
  · exact raise hnone
  · rename_i f hf
    refine bind (view ?_)
    split
    · rename_i hlt
      exact pure (hQ f hf hlt)
    · exact raise (hdeep f.name)

end Spec

end HeapWalk.Exec
