import HeapWalk.Proofs.Operands

/-!
# What evaluation returns

Whatever an expression evaluates to can be read (`Machine.Readable`). An assignment, or a print of
one, evaluates to the storage of the name that it assigns. Every other expression makes storage of
its own (`Machine.Makes`): a temporary of the scope in which it is evaluated, that was not live
before and that no name is bound to.

For a call this says that the value outlives the function. A `return` hands it to the scope of the
caller, as a copy if it was the storage of a binding, and no scope that is popped on the way back is
that of the caller.
-/

set_option autoImplicit false

namespace HeapWalk

open Store

namespace Machine

/-- `v` has live storage of the size of its type, and holds a value of that type. -/
structure Readable (m : Machine) (v : Variable) : Prop where
  live : m.heap.isLive v.pointer = true
  size : v.pointer.size = v.type.size
  value : ∃ a, m.readValue v = .ok a ∧ a.type = v.type

/-- Between `m` and `m'`, which have the same scopes, `v` was made as a temporary of the current
one. -/
structure Makes (m : Machine) (v : Variable) (m' : Machine) : Prop where
  scopes : m'.scopes.trace = m.scopes.trace
  dead : m.heap.isLive v.pointer = false
  owner : m'.heap.ownership v.pointer = .ok (.temporary m.scopes.currentId)
  unbound : ∀ c ∈ m'.scopes.contexts, ∀ n w, (n, w) ∈ c.locals → w.pointer ≠ v.pointer

end Machine

section Results

variable {m m' : Machine} {v : Variable}

theorem Store.Usable.readable {P : Pointer → Prop} (hs : m.store.Sound)
    (hv : Usable P m.store v) : m.Readable v := by
  have hw : m.heap.WellFormed := hs.heap
  obtain ⟨a, ha⟩ := hv.carries hs
  obtain ⟨hsize, b, hb, -⟩ := hv
  have hlive : m.heap.isLive v.pointer = true := by
    rw [hw.isLive_eq, show m.heap.block? v.pointer = some b from hb]
    rfl
  exact ⟨hlive, hsize, a, ha.readValue hw, ha.type⟩

/-- A new temporary of the current scope is nobody's binding. -/
theorem Exec.YieldsFresh.makes (hs : m.store.Sound) (hs' : m'.store.Sound)
    (h : Exec.YieldsFresh m.store.Live m v m') : m.Makes v m' := by
  have hw : m.heap.WellFormed := hs.heap
  have hw' : m'.heap.WellFormed := hs'.heap
  obtain ⟨hkept, ⟨-, bytes, hb⟩, hnew⟩ := h
  rw [show m'.store.scopes.currentId = m.scopes.currentId from
    ScopeStack.currentId_eq_of_trace hkept.trace] at hb
  have hdead : m.heap.block? v.pointer = none := by
    cases hold : m.heap.block? v.pointer with
    | none => rfl
    | some b => exact absurd ⟨b, hold⟩ hnew
  refine ⟨hkept.trace, ?_, hw'.ownership_eq_ok hb, ?_⟩
  · rw [hw.isLive_eq, hdead]
    rfl
  · intro c hc n w hn he
    have hget : c.locals.get? n = some w := (hs'.ordered c hc).get?_eq_some.2 hn
    exact hs'.not_bound_of_temporary hb ⟨w, ⟨c, hc, n, hget⟩, he⟩

end Results

/-! ## Main result -/

/-- What an expression evaluates to can be read. It is the storage of the name that is now visible
as the one assigned, if the expression is an assignment or prints one, and else a new temporary of
the current scope. In particular the value of a call is such a temporary, in an expression and in a
statement. -/
theorem results_are_assigned_or_new {m : Machine} (h : m.Visited) (fuel : Nat) :
    (∀ (e : Expr) (v : Variable) (m' : Machine), Exec.eval fuel e m = .done v m' →
      m'.Readable v ∧
        ((∃ name, e.assigned? = some name ∧ m'.scopes.lookupVariable name = some v) ∨
          (e.assigned? = none ∧ m.Makes v m'))) ∧
    ∀ (name : String) (args : List Expr) (line : Nat) (v : Variable) (m' : Machine),
      Exec.call fuel name args line m = .done (some v) m' → m'.Readable v ∧ m.Makes v m' := by
  have hs := h.sound
  have hlive : ∀ p, m.store.Live p → m.store.Live p := fun _ hp => hp
  constructor
  · intro e v m' hv
    obtain ⟨hsafe, -, hresult⟩ := ((Exec.contract fuel).eval hs hlive).done v m' hv
    refine ⟨(hresult.usable hsafe.sound).readable hsafe.sound, ?_⟩
    cases he : e.assigned? with
    | some name => exact .inl ⟨name, rfl, (Exec.ends_eval_assigned he hs).done v m' hv⟩
    | none =>
      have hfresh := ((Exec.runs_eval_fresh he hs hlive).done v m' hv).2
      exact .inr ⟨rfl, hfresh.makes hs hsafe.sound⟩
  · intro name args line v m' hv
    obtain ⟨hsafe, hkept, hfresh⟩ := ((Exec.contract fuel).call hs hlive).done (some v) m' hv
    have hyields : Exec.YieldsFresh m.store.Live m v m' := ⟨hkept, hfresh v rfl⟩
    have husable := (Store.Result.usable hsafe.sound (.inl hyields.2))
    exact ⟨husable.readable hsafe.sound, hyields.makes hs hsafe.sound⟩

/-- A machine with a function that returns the storage of `x` from a block in a loop. -/
def Machine.deepReturn : Machine :=
  ((Operation.execute
    [.function "f" [] [.loop none [.block
        [.ret (some (.print (.assign "x" (.literal (.boolean false) 3) 3) 3)) 3] 2] 2] 1,
      .expr (.assign "x" (.literal (.boolean true) 4) 4)]).perform 9
    (.initial [] { heapCapacity := 8 })).state

/-- The print of an assignment is the storage of `x`; the value of the call, which is such a print,
is a copy. -/
theorem results_of_deepReturn :
    Machine.deepReturn.Visited ∧
    (∃ v m, Exec.eval 9 (.print (.assign "x" (.literal (.boolean false) 5) 5) 5) .deepReturn =
      .done v m ∧ m.Readable v ∧ m.scopes.lookupVariable "x" = some v) ∧
    ∃ v m, Exec.eval 20 (.call "f" [] 5) .deepReturn = .done v m ∧ m.Readable v ∧
      Machine.deepReturn.Makes v m ∧ m.scopes.lookupVariable "x" ≠ some v := by
  have hvisited : Machine.deepReturn.Visited := .reached (.perform _ _ (.initial _ _))
  refine ⟨hvisited, ?_, ?_⟩
  · have hv : Exec.eval 9 (.print (.assign "x" (.literal (.boolean false) 5) 5) 5) .deepReturn =
        .done ⟨⟨7, 1, 1⟩, .boolean⟩ _ := Outcome.eq_done_of_value? (by decide +kernel)
    obtain ⟨hread, ⟨name, hname, hlookup⟩ | ⟨hnone, -⟩⟩ :=
      (results_are_assigned_or_new hvisited 9).1 _ _ _ hv
    · obtain rfl : "x" = name := Option.some.inj hname
      exact ⟨_, _, hv, hread, hlookup⟩
    · cases hnone
  · have hv : Exec.eval 20 (.call "f" [] 5) .deepReturn = .done ⟨⟨5, 1, 3⟩, .boolean⟩ _ :=
      Outcome.eq_done_of_value? (by decide +kernel)
    obtain ⟨hread, ⟨name, hname, -⟩ | ⟨-, hmakes⟩⟩ :=
      (results_are_assigned_or_new hvisited 20).1 _ _ _ hv
    · cases hname
    · exact ⟨_, _, hv, hread, hmakes, by decide +kernel⟩

end HeapWalk
