import HeapWalk.Scope.Basic

/-!
# How a stack of scopes changes

While a construct runs, the contexts below the innermost one stay as they are and the innermost one
only gains names that nobody saw before (`Context.Grows`, `ScopeStack.Kept`).

Which scope is current, who called the innermost function and where a sweep begins are read off the
trace of the stack alone.
-/

set_option autoImplicit false

namespace HeapWalk

/-! ## Bindings -/

namespace Bindings

variable {α : Type}

theorem get?_nil (k : String) : get? ([] : Bindings α) k = none := rfl

theorem get?_cons (b : Bindings α) (n k : String) (x : α) :
    get? ((n, x) :: b) k = if k = n then some x else b.get? k := by
  unfold get?
  rw [List.lookup_cons]
  by_cases h : k = n
  · rw [if_pos h, beq_iff_eq.2 h]
  · rw [if_neg h, beq_false_of_ne h]

theorem get?_insert (b : Bindings α) (n k : String) (x : α) :
    (b.insert n x).get? k = if k = n then some x else b.get? k := by
  induction b with
  | nil => rw [insert, get?_cons]
  | cons p rest ih =>
    obtain ⟨n', x'⟩ := p
    simp only [insert]
    split
    · rw [get?_cons]
    · split
      · rename_i _ he
        subst he
        rw [get?_cons, get?_cons]
        split <;> rfl
      · rename_i _ hne
        rw [get?_cons, get?_cons, ih]
        by_cases hk : k = n'
        · rw [if_pos hk, if_pos hk, if_neg (hk ▸ Ne.symm hne)]
        · rw [if_neg hk, if_neg hk]

/-- Each name stands once, in order. -/
def Ordered (b : Bindings α) : Prop := b.Pairwise fun x y => x.1 < y.1

theorem mem_insert {b : Bindings α} {n : String} {x : α} {p : String × α}
    (hp : p ∈ b.insert n x) : p = (n, x) ∨ p ∈ b := by
  induction b with
  | nil => exact .inl (List.mem_singleton.1 hp)
  | cons q rest ih =>
    obtain ⟨n', x'⟩ := q
    simp only [insert] at hp
    split at hp
    · exact List.mem_cons.1 hp
    · split at hp
      · rcases List.mem_cons.1 hp with rfl | hp
        · exact .inl rfl
        · exact .inr (List.mem_cons_of_mem _ hp)
      · rcases List.mem_cons.1 hp with rfl | hp
        · exact .inr List.mem_cons_self
        · exact (ih hp).imp_right (List.mem_cons_of_mem _)

theorem Ordered.insert {b : Bindings α} (h : b.Ordered) (n : String) (x : α) :
    Ordered (b.insert n x) := by
  induction b with
  | nil => exact List.pairwise_singleton _ _
  | cons q rest ih =>
    obtain ⟨n', x'⟩ := q
    obtain ⟨hfirst, hrest⟩ := List.pairwise_cons.1 h
    simp only [Bindings.insert]
    split
    · rename_i hlt
      refine List.pairwise_cons.2 ⟨fun p hp => ?_, h⟩
      rcases List.mem_cons.1 hp with rfl | hp
      · exact hlt
      · exact String.lt_trans hlt (hfirst p hp)
    · split
      · rename_i _ heq
        subst heq
        exact List.pairwise_cons.2 ⟨hfirst, hrest⟩
      · rename_i hnlt hne
        have hlt : n' < n := by
          refine String.not_le.1 fun hle => hne ?_
          exact String.le_antisymm hle (String.not_lt.1 hnlt)
        refine List.pairwise_cons.2 ⟨fun p hp => ?_, ih hrest⟩
        rcases mem_insert hp with rfl | hp
        · exact hlt
        · exact hfirst p hp

/-- In ordered bindings each pair is the one its name is looked up to. -/
theorem Ordered.get?_eq_some {b : Bindings α} (h : b.Ordered) {n : String} {x : α} :
    b.get? n = some x ↔ (n, x) ∈ b := by
  induction b with
  | nil => simp [get?_nil]
  | cons q rest ih =>
    obtain ⟨n', x'⟩ := q
    obtain ⟨hfirst, hrest⟩ := List.pairwise_cons.1 h
    rw [get?_cons, List.mem_cons, Prod.mk.injEq]
    split
    · rename_i heq
      subst heq
      have hnot : (n, x) ∉ rest := fun hmem => String.lt_irrefl n (hfirst _ hmem)
      simp [hnot, eq_comm]
    · rename_i hne
      simp [hne, ih hrest]

end Bindings

/-! ## Growth -/

/-- `c'` is the context `c`, above the contexts `outer`, with further names that were not visible. -/
structure Context.Grows (outer : List Context) (c c' : Context) : Prop where
  frame : c'.frame = c.frame
  returnValue : c'.returnValue = c.returnValue
  kept : ∀ n v, c.locals.get? n = some v → c'.locals.get? n = some v
  gained : ∀ n v, c'.locals.get? n = some v →
    c.locals.get? n = some v ∨ ∀ d ∈ c :: outer, d.locals.get? n = none

theorem Context.Grows.refl (outer : List Context) (c : Context) : c.Grows outer c :=
  ⟨rfl, rfl, fun _ _ h => h, fun _ _ h => .inl h⟩

theorem Context.Grows.trans {outer : List Context} {c₁ c₂ c₃ : Context}
    (h₁ : c₁.Grows outer c₂) (h₂ : c₂.Grows outer c₃) : c₁.Grows outer c₃ := by
  refine ⟨h₂.frame.trans h₁.frame, h₂.returnValue.trans h₁.returnValue,
    fun n v h => h₂.kept n v (h₁.kept n v h), fun n v h => ?_⟩
  rcases h₂.gained n v h with h | hn
  · exact h₁.gained n v h
  · refine .inr fun d hd => ?_
    rcases List.mem_cons.1 hd with rfl | hd
    · -- a name of `c₁` is still one of `c₂`
      cases hc : d.locals.get? n with
      | none => rfl
      | some w =>
        have := h₁.kept n w hc
        rw [hn c₂ List.mem_cons_self] at this
        cases this
    · exact hn d (List.mem_cons_of_mem _ hd)

namespace ScopeStack

/-- `t` is `s` after its innermost context has grown. -/
def Kept (s t : ScopeStack) : Prop :=
  s.nextId ≤ t.nextId ∧
    ∃ c c' rest, s.contexts = c :: rest ∧ t.contexts = c' :: rest ∧ c.Grows rest c'

theorem Kept.refl {s : ScopeStack} (h : s.contexts ≠ []) : s.Kept s := by
  obtain ⟨c, rest, hc⟩ := List.exists_cons_of_ne_nil h
  exact ⟨Nat.le_refl _, c, c, rest, hc, hc, .refl rest c⟩

theorem Kept.trans {s t u : ScopeStack} (h₁ : s.Kept t) (h₂ : t.Kept u) : s.Kept u := by
  obtain ⟨hn, c, c', rest, hs, ht, hg⟩ := h₁
  obtain ⟨hn', d, d', rest', ht', hu, hg'⟩ := h₂
  rw [ht, List.cons.injEq] at ht'
  obtain ⟨rfl, rfl⟩ := ht'
  exact ⟨Nat.le_trans hn hn', c, d', rest, hs, hu, hg.trans hg'⟩

theorem nextId_bind (s : ScopeStack) (name : String) (v : Variable) :
    (s.bind name v).nextId = s.nextId := by
  unfold bind
  split <;> rfl

theorem nextId_define (s : ScopeStack) (f : FunctionDef) : (s.define f).nextId = s.nextId := by
  unfold define
  split <;> rfl

theorem Kept.define {s : ScopeStack} (h : s.contexts ≠ []) (f : FunctionDef) :
    s.Kept (s.define f) := by
  obtain ⟨c, rest, hc⟩ := List.exists_cons_of_ne_nil h
  refine ⟨Nat.le_of_eq (nextId_define s f).symm, c,
    { c with functions := c.functions.insert f.name f }, rest, hc, ?_,
    rfl, rfl, fun _ _ h => h, fun _ _ h => .inl h⟩
  rw [ScopeStack.define, hc]

/-! ## What is read off the trace -/

theorem Kept.trace {s t : ScopeStack} (h : s.Kept t) : t.trace = s.trace := by
  obtain ⟨-, c, c', rest, hs, ht, hg⟩ := h
  simp [ScopeStack.trace, hs, ht, hg.frame]

theorem trace_bind (s : ScopeStack) (name : String) (v : Variable) :
    (s.bind name v).trace = s.trace := by
  unfold bind
  split
  · rfl
  · rename_i hc
    rw [ScopeStack.trace, ScopeStack.trace, hc]
    rfl

theorem trace_define (s : ScopeStack) (f : FunctionDef) : (s.define f).trace = s.trace := by
  unfold define
  split
  · rfl
  · rename_i hc
    rw [ScopeStack.trace, ScopeStack.trace, hc]
    rfl

theorem currentId_eq_of_trace {s t : ScopeStack} (h : t.trace = s.trace) :
    t.currentId = s.currentId := by
  unfold ScopeStack.trace at h
  unfold currentId
  cases hs : s.contexts <;> cases ht : t.contexts <;> simp_all [Context.frame]

theorem map_frame_fromFunction (s : ScopeStack) :
    s.fromFunction.map Context.frame =
      s.trace.dropWhile fun f => !(f.kind == .function) := by
  unfold fromFunction ScopeStack.trace
  rw [List.dropWhile_map]
  rfl

theorem callerId?_eq_of_trace {s t : ScopeStack} (h : t.trace = s.trace) :
    t.callerId? = s.callerId? := by
  have hf := map_frame_fromFunction t
  rw [h, ← map_frame_fromFunction s] at hf
  unfold callerId?
  rcases hs : s.fromFunction with _ | ⟨f, _ | ⟨c, rest⟩⟩ <;>
    rcases ht : t.fromFunction with _ | ⟨g, _ | ⟨d, rest'⟩⟩ <;>
      simp_all [Context.frame]

theorem sweepFloor_eq_of_trace {s t : ScopeStack} (h : t.trace = s.trace) :
    t.sweepFloor = s.sweepFloor := by
  have hf := map_frame_fromFunction t
  rw [h, ← map_frame_fromFunction s] at hf
  have hl : t.contexts.getLast?.map Context.frame = s.contexts.getLast?.map Context.frame := by
    rw [← List.getLast?_map, ← List.getLast?_map]
    exact congrArg List.getLast? h
  unfold sweepFloor
  rcases hs : s.fromFunction with _ | ⟨f, rest⟩ <;>
    rcases ht : t.fromFunction with _ | ⟨g, rest'⟩
  · rcases hsl : s.contexts.getLast? with _ | c <;> rcases htl : t.contexts.getLast? with _ | d <;>
      simp_all [Context.frame]
  all_goals simp_all [Context.frame]

theorem fromFunction_of_function {s : ScopeStack} {c : Context} {rest : List Context}
    (hc : s.contexts = c :: rest) (hf : c.isFunction = true) : s.fromFunction = c :: rest := by
  rw [fromFunction, hc, List.dropWhile_cons_of_neg]
  simp [hf]

theorem callerId?_of_function {s : ScopeStack} {c caller : Context} {rest : List Context}
    (hc : s.contexts = c :: caller :: rest) (hf : c.isFunction = true) :
    s.callerId? = some caller.id := by
  rw [callerId?, fromFunction_of_function hc hf]

/-! ## Pushed contexts -/

section Push
variable (s : ScopeStack) (name : String)

theorem sweepFloor_push_function : (s.push .function name).2.sweepFloor = s.nextId := rfl

variable {s name} {kind : ScopeKind} (hk : kind ≠ .function)
include hk

theorem fromFunction_push : (s.push kind name).2.fromFunction = s.fromFunction := by
  unfold fromFunction push Context.isFunction
  rw [List.dropWhile_cons_of_pos]
  simpa using hk

theorem callerId?_push : (s.push kind name).2.callerId? = s.callerId? := by
  unfold callerId?
  rw [fromFunction_push hk]

theorem sweepFloor_push (h : s.contexts ≠ []) :
    (s.push kind name).2.sweepFloor = s.sweepFloor := by
  obtain ⟨c, rest, hc⟩ := List.exists_cons_of_ne_nil h
  unfold sweepFloor
  rw [fromFunction_push hk]
  simp [push, hc]

end Push

/-- What the pushed context of a construct grows to. A return value goes past it. -/
theorem Kept.of_push {s t : ScopeStack} {kind : ScopeKind} {name : String}
    (hk : kind ≠ .function) (h : (s.push kind name).2.Kept t) :
    s.nextId ≤ t.nextId ∧ ∃ c, t.contexts = c :: s.contexts ∧ c.id = s.nextId ∧
      ∀ value, (t.setReturnValue value).contexts = c :: storeReturn value s.contexts := by
  obtain ⟨hn, c, c', rest, hs, ht, hg⟩ := h
  obtain ⟨rfl, rfl⟩ := List.cons.inj hs
  refine ⟨Nat.le_trans (Nat.le_succ _) hn, c', ht, congrArg ScopeFrame.id hg.frame, fun value => ?_⟩
  have hkind : c'.kind = kind := congrArg ScopeFrame.kind hg.frame
  rw [setReturnValue, ht, storeReturn, if_neg (by simpa [Context.isFunction, hkind] using hk)]

/-- What the context of a function grows to. A return value stays there. -/
theorem Kept.of_function {s t : ScopeStack} {c : Context} {rest : List Context}
    (hc : s.contexts = c :: rest) (hf : c.isFunction = true) (h : s.Kept t) :
    s.nextId ≤ t.nextId ∧ ∃ c', t.contexts = c' :: rest ∧ c'.id = c.id ∧
      c'.returnValue = c.returnValue ∧
      ∀ value, (t.setReturnValue value).contexts = { c' with returnValue := value } :: rest := by
  obtain ⟨hn, d, d', rest', hs, ht, hg⟩ := h
  rw [hc] at hs
  obtain ⟨rfl, rfl⟩ := List.cons.inj hs
  refine ⟨hn, d', ht, congrArg ScopeFrame.id hg.frame, hg.returnValue, fun value => ?_⟩
  have hkind : d'.kind = c.kind := congrArg ScopeFrame.kind hg.frame
  rw [setReturnValue, ht, storeReturn, if_pos (by rw [Context.isFunction, hkind]; exact hf)]

/-- The contexts are the same, and ids went by. -/
theorem Kept.of_contexts {s t : ScopeStack} (h : s.contexts ≠ []) (hc : t.contexts = s.contexts)
    (hn : s.nextId ≤ t.nextId) : s.Kept t := by
  obtain ⟨c, rest, hs⟩ := List.exists_cons_of_ne_nil h
  exact ⟨hn, c, c, rest, hs, hc.trans hs, .refl rest c⟩

theorem mem_of_fromFunction {s : ScopeStack} {c : Context} (h : c ∈ s.fromFunction) :
    c ∈ s.contexts :=
  (List.dropWhile_sublist _).mem h

/-- The caller of the innermost function is on the stack. -/
theorem mem_of_callerId? {s : ScopeStack} {id : ScopeId} (h : s.callerId? = some id) :
    ∃ c ∈ s.contexts, c.id = id := by
  unfold callerId? at h
  split at h
  · rename_i f caller rest hf
    refine ⟨caller, mem_of_fromFunction ?_, Option.some.inj h⟩
    rw [hf]
    simp
  · cases h

/-- A sweep begins at a scope that is on the stack. -/
theorem mem_of_sweepFloor {s : ScopeStack} (h : s.contexts ≠ []) :
    ∃ c ∈ s.contexts, c.id = s.sweepFloor := by
  unfold sweepFloor
  split
  · rename_i f rest hf
    exact ⟨f, mem_of_fromFunction (by rw [hf]; exact List.mem_cons_self), rfl⟩
  · rw [List.getLast?_eq_some_getLast h]
    exact ⟨_, List.getLast_mem h, rfl⟩

/-! ## Return values -/

/-- Whatever a return value does not show in stays as it is. -/
theorem map_storeReturn {α : Type} {g : Context → α}
    (hg : ∀ c x, g { c with returnValue := x } = g c) (x : Option Variable) (cs : List Context) :
    (storeReturn x cs).map g = cs.map g := by
  induction cs with
  | nil => rfl
  | cons c rest ih =>
    unfold storeReturn
    split
    · rw [List.map_cons, hg, List.map_cons]
    · rw [List.map_cons, ih, List.map_cons]

theorem trace_setReturnValue (s : ScopeStack) (x : Option Variable) :
    (s.setReturnValue x).trace = s.trace :=
  map_storeReturn (fun _ _ => rfl) x s.contexts

end ScopeStack

end HeapWalk
