import HeapWalk.Proofs.Evaluation
import HeapWalk.Proofs.Reference
import Mathlib.Data.List.Forall2
import Mathlib.Data.List.TakeWhile

/-!
# Machines and states without a heap

`Rel m s` relates a machine to a state of the interpreter without a heap: they agree on all that is
no storage, and a name is bound in the one to a range that holds what is in the cell of the other.
So a machine determines the state that it is related to (`Rel.unique`). The relation is kept when
both sides change in the same way, one lemma for each way, and when the heap changes where no
binding has its storage.
-/

set_option autoImplicit false

namespace HeapWalk

open Store Reference

/-! ## Related states -/

/-- `v` fits its range, which holds `x`. -/
def Heap.Carries (σ : Heap) (v : Variable) (x : Value) : Prop :=
  v.pointer.size = v.type.size ∧
    ∃ b, σ.block? v.pointer = some b ∧ Value.decode b.bytes v.type = some x

/-- A binding and a cell of the same name and contents. -/
def Heap.SameCell (σ : Heap) (x : String × Variable) (y : String × Value) : Prop :=
  x.1 = y.1 ∧ σ.Carries x.2 y.2

/-- Nothing is returned, or a `return` is under way and the same value is. The range of the value
belongs to a scope below that of the function. -/
def Heap.SameReturn (σ : Heap) (signal : Signal) (c : Context) (d : Reference.Context) : Prop :=
  (c.returnValue = none ∧ d.returned = none) ∨
    (signal = .ret ∧ ∃ v x o bytes, c.returnValue = some v ∧ d.returned = some x ∧
      v.pointer.size = v.type.size ∧ σ.block? v.pointer = some ⟨.temporary o, bytes⟩ ∧
      Value.decode bytes v.type = some x ∧ o < c.id)

structure Heap.SameContext (σ : Heap) (signal : Signal) (c : Context) (d : Reference.Context) :
    Prop where
  frame : c.frame = d.frame
  functions : c.functions = d.functions
  cells : List.Forall₂ σ.SameCell c.locals d.cells
  returned : σ.SameReturn signal c d

structure Rel (m : Machine) (s : State) : Prop where
  sound : m.store.Sound
  record : m.config.record = false
  /-- The outermost context is not that of a function. -/
  rooted : ∀ f ∈ m.scopes.trace.getLast?, f.kind ≠ .function
  output : m.output = s.output
  line : m.line = s.line
  signal : m.signal = s.signal
  nextId : m.scopes.nextId = s.nextId
  contexts : List.Forall₂ (m.heap.SameContext m.signal) m.scopes.contexts s.contexts

/-- Related states in which no signal is pending. -/
structure Running (m : Machine) (s : State) : Prop extends Rel m s where
  normal : m.signal = .normal

section Carries

variable {σ τ : Heap} {v : Variable} {x : Value}

theorem Heap.Carries.type (h : σ.Carries v x) : x.type = v.type := by
  obtain ⟨-, b, -, hdec⟩ := h
  exact Value.type_of_decode hdec

theorem Heap.Carries.of_block (h : σ.Carries v x)
    (hb : ∀ b, σ.block? v.pointer = some b → ∃ o, τ.block? v.pointer = some ⟨o, b.bytes⟩) :
    τ.Carries v x := by
  obtain ⟨hsize, b, hσ, hdec⟩ := h
  obtain ⟨o, hτ⟩ := hb b hσ
  exact ⟨hsize, _, hτ, hdec⟩

theorem Heap.Carries.usable {m : Machine} (h : m.heap.Carries v x) :
    Usable (fun _ => False) m.store v := by
  obtain ⟨hsize, b, hb, -⟩ := h
  exact ⟨hsize, b, hb, fun _ h => h⟩

/-- A value that was handed over is where it was handed to. -/
theorem Store.Handed.decode {P : Pointer → Prop} {σ τ : Store} {o : Ownership} {w : Variable}
    (h : Handed P σ v o w τ) (hv : σ.heap.Carries v x) :
    ∃ bytes, τ.block? w.pointer = some ⟨o, bytes⟩ ∧ Value.decode bytes w.type = some x := by
  obtain ⟨b, hb, hputs⟩ := h.puts
  obtain ⟨-, b', hb', hdec⟩ := hv
  obtain rfl := Option.some.inj (hb.symm.trans hb')
  exact ⟨b.bytes, hputs.self, by rw [h.type]; exact hdec⟩

/-- What else is carried is carried still when a value was handed over. -/
theorem Store.Handed.carries {P : Pointer → Prop} {σ τ : Store} {o : Ownership} {u w : Variable}
    (h : Handed P σ v o w τ) (hu : σ.heap.Carries u x) : τ.heap.Carries u x := by
  obtain ⟨b, hb, hputs⟩ := h.puts
  refine hu.of_block fun b' hb' => ?_
  by_cases huw : u.pointer = w.pointer
  · have hwv : w.pointer = v.pointer := h.source.resolve_right fun hnone => by
      have hdead : σ.heap.block? u.pointer = none := huw ▸ hnone
      rw [hb'] at hdead
      cases hdead
    obtain rfl := Option.some.inj (hb'.symm.trans (show σ.heap.block? u.pointer = _ by
      rw [huw, hwv]; exact hb))
    exact ⟨o, by rw [huw]; exact hputs.self⟩
  · exact ⟨b'.owner, (hputs.other huw).trans hb'⟩

theorem Heap.SameCell.of_block {p : String × Variable} {q : String × Value}
    (h : σ.SameCell p q)
    (hb : ∀ b, σ.block? p.2.pointer = some b → τ.block? p.2.pointer = some b) :
    τ.SameCell p q :=
  ⟨h.1, h.2.of_block fun b hσ => ⟨b.owner, hb b hσ⟩⟩

theorem Heap.SameReturn.of_ne_ret {signal signal' : Signal} {c : Context} {d : Reference.Context}
    (h : σ.SameReturn signal c d) (hs : signal ≠ .ret) : τ.SameReturn signal' c d := by
  rcases h with h | ⟨hret, -⟩
  · exact .inl h
  · exact absurd hret hs

end Carries

/-! ## A machine determines the state

Two states that are related to one machine are equal, also where the signals differ. -/

section Unique

variable {σ : Heap}

theorem Heap.Carries.unique {v : Variable} {x y : Value} (h : σ.Carries v x)
    (h' : σ.Carries v y) : x = y := by
  obtain ⟨-, b, hb, hdec⟩ := h
  obtain ⟨-, b', hb', hdec'⟩ := h'
  obtain rfl := Option.some.inj (hb.symm.trans hb')
  exact Option.some.inj (hdec.symm.trans hdec')

theorem Heap.rightUnique_sameCell : Relator.RightUnique σ.SameCell :=
  fun _ _ _ h h' => Prod.ext (h.1.symm.trans h'.1) (h.2.unique h'.2)

theorem Heap.SameReturn.unique {signal signal' : Signal} {c : Context} {d d' : Reference.Context}
    (h : σ.SameReturn signal c d) (h' : σ.SameReturn signal' c d') :
    d.returned = d'.returned := by
  rcases h with ⟨hc, hd⟩ | ⟨-, v, x, o, bytes, hc, hd, hsize, hb, hdec, -⟩ <;>
    rcases h' with ⟨hc', hd'⟩ | ⟨-, v', x', o', bytes', hc', hd', hsize', hb', hdec', -⟩
  · rw [hd, hd']
  · cases hc.symm.trans hc'
  · cases hc.symm.trans hc'
  · obtain rfl := Option.some.inj (hc.symm.trans hc')
    have hx : σ.Carries v x := ⟨hsize, _, hb, hdec⟩
    rw [hd, hd', hx.unique ⟨hsize', _, hb', hdec'⟩]

theorem Heap.SameContext.unique {signal signal' : Signal} {c : Context} {d d' : Reference.Context}
    (h : σ.SameContext signal c d) (h' : σ.SameContext signal' c d') : d = d' := by
  ext1
  · exact h.frame.symm.trans h'.frame
  · exact rightUnique_sameCell.forall₂ h.cells h'.cells
  · exact h.functions.symm.trans h'.functions
  · exact h.returned.unique h'.returned

theorem contexts_unique {signal signal' : Signal} {cs : List Context}
    {ds ds' : List Reference.Context} (h : List.Forall₂ (σ.SameContext signal) cs ds)
    (h' : List.Forall₂ (σ.SameContext signal') cs ds') : ds = ds' := by
  have hunique : Relator.RightUnique fun c d => ∃ signal, σ.SameContext signal c d := by
    rintro _ _ _ ⟨_, h⟩ ⟨_, h'⟩
    exact h.unique h'
  exact hunique.forall₂ (h.imp fun _ _ h => ⟨_, h⟩) (h'.imp fun _ _ h => ⟨_, h⟩)

theorem Rel.unique {m : Machine} {s s' : State} {signal signal' : Signal}
    (h : Rel { m with signal := signal } { s with signal := signal })
    (h' : Rel { m with signal := signal' } { s' with signal := signal' })
    (hsignal : s.signal = s'.signal) : s = s' := by
  ext1
  · exact contexts_unique h.contexts h'.contexts
  · exact h.nextId.symm.trans h'.nextId
  · exact h.output.symm.trans h'.output
  · exact h.line.symm.trans h'.line
  · exact hsignal

end Unique

/-! ## Names -/

section Names

variable {σ : Heap} {signal : Signal} {n : String}

theorem get?_of_sameCells {b : Bindings Variable} {d : Bindings Value}
    (h : List.Forall₂ σ.SameCell b d) :
    (b.get? n = none ∧ d.get? n = none) ∨
      ∃ v x, b.get? n = some v ∧ d.get? n = some x ∧ σ.Carries v x := by
  induction h with
  | nil => exact .inl ⟨rfl, rfl⟩
  | @cons p q _ _ hpq _ ih =>
    obtain ⟨k, v⟩ := p
    obtain ⟨k', x⟩ := q
    obtain ⟨rfl, hc⟩ := hpq
    rw [Bindings.get?_cons, Bindings.get?_cons]
    split
    · exact .inr ⟨v, x, rfl, rfl, hc⟩
    · exact ih

/-- A name is looked up to a binding and to the cell beside it. -/
theorem find?_of_lookup {cs : List Context} {ds : List Reference.Context}
    (h : List.Forall₂ (σ.SameContext signal) cs ds) :
    (cs.findSome? (fun c => c.locals.get? n) = none ∧
      ds.findSome? (fun d => (d.cells.get? n).map fun x => (d.frame.id, x)) = none) ∨
    ∃ c ∈ cs, ∃ v x, c.locals.get? n = some v ∧ σ.Carries v x ∧
      cs.findSome? (fun c => c.locals.get? n) = some v ∧
      ds.findSome? (fun d => (d.cells.get? n).map fun x => (d.frame.id, x)) = some (c.id, x) := by
  induction h with
  | nil => exact .inl ⟨rfl, rfl⟩
  | @cons c d _ _ hcd _ ih =>
    have hid : d.frame.id = c.id := by rw [← hcd.frame]; rfl
    rw [List.findSome?_cons, List.findSome?_cons]
    rcases get?_of_sameCells (n := n) hcd.cells with ⟨hc, hd⟩ | ⟨v, x, hc, hd, hv⟩
    · rw [hc, hd]
      rcases ih with h | ⟨c', hc', h⟩
      · exact .inl h
      · exact .inr ⟨c', List.mem_cons_of_mem _ hc', h⟩
    · refine .inr ⟨c, List.mem_cons_self, v, x, hc, hv, ?_, ?_⟩
      · rw [hc]
      · rw [hd, ← hid]
        rfl

theorem function?_of_lookup {cs : List Context} {ds : List Reference.Context}
    (h : List.Forall₂ (σ.SameContext signal) cs ds) :
    ds.findSome? (fun d => d.functions.get? n) = cs.findSome? fun c => c.functions.get? n := by
  induction h with
  | nil => rfl
  | cons hcd _ ih => rw [List.findSome?_cons, List.findSome?_cons, hcd.functions, ih]

theorem isFunction_of_same {c : Context} {d : Reference.Context} (h : σ.SameContext signal c d) :
    d.isFunction = c.isFunction := by
  rw [Reference.Context.isFunction, ← h.frame]
  rfl

theorem callDepth_of_same {cs : List Context} {ds : List Reference.Context}
    (h : List.Forall₂ (σ.SameContext signal) cs ds) :
    ds.countP Reference.Context.isFunction = cs.countP Context.isFunction := by
  induction h with
  | nil => rfl
  | cons hcd _ ih => rw [List.countP_cons, List.countP_cons, isFunction_of_same hcd, ih]

theorem frames_of_same {cs : List Context} {ds : List Reference.Context}
    (h : List.Forall₂ (σ.SameContext signal) cs ds) :
    ds.map (·.frame) = cs.map Context.frame := by
  induction h with
  | nil => rfl
  | cons hcd _ ih => rw [List.map_cons, List.map_cons, hcd.frame, ih]

/-- Ids are different, so a cell is found by the id of its context. -/
theorem cell?_of_mem {cs : List Context} {ds : List Reference.Context}
    (h : List.Forall₂ (σ.SameContext signal) cs ds) (hids : cs.Pairwise fun c d => d.id < c.id)
    {c : Context} (hc : c ∈ cs) {v : Variable} (hv : c.locals.get? n = some v) :
    ∃ x, ((ds.find? fun d => d.frame.id == c.id).bind fun d => d.cells.get? n) = some x ∧
      σ.Carries v x := by
  induction h with
  | nil => cases hc
  | @cons c₀ d₀ _ _ hcd _ ih =>
    have hid : d₀.frame.id = c₀.id := by rw [← hcd.frame]; rfl
    obtain ⟨hfirst, hrest⟩ := List.pairwise_cons.1 hids
    rw [List.find?_cons]
    rcases List.mem_cons.1 hc with rfl | hc
    · rw [hid, beq_self_eq_true]
      rcases get?_of_sameCells (n := n) hcd.cells with ⟨hn, -⟩ | ⟨v', x, hn, hd, hx⟩
      · rw [hv] at hn
        cases hn
      · rw [hv] at hn
        obtain rfl := Option.some.inj hn
        exact ⟨x, hd, hx⟩
    · have hne : (d₀.frame.id == c.id) = false := by
        rw [hid]
        exact beq_false_of_ne (Nat.ne_of_gt (hfirst c hc))
      rw [hne]
      exact ih hrest hc

end Names

/-! ## Changes on both sides -/

section Contexts

variable {σ τ : Heap} {signal signal' : Signal}

theorem contexts_of_blocks {cs : List Context} {ds : List Reference.Context}
    (h : List.Forall₂ (σ.SameContext signal) cs ds)
    (hb : ∀ c ∈ cs, ∀ x ∈ c.locals, ∀ b, σ.block? x.2.pointer = some b →
      τ.block? x.2.pointer = some b)
    (hr : ∀ c ∈ cs, ∀ d, σ.SameReturn signal c d → τ.SameReturn signal' c d) :
    List.Forall₂ (τ.SameContext signal') cs ds := by
  have hmem := (List.forall₂_and_left cs ds).2 ⟨fun c hc => hc, h⟩
  refine hmem.imp fun c d ⟨hc, hcd⟩ => ⟨hcd.frame, hcd.functions, ?_, hr c hc d hcd.returned⟩
  have hlocals := (List.forall₂_and_left c.locals d.cells).2 ⟨fun x hx => hx, hcd.cells⟩
  exact hlocals.imp fun x y ⟨hx, hxy⟩ => hxy.of_block (hb c hc x hx)

theorem sameCells_insert {b : Bindings Variable} {d : Bindings Value}
    (h : List.Forall₂ σ.SameCell b d) (n : String) {v : Variable} {x : Value}
    (hv : σ.Carries v x) : List.Forall₂ σ.SameCell (b.insert n v) (d.insert n x) := by
  induction h with
  | nil => exact .cons ⟨rfl, hv⟩ .nil
  | @cons p q _ _ hpq hrest ih =>
    obtain ⟨k, w⟩ := p
    obtain ⟨k', y⟩ := q
    obtain ⟨rfl, hw⟩ := hpq
    simp only [Bindings.insert]
    split
    · exact .cons ⟨rfl, hv⟩ (.cons ⟨rfl, hw⟩ hrest)
    · split
      · exact .cons ⟨rfl, hv⟩ hrest
      · exact .cons ⟨rfl, hw⟩ ih

/-- What a `return` hands to `caller`, on both sides. -/
def Heap.SameHandBack (σ : Heap) (caller : ScopeId) (r : Option Variable) (r' : Option Value) :
    Prop :=
  (r = none ∧ r' = none) ∨ ∃ v x bytes, r = some v ∧ r' = some x ∧
    v.pointer.size = v.type.size ∧ σ.block? v.pointer = some ⟨.temporary caller, bytes⟩ ∧
    Value.decode bytes v.type = some x

theorem contexts_storeReturn {cs : List Context} {ds : List Reference.Context}
    (h : List.Forall₂ (σ.SameContext signal) cs ds) (hsig : signal ≠ .ret)
    (hids : cs.Pairwise fun c d => d.id < c.id) {n caller : ScopeId}
    (hcaller : (ScopeStack.mk cs n).callerId? = some caller) {r : Option Variable}
    {r' : Option Value} (hr : σ.SameHandBack caller r r') :
    List.Forall₂ (σ.SameContext .ret) (ScopeStack.storeReturn r cs) (State.storeReturn r' ds) := by
  induction h with
  | nil => cases hcaller
  | @cons c d cs ds hcd hrest ih =>
    obtain ⟨hfirst, hids'⟩ := List.pairwise_cons.1 hids
    have hfd := isFunction_of_same hcd
    rw [ScopeStack.storeReturn, State.storeReturn, hfd]
    unfold ScopeStack.callerId? ScopeStack.fromFunction at hcaller
    cases hf : c.isFunction with
    | true =>
      -- the caller is the context just below
      rw [List.dropWhile_cons_of_neg (by simp [hf])] at hcaller
      rw [if_pos rfl, if_pos rfl]
      refine .cons ⟨hcd.frame, hcd.functions, hcd.cells, ?_⟩
        (contexts_of_blocks hrest (fun _ _ _ _ _ hb => hb) fun _ _ _ hr => hr.of_ne_ret hsig)
      rcases hr with hr | ⟨v, x, bytes, hv, hx, hsize, hb, hdec⟩
      · exact .inl hr
      · refine .inr ⟨rfl, v, x, caller, bytes, hv, hx, hsize, hb, hdec, ?_⟩
        cases hrest with
        | nil => cases hcaller
        | cons _ _ =>
          obtain rfl := Option.some.inj hcaller
          exact hfirst _ List.mem_cons_self
    | false =>
      rw [List.dropWhile_cons_of_pos (by simp [hf])] at hcaller
      rw [if_neg (by simp), if_neg (by simp)]
      refine .cons ⟨hcd.frame, hcd.functions, hcd.cells, hcd.returned.of_ne_ret hsig⟩ ?_
      exact ih hids' hcaller

theorem storeReturn_of_not_function {cs : List Context} {ds : List Reference.Context}
    (h : List.Forall₂ (σ.SameContext signal) cs ds) (hn : ∀ c ∈ cs, c.isFunction = false)
    (r : Option Value) : State.storeReturn r ds = ds := by
  induction h with
  | nil => rfl
  | cons hcd _ ih =>
    rw [State.storeReturn, isFunction_of_same hcd, hn _ List.mem_cons_self, if_neg (by simp),
      ih fun e he => hn e (List.mem_cons_of_mem _ he)]

end Contexts

/-- Above a context that is not that of a function, a function has a caller. -/
theorem ScopeStack.not_function_of_callerId? {t : ScopeStack} (h : t.callerId? = none)
    (hroot : ∀ f ∈ t.trace.getLast?, f.kind ≠ .function) :
    ∀ c ∈ t.contexts, c.isFunction = false := by
  unfold callerId? fromFunction at h
  cases hd : t.contexts.dropWhile (fun c => !c.isFunction) with
  | nil =>
    intro c hc
    simpa using List.dropWhile_eq_nil_iff.1 hd c hc
  | cons f rest =>
    rw [hd] at h
    cases rest with
    | cons c rest => cases h
    | nil =>
      have hlast : t.contexts.getLast? = some f := by
        rw [← List.takeWhile_append_dropWhile (p := fun c => !c.isFunction) (l := t.contexts), hd,
          List.getLast?_concat]
      have hf : f.isFunction = true := by
        have := List.head?_dropWhile_not (fun c : Context => !c.isFunction) t.contexts
        rw [hd] at this
        simpa using this
      refine absurd ?_ (hroot f.frame ?_)
      · simpa [Context.isFunction, Context.frame] using hf
      · rw [ScopeStack.trace, List.getLast?_map, hlast]
        rfl

theorem Store.Sound.bound_of_mem {σ : Store} (h : σ.Sound) {c : Context}
    (hc : c ∈ σ.scopes.contexts) {x : String × Variable} (hx : x ∈ c.locals) :
    σ.Bound x.2.pointer :=
  ⟨x.2, ⟨c, hc, x.1, (h.ordered c hc).get?_eq_some.2 hx⟩, rfl⟩

namespace Rel

variable {m m' : Machine} {s : State}

/-- The innermost contexts of both sides. -/
theorem innermost (h : Rel m s) {c : Context} {rest : List Context}
    (hc : m.scopes.contexts = c :: rest) :
    ∃ d ds, s.contexts = d :: ds ∧ m.heap.SameContext m.signal c d ∧
      List.Forall₂ (m.heap.SameContext m.signal) rest ds := by
  have hctx := h.contexts
  rw [hc] at hctx
  obtain ⟨d, ds, hcd, hrest, hs⟩ := List.forall₂_cons_left_iff.1 hctx
  exact ⟨d, ds, hs, hcd, hrest⟩

theorem trace (h : Rel m s) : s.trace = m.scopes.trace := frames_of_same h.contexts

theorem currentId (h : Rel m s) : s.currentId = m.scopes.currentId := by
  obtain ⟨c, rest, hc⟩ := List.exists_cons_of_ne_nil h.sound.nonempty
  have hm : m.scopes.contexts = c :: rest := hc
  obtain ⟨d, ds, hs, hcd, -⟩ := h.innermost hm
  rw [State.currentId, ScopeStack.currentId, hm, hs]
  exact congrArg ScopeFrame.id hcd.frame.symm

/-- The heap changes, but not where bindings have their storage. -/
theorem transport (h : Rel m s) (hsig : m.signal ≠ .ret) (hsame : m.SameButHeap m')
    (hs : m'.store.Sound)
    (hb : ∀ p b, m.store.Bound p → m.store.block? p = some b → m'.store.block? p = some b) :
    Rel m' s := by
  have hscopes : m'.scopes = m.scopes := hsame.scopes
  have hsignal : m'.signal = m.signal := by rw [hsame]
  refine ⟨hs, by rw [hsame]; exact h.record, by rw [hscopes]; exact h.rooted,
    by rw [hsame]; exact h.output, by rw [hsame]; exact h.line, hsignal.trans h.signal,
    by rw [hscopes]; exact h.nextId, ?_⟩
  rw [hscopes, hsignal]
  exact contexts_of_blocks h.contexts
    (fun c hc x hx b => hb _ b (h.sound.bound_of_mem hc hx))
    fun c _ d hr => hr.of_ne_ret hsig

theorem returnValue_eq_none (h : Rel m s) (hsig : m.signal ≠ .ret) :
    ∀ c ∈ m.scopes.contexts, c.returnValue = none := by
  have hall : List.Forall₂ (fun c d => c.returnValue = none ∧ m.heap.SameContext m.signal c d)
      m.scopes.contexts s.contexts := by
    refine h.contexts.imp fun c d hcd => ⟨?_, hcd⟩
    rcases hcd.returned with ⟨hnone, -⟩ | ⟨hret, -⟩
    · exact hnone
    · exact absurd hret hsig
  exact ((List.forall₂_and_left _ _).1 hall).1

theorem ownSignal (h : Rel m s) : Rel m { s with signal := m.signal } := by
  rw [h.signal]
  exact h

theorem but_signal (h : Rel m s) :
    Rel { m with signal := m.signal } { s with signal := m.signal } := by
  have hself : { s with signal := m.signal } = s := by rw [h.signal]
  rwa [hself]

theorem of_signal {signal : Signal}
    (h : Rel { m with signal := signal } { s with signal := signal }) (hm : m.signal = signal)
    (hs : s.signal = signal) : Rel m s := by
  subst hm
  have hself : { s with signal := m.signal } = s := by rw [← hs]
  rwa [hself] at h

/-- Where nothing is returned, any signal may be left. -/
theorem withSignal (h : Rel m s) (hr : ∀ c ∈ m.scopes.contexts, c.returnValue = none)
    (signal : Signal) : Rel { m with signal := signal } { s with signal := signal } := by
  refine ⟨h.sound, h.record, h.rooted, h.output, h.line, rfl, h.nextId, ?_⟩
  refine contexts_of_blocks h.contexts (fun _ _ _ _ _ hb => hb) fun c hc d hcd => ?_
  rcases hcd with hcd | ⟨-, v, -, -, -, hv, -⟩
  · exact .inl hcd
  · rw [hr c hc] at hv
    cases hv

theorem note (h : Rel m s) (j : Journal) : Rel { m with journal := j } s :=
  ⟨h.sound, h.record, h.rooted, h.output, h.line, h.signal, h.nextId, h.contexts⟩

/-- A scope is pushed. -/
theorem push (h : Rel m s) (kind : ScopeKind) (name : String)
    (j : Journal) :
    Rel { m with scopes := (m.scopes.push kind name).2, journal := j } (s.push kind name) := by
  refine ⟨h.sound.push kind name, h.record, ?_, h.output, h.line, h.signal,
    congrArg (· + 1) h.nextId, .cons ⟨?_, rfl, .nil, .inl ⟨rfl, rfl⟩⟩ ?_⟩
  · obtain ⟨c, rest, hc⟩ := List.exists_cons_of_ne_nil h.sound.nonempty
    have hlast : (m.scopes.push kind name).2.trace.getLast? = m.scopes.trace.getLast? := by
      have hm : m.scopes.contexts = c :: rest := hc
      simp [ScopeStack.trace, ScopeStack.push, hm]
    exact hlast ▸ h.rooted
  · show ScopeFrame.mk m.scopes.nextId kind name = _
    rw [h.nextId]
  · exact h.contexts

/-- The innermost scope is popped, with all that belongs to it. -/
theorem pop (h : Rel m s) {c : Context} {rest : List Context} (hc : m.scopes.contexts = c :: rest)
    (hne : rest ≠ []) {heap : Heap}
    (hpops : m.store.Pops ⟨heap, { m.scopes with contexts := rest }⟩ c rest) (j : Journal) :
    Rel { m with scopes := { m.scopes with contexts := rest }, heap := heap, journal := j }
      { s with contexts := s.contexts.tail } := by
  have hids := h.sound.ids
  rw [show m.store.scopes.contexts = c :: rest from hc] at hids
  have holder := (List.pairwise_cons.1 hids).1
  have hmem : ∀ d ∈ rest, d ∈ m.scopes.contexts := fun d hd => by
    rw [hc]; exact List.mem_cons_of_mem _ hd
  obtain ⟨d, ds, hs, -, hrest⟩ := h.innermost hc
  refine ⟨hpops.sound h.sound hne, h.record, ?_, h.output, h.line, h.signal, h.nextId, ?_⟩
  · intro f hf
    refine h.rooted f ?_
    have hlast : m.scopes.trace.getLast? = (rest.map Context.frame).getLast? := by
      obtain ⟨e, es, rfl⟩ := List.exists_cons_of_ne_nil hne
      simp [ScopeStack.trace, hc]
    rw [hlast]
    exact hf
  · rw [hs]
    refine contexts_of_blocks hrest (fun e he x hx b hb => ?_) fun e he d' hr => ?_
    · -- what is bound in an older context belongs to its scope
      have hn := (h.sound.ordered e (hmem e he)).get?_eq_some.2 hx
      obtain ⟨-, bytes, hb'⟩ := h.sound.owned e (hmem e he) x.1 x.2 hn
      obtain rfl := Option.some.inj (hb.symm.trans hb')
      exact hpops.block?_of_ne hb (Nat.ne_of_lt (holder e he))
    · rcases hr with hr | ⟨hret, v, x, o, bytes, hv, hx, hsize, hb, hdec, hlt⟩
      · exact .inl hr
      · refine .inr ⟨hret, v, x, o, bytes, hv, hx, hsize, ?_, hdec, hlt⟩
        exact hpops.block?_of_ne hb (Nat.ne_of_lt (Nat.lt_trans hlt (holder e he)))

/-- A name is bound in the innermost context. -/
theorem bind (h : Rel m s) (n : String) {v : Variable} {x : Value}
    (hv : m.store.Holds v (.owned m.scopes.currentId)) (hb : ¬ m.store.Bound v.pointer)
    (hc : m.heap.Carries v x) :
    Rel { m with scopes := m.scopes.bind n v } (s.bind n x) := by
  obtain ⟨c, rest, hcs⟩ := List.exists_cons_of_ne_nil h.sound.nonempty
  have hcs' : m.scopes.contexts = c :: rest := hcs
  have hid : m.scopes.currentId = c.id := by rw [ScopeStack.currentId, hcs']
  obtain ⟨d, ds, hs, hcd, hrest⟩ := h.innermost hcs'
  have hbind := contexts_bind (σ := m.store) (v := v) hcs n
  refine ⟨h.sound.bind hcs n (hid ▸ hv) hb, h.record, (m.scopes.trace_bind n v).symm ▸ h.rooted,
    h.output, h.line, h.signal, (m.scopes.nextId_bind n v).trans h.nextId, ?_⟩
  show List.Forall₂ _ (m.scopes.bind n v).contexts (s.contexts.modifyHead _)
  rw [show (m.scopes.bind n v).contexts = _ from hbind, hs, List.modifyHead_cons]
  exact .cons ⟨hcd.frame, hcd.functions, sameCells_insert hcd.cells n hc, hcd.returned⟩ hrest

/-- The storage of a binding is overwritten. -/
theorem overwrite (h : Rel m s) (hsig : m.signal ≠ .ret) {c : Context}
    (hc : c ∈ m.scopes.contexts) {n : String} {v : Variable} (hn : c.locals.get? n = some v)
    {o : Ownership} {bytes : List UInt8} {x : Value} (hsame : m.SameButHeap m')
    (hs : m'.store.Sound) (hputs : m.store.Puts m'.store v.pointer (some ⟨o, bytes⟩))
    (hdec : Value.decode bytes v.type = some x) : Rel m' (s.overwrite c.id n x) := by
  have hscopes : m'.scopes = m.scopes := hsame.scopes
  have hsignal : m'.signal = m.signal := by rw [hsame]
  -- no other binding has this storage
  have hother : ∀ e ∈ m.scopes.contexts, ∀ y ∈ e.locals, ¬ (e = c ∧ y.1 = n) →
      ∀ b, m.heap.block? y.2.pointer = some b → m'.heap.block? y.2.pointer = some b := by
    intro e he y hy hne b hb
    refine (hputs.other fun hp => hne ?_).trans hb
    exact h.sound.eq_of_pointer he hc ((h.sound.ordered e he).get?_eq_some.2 hy) hn hp
  refine ⟨hs, by rw [hsame]; exact h.record, by rw [hscopes]; exact h.rooted,
    by rw [hsame]; exact h.output, by rw [hsame]; exact h.line, hsignal.trans h.signal,
    by rw [hscopes]; exact h.nextId, ?_⟩
  rw [hscopes, hsignal]
  refine List.forall₂_map_right_iff.2 ?_
  have hmem := (List.forall₂_and_left m.scopes.contexts s.contexts).2 ⟨fun e he => he, h.contexts⟩
  refine hmem.imp fun e d ⟨he, hed⟩ => ?_
  have hid : d.frame.id = e.id := congrArg ScopeFrame.id hed.frame.symm
  have hlocals := (List.forall₂_and_left e.locals d.cells).2 ⟨fun y hy => hy, hed.cells⟩
  split
  · rename_i heq
    obtain rfl : e = c := h.sound.eq_of_id he hc (hid.symm.trans heq)
    refine ⟨hed.frame, hed.functions, List.forall₂_map_right_iff.2 ?_, hed.returned.of_ne_ret hsig⟩
    refine hlocals.imp fun y z ⟨hy, hyz⟩ => ?_
    split
    · rename_i hz
      refine ⟨hyz.1, ?_⟩
      have hyn := (h.sound.ordered e he).get?_eq_some.2 hy
      rw [hyz.1, hz, hn] at hyn
      obtain rfl := Option.some.inj hyn
      exact ⟨hyz.2.1, _, hputs.self, hdec⟩
    · rename_i hz
      exact hyz.of_block (hother e he y hy fun hne => hz (hyz.1 ▸ hne.2))
  · rename_i hne
    refine ⟨hed.frame, hed.functions, ?_, hed.returned.of_ne_ret hsig⟩
    refine hlocals.imp fun y z ⟨hy, hyz⟩ => hyz.of_block (hother e he y hy fun heq => hne ?_)
    rw [hid, heq.1]

theorem define (h : Rel m s) (f : FunctionDef) (j : Journal) :
    Rel { m with journal := j, scopes := m.scopes.define f }
      (s.inInnermost fun c => { c with functions := c.functions.insert f.name f }) := by
  obtain ⟨c, rest, hcs⟩ := List.exists_cons_of_ne_nil h.sound.nonempty
  have hcs' : m.scopes.contexts = c :: rest := hcs
  obtain ⟨d, ds, hs, hcd, hrest⟩ := h.innermost hcs'
  have hkept := ScopeStack.Kept.define h.sound.nonempty f
  refine ⟨h.sound.relabel (core_define _ f) (ScopeStack.nextId_define _ f), h.record,
    (show (m.scopes.define f).trace = _ from hkept.trace) ▸ h.rooted, h.output, h.line, h.signal,
    (m.scopes.nextId_define f).trans h.nextId, ?_⟩
  show List.Forall₂ _ (m.scopes.define f).contexts (s.contexts.modifyHead _)
  rw [ScopeStack.define, hcs', hs, List.modifyHead_cons]
  exact .cons ⟨hcd.frame, congrArg _ hcd.functions, hcd.cells, hcd.returned⟩ hrest

/-- A `return` in a function. -/
theorem leave (h : Rel m s) (hsig : m.signal ≠ .ret) {caller : ScopeId}
    (hcaller : m.scopes.callerId? = some caller) {r : Option Variable} {r' : Option Value}
    (hr : m.heap.SameHandBack caller r r') :
    Rel { m with scopes := m.scopes.setReturnValue r, signal := .ret }
      { s with contexts := State.storeReturn r' s.contexts, signal := .ret } :=
  ⟨h.sound.relabel (core_storeReturn r _) rfl, h.record,
    (m.scopes.trace_setReturnValue r).symm ▸ h.rooted, h.output, h.line, rfl, h.nextId,
    contexts_storeReturn h.contexts hsig h.sound.ids hcaller hr⟩

/-- A `return` outside of every function. -/
theorem leave_top (h : Rel m s) (hsig : m.signal ≠ .ret) (hcaller : m.scopes.callerId? = none)
    (r' : Option Value) :
    Rel { m with signal := .ret }
      { s with contexts := State.storeReturn r' s.contexts, signal := .ret } := by
  have hnot := ScopeStack.not_function_of_callerId? hcaller h.rooted
  refine ⟨h.sound, h.record, h.rooted, h.output, h.line, rfl, h.nextId, ?_⟩
  rw [storeReturn_of_not_function h.contexts hnot]
  exact contexts_of_blocks h.contexts (fun _ _ _ _ _ hb => hb) fun _ _ _ hr => hr.of_ne_ret hsig

end Rel

end HeapWalk
