import HeapWalk.Proofs.Footprint
import HeapWalk.Proofs.Session

/-!
# Invariants of evaluation

`Machine.Invariant I`: the property `I` of machines survives every single change that evaluation
makes, except that a return value is stored. Such a property holds wherever evaluation stops, and
wherever it is done without a pending `return`. In between it holds as well, or it holds but for the
return value of the innermost function (`Machine.Near`).

What a change may be is said once here, in the fields of `Machine.Invariant`; `Invariant.evaluation`
is the one induction over evaluation that they all share.
-/

set_option autoImplicit false

namespace HeapWalk

namespace Machine

/-- The property survives the changes that evaluation makes. -/
structure Invariant (I : Machine → Prop) : Prop where
  /-- It does not concern the heap, the journal, the line and the signal. -/
  aside : ∀ {m : Machine} (heap : Heap) (journal : Journal) (line : Nat) (signal : Signal),
    I m → I { m with heap, journal, line, signal }
  printed : ∀ {m : Machine} (l : OutputLine), I m → I { m with output := m.output.push l }
  /-- The innermost context has other variables and functions. -/
  named : ∀ {m : Machine} {c c' : Context} {rest : List Context}, m.scopes.contexts = c :: rest →
    c'.frame = c.frame → c'.returnValue = c.returnValue → I m →
    I { m with scopes := { m.scopes with contexts := c' :: rest } }
  /-- The scope of a function is pushed only if another call is admitted. -/
  pushed : ∀ {m : Machine} {kind : ScopeKind} {name : String},
    (kind = .function → m.scopes.callDepth < maxCallDepth) → I m →
    I { m with scopes := (m.scopes.push kind name).2 }
  popped : ∀ {m : Machine}, I m →
    I { m with scopes := { m.scopes with contexts := m.scopes.contexts.tail } }
  /-- Whatever is recorded is sound. -/
  recorded : ∀ {m : Machine} {history : History}, m.store.Sound →
    m.history.push (m.snapshot false) = .ok history → I m → I { m with history }

/-- The property holds, perhaps but for the return value of the innermost function. -/
def Near (I : Machine → Prop) (m : Machine) : Prop :=
  I m ∨ ∃ (s : ScopeStack) (value : Option Variable),
    m.scopes = s.setReturnValue value ∧ I { m with scopes := s }

end Machine

theorem History.push_eq_error {h : History} {s : Snapshot} {r : Refusal}
    (hp : h.push s = .error r) : h.limit < h.used + s.size := by
  unfold push at hp
  split at hp
  · assumption
  · cases hp

namespace ScopeStack

theorem callDepth_eq_of_trace {s t : ScopeStack} (h : t.trace = s.trace) :
    t.callDepth = s.callDepth := by
  have hmap : ∀ u : ScopeStack, u.callDepth = u.trace.countP fun f => f.kind == .function := by
    intro u
    rw [trace, List.countP_map]
    rfl
  rw [hmap, h, ← hmap]

theorem storeReturn_eq_cons {value : Option Variable} {cs : List Context} {c : Context}
    {rest : List Context} (h : storeReturn value cs = c :: rest) :
    ∃ d ds, cs = d :: ds ∧
      (c.isFunction = true ∧ rest = ds ∨ c.isFunction = false ∧ rest = storeReturn value ds) := by
  cases cs with
  | nil => cases h
  | cons d ds =>
    refine ⟨d, ds, rfl, ?_⟩
    rw [storeReturn] at h
    split at h
    · rename_i hf
      obtain ⟨rfl, rfl⟩ := List.cons.inj h
      exact .inl ⟨hf, rfl⟩
    · rename_i hf
      obtain ⟨rfl, rfl⟩ := List.cons.inj h
      exact .inr ⟨by simpa using hf, rfl⟩

theorem contexts_of_trace {s : ScopeStack} {f : ScopeFrame} {fs : List ScopeFrame}
    (h : s.trace = f :: fs) :
    ∃ c rest, s.contexts = c :: rest ∧ c.frame = f ∧ rest.map Context.frame = fs :=
  List.map_eq_cons_iff.1 h

end ScopeStack

namespace Machine

variable {I : Machine → Prop} {m : Machine}

theorem Near.aside (hI : Invariant I) (h : Near I m) (heap : Heap) (journal : Journal) (line : Nat)
    (signal : Signal) : Near I { m with heap, journal, line, signal } := by
  rcases h with h | ⟨s, value, hs, h⟩
  · exact .inl (hI.aside heap journal line signal h)
  · exact .inr ⟨s, value, hs, hI.aside heap journal line signal h⟩

/-- With its context the return value of a function is gone. -/
theorem Near.popped_function (hI : Invariant I) (h : Near I m) {c : Context} {rest : List Context}
    (hc : m.scopes.contexts = c :: rest) (hf : c.isFunction = true) :
    I { m with scopes := { m.scopes with contexts := rest } } := by
  rcases h with h | ⟨s, value, hs, h⟩
  · have hp := hI.popped h
    rwa [hc] at hp
  · have hp := hI.popped h
    rw [hs] at hc ⊢
    obtain ⟨d, ds, hd, ⟨-, rfl⟩ | ⟨hnot, -⟩⟩ := ScopeStack.storeReturn_eq_cons hc
    · rwa [hd] at hp
    · rw [hf] at hnot
      cases hnot

/-- Past another context it stays pending. -/
theorem Near.popped (hI : Invariant I) (h : Near I m) {c : Context} {rest : List Context}
    (hc : m.scopes.contexts = c :: rest) (hf : c.isFunction = false) :
    Near I { m with scopes := { m.scopes with contexts := rest } } := by
  rcases h with h | ⟨s, value, hs, h⟩
  · have hp := hI.popped h
    rw [hc] at hp
    exact .inl hp
  · have hp := hI.popped h
    rw [hs] at hc ⊢
    obtain ⟨d, ds, hd, ⟨hfun, -⟩ | ⟨-, rfl⟩⟩ := ScopeStack.storeReturn_eq_cons hc
    · rw [hf] at hfun
      cases hfun
    · rw [hd] at hp
      exact .inr ⟨_, value, rfl, hp⟩

end Machine

namespace Exec

open Machine

variable {α β : Type} {I : Machine → Prop} {m : Machine}

/-! ## Upholding a property -/

/-- What a computation that is stopped leaves. If a refused snapshot stopped it, the state does not
fit into the history. -/
structure Stopped (I : Machine → Prop) (e : Option Fault) (m : Machine) : Prop where
  holds : I m
  refused : ∀ f ∈ e, f.code = .snapshotLimitExceeded →
    m.history.limit < m.history.used + (m.snapshot true).size

theorem Stopped.of_code {e : Fault} (hm : I m) (he : e.code ≠ .snapshotLimitExceeded) :
    Stopped I (some e) m := by
  refine ⟨hm, ?_⟩
  rintro _ ⟨⟩ hcode
  exact absurd hcode he

/-- If the machines that `x` passes are sound, the property is near in all of them; where `x` stops,
it holds, and if `x` is done, the machine that is left is in `Q`. -/
def Upholds (I : Machine → Prop) (x : Exec α) (m : Machine) (Q : α → Machine → Prop) : Prop :=
  (∀ m', x.Passes m m' → m'.store.Sound) → Spec x m (Near I) (Stopped I) Q

/-- The computation keeps the property and the scopes. -/
def Calm (I : Machine → Prop) (x : Exec α) : Prop :=
  ∀ m, I m → Upholds I x m fun _ m' => I m' ∧ m'.scopes.trace = m.scopes.trace

/-- What a statement leaves. -/
structure Ended (I : Machine → Prop) (m m' : Machine) : Prop where
  near : Near I m'
  holds : m'.signal ≠ .ret → I m'
  trace : m'.scopes.trace = m.scopes.trace

namespace Upholds

variable {Q : α → Machine → Prop}

theorem mono {x : Exec α} {R : α → Machine → Prop} (h : Upholds I x m Q)
    (hR : ∀ a m', Q a m' → R a m') : Upholds I x m R :=
  fun hp => (h hp).mono (fun _ h => h) (fun _ _ h => h) hR

theorem bind {x : Exec α} {f : α → Exec β} {R : β → Machine → Prop}
    (h : Upholds I x m fun a m₁ => Upholds I (f a) m₁ R) : Upholds I (x >>= f) m R := by
  intro hp
  have hx := h fun m' hm' => hp m' (.inl hm')
  -- what `f a` passes is passed by the sequence only after `x` came to `a`
  exact Spec.bind ⟨hx.passes, fun a m₁ ho => hx.done a m₁ ho fun m' hm' =>
    hp m' (.inr ⟨a, m₁, ho, hm'⟩), hx.fault, hx.exhausted⟩

theorem pure {a : α} (h : Q a m) : Upholds I (pure a) m Q := fun _ => Spec.pure h

theorem bind_view {f : Machine → α} {g : α → Exec β} {R : β → Machine → Prop}
    (h : Upholds I (g (f m)) m R) : Upholds I (view f >>= g) m R :=
  bind fun _ => Spec.view h

theorem update {f : Machine → Machine} {Q : Unit → Machine → Prop} (h : Near I (f m))
    (hQ : Q () (f m)) : Upholds I (update f) m Q :=
  fun _ => Spec.update h hQ

end Upholds

namespace Calm

theorem bind {x : Exec α} {f : α → Exec β} (hx : Calm I x) (hf : ∀ a, Calm I (f a)) :
    Calm I (x >>= f) := by
  intro m hm
  refine .bind ((hx m hm).mono fun a m₁ h₁ => ?_)
  exact (hf a m₁ h₁.1).mono fun _ _ h => ⟨h.1, h.2.trans h₁.2⟩

theorem update {f : Machine → Machine}
    (h : ∀ m, I m → I (f m) ∧ (f m).scopes.trace = m.scopes.trace) : Calm I (update f) :=
  fun m hm => .update (.inl (h m hm).1) (h m hm)

theorem outOfFuel : Calm I (outOfFuel : Exec α) :=
  fun _ hm _ => Spec.outOfFuel ⟨hm, nofun⟩

/-! ## Single steps -/

section Steps

variable (hI : Invariant I)
include hI

theorem heapOnly {x : Exec α} (h : HeapOnly x) : Calm I x := by
  intro m hm _
  have hsame : ∀ m', m.SameButHeap m' → I m' := by
    intro m' hs
    rw [hs]
    exact hI.aside _ _ m.line m.signal hm
  refine (h.spec m).mono (fun m' hs => .inl (hsame m' hs)) (fun e m' he => ⟨hsame m' he.2, ?_⟩)
    fun _ m' hs => ⟨hsame m' hs, by rw [hs.scopes]⟩
  obtain ⟨⟨f, hf, hne⟩, -⟩ := he
  intro g hg hcode
  obtain rfl := Option.mem_unique hf hg
  exact absurd hcode hne

theorem goToLine (line : Nat) : Calm I (goToLine line) := by
  refine update fun m hm => ?_
  split
  · exact ⟨hI.aside m.heap m.journal line m.signal hm, rfl⟩
  · exact ⟨hm, rfl⟩

theorem setSignal (signal : Signal) : Calm I (setSignal signal) :=
  update fun m hm => ⟨hI.aside m.heap m.journal m.line signal hm, rfl⟩

theorem bindVariable (name : String) (v : Variable) : Calm I (bindVariable name v) := by
  refine update fun m hm => ⟨?_, ScopeStack.trace_bind _ _ _⟩
  unfold ScopeStack.bind
  split
  · exact hm
  · rename_i hc
    exact hI.named hc rfl rfl hm

theorem closed : Closed fun x => Calm I x where
  heapOnly := heapOnly hI
  bind := bind
  goToLine := goToLine hI
  bindVariable := bindVariable hI
  pushOutput l := update fun _ hm => ⟨hI.printed l hm, rfl⟩

/-- A snapshot that is taken shows a machine that is passed; one that is refused does not fit. -/
theorem takeSnapshot : Calm I takeSnapshot := by
  intro m hm hp
  refine Spec.takeSnapshot (fun _ => ⟨.inl hm, hm, rfl⟩) (fun history hpush hpass => ?_)
    fun r hpush => ⟨hm, ?_⟩
  · have hs : m.store.Sound := hp { m with history } hpass
    have hm' := hI.recorded hs hpush hm
    exact ⟨.inl hm', hm', rfl⟩
  · rintro _ ⟨⟩ -
    show m.history.limit < m.history.used + (m.snapshot false).size
    exact History.push_eq_error hpush

theorem finishStatement : Calm I finishStatement :=
  (heapOnly hI .sweepStatement).bind fun _ => takeSnapshot hI

end Steps

end Calm

theorem Ended.of_calm {m m' : Machine} (h : I m' ∧ m'.scopes.trace = m.scopes.trace) :
    Ended I m m' :=
  ⟨.inl h.1, fun _ => h.1, h.2⟩

theorem Calm.ended {x : Exec α} (h : Calm I x) (hm : I m) :
    Upholds I x m fun _ => Ended I m :=
  (h m hm).mono fun _ _ => .of_calm

/-- A statement after something calm. -/
theorem Calm.before {x : Exec α} {f : α → Exec β} (hx : Calm I x) (hm : I m)
    (hf : ∀ a m₁, I m₁ → Upholds I (f a) m₁ fun _ => Ended I m₁) :
    Upholds I (x >>= f) m fun _ => Ended I m := by
  refine .bind ((hx m hm).mono fun a m₁ h₁ => ?_)
  exact (hf a m₁ h₁.1).mono fun _ _ h => ⟨h.near, h.holds, h.trace.trans h₁.2⟩

theorem upholds_findFunction (hm : I m) (name : String) :
    Upholds I (findFunction name) m fun _ m' => m' = m ∧ m.scopes.callDepth < maxCallDepth :=
  fun _ => Spec.findFunction (fun _ _ hlt => ⟨rfl, hlt⟩) (.of_code hm nofun) fun _ =>
    .of_code hm nofun

section Steps

variable (hI : Invariant I)
include hI

theorem ended_defineFunction (hm : I m) (f : FunctionDef) :
    Upholds I (defineFunction f) m fun _ => Ended I m := by
  refine Calm.ended ((Calm.heapOnly hI (.note _)).bind fun _ => Calm.update fun m hm => ?_) hm
  refine ⟨?_, ScopeStack.trace_define _ _⟩
  unfold ScopeStack.define
  split
  · exact hm
  · rename_i hc
    exact hI.named hc rfl rfl hm

theorem ended_leaveFunction (hm : I m) (value : Option Variable) :
    Upholds I (leaveFunction value) m fun _ => Ended I m := by
  have hstore : Upholds I (storeReturned value) m fun _ m₁ =>
      Near I m₁ ∧ m₁.scopes.trace = m.scopes.trace := by
    unfold storeReturned
    refine .bind_view ?_
    split
    · refine .bind ((Calm.heapOnly hI (.handBack _ _) m hm).mono fun returned m₁ h₁ => ?_)
      have hnear : Near I { m₁ with scopes := m₁.scopes.setReturnValue returned } :=
        .inr ⟨m₁.scopes, returned, rfl, h₁.1⟩
      exact .update hnear ⟨hnear, (ScopeStack.trace_setReturnValue _ _).trans h₁.2⟩
    · exact (Calm.heapOnly hI (.note _) m hm).mono fun _ _ h => ⟨.inl h.1, h.2⟩
  refine .bind (hstore.mono fun _ m₁ h₁ => ?_)
  have hnear := h₁.1.aside hI m₁.heap m₁.journal m₁.line .ret
  exact .update hnear ⟨hnear, fun h => absurd rfl h, h₁.2⟩

theorem upholds_finishRound {m₁ : Machine} (h : Ended I m m₁) :
    Upholds I finishRound m₁ fun again m₂ =>
      Ended I m m₂ ∧ (again = true → m₂.signal ≠ .ret) := by
  unfold finishRound
  refine .bind_view ?_
  cases hsig : m₁.signal with
  | normal => exact .pure ⟨h, fun _ => by rw [hsig]; nofun⟩
  | brk =>
    have hm₁ : I m₁ := h.holds (by rw [hsig]; nofun)
    have hm₂ := hI.aside m₁.heap m₁.journal m₁.line .normal hm₁
    exact .bind (.update (.inl hm₂) (.pure ⟨⟨.inl hm₂, fun _ => hm₂, h.trace⟩, fun _ => nofun⟩))
  | ret => exact .pure ⟨h, nofun⟩

/-! ## Scopes -/

theorem upholds_enterScope (hm : I m) {kind : ScopeKind} (name : String)
    (hk : kind = .function → m.scopes.callDepth < maxCallDepth) :
    Upholds I (enterScope kind name) m fun _ m₁ =>
      I m₁ ∧ m₁.scopes.trace = ⟨m.scopes.nextId, kind, name⟩ :: m.scopes.trace := by
  have hpush : ∀ j : Journal,
      I { m with scopes := (m.scopes.push kind name).2, journal := j } := fun j =>
    hI.aside m.heap j m.line m.signal (hI.pushed hk hm)
  exact fun _ => Spec.enterScope (fun j => .inl (hpush j)) fun j => ⟨hpush j, rfl⟩

/-- The context of a construct goes, and a pending return value stays pending. -/
theorem ended_exitScope {m₁ : Machine} {frame : ScopeFrame} (hk : frame.kind ≠ .function)
    (hnear : Near I m₁) (hholds : m₁.signal ≠ .ret → I m₁)
    (htrace : m₁.scopes.trace = frame :: m.scopes.trace) :
    Upholds I exitScope m₁ fun _ m₂ => Ended I m m₂ ∧ m₂.signal = m₁.signal := by
  obtain ⟨c, rest, hc, rfl, hrest⟩ := ScopeStack.contexts_of_trace htrace
  have hpop := hnear.popped hI hc (beq_false_of_ne hk)
  have hpop' : m₁.signal ≠ .ret →
      I { m₁ with scopes := { m₁.scopes with contexts := rest } } := by
    intro hsig
    have hp := hI.popped (hholds hsig)
    rwa [hc] at hp
  refine fun _ => Spec.exitScope hc rfl (fun j => hnear.aside hI m₁.heap j m₁.line m₁.signal)
    (fun j => hpop.aside hI _ j m₁.line m₁.signal) fun j => ⟨⟨?_, fun hsig => ?_, hrest⟩, rfl⟩
  · exact hpop.aside hI _ j m₁.line m₁.signal
  · exact hI.aside _ j m₁.line m₁.signal (hpop' hsig)

/-- With the context of a function its return value goes. -/
theorem calm_exitScope {m₁ : Machine} {frame : ScopeFrame} (hk : frame.kind = .function)
    (hnear : Near I m₁) (htrace : m₁.scopes.trace = frame :: m.scopes.trace) :
    Upholds I exitScope m₁ fun _ m₂ => I m₂ ∧ m₂.scopes.trace = m.scopes.trace := by
  obtain ⟨c, rest, hc, rfl, hrest⟩ := ScopeStack.contexts_of_trace htrace
  have hpop := hnear.popped_function hI hc (beq_iff_eq.2 hk)
  refine fun _ => Spec.exitScope hc rfl (fun j => hnear.aside hI m₁.heap j m₁.line m₁.signal)
    (fun j => .inl (hI.aside _ j m₁.line m₁.signal hpop)) fun j => ⟨?_, hrest⟩
  exact hI.aside _ j m₁.line m₁.signal hpop

theorem ended_withScope (hm : I m) {kind : ScopeKind} (hk : kind ≠ .function) {name : String}
    {body : ScopeId → Exec α} {R : α → Signal → Prop}
    (hbody : ∀ id m₁, I m₁ → Upholds I (body id) m₁ fun a m₂ => Ended I m₁ m₂ ∧ R a m₂.signal) :
    Upholds I (withScope kind name body) m fun a m' => Ended I m m' ∧ R a m'.signal := by
  refine .bind ((upholds_enterScope hI hm name fun h => absurd h hk).mono fun id m₁ h₁ => ?_)
  refine .bind ((hbody id m₁ h₁.1).mono ?_)
  rintro a m₂ ⟨⟨hnear, hholds, htrace⟩, hR⟩
  refine .bind ((ended_exitScope hI (m := m) hk hnear hholds (htrace.trans h₁.2)).mono ?_)
  rintro _ m₃ ⟨hended, hsig⟩
  exact .pure ⟨hended, hsig ▸ hR⟩

/-- The scope of a function from its push to its pop. -/
theorem calm_functionScope {fuel : Nat}
    (hlist : ∀ ss m, I m → Upholds I (execList fuel ss) m fun _ => Ended I m) (hm : I m)
    (hdepth : m.scopes.callDepth < maxCallDepth) (f : FunctionDef) (actuals : List Variable) :
    Upholds I (withScope .function f.name (functionBody fuel f actuals)) m fun _ m' =>
      I m' ∧ m'.scopes.trace = m.scopes.trace := by
  unfold withScope functionBody
  refine .bind ((upholds_enterScope hI hm f.name fun _ => hdepth).mono fun id m₁ h₁ => ?_)
  refine .bind (.bind (((Calm.closed hI).bindParameters _ _ m₁ h₁.1).mono fun _ m₂ h₂ => ?_))
  refine .bind ((hlist f.body m₂ h₂.1).mono fun _ m₃ h₃ => .bind ?_)
  have hnear := h₃.near.aside hI m₃.heap m₃.journal m₃.line .normal
  have htrace := h₃.trace.trans (h₂.2.trans h₁.2)
  refine .update hnear fun _ => Spec.view (.bind ((calm_exitScope hI ?_ hnear htrace).mono ?_))
  · rfl
  · exact fun _ _ h => .pure h

end Steps

/-! ## Evaluation -/

/-- Evaluation with the given fuel upholds the property. -/
structure Upheld (I : Machine → Prop) (fuel : Nat) : Prop where
  eval : ∀ e, Calm I (eval fuel e)
  actuals : ∀ f params args, Calm I (evalActuals fuel f params args)
  call : ∀ name args line, Calm I (call fuel name args line)
  exec : ∀ s m, I m → Upholds I (exec fuel s) m fun _ => Ended I m
  list : ∀ ss m, I m → Upholds I (execList fuel ss) m fun _ => Ended I m
  loop : ∀ condition body rounds m, I m →
    Upholds I (execLoop fuel condition body rounds) m fun _ => Ended I m

namespace Upheld

theorem zero : Upheld I 0 where
  eval _ := .outOfFuel
  actuals _ _ _ := .outOfFuel
  call _ _ _ := .outOfFuel
  exec _ _ := Calm.outOfFuel.ended
  list _ _ := Calm.outOfFuel.ended
  loop _ _ _ _ := Calm.outOfFuel.ended

variable (hI : Invariant I) {fuel : Nat} (ih : Upheld I fuel)
include hI ih

theorem call_succ (name : String) (args : List Expr) (line : Nat) :
    Calm I (Exec.call (fuel + 1) name args line) := by
  unfold Exec.call
  refine (Calm.goToLine hI _).bind fun _ m hm => .bind_view (.bind ?_)
  refine (upholds_findFunction hm name).mono ?_
  rintro f _ ⟨rfl, hdepth⟩
  refine .bind ((ih.actuals _ _ _ _ hm).mono fun actuals m₁ h₁ => .bind ?_)
  refine (Calm.heapOnly hI (.note _) m₁ h₁.1).mono fun _ m₂ h₂ => .bind ?_
  have htrace := h₂.2.trans h₁.2
  -- the actuals have left the stack as it was when the call was admitted
  have hdepth₂ : m₂.scopes.callDepth < maxCallDepth := by
    rwa [ScopeStack.callDepth_eq_of_trace htrace]
  refine (calm_functionScope hI ih.list h₂.1 hdepth₂ f actuals).mono fun r m₃ h₃ => ?_
  have hm₄ := fun line => hI.aside m₃.heap m₃.journal line m₃.signal h₃.1
  exact .bind (.update (.inl (hm₄ _)) (.pure ⟨hm₄ _, h₃.2.trans htrace⟩))

theorem block (hm : I m) (name : String) (body : List Stmt) :
    Upholds I (withScope .block name fun _ => execList fuel body) m fun _ => Ended I m :=
  (ended_withScope (R := fun _ _ => True) hI hm (by simp) fun _ m₁ hm₁ =>
    (ih.list body m₁ hm₁).mono fun _ _ h => ⟨h, trivial⟩).mono fun _ _ h => h.1

theorem exec_succ (s : Stmt) (hm : I m) :
    Upholds I (Exec.exec (fuel + 1) s) m fun _ => Ended I m := by
  unfold Exec.exec
  refine (Calm.goToLine hI _).before hm fun _ m hm => ?_
  split
  · exact Calm.ended ((ih.call _ _ _).bind fun _ => .heapOnly hI (.pure _)) hm
  · exact Calm.ended ((ih.eval _).bind fun _ => .heapOnly hI (.pure _)) hm
  · exact ih.block hI hm _ _
  · refine (ih.eval _).before hm fun _ m hm => ?_
    refine (Calm.heapOnly hI (.testCondition _ _)).before hm fun b m hm => ?_
    split
    · exact ih.block hI hm _ _
    · split
      · exact ih.block hI hm _ _
      · exact (Calm.heapOnly hI (.pure ())).ended hm
  · exact ih.loop _ _ _ m hm
  · exact ended_defineFunction hI hm _
  · exact ended_leaveFunction hI hm none
  · exact (ih.eval _).before hm fun _ m hm => ended_leaveFunction hI hm _
  · exact (Calm.setSignal hI _).ended hm

theorem list_succ (ss : List Stmt) (hm : I m) :
    Upholds I (execList (fuel + 1) ss) m fun _ => Ended I m := by
  cases ss with
  | nil => exact (Calm.heapOnly hI (.pure ())).ended hm
  | cons s rest =>
    refine .bind ((ih.exec s m hm).mono fun _ m₁ h₁ => .bind_view ?_)
    split
    · rename_i hsig
      have hm₁ : I m₁ := h₁.holds (by rw [hsig]; nofun)
      exact ((Calm.finishStatement hI).before hm₁ fun _ m₂ hm₂ => ih.list rest m₂ hm₂).mono
        fun _ _ h => ⟨h.near, h.holds, h.trace.trans h₁.trace⟩
    · exact .pure h₁

theorem loop_succ (condition : Option Expr) (body : List Stmt) (rounds : Nat) (hm : I m) :
    Upholds I (execLoop (fuel + 1) condition body rounds) m fun _ => Ended I m := by
  unfold execLoop
  refine Calm.before ((Calm.closed hI).loopCondition fun x hx => ?_) hm fun proceed m hm => ?_
  · obtain ⟨c, -, rfl⟩ := Option.map_eq_some_iff.1 hx
    exact ih.eval c
  split
  · have hround : Upholds I (withScope .loop "loop" fun _ => do execList fuel body; finishRound) m
        fun again m₂ => Ended I m m₂ ∧ (again = true → m₂.signal ≠ .ret) :=
      ended_withScope (R := fun again signal => again = true → signal ≠ .ret) hI hm (by simp)
        fun _ m₁ hm₁ => .bind ((ih.list body m₁ hm₁).mono fun _ _ h => upholds_finishRound hI h)
    refine .bind (hround.mono fun again m₂ h₂ => ?_)
    split
    · rename_i hagain
      exact (ih.loop condition body _ m₂ (h₂.1.holds (h₂.2 hagain))).mono fun _ _ h =>
        ⟨h.near, h.holds, h.trace.trans h₂.1.trace⟩
    · have hnear := fun j => h₂.1.near.aside hI m₂.heap j m₂.line m₂.signal
      exact fun _ => Spec.note hnear fun j =>
        ⟨hnear j, fun hsig => hI.aside _ j _ _ (h₂.1.holds hsig), h₂.1.trace⟩
  · exact (Calm.heapOnly hI (.note _)).ended hm

theorem succ : Upheld I (fuel + 1) where
  eval := (Calm.closed hI).eval_succ ih.eval ih.call
  actuals := (Calm.closed hI).actuals_succ ih.eval ih.actuals
  call := ih.call_succ hI
  exec s _ := ih.exec_succ hI s
  list ss _ := ih.list_succ hI ss
  loop condition body rounds _ := ih.loop_succ hI condition body rounds

end Upheld

end Exec

theorem Machine.Invariant.evaluation {I : Machine → Prop} (hI : Invariant I) (fuel : Nat) :
    Exec.Upheld I fuel := by
  induction fuel with
  | zero => exact .zero
  | succ fuel ih => exact ih.succ hI

end HeapWalk
