import HeapWalk.Proofs.HeapRequests
import HeapWalk.Proofs.Targets

/-!
# The heap from round to round

A round of a loop leaves the contexts as they were, for its own scope is gone, and with it whatever
the round left there. Evaluating the condition leaves the storage of the names that it bound, for
with sweeping on its temporaries go; but what it could bind it bound when it was evaluated first. So
from the first execution of the body on, nothing is live before a round that was not live before the
rounds that came earlier (`Store.Within`).
-/

set_option autoImplicit false

namespace HeapWalk

/-! ## Nothing new -/

/-- The contexts of `τ` are those of `σ`, and whatever is live in `τ` is live in `σ` under the same
owner. -/
structure Store.Within (σ τ : Store) : Prop where
  contexts : τ.scopes.contexts = σ.scopes.contexts
  live : ∀ a ∈ τ.heap.allocations, a ∈ σ.heap.allocations

namespace Store.Within

variable {σ τ υ : Store}

theorem refl (σ : Store) : σ.Within σ := ⟨rfl, fun _ ha => ha⟩

theorem trans (h₁ : σ.Within τ) (h₂ : τ.Within υ) : σ.Within υ :=
  ⟨h₂.contexts.trans h₁.contexts, fun a ha => h₁.live a (h₂.live a ha)⟩

/-- The storage of the bindings is not new if the contexts are the same. -/
theorem of_adds (hs : σ.Sound) (ht : τ.Sound) (hc : τ.scopes.contexts = σ.scopes.contexts)
    (h : Adds (fun p _ => τ.Bound p) σ τ) : σ.Within τ := by
  refine ⟨hc, fun a ha => ?_⟩
  obtain ⟨b, hb, ho⟩ := ht.mem_allocations.1 ha
  refine hs.mem_allocations.2 ?_
  rcases h a.pointer b hb with ⟨b₀, hb₀, ho₀⟩ | ⟨v, ⟨c, hmem, n, hn⟩, hv⟩
  · exact ⟨b₀, hb₀, ho₀.trans ho⟩
  · obtain ⟨-, bytes, hnew⟩ := ht.owned c hmem n v hn
    rw [hc] at hmem
    obtain ⟨-, bytes₀, hold⟩ := hs.owned c hmem n v hn
    rw [hv, hb, Option.some.injEq] at hnew
    rw [hv] at hold
    exact ⟨_, hold, by rw [← ho, hnew]⟩

end Store.Within

namespace Exec

open Store

variable {fuel : Nat} {condition : Option Expr} {body : List Stmt} {m m' m₁ m₂ : Machine}

/-! ## The beginnings of the rounds -/

/-- One execution of the body of a loop, in a scope of its own; the value says whether the loop goes
on. -/
def round (fuel : Nat) (body : List Stmt) : Exec Bool :=
  withScope .loop "loop" fun _ => do
    execList fuel body
    finishRound

/-- What is left of a loop, of which `rounds` rounds are over, when its body is to be executed. -/
def continueLoop (fuel : Nat) (condition : Option Expr) (body : List Stmt) (rounds : Nat) :
    Exec Unit := do
  let again ← round fuel body
  if again then execLoop fuel condition body (rounds + 1)
  else note (.loopFinished (rounds + 1))

/-- The machines just before each execution of the body, the first one first, when a loop is
executed from `m`. -/
def bodyStarts : (fuel : Nat) → (condition : Option Expr) → (body : List Stmt) → (m : Machine) →
    List Machine
  | 0, _, _, _ => []
  | fuel + 1, condition, body, m =>
    match loopCondition (condition.map fun c => eval fuel c) m with
    | .done true m₁ =>
      m₁ :: match round fuel body m₁ with
        | .done true m₂ => bodyStarts fuel condition body m₂
        | _ => []
    | _ => []

theorem execLoop_eq_continueLoop (rounds : Nat)
    (h : loopCondition (condition.map fun c => eval fuel c) m = .done true m₁) :
    execLoop (fuel + 1) condition body rounds m =
      continueLoop fuel condition body rounds m₁ := by
  rw [execLoop, bind_apply, h]
  rfl

/-- A loop that comes to its body goes on from there. -/
theorem execLoop_of_bodyStarts {k : Nat} (rounds : Nat)
    (h : (bodyStarts fuel condition body m)[k]? = some m') :
    ∃ fuel', execLoop fuel condition body rounds m =
      continueLoop fuel' condition body (rounds + k) m' := by
  induction fuel generalizing m k rounds with
  | zero => cases h
  | succ fuel ih =>
    unfold bodyStarts at h
    split at h
    · rename_i m₁ hcondition
      rw [execLoop_eq_continueLoop rounds hcondition]
      cases k with
      | zero =>
        obtain rfl := Option.some.inj h
        exact ⟨fuel, rfl⟩
      | succ k =>
        rw [List.getElem?_cons_succ] at h
        split at h
        · rename_i m₂ hround
          obtain ⟨fuel', heq⟩ := ih (rounds + 1) h
          refine ⟨fuel', ?_⟩
          rw [continueLoop, bind_apply, hround, ← Nat.add_assoc, Nat.add_right_comm]
          exact heq
        · cases h
    · cases h

/-- A loop that is over reports how often its body was executed. -/
theorem loopFinished_of_done (rounds : Nat)
    (h : execLoop fuel condition body rounds m = .done () m') :
    ∃ m₀, note (.loopFinished (rounds + (bodyStarts fuel condition body m).length)) m₀ =
      .done () m' := by
  induction fuel generalizing m rounds with
  | zero => cases h
  | succ fuel ih =>
    rw [execLoop] at h
    obtain ⟨proceed, m₁, hcondition, h⟩ := bind_eq_done.1 h
    cases proceed with
    | false =>
      simp only [bodyStarts, hcondition]
      exact ⟨m₁, h⟩
    | true =>
      obtain ⟨again, m₂, hround, h⟩ := bind_eq_done.1 h
      rw [show withScope _ _ _ = round fuel body from rfl] at hround
      simp only [bodyStarts, hcondition, hround]
      cases again with
      | false => exact ⟨m₂, h⟩
      | true =>
        rw [List.length_cons, ← Nat.add_assoc, Nat.add_right_comm]
        exact ih (rounds + 1) h

/-! ## One round -/

/-- The names that the condition assigns are visible. -/
def Familiar (condition : Option Expr) (m : Machine) : Prop :=
  ∀ c ∈ condition, ∀ n ∈ c.targets m.scopes.arity, m.scopes.Visible n

theorem Familiar.of_contexts (h : Familiar condition m)
    (hc : m₁.scopes.contexts = m.scopes.contexts) : Familiar condition m₁ := by
  intro c hmem n hn
  have harity : m₁.scopes.arity = m.scopes.arity := by
    funext name
    rw [ScopeStack.arity, ScopeStack.arity, ScopeStack.lookupFunction, ScopeStack.lookupFunction,
      hc]
  rw [harity] at hn
  exact (h c hmem n hn).of_contexts hc

/-- What a condition leaves that lets the loop go on. -/
structure Tested (condition : Option Expr) (m m₁ : Machine) : Prop where
  sound : m₁.store.Sound
  config : m₁.config = m.config
  familiar : Familiar condition m₁
  within : m.config.sweep = true → Familiar condition m → m.store.Within m₁.store

/-- What a round leaves after which the loop goes on. -/
structure Repeated (m m₁ : Machine) : Prop where
  sound : m₁.store.Sound
  config : m₁.config = m.config
  within : m.store.Within m₁.store

section Step

variable (hs : m.store.Sound)
include hs

/-- The names that the condition can bind are bound when it has been evaluated. -/
theorem familiar_loopCondition :
    Ends (loopCondition (condition.map fun c => eval fuel c)) m fun _ m' =>
      Familiar condition m' ∧
        (Familiar condition m → m'.scopes.contexts = m.scopes.contexts) := by
  cases condition with
  | none => exact Spec.pure ⟨nofun, fun _ => rfl⟩
  | some c =>
    refine (((naming fuel).eval c m hs.nonempty).then_steady fun v => ?_).mono fun _ m' h =>
      ⟨?_, fun hf => h.same (hf c rfl)⟩
    · exact ((HeapOnly.testCondition .loop v).bind fun _ => HeapOnly.sweepCondition.bind fun _ =>
        HeapOnly.pure _).steady
    · rintro _ ⟨⟩
      rw [h.arity_eq]
      exact h.visible

/-- With sweeping on, the temporaries of the condition go. -/
theorem adds_loopCondition (hsweep : m.config.sweep = true) :
    Ends (loopCondition (condition.map fun c => eval fuel c)) m fun _ m' =>
      Adds (fun p _ => m'.store.Bound p) m.store m'.store := by
  cases condition with
  | none => exact Spec.pure (.of_subset fun _ _ hb => hb)
  | some c =>
    refine (((tidiness fuel).runs_eval hs c).and_ends
      ((Regular.evaluation fuel).eval c).fixed.ends).ends_bind ?_
    rintro v m₁ hsafe ⟨⟨⟨-, hv⟩, htidy⟩, hsetup⟩
    have hcurrent : m₁.scopes.currentId = m.scopes.currentId :=
      ScopeStack.currentId_eq_of_trace htidy.trace
    refine (runs_testCondition hsafe.sound Nothing.live .loop (hv.usable hsafe.sound)).ends_bind ?_
    rintro proceed _ - rfl
    refine Spec.bind ((swept_sweepCondition hsafe.sound).mono fun _ m₂ hswept => Spec.pure ?_)
    intro p b hb
    rcases htidy.adds p b (hswept.live p b hb) with hold | hbound | ht | hret
    · exact .inl hold
    · refine .inr ?_
      unfold Bound Binds at hbound ⊢
      rwa [show m₂.store.scopes = _ from hswept.scopes]
    · -- a temporary of the current scope or a later one is swept
      have hdue := hswept.due (by rw [hsetup.2]; exact hsweep) p b hb
      rw [hcurrent] at hdue
      cases ht.symm.trans hdue
    · exact hret.1.elim

theorem tested_loopCondition
    (h : loopCondition (condition.map fun c => eval fuel c) m = .done true m₁) :
    Tested condition m m₁ := by
  have hruns : Runs Nothing (loopCondition (condition.map fun c => eval fuel c)) m _ :=
    runs_loopCondition hs Nothing.held fun x hx => by
      obtain ⟨c, -, rfl⟩ := Option.map_eq_some_iff.1 hx
      exact (contract fuel).eval hs Nothing.live
  have hregular : Regular (loopCondition (condition.map fun c => eval fuel c)) :=
    Regular.closed.loopCondition fun x hx => by
      obtain ⟨c, -, rfl⟩ := Option.map_eq_some_iff.1 hx
      exact (Regular.evaluation fuel).eval c
  have hs₁ := (hruns.done true m₁ h).1.sound
  obtain ⟨hfamiliar, hsame⟩ := (familiar_loopCondition hs).done true m₁ h
  refine ⟨hs₁, (hregular.fixed.ends.done true m₁ h).2, hfamiliar, fun hsweep hf => ?_⟩
  exact .of_adds hs hs₁ (hsame hf) ((adds_loopCondition hs hsweep).done true m₁ h)

theorem repeated_round (h : round fuel body m = .done true m₁) : Repeated m m₁ := by
  obtain ⟨hsafe, hsignal, -⟩ := ((tidiness fuel).round hs body).done true m₁ h
  have hsig : m₁.signal ≠ .ret := by simp [hsignal rfl]
  have hregular : Regular (round fuel body) :=
    .withScope _ _ fun _ => ((Regular.evaluation fuel).list body).bind fun _ => .tacit .finishRound
  obtain ⟨-, -, hcontexts⟩ := ((discipline fuel).round hs.nonempty body).done true m₁ h
  refine ⟨hsafe.sound, (hregular.fixed.ends.done true m₁ h).2, ?_⟩
  refine .of_adds hs hsafe.sound (hcontexts hsig) fun p b hb => ?_
  rcases ((tidiness fuel).adds_round hs body).done true m₁ h p b hb with hold | hbound | hret
  · exact .inl hold
  · exact .inr hbound
  · -- no `return` is pending if the loop goes on
    exact absurd hret.1 hsig

end Step

/-! ## All rounds -/

theorem mem_bodyStarts (h : m' ∈ bodyStarts (fuel + 1) condition body m) :
    ∃ m₁, loopCondition (condition.map fun c => eval fuel c) m = .done true m₁ ∧
      (m' = m₁ ∨ ∃ m₂, round fuel body m₁ = .done true m₂ ∧
        m' ∈ bodyStarts fuel condition body m₂) := by
  unfold bodyStarts at h
  split at h
  · rename_i m₁ hcondition
    refine ⟨m₁, hcondition, ?_⟩
    rcases List.mem_cons.1 h with heq | h
    · exact .inl heq
    · split at h
      · rename_i m₂ hround
        exact .inr ⟨m₂, hround, h⟩
      · cases h
  · cases h

theorem sound_of_mem_bodyStarts (hs : m.store.Sound)
    (h : m' ∈ bodyStarts fuel condition body m) : m'.store.Sound := by
  induction fuel generalizing m with
  | zero => cases h
  | succ fuel ih =>
    obtain ⟨m₁, hcondition, heq | ⟨m₂, hround, h⟩⟩ := mem_bodyStarts h
    · exact heq ▸ (tested_loopCondition hs hcondition).sound
    · exact ih (repeated_round (tested_loopCondition hs hcondition).sound hround).sound h

/-- Where the condition was evaluated before, nothing that is live before a round is new. -/
theorem within_of_mem_bodyStarts (hs : m.store.Sound) (hsweep : m.config.sweep = true)
    (hfamiliar : Familiar condition m) (h : m' ∈ bodyStarts fuel condition body m) :
    m.store.Within m'.store := by
  induction fuel generalizing m with
  | zero => cases h
  | succ fuel ih =>
    obtain ⟨m₁, hcondition, heq | ⟨m₂, hround, h⟩⟩ := mem_bodyStarts h
    · exact heq ▸ (tested_loopCondition hs hcondition).within hsweep hfamiliar
    · have htested := tested_loopCondition hs hcondition
      have hrepeated := repeated_round htested.sound hround
      have hwithin := (htested.within hsweep hfamiliar).trans hrepeated.within
      refine hwithin.trans (ih hrepeated.sound ?_ ?_ h)
      · rw [hrepeated.config, htested.config]
        exact hsweep
      · exact hfamiliar.of_contexts hwithin.contexts

/-- The first evaluation of the condition may bind names, so the machines are compared with one
another and not with the one where the loop begins. -/
theorem pairwise_bodyStarts (hs : m.store.Sound) (hsweep : m.config.sweep = true) :
    (bodyStarts fuel condition body m).Pairwise fun m₁ m₂ => m₁.store.Within m₂.store := by
  induction fuel generalizing m with
  | zero => exact .nil
  | succ fuel ih =>
    unfold bodyStarts
    split
    · rename_i m₁ hcondition
      have htested := tested_loopCondition hs hcondition
      split
      · rename_i m₂ hround
        have hrepeated := repeated_round htested.sound hround
        have hsweep₂ : m₂.config.sweep = true := by
          rw [hrepeated.config, htested.config]
          exact hsweep
        refine .cons (fun m' hm' => hrepeated.within.trans ?_) (ih hrepeated.sound hsweep₂)
        exact within_of_mem_bodyStarts hrepeated.sound hsweep₂
          (htested.familiar.of_contexts hrepeated.within.contexts) hm'
      · exact List.pairwise_singleton _ _
    · exact .nil

end Exec

/-! ## Main result -/

open Exec

/-- With sweeping on, loops do not grow the heap. The body is executed from the machines `starts`:
what the loop does from the one at `k` on is what follows when `k` rounds are over, and a loop that
is over reports their number. Whatever is live in one of them is live in the earlier ones, under the
same owner, so that no more bytes are reserved, however many rounds there are. -/
theorem loops_do_not_grow_heap {m : Machine} (h : m.Visited) (hsweep : m.config.sweep = true)
    (fuel : Nat) (condition : Option Expr) (body : List Stmt) (line : Nat) :
    let starts := bodyStarts fuel condition body (goToLine line m).state
    (∀ (k : Nat) (mₖ : Machine), starts[k]? = some mₖ → ∃ fuel',
      exec (fuel + 1) (.loop condition body line) m = continueLoop fuel' condition body k mₖ) ∧
    (∀ m', exec (fuel + 1) (.loop condition body line) m = .done () m' →
      ∃ m₀, note (.loopFinished starts.length) m₀ = .done () m') ∧
    ∀ (j k : Nat) (mⱼ mₖ : Machine), j ≤ k → starts[j]? = some mⱼ → starts[k]? = some mₖ →
      (∀ a ∈ mₖ.heap.allocations, a ∈ mⱼ.heap.allocations) ∧
        mₖ.heap.occupied ≤ mⱼ.heap.occupied := by
  intro starts
  obtain ⟨hsafe, l, hline⟩ :=
    (runs_goToLine h.sound Nothing.live).done () (goToLine line m).state rfl
  have hs : (goToLine line m).state.store.Sound := hsafe.sound
  have hsweep₁ : (goToLine line m).state.config.sweep = true := by
    rw [hline]
    exact hsweep
  refine ⟨fun k mₖ hk => ?_, fun m' hdone => ?_, fun j k mⱼ mₖ hjk hj hk => ?_⟩
  · obtain ⟨fuel', heq⟩ := execLoop_of_bodyStarts 0 hk
    refine ⟨fuel', ?_⟩
    rw [Nat.zero_add] at heq
    exact heq
  · have hreport := loopFinished_of_done (m := (goToLine line m).state) 0 hdone
    rw [Nat.zero_add] at hreport
    exact hreport
  · have hsⱼ : mⱼ.store.Sound := sound_of_mem_bodyStarts hs (List.mem_of_getElem? hj)
    have hsₖ : mₖ.store.Sound := sound_of_mem_bodyStarts hs (List.mem_of_getElem? hk)
    have hwithin : mⱼ.store.Within mₖ.store := by
      rcases Nat.eq_or_lt_of_le hjk with rfl | hlt
      · obtain rfl := Option.some.inj (hj.symm.trans hk)
        exact .refl _
      · obtain ⟨hj', rfl⟩ := List.getElem?_eq_some_iff.1 hj
        obtain ⟨hk', rfl⟩ := List.getElem?_eq_some_iff.1 hk
        exact List.pairwise_iff_getElem.1 (pairwise_bodyStarts hs hsweep₁) j k hj' hk' hlt
    exact ⟨hwithin.live, hsⱼ.heap.occupied_le hsₖ.heap hwithin.live⟩

/-- A condition that binds a name when it is evaluated first. -/
def keepGoing : Expr := .assign "c" (.identifier "q" 5) 5

/-- A body that binds a name in each round, and that lets the second round be the last. -/
def lowerFlags : List Stmt :=
  [.expr (.assign "r" (.identifier "p" 6) 6),
    .expr (.assign "q" (.binary .and (.identifier "r" 7) (.identifier "q" 7) 7) 7),
    .expr (.assign "p" (.literal (.boolean false) 8) 8)]

/-- In the scope that a fault left open, a loop of two rounds. -/
theorem loops_do_not_grow_heap_stranded :
    Machine.stranded.Visited ∧ Machine.stranded.config.sweep = true ∧
    (exec 9 (.loop (some keepGoing) lowerFlags 5) .stranded).isDone = true ∧
    ∃ m₁ m₂, bodyStarts 8 (some keepGoing) lowerFlags (goToLine 5 .stranded).state = [m₁, m₂] ∧
      (∀ a ∈ m₂.heap.allocations, a ∈ m₁.heap.allocations) ∧
      m₂.heap.occupied ≤ m₁.heap.occupied ∧
      ∃ fuel', exec 9 (.loop (some keepGoing) lowerFlags 5) .stranded =
        continueLoop fuel' (some keepGoing) lowerFlags 1 m₂ := by
  have hvisited : Machine.stranded.Visited := .reached Machine.reachable_stranded
  have hsweep : Machine.stranded.config.sweep = true := by decide +kernel
  have hlength : (bodyStarts 8 (some keepGoing) lowerFlags
      (goToLine 5 .stranded).state).length = 2 := by
    decide +kernel
  obtain ⟨m₁, m₂, hstarts⟩ := List.length_eq_two.1 hlength
  obtain ⟨hresumed, -, hshrinks⟩ :=
    loops_do_not_grow_heap hvisited hsweep 8 (some keepGoing) lowerFlags 5
  obtain ⟨hlive, hoccupied⟩ :=
    hshrinks 0 1 m₁ m₂ (Nat.zero_le 1) (by rw [hstarts]; rfl) (by rw [hstarts]; rfl)
  exact ⟨hvisited, hsweep, by decide +kernel, m₁, m₂, hstarts, hlive, hoccupied,
    hresumed 1 m₂ (by rw [hstarts]; rfl)⟩

end HeapWalk
