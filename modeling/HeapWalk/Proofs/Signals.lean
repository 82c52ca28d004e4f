import HeapWalk.Proofs.Blame

/-!
# How far a signal reaches

A `break` or a `return` leaves a signal, and a list of statements ends with the first of its
statements that leaves one. A `ListVisit` is a list that is about to be executed, and
`Visit.Opens v kind l` says that `v` executes the list `l` in a new scope of that kind: a block and
the branches of an `if` pass on every signal of their list, a loop passes on a `return` and spends a
`break`, and a function spends both. So the lists that a signal ends are those that enclose the
statement which leaves it, up to the first that a loop or a function opens
(`ListVisit.Reaches`); a list that ends with a signal pending has such a statement
(`ListVisit.leaves_iff`).
-/

set_option autoImplicit false

namespace HeapWalk

open Exec

/-! ## Lists that are executed -/

/-- The computation is done, and leaves the signal. -/
def Outcome.Leaves {α : Type} (o : Outcome α) (g : Signal) : Prop :=
  ∃ a m, o = .done a m ∧ m.signal = g

/-- What is executed is done, and leaves the signal. -/
def Visit.Leaves (v : Visit) (g : Signal) : Prop :=
  match v.phrase with
  | .expr x => (eval v.fuel x v.machine).Leaves g
  | .stmt s => (exec v.fuel s v.machine).Leaves g
  | .round condition body rounds _ =>
    (execLoop v.fuel condition body rounds v.machine).Leaves g

/-- A list of statements that is about to be executed. -/
structure ListVisit where
  fuel : Nat
  body : List Stmt
  machine : Machine

namespace ListVisit

def Leaves (l : ListVisit) (g : Signal) : Prop := (execList l.fuel l.body l.machine).Leaves g

/-- The statements that are executed, in order. -/
def visits (l : ListVisit) : List Visit := go l.fuel l.body l.machine
where
  go : (fuel : Nat) → List Stmt → Machine → List Visit
    | fuel + 1, s :: rest, m =>
      ⟨fuel, .stmt s, m⟩ ::
        match exec fuel s m with
        | .done _ m₁ =>
          if m₁.signal = .normal then
            match finishStatement m₁ with
            | .done _ m₂ => go fuel rest m₂
            | _ => []
          else []
        | _ => []
    | _, _, _ => []

end ListVisit

/-- The body of the function that a call executes. -/
inductive CallsBody : (fuel : Nat) → String → List Expr → (line : Nat) → Machine → ListVisit →
    Prop where
  | intro {fuel : Nat} {name : String} {args : List Expr} {line : Nat} {m m₁ m₂ m₃ : Machine}
    {f : FunctionDef} {vs : List Variable} (hf : findFunction name (m.goTo line) = .done f m₁)
    (hvs : evalActuals fuel f.name f.params args m₁ = .done vs m₂)
    (henter : enterFunction f vs m₂ = .done () m₃) :
    CallsBody (fuel + 1) name args line m ⟨fuel, f.body, m₃⟩

namespace Visit

/-- The visit executes the list in a new scope of the kind. -/
inductive Opens : Visit → ScopeKind → ListVisit → Prop where
  | block {fuel : Nat} {body : List Stmt} {line id : Nat} {m m₁ : Machine}
    (henter : enterScope .block "block" (m.goTo line) = .done id m₁) :
    Opens ⟨fuel + 1, .stmt (.block body line), m⟩ .block ⟨fuel, body, m₁⟩
  | yes {fuel : Nat} {c : Expr} {yes : List Stmt} {no : Option (List Stmt)} {line id : Nat}
    {m m₁ m₂ m₃ : Machine} {v : Variable} (hc : eval fuel c (m.goTo line) = .done v m₁)
    (ht : testCondition .cond v m₁ = .done true m₂)
    (henter : enterScope .block "if" m₂ = .done id m₃) :
    Opens ⟨fuel + 1, .stmt (.cond c yes no line), m⟩ .block ⟨fuel, yes, m₃⟩
  | no {fuel : Nat} {c : Expr} {yes no : List Stmt} {line id : Nat} {m m₁ m₂ m₃ : Machine}
    {v : Variable} (hc : eval fuel c (m.goTo line) = .done v m₁)
    (ht : testCondition .cond v m₁ = .done false m₂)
    (henter : enterScope .block "else" m₂ = .done id m₃) :
    Opens ⟨fuel + 1, .stmt (.cond c yes (some no) line), m⟩ .block ⟨fuel, no, m₃⟩
  | round {fuel : Nat} {c : Option Expr} {body : List Stmt} {rounds line id : Nat}
    {m m₁ m₂ : Machine} (hc : loopCondition (c.map fun c => eval fuel c) m = .done true m₁)
    (henter : enterScope .loop "loop" m₁ = .done id m₂) :
    Opens ⟨fuel + 1, .round c body rounds line, m⟩ .loop ⟨fuel, body, m₂⟩
  | call {fuel : Nat} {name : String} {args : List Expr} {line : Nat} {m : Machine}
    {l : ListVisit} (h : CallsBody fuel name args line (m.goTo line) l) :
    Opens ⟨fuel + 1, .expr (.call name args line), m⟩ .function l
  | callStmt {fuel : Nat} {name : String} {args : List Expr} {line : Nat} {m : Machine}
    {l : ListVisit} (h : CallsBody fuel name args line (m.goTo line) l) :
    Opens ⟨fuel + 1, .stmt (.expr (.call name args line)), m⟩ .function l

/-- The second visit is a round of the loop that is the first one. -/
inductive Round : Visit → Visit → Prop where
  | first {fuel : Nat} {c : Option Expr} {body : List Stmt} {line : Nat} {m : Machine} :
    Round ⟨fuel + 1, .stmt (.loop c body line), m⟩ ⟨fuel, .round c body 0 line, m.goTo line⟩
  | again {fuel : Nat} {c : Option Expr} {body : List Stmt} {rounds line : Nat}
    {m m₁ m₂ : Machine} {v : Visit} (h : Round v ⟨fuel + 1, .round c body rounds line, m⟩)
    (hc : loopCondition (c.map fun c => eval fuel c) m = .done true m₁)
    (hround : withScope .loop "loop" (fun _ => do execList fuel body; finishRound) m₁ =
      .done true m₂) :
    Round v ⟨fuel, .round c body (rounds + 1) line, m₂⟩

/-- The visit is a `break` or a `return` that is carried out, and leaves that signal. -/
inductive Raises : Visit → Signal → Prop where
  | brk {fuel line : Nat} {m : Machine} : Raises ⟨fuel + 1, .stmt (.brk line), m⟩ .brk
  | ret {fuel line : Nat} {value : Option Expr} {m m' : Machine}
    (h : exec fuel (.ret value line) m = .done () m') :
    Raises ⟨fuel, .stmt (.ret value line), m⟩ .ret

end Visit

/-- From `m`, the two computations pass through the same machines to the same outcome. -/
structure Exec.Alike {α : Type} (m : Machine) (x y : Exec α) : Prop where
  outcome : x m = y m
  passes : ∀ m', x.Passes m m' ↔ y.Passes m m'

namespace ListVisit

/-- A signal that is left in the first list reaches the second one: that is the same list, or what
encloses the first in it are blocks and branches, and for a `return` also loops. -/
inductive Reaches (g : Signal) : ListVisit → ListVisit → Prop where
  | here (l : ListVisit) : Reaches g l l
  | block {l l₁ l₂ : ListVisit} {v : Visit} (hv : v ∈ l₂.visits) (ho : v.Opens .block l₁)
    (h : Reaches g l l₁) : Reaches g l l₂
  | loop {l l₁ l₂ : ListVisit} {v w : Visit} (hg : g = .ret) (hv : v ∈ l₂.visits)
    (hw : v.Round w) (ho : w.Opens .loop l₁) (h : Reaches g l l₁) : Reaches g l l₂

/-- Whatever is started from `m` executes the list, at any depth. -/
inductive From (m : Machine) : ListVisit → Prop where
  | here (fuel : Nat) (body : List Stmt) : From m ⟨fuel, body, m⟩
  | opened {v w : Visit} {kind : ScopeKind} {l : ListVisit} (hv : v.machine = m)
    (hw : Relation.ReflTransGen Visit.Part v w) (ho : w.Opens kind l) : From m l

/-- The list ends with the first of its statements that leaves a signal, which is `g`. -/
structure StopsAt (l : ListVisit) (g : Signal) : Prop where
  /-- The statements are executed in order and without gaps. -/
  executed : l.visits.map Visit.phrase = (l.body.take l.visits.length).map .stmt
  earlier : ∀ v ∈ l.visits.dropLast, v.Leaves .normal
  last : ∃ v ∈ l.visits.getLast?, v.Leaves g
  /-- What stands after them makes no difference. -/
  later : ∀ rest, Alike l.machine (execList l.fuel (l.body.take l.visits.length ++ rest))
    (execList l.fuel l.body)

end ListVisit

/-! ## Outcomes that leave a signal -/

namespace Exec

variable {α β : Type} {fuel : Nat} {g : Signal} {m m' m₁ m₂ : Machine}

theorem Alike.refl (m : Machine) (x : Exec α) : Alike m x x := ⟨rfl, fun _ => Iff.rfl⟩

theorem Alike.bind {x : Exec α} {f f' : α → Exec β}
    (h : ∀ a m₁, x m = .done a m₁ → Alike m₁ (f a) (f' a)) : Alike m (x >>= f) (x >>= f') := by
  refine ⟨?_, fun m' => or_congr_right ?_⟩
  · rw [bind_apply, bind_apply]
    cases hx : x m with
    | done a m₁ => exact (h a m₁ hx).outcome
    | fault e m₁ => rfl
    | exhausted m₁ => rfl
  · constructor
    · intro hp
      obtain ⟨a, m₁, hx, hp⟩ := hp
      exact ⟨a, m₁, hx, ((h a m₁ hx).passes m').1 hp⟩
    · intro hp
      obtain ⟨a, m₁, hx, hp⟩ := hp
      exact ⟨a, m₁, hx, ((h a m₁ hx).passes m').2 hp⟩

theorem withScope_eq_done {kind : ScopeKind} {name : String} {body : ScopeId → Exec α} {a : α} :
    withScope kind name body m = .done a m' ↔
      ∃ id m₁ m₂, enterScope kind name m = .done id m₁ ∧ body id m₁ = .done a m₂ ∧
        exitScope m₂ = .done () m' := by
  constructor
  · intro h
    obtain ⟨id, m₁, henter, h⟩ := bind_eq_done.1 h
    obtain ⟨a', m₂, hbody, h⟩ := bind_eq_done.1 h
    obtain ⟨_, m₃, hexit, h⟩ := bind_eq_done.1 h
    cases h
    exact ⟨id, m₁, m₂, henter, hbody, hexit⟩
  · intro h
    obtain ⟨id, m₁, m₂, henter, hbody, hexit⟩ := h
    rw [withScope, bind_of_done henter, bind_of_done hbody, bind_of_done hexit]
    rfl

/-- A scope can always be left, and the signal stays. -/
theorem exists_exitScope (m : Machine) :
    ∃ m', exitScope m = .done () m' ∧ m'.signal = m.signal := by
  cases hc : m.scopes.contexts with
  | nil =>
    refine ⟨m, ?_, rfl⟩
    have hnone : m.scopes.current? = none := by rw [ScopeStack.current?, hc]; rfl
    rw [exitScope, bind_of_done rfl]
    beta_reduce
    rw [hnone]
    rfl
  | cons c rest =>
    have hspec : Spec exitScope m (fun _ => True) (fun _ _ => False) fun _ m' =>
        m'.signal = m.signal :=
      Spec.exitScope hc rfl (fun _ => trivial) (fun _ => trivial) fun _ => rfl
    obtain ⟨_, m', ho, hsignal⟩ := hspec.exists_done
    exact ⟨m', ho, hsignal⟩

theorem signal_exitScope (h : exitScope m = .done () m') : m'.signal = m.signal := by
  obtain ⟨m₁, hexit, hsignal⟩ := exists_exitScope m
  rw [h] at hexit
  cases hexit
  exact hsignal

/-- A scope passes on the signal of what is executed in it. -/
theorem leaves_withScope {kind : ScopeKind} {name : String} {body : ScopeId → Exec α} :
    (withScope kind name body m).Leaves g ↔
      ∃ id m₁, enterScope kind name m = .done id m₁ ∧ (body id m₁).Leaves g := by
  constructor
  · intro h
    obtain ⟨a, m', h, rfl⟩ := h
    obtain ⟨id, m₁, m₂, henter, hbody, hexit⟩ := withScope_eq_done.1 h
    exact ⟨id, m₁, henter, a, m₂, hbody, (signal_exitScope hexit).symm⟩
  · intro h
    obtain ⟨id, m₁, henter, a, m₂, hbody, rfl⟩ := h
    obtain ⟨m', hexit, hsignal⟩ := exists_exitScope m₂
    exact ⟨a, m', withScope_eq_done.2 ⟨id, m₁, m₂, henter, hbody, hexit⟩, hsignal⟩

/-- A loop goes on after a round that leaves no signal, and a `break` is spent. -/
theorem finishRound_apply (m : Machine) :
    finishRound m = .done (decide (m.signal = .normal))
      (if m.signal = .brk then { m with signal := .normal } else m) := by
  rw [finishRound, bind_of_done rfl]
  cases hsignal : m.signal <;> simp only [hsignal] <;> rfl

/-- A round ends the loop if its body leaves a signal, of which it passes on a `return`. -/
theorem round_ends_iff {body : List Stmt} {g' : Signal} :
    (∃ m', withScope .loop "loop" (fun _ => do execList fuel body; finishRound) m = .done false m' ∧
      m'.signal = g') ↔
    ∃ id m₁ g, enterScope .loop "loop" m = .done id m₁ ∧ (execList fuel body m₁).Leaves g ∧
      g ≠ .normal ∧ g' = if g = .brk then .normal else g := by
  constructor
  · intro h
    obtain ⟨m', h, rfl⟩ := h
    obtain ⟨id, m₁, m₂, henter, hbody, hexit⟩ := withScope_eq_done.1 h
    obtain ⟨_, m₃, hlist, hfinish⟩ := bind_eq_done.1 hbody
    rw [finishRound_apply, Outcome.done.injEq, decide_eq_false_iff_not] at hfinish
    obtain ⟨hne, rfl⟩ := hfinish
    refine ⟨id, m₁, m₃.signal, henter, ⟨_, m₃, hlist, rfl⟩, hne, ?_⟩
    rw [signal_exitScope hexit, apply_ite Machine.signal]
  · intro h
    obtain ⟨id, m₁, g, henter, ⟨_, m₂, hlist, rfl⟩, hne, rfl⟩ := h
    have hbody := (bind_of_done (f := fun _ => finishRound) hlist).trans (finishRound_apply m₂)
    rw [decide_eq_false hne] at hbody
    obtain ⟨m', hexit, hsignal⟩ := exists_exitScope
      (if m₂.signal = .brk then { m₂ with signal := .normal } else m₂)
    refine ⟨m', withScope_eq_done.2 ⟨id, m₁, _, henter, hbody, hexit⟩, ?_⟩
    rw [hsignal, apply_ite Machine.signal]

theorem leaves_note (e : Event) (m : Machine) : (note e m).Leaves m.signal :=
  ⟨(), _, rfl, ((HeapOnly.note e).steady m).2⟩

theorem exec_block {body : List Stmt} {line : Nat} :
    exec (fuel + 1) (.block body line) m =
      withScope .block "block" (fun _ => execList fuel body) (m.goTo line) := by
  rw [exec, goToLine_bind]
  rfl

section Branches

variable {c : Expr} {yes : List Stmt} {no : Option (List Stmt)} {line : Nat}

theorem exists_test_of_cond (h : exec (fuel + 1) (.cond c yes no line) m = .done () m') :
    ∃ v m₁ b m₂, eval fuel c (m.goTo line) = .done v m₁ ∧
      testCondition .cond v m₁ = .done b m₂ := by
  unfold exec at h
  rw [goToLine_bind] at h
  obtain ⟨v, m₁, hc, h⟩ := bind_eq_done.1 h
  obtain ⟨b, m₂, ht, -⟩ := bind_eq_done.1 h
  exact ⟨v, m₁, b, m₂, hc, ht⟩

variable {v : Variable} (hc : eval fuel c (m.goTo line) = .done v m₁)
include hc

theorem exec_yes (ht : testCondition .cond v m₁ = .done true m₂) :
    exec (fuel + 1) (.cond c yes no line) m =
      withScope .block "if" (fun _ => execList fuel yes) m₂ := by
  unfold exec
  rw [goToLine_bind]
  exact (bind_of_done hc).trans (bind_of_done ht)

theorem exec_no (ht : testCondition .cond v m₁ = .done false m₂) :
    exec (fuel + 1) (.cond c yes no line) m =
      no.elim (.done () m₂) fun no => withScope .block "else" (fun _ => execList fuel no) m₂ := by
  unfold exec
  rw [goToLine_bind]
  refine (bind_of_done hc).trans ((bind_of_done ht).trans ?_)
  cases no <;> rfl

end Branches

theorem signal_of_ret {value : Option Expr} {line : Nat}
    (h : exec fuel (.ret value line) m = .done () m') : m'.signal = .ret := by
  have hleave : ∀ {v : Option Variable} {m₁ : Machine},
      leaveFunction v m₁ = .done () m' → m'.signal = .ret := by
    intro v m₁ h
    obtain ⟨_, m₂, -, h⟩ := bind_eq_done.1 h
    cases h
    rfl
  cases fuel with
  | zero => cases h
  | succ fuel =>
    cases value with
    | none =>
      rw [exec, goToLine_bind] at h
      exact hleave h
    | some x =>
      rw [exec, goToLine_bind] at h
      obtain ⟨v, m₁, -, h⟩ := bind_eq_done.1 h
      exact hleave h

end Exec

/-! ## Machines without a signal -/

/-- No signal is pending, and there is a scope. -/
structure Machine.Ready (m : Machine) : Prop where
  signal : m.signal = .normal
  contexts : m.scopes.contexts ≠ []

namespace Machine.Ready

variable {α : Type} {fuel : Nat} {m m₁ : Machine} (h : m.Ready)
include h

theorem of_quiet {m' : Machine} (hq : Quiet m m') : m'.signal = .normal :=
  hq.elim (·.trans h.signal) id

theorem of_passed (hp : Passed m m₁) : m₁.Ready := ⟨h.of_quiet hp.quiet, hp.stack.nonempty⟩

theorem of_same (hs : m.SameStack m₁) : m₁.Ready := ⟨hs.2.trans h.signal, hs.1 ▸ h.contexts⟩

theorem of_steady {x : Exec α} (hx : Steady x) {a : α} (ho : x m = .done a m₁) : m₁.Ready :=
  h.of_same ((Leads.spec hx m).done a m₁ ho)

theorem goTo (line : Nat) : (m.goTo line).Ready := h.of_steady (.goToLine line) rfl

theorem eval {e : Expr} {v : Variable} (ho : eval fuel e m = .done v m₁) : m₁.Ready :=
  h.of_passed (((discipline fuel).eval e m h.contexts).done v m₁ ho)

theorem actuals {f : String} {params : List String} {args : List Expr} {vs : List Variable}
    (ho : evalActuals fuel f params args m = .done vs m₁) : m₁.Ready :=
  h.of_passed (((discipline fuel).actuals f params args m h.contexts).done vs m₁ ho)

theorem call {name : String} {args : List Expr} {line : Nat} {r : Option Variable}
    (ho : call fuel name args line m = .done r m₁) : m₁.Ready :=
  h.of_passed (((discipline fuel).call name args line m h.contexts).done r m₁ ho)

theorem exec {s : Stmt} (ho : exec fuel s m = .done () m₁) (hsignal : m₁.signal = .normal) :
    m₁.Ready :=
  h.of_passed ((((discipline fuel).exec s m h.contexts).done () m₁ ho).passed hsignal)

theorem loopCondition {c : Option Expr} {b : Bool}
    (ho : loopCondition (c.map fun c => Exec.eval fuel c) m = .done b m₁) : m₁.Ready := by
  refine h.of_passed ((orderly_loopCondition h.contexts fun x hx => ?_).done b m₁ ho)
  obtain ⟨c, -, rfl⟩ := Option.map_eq_some_iff.1 hx
  exact (discipline fuel).eval c m h.contexts

theorem enterScope {kind : ScopeKind} {name : String} {id : ScopeId}
    (ho : enterScope kind name m = .done id m₁) : m₁.Ready := by
  refine (Spec.enterScope (V := fun _ => True) (E := fun _ _ => True) (Q := fun _ m₁ => m₁.Ready)
    (fun _ => trivial) fun j => ?_).done id m₁ ho
  exact ⟨h.signal, List.cons_ne_nil _ _⟩

theorem round {body : List Stmt}
    (ho : withScope .loop "loop" (fun _ => do execList fuel body; finishRound) m =
      .done true m₁) : m₁.Ready := by
  obtain ⟨hsettled, ⟨-, hagain⟩, -⟩ := ((discipline fuel).round h.contexts body).done true m₁ ho
  exact h.of_passed (hsettled.passed (hagain rfl))

theorem enterFunction {f : FunctionDef} {vs : List Variable}
    (ho : enterFunction f vs m = .done () m₁) : m₁.Ready := by
  obtain ⟨_, m₂, hnote, ho⟩ := bind_eq_done.1 ho
  obtain ⟨id, m₃, henter, ho⟩ := bind_eq_done.1 ho
  have h₃ := (h.of_steady (HeapOnly.note _).steady hnote).enterScope henter
  obtain ⟨c, rest, hc⟩ := List.exists_cons_of_ne_nil h₃.contexts
  obtain ⟨hsignal, locals, hscopes⟩ := (spec_bindParameters id _ hc).done () m₁ ho
  exact ⟨hsignal.trans h₃.signal, by rw [hscopes]; exact List.cons_ne_nil _ _⟩

end Machine.Ready

theorem CallsBody.ready {fuel : Nat} {name : String} {args : List Expr} {line : Nat} {m : Machine}
    {l : ListVisit} (hb : CallsBody fuel name args line m l) (h : m.Ready) : l.machine.Ready := by
  obtain ⟨hf, hvs, henter⟩ := hb
  have hfound := (h.goTo line).of_steady (HeapOnly.findFunction name).steady hf
  exact (hfound.actuals hvs).enterFunction henter

namespace Visit

variable {fuel : Nat} {m : Machine} {v w : Visit} {l : ListVisit}

theorem Actual.ready {params : List String} {args : List Expr} (ha : Actual fuel params args m w)
    (h : m.Ready) : w.machine.Ready := by
  induction ha with
  | first => exact h
  | later hv _ ih => exact ih (h.eval hv)

theorem Listed.ready {body : List Stmt} (hl : Listed fuel body m w) (h : m.Ready) :
    w.machine.Ready := by
  induction hl with
  | first => exact h
  | later hs hsignal hfinish _ ih =>
    exact ih ((h.exec hs hsignal).of_steady .finishStatement hfinish)

theorem Inside.ready {kind : ScopeKind} {name : String} {body : List Stmt}
    (hi : Inside kind name fuel body m w) (h : m.Ready) : w.machine.Ready := by
  obtain ⟨_, _, henter, hl⟩ := hi
  exact hl.ready (h.enterScope henter)

theorem Called.ready {name : String} {args : List Expr} {line : Nat}
    (hc : Called fuel name args line m w) (h : m.Ready) : w.machine.Ready := by
  cases hc with
  | actual hf ha => exact ha.ready ((h.goTo _).of_steady (HeapOnly.findFunction _).steady hf)
  | body hf hvs henter hl => exact hl.ready (CallsBody.ready ⟨hf, hvs, henter⟩ h)

theorem Part.ready (hp : Part v w) (h : v.machine.Ready) : w.machine.Ready := by
  cases hp with
  | unary | left | assign | print | condition | loop | ret => exact h.goTo _
  | exprStmt _ => exact h.goTo _
  | right hx => exact (h.goTo _).eval hx
  | call hc | callStmt hc => exact hc.ready (h.goTo _)
  | block hi => exact hi.ready (h.goTo _)
  | yes hc ht hi | no hc ht hi =>
    exact hi.ready (((h.goTo _).eval hc).of_steady (HeapOnly.testCondition _ _).steady ht)
  | test => exact h
  | body hc hi => exact hi.ready (h.loopCondition hc)
  | again hc hround => exact (h.loopCondition hc).round hround

theorem ready_of_parts (hw : Relation.ReflTransGen Part v w) (h : v.machine.Ready) :
    w.machine.Ready := by
  induction hw with
  | refl => exact h
  | tail _ hpart ih => exact hpart.ready ih

theorem Opens.ready {kind : ScopeKind} (ho : v.Opens kind l) (h : v.machine.Ready) :
    l.machine.Ready := by
  cases ho with
  | block henter => exact (h.goTo _).enterScope henter
  | yes hc ht henter | no hc ht henter =>
    exact (((h.goTo _).eval hc).of_steady (HeapOnly.testCondition _ _).steady ht).enterScope henter
  | round hc henter => exact (h.loopCondition hc).enterScope henter
  | call hb | callStmt hb => exact hb.ready (h.goTo _)

theorem Round.ready (hr : v.Round w) (h : v.machine.Ready) : w.machine.Ready := by
  induction hr with
  | first => exact h.goTo _
  | again _ hc hround ih => exact ((ih h).loopCondition hc).round hround

end Visit

theorem ListVisit.From.ready {m : Machine} {l : ListVisit} (hl : l.From m) (h : m.Ready) :
    l.machine.Ready := by
  cases hl with
  | here fuel body => exact h
  | opened hv hw ho => exact ho.ready (Visit.ready_of_parts hw (hv ▸ h))

/-! ## Lists end with the first signal -/

namespace ListVisit

variable {fuel : Nat} {s : Stmt} {rest : List Stmt} {g : Signal} {m m₁ m₂ : Machine} {v : Visit}

theorem visits_of_signal (hs : exec fuel s m = .done () m₁) (hsignal : m₁.signal ≠ .normal) :
    visits ⟨fuel + 1, s :: rest, m⟩ = [⟨fuel, .stmt s, m⟩] := by
  simp only [visits, visits.go, hs, if_neg hsignal]

theorem visits_of_normal (hs : exec fuel s m = .done () m₁) (hsignal : m₁.signal = .normal)
    (hfinish : finishStatement m₁ = .done () m₂) :
    visits ⟨fuel + 1, s :: rest, m⟩ = ⟨fuel, .stmt s, m⟩ :: visits ⟨fuel, rest, m₂⟩ := by
  simp only [visits, visits.go, hs, if_pos hsignal, hfinish]

theorem execList_of_signal (hs : exec fuel s m = .done () m₁) (hsignal : m₁.signal ≠ .normal) :
    execList (fuel + 1) (s :: rest) m = .done () m₁ := by
  rw [execList, bind_of_done hs, bind_of_done rfl, if_neg hsignal]
  rfl

theorem execList_of_normal (hs : exec fuel s m = .done () m₁) (hsignal : m₁.signal = .normal)
    (hfinish : finishStatement m₁ = .done () m₂) :
    execList (fuel + 1) (s :: rest) m = execList fuel rest m₂ := by
  rw [execList, bind_of_done hs, bind_of_done rfl, if_pos hsignal, bind_of_done hfinish]

theorem listed_of_mem_visits {l : ListVisit} (h : v ∈ l.visits) :
    Visit.Listed l.fuel l.body l.machine v := by
  obtain ⟨fuel, body, m⟩ := l
  induction body generalizing fuel m with
  | nil => cases fuel <;> cases h
  | cons s rest ih =>
    cases fuel with
    | zero => cases h
    | succ fuel =>
      rcases List.mem_cons.1 h with rfl | h
      · exact .first
      · split at h
        · rename_i m₁ hs
          split at h
          · rename_i hsignal
            split at h
            · rename_i m₂ hfinish
              exact .later hs hsignal hfinish (ih fuel m₂ h)
            · cases h
          · cases h
        · cases h

/-- A list of which a statement leaves a signal leaves it as well. -/
theorem leaves_of_mem {l : ListVisit} (hv : v ∈ l.visits) (h : v.Leaves g) (hg : g ≠ .normal) :
    l.Leaves g := by
  have hl := listed_of_mem_visits hv
  obtain ⟨fuel, body, m⟩ := l
  change Visit.Listed fuel body m v at hl
  clear hv
  induction hl with
  | first =>
    obtain ⟨_, m₁, hs, rfl⟩ := h
    exact ⟨(), m₁, execList_of_signal hs hg, rfl⟩
  | later hs hsignal hfinish _ ih =>
    obtain ⟨_, m', ho, hm'⟩ := ih h
    exact ⟨(), m', (execList_of_normal hs hsignal hfinish).trans ho, hm'⟩

/-- Lists with the same first statement differ only if that leaves no signal. -/
theorem alike_cons {rest' : List Stmt}
    (h : ∀ m₁ m₂, exec fuel s m = .done () m₁ → m₁.signal = .normal →
      finishStatement m₁ = .done () m₂ → Alike m₂ (execList fuel rest') (execList fuel rest)) :
    Alike m (execList (fuel + 1) (s :: rest')) (execList (fuel + 1) (s :: rest)) := by
  unfold execList
  refine .bind fun _ m₁ hs => .bind fun signal m₁' hview => ?_
  cases hview
  split
  · rename_i hsignal
    exact .bind fun _ m₂ hfinish => h m₁ m₂ hs hsignal hfinish
  · exact .refl _ _

theorem StopsAt.of_first (hs : exec fuel s m = .done () m₁) (hsignal : m₁.signal ≠ .normal) :
    StopsAt ⟨fuel + 1, s :: rest, m⟩ m₁.signal := by
  have hvisits : visits ⟨fuel + 1, s :: rest, m⟩ = _ := visits_of_signal hs hsignal
  refine ⟨?_, ?_, ?_, fun rest' => ?_⟩ <;> rw [hvisits]
  · rfl
  · intro v hv
    cases hv
  · exact ⟨_, rfl, (), m₁, hs, rfl⟩
  · refine alike_cons fun m₁' _ hs' hnormal => ?_
    rw [hs] at hs'
    cases hs'
    exact absurd hnormal hsignal

theorem StopsAt.of_rest (hs : exec fuel s m = .done () m₁) (hsignal : m₁.signal = .normal)
    (hfinish : finishStatement m₁ = .done () m₂) (h : StopsAt ⟨fuel, rest, m₂⟩ g) :
    StopsAt ⟨fuel + 1, s :: rest, m⟩ g := by
  have hvisits : visits ⟨fuel + 1, s :: rest, m⟩ = _ := visits_of_normal hs hsignal hfinish
  obtain ⟨w, hw, hleaves⟩ := h.last
  have hne : visits ⟨fuel, rest, m₂⟩ ≠ [] := by
    intro hnil
    rw [hnil] at hw
    cases hw
  refine ⟨?_, ?_, ?_, fun rest' => ?_⟩ <;> rw [hvisits]
  · simpa using h.executed
  · rw [List.dropLast_cons_of_ne_nil hne]
    intro v hv
    rcases List.mem_cons.1 hv with rfl | hv
    · exact ⟨(), m₁, hs, hsignal⟩
    · exact h.earlier v hv
  · exact ⟨w, by rw [List.getLast?_cons, hw]; rfl, hleaves⟩
  · refine alike_cons fun m₁' m₂' hs' _ hfinish' => ?_
    rw [hs] at hs'
    cases hs'
    rw [hfinish] at hfinish'
    cases hfinish'
    exact h.later rest'

theorem Leaves.stopsAt {l : ListVisit} (h : l.Leaves g) (hg : g ≠ .normal)
    (hm : l.machine.signal = .normal) : l.StopsAt g := by
  obtain ⟨fuel, body, m⟩ := l
  obtain ⟨_, m', ho, rfl⟩ := h
  induction body generalizing fuel m with
  | nil =>
    cases fuel with
    | zero => cases ho
    | succ fuel =>
      -- the empty list leaves the signal that it finds, and that is none
      cases ho
      exact absurd hm hg
  | cons s rest ih =>
    cases fuel with
    | zero => cases ho
    | succ fuel =>
      obtain ⟨_, m₁, hs, ho⟩ := bind_eq_done.1 ho
      rw [bind_of_done rfl] at ho
      by_cases hsignal : m₁.signal = .normal
      · rw [if_pos hsignal] at ho
        obtain ⟨_, m₂, hfinish, ho⟩ := bind_eq_done.1 ho
        have hm₂ : m₂.signal = .normal :=
          ((Leads.spec Steady.finishStatement m₁).done () m₂ hfinish).2.trans hsignal
        exact .of_rest hs hsignal hfinish (ih fuel m₂ hm₂ ho)
      · rw [if_neg hsignal] at ho
        cases ho
        exact .of_first hs hsignal

end ListVisit

/-! ## What constructs make of a signal -/

theorem CallsBody.leaves {fuel : Nat} {name : String} {args : List Expr} {line : Nat} {m : Machine}
    {l : ListVisit} {g : Signal} (hb : CallsBody fuel name args line m l) (h : l.Leaves g) :
    (call fuel name args line m).Leaves .normal := by
  obtain ⟨hf, hvs, henter⟩ := hb
  obtain ⟨_, m₄, hbody, -⟩ := h
  obtain ⟨m₅, hexit, hsignal⟩ := exists_exitScope { m₄ with signal := .normal }
  rw [call_eq hf hvs henter, runFunction, bind_of_done hbody, bind_of_done rfl, bind_of_done rfl,
    bind_of_done hexit]
  exact ⟨_, _, rfl, hsignal⟩

namespace Visit

variable {fuel : Nat} {g : Signal} {m : Machine} {v w : Visit} {l : ListVisit}

theorem Raises.leaves (h : v.Raises g) : v.Leaves g := by
  cases h with
  | brk => exact ⟨(), _, rfl, rfl⟩
  | ret h => exact ⟨(), _, h, signal_of_ret h⟩

theorem Opens.leaves_block (ho : v.Opens .block l) (h : l.Leaves g) : v.Leaves g := by
  cases ho with
  | block henter =>
    change (exec (_ + 1) _ _).Leaves _
    rw [exec_block]
    exact leaves_withScope.2 ⟨_, _, henter, h⟩
  | yes hc ht henter =>
    change (exec (_ + 1) _ _).Leaves _
    rw [exec_yes hc ht]
    exact leaves_withScope.2 ⟨_, _, henter, h⟩
  | no hc ht henter =>
    change (exec (_ + 1) _ _).Leaves _
    rw [exec_no hc ht]
    exact leaves_withScope.2 ⟨_, _, henter, h⟩

/-- A signal ends the loop; a `break` is spent there. -/
theorem Opens.leaves_loop (ho : v.Opens .loop l) (h : l.Leaves g) (hg : g ≠ .normal) :
    v.Leaves (if g = .brk then .normal else g) := by
  cases ho with
  | @round fuel c body rounds line id m m₁ m₂ hc henter =>
    obtain ⟨m₃, hround, hsignal⟩ := round_ends_iff.2 ⟨id, m₂, g, henter, h, hg, rfl⟩
    change (execLoop (fuel + 1) c body rounds m).Leaves _
    rw [execLoop, bind_of_done hc, if_pos rfl, bind_of_done hround, ← hsignal]
    exact leaves_note (.loopFinished (rounds + 1)) m₃

theorem Round.leaves (hr : v.Round w) (h : w.Leaves g) : v.Leaves g := by
  induction hr with
  | first =>
    change (exec (_ + 1) _ _).Leaves _
    rw [exec, goToLine_bind]
    exact h
  | again _ hc hround ih =>
    refine ih ?_
    change (execLoop (_ + 1) _ _ _ _).Leaves _
    rw [execLoop, bind_of_done hc]
    exact (bind_of_done hround).symm ▸ h

/-- The rounds of a loop that leaves a signal: that is a `return`, left by the body. -/
theorem exists_round {c : Option Expr} {body : List Stmt} {rounds line : Nat}
    (hr : v.Round ⟨fuel, .round c body rounds line, m⟩) (hm : m.Ready)
    (h : (execLoop fuel c body rounds m).Leaves g) (hg : g ≠ .normal) :
    g = .ret ∧ ∃ w l, v.Round w ∧ w.Opens .loop l ∧ l.Leaves g := by
  induction fuel generalizing m rounds with
  | zero =>
    obtain ⟨_, m', ho, -⟩ := h
    cases ho
  | succ fuel ih =>
    obtain ⟨_, m', ho, rfl⟩ := h
    obtain ⟨proceed, m₁, hc, ho⟩ := bind_eq_done.1 ho
    have hm₁ := hm.loopCondition hc
    cases proceed with
    | false =>
      have hsame := ((HeapOnly.note _).steady.spec m₁).done () m' ho
      exact absurd (hm₁.of_same hsame).signal hg
    | true =>
      obtain ⟨again, m₂, hround, ho⟩ := bind_eq_done.1 ho
      cases again with
      | true => exact ih (hr.again hc hround) (hm₁.round hround) ⟨_, m', ho, rfl⟩
      | false =>
        -- the signal at the end is what the round makes of the one that its body leaves
        have hsame := ((HeapOnly.note _).steady.spec m₂).done () m' ho
        obtain ⟨id, m₃, g, henter, hl, hne, hsignal⟩ := round_ends_iff.1 ⟨m₂, hround, hsame.2.symm⟩
        rw [hsignal] at hg ⊢
        cases g with
        | normal => exact absurd rfl hne
        | brk => exact absurd rfl hg
        | ret => exact ⟨rfl, _, _, hr, .round hc henter, hl⟩

/-- Where the signal of a statement comes from. -/
theorem Leaves.source {s : Stmt} (h : Leaves ⟨fuel, .stmt s, m⟩ g) (hg : g ≠ .normal)
    (hm : m.Ready) :
    Raises ⟨fuel, .stmt s, m⟩ g ∨ (∃ l, Opens ⟨fuel, .stmt s, m⟩ .block l ∧ l.Leaves g) ∨
      (g = .ret ∧ ∃ w l, Round ⟨fuel, .stmt s, m⟩ w ∧ w.Opens .loop l ∧ l.Leaves g) := by
  obtain ⟨_, m', ho, hsignal⟩ := h
  change exec fuel s m = .done () m' at ho
  cases fuel with
  | zero => cases ho
  | succ fuel =>
    cases s with
    | expr x =>
      -- an expression leaves no signal
      suffices hm' : m'.Ready from absurd (hsignal.symm.trans hm'.signal) hg
      by_cases hx : ∃ name args line, x = .call name args line
      · obtain ⟨name, args, line, rfl⟩ := hx
        rw [exec, goToLine_bind] at ho
        obtain ⟨r, m₁, hcall, ho⟩ := bind_eq_done.1 ho
        cases ho
        exact (hm.goTo line).call hcall
      · rw [exec_expr fun name args line he => hx ⟨name, args, line, he⟩] at ho
        obtain ⟨v, m₁, heval, ho⟩ := bind_eq_done.1 ho
        cases ho
        exact (hm.goTo x.line).eval heval
    | block body line =>
      rw [exec_block] at ho
      obtain ⟨id, m₁, henter, hl⟩ := leaves_withScope.1 ⟨_, m', ho, hsignal⟩
      exact .inr (.inl ⟨_, .block henter, hl⟩)
    | cond c yes no line =>
      obtain ⟨v, m₁, b, m₂, hc, ht⟩ := exists_test_of_cond ho
      cases b with
      | true =>
        rw [exec_yes hc ht] at ho
        obtain ⟨id, m₃, henter, hl⟩ := leaves_withScope.1 ⟨_, m', ho, hsignal⟩
        exact .inr (.inl ⟨_, .yes hc ht henter, hl⟩)
      | false =>
        rw [exec_no hc ht] at ho
        cases no with
        | none =>
          cases ho
          have hm₂ := ((hm.goTo line).eval hc).of_steady (HeapOnly.testCondition _ _).steady ht
          exact absurd (hsignal.symm.trans hm₂.signal) hg
        | some no =>
          obtain ⟨id, m₃, henter, hl⟩ := leaves_withScope.1 ⟨_, m', ho, hsignal⟩
          exact .inr (.inl ⟨_, .no hc ht henter, hl⟩)
    | loop c body line =>
      rw [exec, goToLine_bind] at ho
      exact .inr (.inr (exists_round .first (hm.goTo line) ⟨_, m', ho, hsignal⟩ hg))
    | function name params body line =>
      rw [exec, goToLine_bind] at ho
      obtain ⟨_, m₁, hnote, ho⟩ := bind_eq_done.1 ho
      cases ho
      have hm₁ := (hm.goTo line).of_steady (HeapOnly.note _).steady hnote
      exact absurd (hsignal.symm.trans hm₁.signal) hg
    | ret value line =>
      obtain rfl : .ret = g := (signal_of_ret ho).symm.trans hsignal
      exact .inl (.ret ho)
    | brk line =>
      cases ho
      cases hsignal
      exact .inl .brk

end Visit

/-! ## Which lists a signal ends -/

namespace Visit

variable {v w : Visit} {l : ListVisit}

theorem Listed.exists_stmt {fuel : Nat} {body : List Stmt} {m : Machine}
    (h : Listed fuel body m w) : ∃ s, w.phrase = .stmt s := by
  induction h with
  | first => exact ⟨_, rfl⟩
  | later _ _ _ _ ih => exact ih

theorem Opens.fuel_lt {kind : ScopeKind} (h : v.Opens kind l) : l.fuel < v.fuel := by
  cases h with
  | call hb | callStmt hb =>
    cases hb
    exact Nat.lt_succ_of_lt (Nat.lt_succ_self _)
  | _ => exact Nat.lt_succ_self _

theorem Round.fuel_lt (h : v.Round w) : w.fuel < v.fuel := by
  induction h with
  | first => exact Nat.lt_succ_self _
  | again _ _ _ ih => exact Nat.lt_of_succ_lt ih

end Visit

namespace ListVisit

variable {l l₁ : ListVisit} {g : Signal}

theorem Reaches.leaves (hr : Reaches g l l₁) (hg : g ≠ .normal) (h : l.Leaves g) :
    l₁.Leaves g := by
  induction hr with
  | here => exact h
  | block hv ho _ ih => exact leaves_of_mem hv (ho.leaves_block ih) hg
  | loop hret hv hw ho _ ih =>
    have hround := ho.leaves_loop ih hg
    rw [if_neg (by rw [hret]; simp)] at hround
    exact leaves_of_mem hv (hw.leaves hround) hg

/-- A signal that a list leaves is raised in a list from which it reaches this one. -/
theorem Leaves.exists_raises (h : l.Leaves g) (hg : g ≠ .normal) (hm : l.machine.Ready) :
    ∃ l' v, Reaches g l' l ∧ v ∈ l'.visits ∧ v.Raises g := by
  -- on the fuel, of which a list that is opened further down has less
  induction hn : l.fuel using Nat.strong_induction_on generalizing l with
  | _ n ih =>
    obtain ⟨v, hlast, hleaves⟩ := (h.stopsAt hg hm.signal).last
    have hv : v ∈ l.visits := List.mem_of_getLast? hlast
    have hlisted := listed_of_mem_visits hv
    have hready := hlisted.ready hm
    have hfuel : v.fuel < n := hn ▸ hlisted.fuel_lt
    obtain ⟨s, hs⟩ := hlisted.exists_stmt
    obtain ⟨fuel, phrase, m⟩ := v
    cases hs
    rcases hleaves.source hg hready with hraise | ⟨l₁, ho, hl₁⟩ | ⟨hret, w, l₁, hw, ho, hl₁⟩
    · exact ⟨l, _, .here l, hv, hraise⟩
    · obtain ⟨l', u, hreach, hu⟩ :=
        ih l₁.fuel (ho.fuel_lt.trans hfuel) hl₁ (ho.ready hready) rfl
      exact ⟨l', u, .block hv ho hreach, hu⟩
    · obtain ⟨l', u, hreach, hu⟩ := ih l₁.fuel ((ho.fuel_lt.trans hw.fuel_lt).trans hfuel) hl₁
        (ho.ready (hw.ready hready)) rfl
      exact ⟨l', u, .loop hret hv hw ho hreach, hu⟩

theorem leaves_iff (hg : g ≠ .normal) (hm : l.machine.Ready) :
    l.Leaves g ↔ ∃ l' v, Reaches g l' l ∧ v ∈ l'.visits ∧ v.Raises g := by
  constructor
  · intro h
    exact h.exists_raises hg hm
  · intro h
    obtain ⟨l', v, hreach, hv, hraise⟩ := h
    exact hreach.leaves hg (leaves_of_mem hv hraise.leaves hg)

end ListVisit

/-! ## Main result -/

/-- What is started from the machine, which has no signal, keeps its signals to itself. -/
structure Machine.ContainsSignals (m : Machine) : Prop where
  /-- However an expression ends, no signal is pending. -/
  eval : ∀ fuel e, (eval fuel e m).state.signal = .normal
  call : ∀ fuel name args line, (call fuel name args line m).state.signal = .normal
  exec : ∀ fuel s e m', exec fuel s m = .fault e m' → m'.signal = .normal
  list : ∀ fuel ss e m', execList fuel ss m = .fault e m' → m'.signal = .normal
  loop : ∀ fuel condition body rounds m',
    execLoop fuel condition body rounds m = .done () m' → m'.signal = .normal ∨ m'.signal = .ret
  /-- A list that ends with a signal pending ends with the statement that left it. -/
  stops : ∀ l : ListVisit, l.From m → ∀ g, g ≠ .normal → l.Leaves g → l.StopsAt g
  /-- It does so exactly if a statement that leaves the signal is executed in it, or in a list that
  is opened in it by blocks and branches, and by loops if the signal is a `return`. -/
  pending : ∀ l : ListVisit, l.From m → ∀ g, g ≠ .normal →
    (l.Leaves g ↔ ∃ l' v, ListVisit.Reaches g l' l ∧ v ∈ l'.visits ∧ v.Raises g)

section Main

variable {m : Machine}

theorem Machine.Ready.containsSignals (h : m.Ready) : m.ContainsSignals where
  eval fuel e := ((discipline fuel).eval e m h.contexts).state
    (fun _ _ hm => h.of_quiet hm.quiet) fun _ _ hm => h.of_quiet hm.quiet
  call fuel name args line := ((discipline fuel).call name args line m h.contexts).state
    (fun _ _ hm => h.of_quiet hm.quiet) fun _ _ hm => h.of_quiet hm.quiet
  exec fuel s e m' ho := h.of_quiet (((discipline fuel).exec s m h.contexts).fault e m' ho).quiet
  list fuel ss e m' ho := h.of_quiet (((discipline fuel).list ss m h.contexts).fault e m' ho).quiet
  loop fuel condition body rounds m' ho := by
    obtain ⟨-, hbrk⟩ := ((discipline fuel).loop condition body rounds m h.contexts).done () m' ho
    cases hm' : m'.signal with
    | normal => exact .inl rfl
    | brk => exact absurd ((hbrk hm').symm.trans h.signal) (by simp)
    | ret => exact .inr rfl
  stops _ hl _ hg hleaves := hleaves.stopsAt hg (hl.ready h).signal
  pending _ hl _ hg := ListVisit.leaves_iff hg (hl.ready h)

/-- A run is done if its program is, whatever signal that leaves. -/
theorem leaves_run {m₀ : Machine} (h : (do note .starting; takeSnapshot) m = .done () m₀)
    {fuel : Nat} {g : Signal} (hl : ListVisit.Leaves ⟨fuel, m₀.program, m₀⟩ g) :
    (run fuel m).Leaves .normal := by
  obtain ⟨_, m₁, hnote, hsnapshot⟩ := bind_eq_done.1 h
  obtain ⟨_, m₂, hlist, -⟩ := hl
  rw [run, bind_of_done hnote, bind_of_done hsnapshot, bind_of_done rfl,
    bind_of_done (recordingFault_eq_done.2 hlist), finish, bind_of_done rfl, bind_of_done rfl]
  exact leaves_note _ _

/-- Signals do not get out of their constructs. Expressions and calls leave none, nor does anything
that faults, and a loop leaves no `break`. A list is ended by the first statement that leaves a
signal. A `break` goes from list to list up to the body of the innermost loop, and the loop spends
it; a `return` goes up to the body of the innermost function, and the call spends it, as it does a
`break` outside any loop of the function; and what is left outside any function, the run spends. -/
theorem signals_stay_in_constructs (h : m.Visited) (hsignal : m.signal = .normal) :
    m.ContainsSignals ∧
    (∀ v w l, Visit.Round v w → w.Opens .loop l → l.Leaves .brk → v.Leaves .normal) ∧
    (∀ fuel name args line m₀ l g, CallsBody fuel name args line m₀ l → l.Leaves g →
      (call fuel name args line m₀).Leaves .normal) ∧
    ∀ m₀, (do note .starting; takeSnapshot) m = .done () m₀ → m₀.ContainsSignals ∧
      ∀ fuel g, ListVisit.Leaves ⟨fuel, m₀.program, m₀⟩ g → (run fuel m).Leaves .normal := by
  have hready : m.Ready := ⟨hsignal, h.sound.nonempty⟩
  refine ⟨hready.containsSignals, fun v w l hw ho hl => ?_, fun _ _ _ _ _ _ _ hb hl => hb.leaves hl,
    fun m₀ hm₀ => ⟨?_, fun fuel g hl => leaves_run hm₀ hl⟩⟩
  · exact hw.leaves (ho.leaves_loop hl (by simp))
  · have hsteady : Steady (do note .starting; takeSnapshot) :=
      (HeapOnly.note _).steady.bind fun _ => .takeSnapshot
    exact (hready.of_steady hsteady hm₀).containsSignals

/-- In the scope that a fault left open: a loop that is left by a `break` in a block and a branch,
and then a `return`, at which the list ends. -/
def ListVisit.breakAndReturn : ListVisit where
  fuel := 12
  body :=
    [.loop none [.block [.cond (.identifier "q" 5) [.brk 5] none 5] 5, .ret none 6] 5,
      .ret (some (.identifier "q" 7)) 7,
      .brk 8]
  machine := .stranded

theorem signals_of_breakAndReturn :
    Machine.stranded.Visited ∧ Machine.stranded.signal = .normal ∧
      Machine.stranded.ContainsSignals ∧
      ListVisit.breakAndReturn.Leaves .ret ∧ ListVisit.breakAndReturn.StopsAt .ret ∧
      ListVisit.breakAndReturn.visits.length = 2 ∧
      ∃ l v, ListVisit.Reaches .ret l .breakAndReturn ∧ v ∈ l.visits ∧ v.Raises .ret := by
  have hvisited : Machine.stranded.Visited := .reached Machine.reachable_stranded
  have hsignal : Machine.stranded.signal = .normal := by decide +kernel
  have hcontains := (signals_stay_in_constructs hvisited hsignal).1
  have hfrom : ListVisit.breakAndReturn.From .stranded := .here _ _
  have hleaves : ListVisit.breakAndReturn.Leaves .ret :=
    ⟨(), _, Outcome.eq_done (by decide +kernel), by decide +kernel⟩
  exact ⟨hvisited, hsignal, hcontains, hleaves, hcontains.stops _ hfrom _ (by simp) hleaves,
    by decide +kernel, (hcontains.pending _ hfrom _ (by simp)).1 hleaves⟩

end Main

end HeapWalk
