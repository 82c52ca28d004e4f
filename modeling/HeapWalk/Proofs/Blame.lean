import HeapWalk.Proofs.Operands
import Mathlib.Logic.Relation

/-!
# Which node a fault comes from

A `Visit` is an expression or a statement that is about to be executed, or a loop at the start of
one of its rounds. `Visit.Part v w`: the execution of `v` executes `w`, one level further down. A
fault of a part is one of the whole (`Visit.Part.faults`), and so each fault of a visit comes from
an innermost visit, which faults although none of its own parts does (`Visit.exists_blamed`).
-/

set_option autoImplicit false

namespace HeapWalk

/-! ## Visits -/

/-- What is executed: an expression, a statement, or a loop from one of its rounds on. -/
inductive Phrase where
  | expr (e : Expr)
  | stmt (s : Stmt)
  | round (condition : Option Expr) (body : List Stmt) (rounds line : Nat)

/-- The line of the node, `0` if that is unknown. -/
def Phrase.line : Phrase → Nat
  | expr e => e.line
  | stmt s => s.line
  | round _ _ _ line => line

structure Visit where
  fuel : Nat
  phrase : Phrase
  machine : Machine

/-- The execution stops on a fault, which leaves the machine `m`. -/
def Visit.Faults (v : Visit) (e : Fault) (m : Machine) : Prop :=
  match v.phrase with
  | .expr x => Exec.eval v.fuel x v.machine = .fault e m
  | .stmt s => Exec.exec v.fuel s v.machine = .fault e m
  | .round condition body rounds _ =>
    Exec.execLoop v.fuel condition body rounds v.machine = .fault e m

/-- The machine at a line, unless that is unknown. -/
def Machine.goTo (m : Machine) (line : Nat) : Machine := if 0 < line then { m with line } else m

namespace Visit

open Exec

/-- An actual of a call, executed after those on its left. -/
inductive Actual : (fuel : Nat) → (params : List String) → List Expr → Machine → Visit → Prop where
  | first {fuel : Nat} {param : String} {params : List String} {arg : Expr} {args : List Expr}
    {m : Machine} : Actual (fuel + 1) (param :: params) (arg :: args) m ⟨fuel, .expr arg, m⟩
  | later {fuel : Nat} {param : String} {params : List String} {arg : Expr} {args : List Expr}
    {m m₁ : Machine} {v : Variable} {w : Visit} (hv : eval fuel arg m = .done v m₁)
    (h : Actual fuel params args m₁ w) : Actual (fuel + 1) (param :: params) (arg :: args) m w

/-- A statement of a list, executed after those before it. -/
inductive Listed : (fuel : Nat) → List Stmt → Machine → Visit → Prop where
  | first {fuel : Nat} {s : Stmt} {rest : List Stmt} {m : Machine} :
    Listed (fuel + 1) (s :: rest) m ⟨fuel, .stmt s, m⟩
  | later {fuel : Nat} {s : Stmt} {rest : List Stmt} {m m₁ m₂ : Machine} {w : Visit}
    (hs : exec fuel s m = .done () m₁) (hsignal : m₁.signal = .normal)
    (hfinish : finishStatement m₁ = .done () m₂) (h : Listed fuel rest m₂ w) :
    Listed (fuel + 1) (s :: rest) m w

/-- A statement of a list that is executed in a scope of its own. -/
def Inside (kind : ScopeKind) (name : String) (fuel : Nat) (body : List Stmt) (m : Machine)
    (w : Visit) : Prop :=
  ∃ id m₁, enterScope kind name m = .done id m₁ ∧ Listed fuel body m₁ w

/-- An actual of a call, or a statement of the function that it calls. -/
inductive Called : (fuel : Nat) → String → List Expr → (line : Nat) → Machine → Visit → Prop where
  | actual {fuel : Nat} {name : String} {args : List Expr} {line : Nat} {m m₁ : Machine}
    {f : FunctionDef} {w : Visit} (hf : findFunction name (m.goTo line) = .done f m₁)
    (h : Actual fuel f.params args m₁ w) : Called (fuel + 1) name args line m w
  | body {fuel : Nat} {name : String} {args : List Expr} {line : Nat} {m m₁ m₂ m₃ : Machine}
    {f : FunctionDef} {vs : List Variable} {w : Visit}
    (hf : findFunction name (m.goTo line) = .done f m₁)
    (hvs : evalActuals fuel f.name f.params args m₁ = .done vs m₂)
    (henter : enterFunction f vs m₂ = .done () m₃) (h : Listed fuel f.body m₃ w) :
    Called (fuel + 1) name args line m w

/-- The execution of the first visit executes the second one, one level further down. -/
inductive Part : Visit → Visit → Prop where
  | unary {fuel : Nat} {op : UnaryOp} {x : Expr} {line : Nat} {m : Machine} :
    Part ⟨fuel + 1, .expr (.unary op x line), m⟩ ⟨fuel, .expr x, m.goTo line⟩
  | left {fuel : Nat} {op : BinaryOp} {x y : Expr} {line : Nat} {m : Machine} :
    Part ⟨fuel + 1, .expr (.binary op x y line), m⟩ ⟨fuel, .expr x, m.goTo line⟩
  | right {fuel : Nat} {op : BinaryOp} {x y : Expr} {line : Nat} {m m₁ : Machine} {l : Variable}
    (hx : eval fuel x (m.goTo line) = .done l m₁) :
    Part ⟨fuel + 1, .expr (.binary op x y line), m⟩ ⟨fuel, .expr y, m₁⟩
  | assign {fuel : Nat} {target : String} {x : Expr} {line : Nat} {m : Machine} :
    Part ⟨fuel + 1, .expr (.assign target x line), m⟩ ⟨fuel, .expr x, m.goTo line⟩
  | print {fuel : Nat} {x : Expr} {line : Nat} {m : Machine} :
    Part ⟨fuel + 1, .expr (.print x line), m⟩ ⟨fuel, .expr x, m.goTo line⟩
  | call {fuel : Nat} {name : String} {args : List Expr} {line : Nat} {m : Machine} {w : Visit}
    (h : Called fuel name args line (m.goTo line) w) :
    Part ⟨fuel + 1, .expr (.call name args line), m⟩ w
  | callStmt {fuel : Nat} {name : String} {args : List Expr} {line : Nat} {m : Machine} {w : Visit}
    (h : Called fuel name args line (m.goTo line) w) :
    Part ⟨fuel + 1, .stmt (.expr (.call name args line)), m⟩ w
  | exprStmt {fuel : Nat} {x : Expr} {m : Machine}
    (hx : ∀ name args line, x ≠ .call name args line) :
    Part ⟨fuel + 1, .stmt (.expr x), m⟩ ⟨fuel, .expr x, m.goTo x.line⟩
  | block {fuel : Nat} {body : List Stmt} {line : Nat} {m : Machine} {w : Visit}
    (h : Inside .block "block" fuel body (m.goTo line) w) :
    Part ⟨fuel + 1, .stmt (.block body line), m⟩ w
  | condition {fuel : Nat} {c : Expr} {yes : List Stmt} {no : Option (List Stmt)} {line : Nat}
    {m : Machine} : Part ⟨fuel + 1, .stmt (.cond c yes no line), m⟩ ⟨fuel, .expr c, m.goTo line⟩
  | yes {fuel : Nat} {c : Expr} {yes : List Stmt} {no : Option (List Stmt)} {line : Nat}
    {m m₁ m₂ : Machine} {v : Variable} {w : Visit} (hc : eval fuel c (m.goTo line) = .done v m₁)
    (ht : testCondition .cond v m₁ = .done true m₂) (h : Inside .block "if" fuel yes m₂ w) :
    Part ⟨fuel + 1, .stmt (.cond c yes no line), m⟩ w
  | no {fuel : Nat} {c : Expr} {yes no : List Stmt} {line : Nat} {m m₁ m₂ : Machine} {v : Variable}
    {w : Visit} (hc : eval fuel c (m.goTo line) = .done v m₁)
    (ht : testCondition .cond v m₁ = .done false m₂) (h : Inside .block "else" fuel no m₂ w) :
    Part ⟨fuel + 1, .stmt (.cond c yes (some no) line), m⟩ w
  | loop {fuel : Nat} {c : Option Expr} {body : List Stmt} {line : Nat} {m : Machine} :
    Part ⟨fuel + 1, .stmt (.loop c body line), m⟩ ⟨fuel, .round c body 0 line, m.goTo line⟩
  | test {fuel : Nat} {c : Expr} {body : List Stmt} {rounds line : Nat} {m : Machine} :
    Part ⟨fuel + 1, .round (some c) body rounds line, m⟩ ⟨fuel, .expr c, m⟩
  | body {fuel : Nat} {c : Option Expr} {body : List Stmt} {rounds line : Nat} {m m₁ : Machine}
    {w : Visit} (hc : loopCondition (c.map fun c => eval fuel c) m = .done true m₁)
    (h : Inside .loop "loop" fuel body m₁ w) : Part ⟨fuel + 1, .round c body rounds line, m⟩ w
  | again {fuel : Nat} {c : Option Expr} {body : List Stmt} {rounds line : Nat}
    {m m₁ m₂ : Machine} (hc : loopCondition (c.map fun c => eval fuel c) m = .done true m₁)
    (hround : withScope .loop "loop" (fun _ => do execList fuel body; finishRound) m₁ =
      .done true m₂) :
    Part ⟨fuel + 1, .round c body rounds line, m⟩ ⟨fuel, .round c body (rounds + 1) line, m₂⟩
  | ret {fuel : Nat} {x : Expr} {line : Nat} {m : Machine} :
    Part ⟨fuel + 1, .stmt (.ret (some x) line), m⟩ ⟨fuel, .expr x, m.goTo line⟩

/-- The fault arises in a step of the visit itself: the visit faults, and none of its parts does. -/
structure Blamed (v : Visit) (e : Fault) : Prop where
  faults : ∃ m, v.Faults e m
  parts : ∀ w, Part v w → ∀ e' m', ¬ w.Faults e' m'

end Visit

/-! ## The faults of single steps -/

namespace Exec

variable {α β : Type} {E : Fault → Prop}

/-- The computation stops on no other faults than those in `E`. -/
def FaultsIn (E : Fault → Prop) (x : Exec α) : Prop := ∀ m e m', x m = .fault e m' → E e

namespace FaultsIn

theorem bind {x : Exec α} {f : α → Exec β} (hx : FaultsIn E x) (hf : ∀ a, FaultsIn E (f a)) :
    FaultsIn E (x >>= f) := by
  intro m e m' h
  rcases bind_eq_fault.1 h with h | ⟨a, m₁, -, h⟩
  · exact hx m e m' h
  · exact hf a m₁ e m' h

theorem pure (a : α) : FaultsIn E (pure a) := by
  intro m e m' h
  cases h

theorem view (f : Machine → α) : FaultsIn E (view f) := by
  intro m e m' h
  cases h

theorem update (f : Machine → Machine) : FaultsIn E (update f) := by
  intro m e m' h
  cases h

theorem askHeap (hE : ∀ e, E (.heap e)) (f : Heap → Except HeapError α) :
    FaultsIn E (askHeap f) := by
  intro m e m' h
  refine (Spec.askHeap (V := fun _ => True) (E := fun e _ => ∀ e' ∈ e, E e')
    (Q := fun _ _ => True) (fun _ _ => trivial) fun e _ => ?_).fault e m' h e rfl
  intro e' he
  cases he
  exact hE e

theorem noteFreed (ps : List Pointer) : FaultsIn E (noteFreed ps) := by
  induction ps with
  | nil => exact pure ()
  | cons p ps ih => exact (update _).bind fun _ => ih

theorem noteFreeing (c : Context) (b : Bindings Variable) : FaultsIn E (noteFreeing c b) := by
  induction b with
  | nil => exact pure ()
  | cons x rest ih =>
    refine (view _).bind fun owner => ?_
    split
    · exact (update _).bind fun _ => ih
    · exact ih

theorem enterScope (kind : ScopeKind) (name : String) : FaultsIn E (enterScope kind name) :=
  (view _).bind fun _ => (update _).bind fun _ => (update _).bind fun _ => pure _

theorem exitScope : FaultsIn E exitScope := by
  refine (view _).bind fun current => ?_
  cases current with
  | none => exact pure ()
  | some c =>
    exact (noteFreeing c _).bind fun _ => (view _).bind fun _ => (update _).bind fun _ =>
      (noteFreed _).bind fun _ => update _

theorem sweepStatement : FaultsIn E sweepStatement := by
  refine (view _).bind fun sweep => ?_
  split
  · refine (view _).bind fun floor => ?_
    refine ((view _).bind fun _ => (update _).bind fun _ => (noteFreed _).bind fun _ =>
      pure _).bind fun count => ?_
    split
    · exact update _
    · exact pure ()
  · exact pure ()

theorem takeSnapshot : FaultsIn (·.code = .snapshotLimitExceeded) takeSnapshot := by
  intro m e m' h
  refine (Spec.takeSnapshot (V := fun _ => True)
    (E := fun e _ => ∀ e' ∈ e, e'.code = .snapshotLimitExceeded) (Q := fun _ _ => True)
    (fun _ => ⟨trivial, trivial⟩) (fun _ _ _ => ⟨trivial, trivial⟩)
    fun _ _ => ?_).fault e m' h e rfl
  simp [Fault.code]

end FaultsIn

end Exec

/-! ## Outcomes of what is executed -/

namespace Exec

variable {α β : Type} {fuel : Nat} {m m' m₁ : Machine} {e : Fault}

theorem goToLine_bind (line : Nat) (f : Unit → Exec α) (m : Machine) :
    (goToLine line >>= f) m = f () (m.goTo line) := rfl

/-- A statement that is an expression is executed as that expression, unless it is a call. -/
theorem exec_expr {x : Expr} (hx : ∀ name args line, x ≠ .call name args line) :
    exec (fuel + 1) (.expr x) m = (do let _ ← eval fuel x) (m.goTo x.line) := by
  rw [exec]
  · rfl
  · exact hx

/-- A computation in a scope of its own faults as its body does. -/
theorem withScope_eq_fault {kind : ScopeKind} {name : String} {body : ScopeId → Exec α} :
    withScope kind name body m = .fault e m' ↔
      ∃ id m₁, enterScope kind name m = .done id m₁ ∧ body id m₁ = .fault e m' := by
  rw [withScope, bind_eq_fault]
  constructor
  · intro h
    rcases h with h | ⟨id, m₁, hid, h⟩
    · exact (FaultsIn.enterScope (E := fun _ => False) kind name _ _ _ h).elim
    · rcases bind_eq_fault.1 h with h | ⟨a, m₂, -, h⟩
      · exact ⟨id, m₁, hid, h⟩
      · exact (FaultsIn.exitScope.bind (E := fun _ => False) (fun _ => .pure a) _ _ _ h).elim
  · intro h
    obtain ⟨id, m₁, hid, h⟩ := h
    exact .inr ⟨id, m₁, hid, bind_of_fault h⟩

end Exec

/-! ## A fault of a part is one of the whole -/

namespace Visit

open Exec

variable {fuel : Nat} {m m' : Machine} {e : Fault} {v w : Visit}

theorem Actual.faults {f : String} {params : List String} {args : List Expr}
    (h : Actual fuel params args m w) (hw : w.Faults e m') :
    evalActuals fuel f params args m = .fault e m' := by
  induction h with
  | first => rw [evalActuals, bind_of_fault hw]
  | later hv _ ih => rw [evalActuals, bind_of_done hv, bind_of_fault (ih hw)]

theorem Listed.faults {body : List Stmt} (h : Listed fuel body m w) (hw : w.Faults e m') :
    execList fuel body m = .fault e m' := by
  induction h with
  | first => rw [execList, bind_of_fault hw]
  | later hs hsignal hfinish _ ih =>
    rw [execList, bind_of_done hs, bind_of_done rfl, if_pos hsignal, bind_of_done hfinish]
    exact ih hw

theorem Inside.faults {α : Type} {kind : ScopeKind} {name : String} {body : List Stmt}
    (h : Inside kind name fuel body m w) (hw : w.Faults e m') {x : ScopeId → Exec α}
    (hx : ∀ id m₁, execList fuel body m₁ = .fault e m' → x id m₁ = .fault e m') :
    withScope kind name x m = .fault e m' := by
  obtain ⟨id, m₁, henter, hlist⟩ := h
  exact withScope_eq_fault.2 ⟨id, m₁, henter, hx id m₁ (hlist.faults hw)⟩

theorem Called.faults {name : String} {args : List Expr} {line : Nat}
    (h : Called fuel name args line m w) (hw : w.Faults e m') :
    call fuel name args line m = .fault e m' := by
  cases h with
  | actual hf h =>
    rw [call, goToLine_bind, bind_of_done rfl, bind_of_done hf, bind_of_fault (h.faults hw)]
  | body hf hvs henter h =>
    rw [call_eq hf hvs henter, runFunction, bind_of_fault (h.faults hw)]

theorem Part.faults (h : Part v w) (hw : w.Faults e m') : v.Faults e m' := by
  cases h with
  | unary | left | assign | print =>
    change eval (_ + 1) _ _ = _
    rw [eval, goToLine_bind]
    exact bind_of_fault hw
  | right hx =>
    change eval (_ + 1) _ _ = _
    rw [eval, goToLine_bind]
    exact (bind_of_done hx).trans (bind_of_fault hw)
  | call h =>
    change eval (_ + 1) _ _ = _
    rw [eval, goToLine_bind]
    exact bind_of_fault (h.faults hw)
  | callStmt h =>
    change exec (_ + 1) _ _ = _
    rw [exec, goToLine_bind]
    exact bind_of_fault (h.faults hw)
  | exprStmt hx =>
    change exec (_ + 1) _ _ = _
    rw [exec_expr hx, bind_of_fault hw]
  | block h =>
    change exec (_ + 1) _ _ = _
    rw [exec, goToLine_bind]
    exact h.faults hw fun _ _ h => h
  | condition =>
    change exec (_ + 1) _ _ = _
    unfold exec
    rw [goToLine_bind]
    exact bind_of_fault hw
  | yes hc ht h =>
    change exec (_ + 1) _ _ = _
    unfold exec
    rw [goToLine_bind]
    exact (bind_of_done hc).trans ((bind_of_done ht).trans (h.faults hw fun _ _ h => h))
  | no hc ht h =>
    change exec (_ + 1) _ _ = _
    unfold exec
    rw [goToLine_bind]
    exact (bind_of_done hc).trans ((bind_of_done ht).trans (h.faults hw fun _ _ h => h))
  | loop =>
    change exec (_ + 1) _ _ = _
    rw [exec, goToLine_bind]
    exact hw
  | test =>
    change execLoop (_ + 1) _ _ _ _ = _
    rw [execLoop]
    exact bind_of_fault (bind_of_fault hw)
  | body hc h =>
    change execLoop (_ + 1) _ _ _ _ = _
    rw [execLoop, bind_of_done hc]
    exact bind_of_fault (h.faults hw fun _ _ h => bind_of_fault h)
  | again hc hround =>
    change execLoop (_ + 1) _ _ _ _ = _
    rw [execLoop, bind_of_done hc]
    exact (bind_of_done hround).trans hw
  | ret =>
    change exec (_ + 1) _ _ = _
    rw [exec, goToLine_bind]
    exact bind_of_fault hw

/-! ## The innermost visit -/

theorem Faults.unique {e' : Fault} {m₁ : Machine} (h : v.Faults e m') (h' : v.Faults e' m₁) :
    e = e' ∧ m' = m₁ := by
  obtain ⟨fuel, phrase, m⟩ := v
  cases phrase <;> exact Outcome.fault.inj (h.symm.trans h')

theorem Actual.fuel_lt {params : List String} {args : List Expr} (h : Actual fuel params args m w) :
    w.fuel < fuel := by
  induction h with
  | first => exact Nat.lt_succ_self _
  | later _ _ ih => exact Nat.lt_succ_of_lt ih

theorem Listed.fuel_lt {body : List Stmt} (h : Listed fuel body m w) : w.fuel < fuel := by
  induction h with
  | first => exact Nat.lt_succ_self _
  | later _ _ _ _ ih => exact Nat.lt_succ_of_lt ih

theorem Inside.fuel_lt {kind : ScopeKind} {name : String} {body : List Stmt}
    (h : Inside kind name fuel body m w) : w.fuel < fuel := by
  obtain ⟨_, _, _, h⟩ := h
  exact h.fuel_lt

theorem Called.fuel_lt {name : String} {args : List Expr} {line : Nat}
    (h : Called fuel name args line m w) : w.fuel < fuel := by
  cases h with
  | actual _ h => exact Nat.lt_succ_of_lt h.fuel_lt
  | body _ _ _ h => exact Nat.lt_succ_of_lt h.fuel_lt

theorem Part.fuel_lt (h : Part v w) : w.fuel < v.fuel := by
  cases h with
  | call h | callStmt h => exact Nat.lt_succ_of_lt h.fuel_lt
  | block h | yes _ _ h | no _ _ h | body _ h => exact Nat.lt_succ_of_lt h.fuel_lt
  | _ => exact Nat.lt_succ_self _

/-- A fault arises in a step of some visit. -/
theorem exists_blamed (h : v.Faults e m') : ∃ w, Relation.ReflTransGen Part v w ∧ w.Blamed e := by
  -- on the fuel, of which a part has less
  induction hn : v.fuel using Nat.strong_induction_on generalizing v with
  | _ n ih =>
    by_cases hparts : ∃ w, Part v w ∧ ∃ e' m', w.Faults e' m'
    · obtain ⟨w, hw, e', m₁, hfault⟩ := hparts
      obtain ⟨rfl, rfl⟩ := h.unique (hw.faults hfault)
      obtain ⟨u, hu, hblamed⟩ := ih w.fuel (hn ▸ hw.fuel_lt) hfault rfl
      exact ⟨u, hu.head hw, hblamed⟩
    · exact ⟨v, .refl, ⟨m', h⟩, fun w hw e' m₁ hfault => hparts ⟨w, hw, e', m₁, hfault⟩⟩

theorem faults_of_reaches (h : Relation.ReflTransGen Part v w) (hw : w.Faults e m') :
    v.Faults e m' := by
  induction h with
  | refl => exact hw
  | tail _ hpart ih => exact ih (hpart.faults hw)

/-! ## Faults of a program -/

/-- A list of statements faults in one of them, unless a snapshot does not fit. -/
theorem exists_listed {body : List Stmt} (h : execList fuel body m = .fault e m')
    (he : e.code ≠ .snapshotLimitExceeded) : ∃ w, Listed fuel body m w ∧ w.Faults e m' := by
  induction body generalizing fuel m with
  | nil => cases fuel <;> cases h
  | cons s rest ih =>
    cases fuel with
    | zero => cases h
    | succ fuel =>
      rw [execList] at h
      rcases bind_eq_fault.1 h with h | ⟨_, m₁, hs, h⟩
      · exact ⟨_, .first, h⟩
      · rw [bind_of_done rfl] at h
        split at h
        · rename_i hsignal
          rcases bind_eq_fault.1 h with h | ⟨_, m₂, hfinish, h⟩
          · exact absurd ((FaultsIn.sweepStatement.bind fun _ => .takeSnapshot) m₁ e m' h) he
          · obtain ⟨w, hw, hfault⟩ := ih h
            exact ⟨w, .later hs hsignal hfinish hw, hfault⟩
        · cases h

end Visit

open Exec Visit

/-- A run of the machine executes the visit. -/
def Machine.Executes (m : Machine) (fuel : Nat) (v : Visit) : Prop :=
  ∃ m₀ w, (do note .starting; takeSnapshot) m = .done () m₀ ∧ Listed fuel m₀.program m₀ w ∧
    Relation.ReflTransGen Part w v

/-- A run faults in one of the statements of its program, unless a snapshot does not fit. -/
theorem exists_listed_of_run {fuel : Nat} {m m' : Machine} {e : Fault}
    (h : run fuel m = .fault e m') (he : e.code ≠ .snapshotLimitExceeded) :
    ∃ m₀ w m₁, (do note .starting; takeSnapshot) m = .done () m₀ ∧ Listed fuel m₀.program m₀ w ∧
      w.Faults e m₁ ∧ recordFault m₁ = m' := by
  rcases bind_eq_fault.1 h with h | ⟨_, mₙ, hnote, h⟩
  · cases h
  rcases bind_eq_fault.1 h with h | ⟨_, m₀, hsnap, h⟩
  · exact absurd (FaultsIn.takeSnapshot mₙ e m' h) he
  rw [bind_of_done rfl] at h
  rcases bind_eq_fault.1 h with h | ⟨_, m₂, -, h⟩
  · obtain ⟨m₁, hlist, hrecord⟩ := recordingFault_eq_fault.1 h
    obtain ⟨w, hw, hfault⟩ := exists_listed hlist he
    exact ⟨m₀, w, m₁, (bind_of_done hnote).trans hsnap, hw, hfault, hrecord⟩
  · cases h

/-- The run leaves the machine as the visit that it faults in. -/
theorem recordFault_of_executes {fuel : Nat} {m m' m₁ : Machine} {e e' : Fault} {v : Visit}
    (h : run fuel m = .fault e m') (he : e.code ≠ .snapshotLimitExceeded)
    (hv : m.Executes fuel v) (hfault : v.Faults e' m₁) : recordFault m₁ = m' := by
  obtain ⟨m₀, w, m₂, hstart, hw, hwfault, rfl⟩ := exists_listed_of_run h he
  obtain ⟨m₀', w', hstart', hw', hreach⟩ := hv
  obtain ⟨-, rfl⟩ := Outcome.done.inj (hstart.symm.trans hstart')
  have heq := (hw.faults hwfault).symm.trans (hw'.faults (faults_of_reaches hreach hfault))
  rw [(Outcome.fault.inj heq).2]

end HeapWalk
