import HeapWalk.Proofs.Blame
import HeapWalk.Report

/-!
# The line a fault is reported at

The machine has one line, which each node that it comes to replaces by its own, if that is known,
and which only a call puts back when it returns. So after an expression the machine is at the last
line of a node in it (`Expr.lastLine`), and a fault is reported at the last line of the operands
that were evaluated before it (`Visit.faultLine`): this is the line of the node that failed if its
operands end on the same line.
-/

set_option autoImplicit false

namespace HeapWalk

open Report (knownLine)

/-! ## The last line of an expression -/

/-- The line that the evaluation of an expression leaves, if any node that it comes to has one. What
a call does is not counted, since it puts its line back. -/
def Expr.lastLine : Expr → Option Nat
  | literal _ line | identifier _ line | composite _ line | call _ _ line => knownLine line
  | unary _ x line | assign _ x line | print x line => x.lastLine.or (knownLine line)
  | binary _ x y line => (y.lastLine.or x.lastLine).or (knownLine line)

def Expr.lastLines : List Expr → Option Nat
  | [] => none
  | x :: xs => (Expr.lastLines xs).or x.lastLine

/-- The call itself is at fault, not one of its actuals. -/
def Fault.atCall : Fault → Bool
  | undefinedFunction _ | callDepthExceeded .. | noReturnValue _ => true
  | _ => false

/-- The last line of the operands that are evaluated before the node can fail on `e`. -/
def Phrase.operandLine (arity : String → Nat) (e : Fault) : Phrase → Option Nat
  | expr (.unary _ x _) | expr (.assign _ x _) | expr (.print x _) => x.lastLine
  | expr (.binary _ x y _) => y.lastLine.or x.lastLine
  | expr (.call name args _) | stmt (.expr (.call name args _)) =>
    if e.atCall then none else Expr.lastLines (args.take (arity name))
  | stmt (.cond c _ _ _) | stmt (.ret (some c) _) | round (some c) _ _ _ => c.lastLine
  | _ => none

/-- A loop, after its first round. -/
def Phrase.isLaterRound : Phrase → Bool
  | round _ _ rounds _ => 0 < rounds
  | _ => false

namespace Visit

def operandLine (v : Visit) (e : Fault) : Option Nat :=
  v.phrase.operandLine v.machine.scopes.arity e

/-- The line before the operands: that of the node, or else the line of what was executed before. A
loop does not come back to its own line. -/
def startLine (v : Visit) : Nat :=
  if v.phrase.isLaterRound then v.machine.line else (knownLine v.phrase.line).getD v.machine.line

/-- The line that the visit leaves when it is to blame for `e`. -/
def faultLine (v : Visit) (e : Fault) : Nat := (v.operandLine e).getD v.startLine

end Visit

theorem Machine.line_goTo (m : Machine) (line : Nat) :
    (m.goTo line).line = (knownLine line).getD m.line := by
  unfold Machine.goTo knownLine
  split <;> rfl

theorem Machine.scopes_goTo (m : Machine) (line : Nat) : (m.goTo line).scopes = m.scopes := by
  unfold Machine.goTo
  split <;> rfl

theorem Machine.goTo_goTo (m : Machine) (line : Nat) : (m.goTo line).goTo line = m.goTo line := by
  unfold Machine.goTo
  split <;> rfl

/-! ## Steps that stay on a line -/

namespace Exec

variable {α β : Type} {fuel : Nat} {m m' m₁ : Machine} {e : Fault}

/-- The computation leaves the line as it is. -/
def KeepsLine (x : Exec α) : Prop := Leads (fun m m' => m'.line = m.line) x

namespace KeepsLine

theorem of_done {x : Exec α} (hx : KeepsLine x) {a : α} (h : x m = .done a m') :
    m'.line = m.line := by
  have hm := hx m
  rwa [h] at hm

theorem of_fault {x : Exec α} (hx : KeepsLine x) (h : x m = .fault e m') : m'.line = m.line := by
  have hm := hx m
  rwa [h] at hm

theorem heapOnly {x : Exec α} (h : HeapOnly x) : KeepsLine x := by
  intro m
  rw [h.leads m]

theorem bind {x : Exec α} {f : α → Exec β} (hx : KeepsLine x) (hf : ∀ a, KeepsLine (f a)) :
    KeepsLine (x >>= f) :=
  Leads.bind (fun h₁ h₂ => h₂.trans h₁) hx hf

theorem update {f : Machine → Machine} (hf : ∀ m, (f m).line = m.line) : KeepsLine (update f) := hf

theorem stepClosed : StepClosed @KeepsLine where
  heapOnly := heapOnly
  bind := bind
  bindVariable _ _ := update fun _ => rfl
  pushOutput _ := update fun _ => rfl

theorem enterScope (kind : ScopeKind) (name : String) : KeepsLine (enterScope kind name) :=
  (heapOnly (.view fun _ _ _ _ => rfl)).bind fun _ => bind (update fun _ => rfl) fun _ =>
    heapOnly ((HeapOnly.note _).bind fun _ => .pure _)

theorem enterFunction (f : FunctionDef) (vs : List Variable) : KeepsLine (enterFunction f vs) :=
  (heapOnly (.note _)).bind fun _ => (enterScope _ _).bind fun _ => stepClosed.bindParameters _ _

theorem defineFunction (f : FunctionDef) : KeepsLine (defineFunction f) :=
  (heapOnly (.note _)).bind fun _ => update fun _ => rfl

theorem leaveFunction (value : Option Variable) : KeepsLine (leaveFunction value) := by
  refine ((heapOnly (.view fun _ _ _ _ => rfl)).bind fun caller => ?_).bind fun _ =>
    update fun _ => rfl
  cases caller with
  | none => exact heapOnly (.note _)
  | some caller => exact (heapOnly (.handBack _ _)).bind fun _ => update fun _ => rfl

end KeepsLine

/-! ## Lines after evaluation -/

/-- A call that returns puts back the line that it started from. -/
theorem line_of_call {name : String} {args : List Expr} {line : Nat} {r : Option Variable}
    (h : call fuel name args line m = .done r m') : m'.line = (m.goTo line).line := by
  cases fuel with
  | zero => cases h
  | succ fuel =>
    rw [call, goToLine_bind, bind_of_done rfl] at h
    obtain ⟨f, m₁, -, h⟩ := bind_eq_done.1 h
    obtain ⟨vs, m₂, -, h⟩ := bind_eq_done.1 h
    obtain ⟨_, m₃, -, h⟩ := bind_eq_done.1 h
    obtain ⟨result, m₄, -, h⟩ := bind_eq_done.1 h
    obtain ⟨-, rfl⟩ := Outcome.done.inj h
    rfl

/-- An expression leaves its last line. -/
theorem line_of_eval {x : Expr} {v : Variable} (h : eval fuel x m = .done v m') :
    m'.line = x.lastLine.getD m.line := by
  induction fuel generalizing x m v m' with
  | zero => cases h
  | succ fuel ih =>
    unfold eval at h
    rw [goToLine_bind] at h
    cases x with
    | literal value line =>
      rw [(KeepsLine.heapOnly (.allocValue value)).of_done h, Machine.line_goTo]
      rfl
    | identifier name line =>
      rw [(KeepsLine.heapOnly (.readIdentifier name)).of_done h, Machine.line_goTo]
      rfl
    | unary op x line =>
      obtain ⟨u, m₁, hx, h⟩ := bind_eq_done.1 h
      rw [(KeepsLine.heapOnly (.applyUnary op u)).of_done h, ih hx, Machine.line_goTo]
      exact Option.getD_or.symm
    | binary op x y line =>
      obtain ⟨l, m₁, hx, h⟩ := bind_eq_done.1 h
      obtain ⟨r, m₂, hy, h⟩ := bind_eq_done.1 h
      rw [(KeepsLine.heapOnly (.applyBinary op l r)).of_done h, ih hy, ih hx, Machine.line_goTo,
        Expr.lastLine, Option.getD_or, Option.getD_or]
      rfl
    | assign target x line =>
      obtain ⟨u, m₁, hx, h⟩ := bind_eq_done.1 h
      rw [(KeepsLine.stepClosed.assign target u).of_done h, ih hx, Machine.line_goTo]
      exact Option.getD_or.symm
    | print x line =>
      obtain ⟨u, m₁, hx, h⟩ := bind_eq_done.1 h
      rw [(KeepsLine.stepClosed.printVariable u line).of_done h, ih hx, Machine.line_goTo]
      exact Option.getD_or.symm
    | call name args line =>
      obtain ⟨r, m₁, hcall, h⟩ := bind_eq_done.1 h
      have hline : m'.line = m₁.line := by
        cases r with
        | none => cases h
        | some u => exact (KeepsLine.heapOnly (.pure u)).of_done h
      rw [hline, line_of_call hcall, Expr.line, Machine.goTo_goTo, Machine.line_goTo]
      rfl
    | composite shape line => cases h

/-- The actuals of a call leave the last line of those that are evaluated. -/
theorem line_of_evalActuals {f : String} {params : List String} {args : List Expr}
    {vs : List Variable} (h : evalActuals fuel f params args m = .done vs m') :
    m'.line = (Expr.lastLines (args.take params.length)).getD m.line := by
  induction params generalizing fuel args m vs with
  | nil =>
    cases fuel <;> cases h
    rfl
  | cons param params ih =>
    cases fuel with
    | zero => cases h
    | succ fuel =>
      cases args with
      | nil => cases h
      | cons arg args =>
        rw [evalActuals] at h
        obtain ⟨v, m₁, harg, h⟩ := bind_eq_done.1 h
        obtain ⟨rest, m₂, hrest, h⟩ := bind_eq_done.1 h
        obtain ⟨-, rfl⟩ := Outcome.done.inj h
        rw [ih hrest, line_of_eval harg, List.length_cons, List.take_succ_cons, Expr.lastLines,
          Option.getD_or]

/-! ## The faults of a call -/

namespace FaultsIn

theorem finishRound {E : Fault → Prop} : FaultsIn E finishRound := by
  refine (view _).bind fun signal => ?_
  cases signal with
  | normal => exact pure true
  | brk => exact (update _).bind fun _ => pure false
  | ret => exact pure false

variable {E : Fault → Prop} (hE : ∀ e, E (.heap e))
include hE

theorem duplicate (v : Variable) (o : Ownership) : FaultsIn E (duplicate v o) :=
  (askHeap hE _).bind fun _ => ((askHeap hE _).bind fun _ => (view _).bind fun _ =>
    (update _).bind fun _ => (update _).bind fun _ => pure _).bind fun _ =>
    ((askHeap hE _).bind fun _ => update _).bind fun _ => pure _

theorem rehome (v : Variable) (o : Ownership) : FaultsIn E (rehome v o) := by
  refine (askHeap hE _).bind fun owner => ?_
  cases owner with
  | temporary scope =>
    exact ((askHeap hE _).bind fun _ => update _).bind fun _ => pure v
  | owned scope => exact duplicate hE v o

theorem bindParameters (scope : ScopeId) (pairs : List (String × Variable)) :
    FaultsIn E (bindParameters scope pairs) := by
  induction pairs with
  | nil => exact pure ()
  | cons x pairs ih => exact (rehome hE _ _).bind fun _ => (update _).bind fun _ => ih

theorem enterFunction (f : FunctionDef) (vs : List Variable) : FaultsIn E (enterFunction f vs) :=
  (update _).bind fun _ => (enterScope _ _).bind fun _ => bindParameters hE _ _

end FaultsIn

/-- A function is looked up on the spot; if there is none, the call itself is at fault. -/
theorem spec_findFunction_arity (name : String) (m : Machine) :
    Spec (findFunction name) m (fun _ => True) (fun e m' => m' = m ∧ ∃ e' ∈ e, e'.atCall = true)
      fun f m' => m' = m ∧ m.scopes.arity name = f.params.length := by
  refine Spec.findFunction (fun f hf _ => ⟨rfl, ?_⟩) ⟨rfl, _, rfl, rfl⟩ fun f => ⟨rfl, _, rfl, rfl⟩
  simp [ScopeStack.arity, hf]

end Exec

namespace Visit

open Exec

variable {fuel : Nat} {m m' : Machine} {e : Fault} {v w : Visit}

/-! ## Where a fault arises -/

/-- Actuals fault in one of them, or for want of one. -/
theorem actual_or_line {f : String} {params : List String} {args : List Expr}
    (h : evalActuals fuel f params args m = .fault e m') :
    (∃ w, Actual fuel params args m w ∧ w.Faults e m') ∨
      e.atCall = false ∧ m'.line = (Expr.lastLines (args.take params.length)).getD m.line := by
  induction params generalizing fuel args m with
  | nil => cases fuel <;> cases h
  | cons param params ih =>
    cases fuel with
    | zero => cases h
    | succ fuel =>
      cases args with
      | nil =>
        cases h
        exact .inr ⟨rfl, rfl⟩
      | cons arg args =>
        rw [evalActuals] at h
        rcases bind_eq_fault.1 h with h | ⟨v, m₁, harg, h⟩
        · exact .inl ⟨_, .first, h⟩
        rcases bind_eq_fault.1 h with h | ⟨vs, m₂, -, h⟩
        · rcases ih h with ⟨w, hw, hfault⟩ | ⟨hcall, hline⟩
          · exact .inl ⟨w, .later harg hw, hfault⟩
          · refine .inr ⟨hcall, ?_⟩
            rw [hline, line_of_eval harg, List.length_cons, List.take_succ_cons, Expr.lastLines,
              Option.getD_or]
        · cases h

/-- A call faults in an actual or in the body of the function, or by itself. -/
theorem called_or_line {name : String} {args : List Expr} {line : Nat}
    (h : call fuel name args line m = .fault e m') (he : e.code ≠ .snapshotLimitExceeded) :
    (∃ w, Called fuel name args line m w ∧ w.Faults e m') ∨
      m'.line = (if e.atCall then none
        else Expr.lastLines (args.take (m.scopes.arity name))).getD (m.goTo line).line := by
  cases fuel with
  | zero => cases h
  | succ fuel =>
    rw [call_apply, goToLine_bind, bind_of_done rfl] at h
    rcases bind_eq_fault.1 h with h | ⟨f, m₀, hf, h⟩
    · obtain ⟨rfl, e', he', hcall⟩ := (spec_findFunction_arity name _).fault e m' h
      cases he'
      simp [hcall]
    obtain ⟨rfl, harity⟩ := (spec_findFunction_arity name _).done f m₀ hf
    rw [← m.scopes_goTo line, harity]
    rcases bind_eq_fault.1 h with h | ⟨vs, m₁, hvs, h⟩
    · rcases actual_or_line h with ⟨w, hw, hfault⟩ | ⟨hcall, hline⟩
      · exact .inl ⟨w, .actual hf hw, hfault⟩
      · simp [hcall, hline]
    rcases bind_eq_fault.1 h with h | ⟨_, m₂, henter, h⟩
    · have hcall : e.atCall = false :=
        FaultsIn.enterFunction (E := (·.atCall = false)) (fun _ => rfl) f vs m₁ e m' h
      simp [hcall, (KeepsLine.enterFunction f vs).of_fault h, line_of_evalActuals hvs]
    rcases bind_eq_fault.1 h with h | ⟨_, m₃, -, h⟩
    · obtain ⟨w, hw, hfault⟩ := exists_listed h he
      exact .inl ⟨w, .body hf hvs henter hw, hfault⟩
    · -- what follows the body does not fault
      exact ((FaultsIn.update _).bind (E := fun _ => False) (fun _ =>
        (FaultsIn.view _).bind fun _ => FaultsIn.exitScope.bind fun _ =>
          (FaultsIn.update _).bind fun _ => .pure _) _ _ _ h).elim

/-- After its operand, a node stays on the line that the operand left. -/
theorem operand_or_line {α : Type} {x : Expr} {line : Nat} {f : Variable → Exec α}
    (hf : ∀ u, KeepsLine (f u)) (h : (eval fuel x >>= f) (m.goTo line) = .fault e m') :
    eval fuel x (m.goTo line) = .fault e m' ∨
      m'.line = x.lastLine.getD ((knownLine line).getD m.line) := by
  rcases bind_eq_fault.1 h with h | ⟨u, m₁, hx, h⟩
  · exact .inl h
  · right
    rw [(hf u).of_fault h, line_of_eval hx, m.line_goTo]

theorem part_or_line_expr {x : Expr} (h : eval fuel x m = .fault e m')
    (he : e.code ≠ .snapshotLimitExceeded) :
    (∃ w, Part ⟨fuel, .expr x, m⟩ w ∧ w.Faults e m') ∨
      m'.line = faultLine ⟨fuel, .expr x, m⟩ e := by
  cases fuel with
  | zero => cases h
  | succ fuel =>
    unfold eval at h
    rw [goToLine_bind] at h
    cases x with
    | literal value line =>
      exact .inr (((KeepsLine.heapOnly (.allocValue value)).of_fault h).trans (m.line_goTo line))
    | identifier name line =>
      exact .inr (((KeepsLine.heapOnly (.readIdentifier name)).of_fault h).trans (m.line_goTo line))
    | unary op x line =>
      rcases operand_or_line (fun u => .heapOnly (.applyUnary op u)) h with h | h
      · exact .inl ⟨_, .unary, h⟩
      · exact .inr h
    | binary op x y line =>
      rcases bind_eq_fault.1 h with h | ⟨l, m₁, hx, h⟩
      · exact .inl ⟨_, .left, h⟩
      rcases bind_eq_fault.1 h with h | ⟨r, m₂, hy, h⟩
      · exact .inl ⟨_, .right hx, h⟩
      · right
        rw [(KeepsLine.heapOnly (.applyBinary op l r)).of_fault h, line_of_eval hy, line_of_eval hx,
          m.line_goTo]
        exact Option.getD_or.symm
    | assign target x line =>
      rcases operand_or_line (fun u => KeepsLine.stepClosed.assign target u) h with h | h
      · exact .inl ⟨_, .assign, h⟩
      · exact .inr h
    | print x line =>
      rcases operand_or_line (fun u => KeepsLine.stepClosed.printVariable u line) h with h | h
      · exact .inl ⟨_, .print, h⟩
      · exact .inr h
    | call name args line =>
      rcases bind_eq_fault.1 h with h | ⟨r, m₁, hcall, h⟩
      · rcases called_or_line h he with ⟨w, hw, hfault⟩ | hline
        · exact .inl ⟨w, .call hw, hfault⟩
        · right
          rw [Expr.line, m.goTo_goTo, m.scopes_goTo, m.line_goTo] at hline
          exact hline
      · cases r with
        | some u => cases h
        | none =>
          cases h
          right
          rw [line_of_call hcall, Expr.line, m.goTo_goTo, m.line_goTo]
          rfl
    | composite shape line =>
      cases h
      exact .inr (m.line_goTo line)

theorem exists_inside {kind : ScopeKind} {name : String} {body : List Stmt}
    (h : withScope kind name (fun _ => execList fuel body) m = .fault e m')
    (he : e.code ≠ .snapshotLimitExceeded) :
    ∃ w, Inside kind name fuel body m w ∧ w.Faults e m' := by
  obtain ⟨id, m₁, henter, h⟩ := withScope_eq_fault.1 h
  obtain ⟨w, hw, hfault⟩ := exists_listed h he
  exact ⟨w, ⟨id, m₁, henter, hw⟩, hfault⟩

theorem part_or_line_stmt {s : Stmt} (h : exec fuel s m = .fault e m')
    (he : e.code ≠ .snapshotLimitExceeded) :
    (∃ w, Part ⟨fuel, .stmt s, m⟩ w ∧ w.Faults e m') ∨
      m'.line = faultLine ⟨fuel, .stmt s, m⟩ e := by
  cases fuel with
  | zero => cases h
  | succ fuel =>
    cases s with
    | expr x =>
      by_cases hx : ∃ name args line, x = .call name args line
      · obtain ⟨name, args, line, rfl⟩ := hx
        rw [exec, goToLine_bind] at h
        rcases bind_eq_fault.1 h with h | ⟨r, m₁, hcall, h⟩
        · rcases called_or_line h he with ⟨w, hw, hfault⟩ | hline
          · exact .inl ⟨w, .callStmt hw, hfault⟩
          · right
            rw [Stmt.line, Expr.line, m.goTo_goTo, m.scopes_goTo, m.line_goTo] at hline
            exact hline
        · cases h
      · have hx : ∀ name args line, x ≠ .call name args line := by simpa using hx
        rw [exec_expr hx] at h
        rcases bind_eq_fault.1 h with h | ⟨u, m₁, -, h⟩
        · exact .inl ⟨_, .exprStmt hx, h⟩
        · cases h
    | block body line =>
      rw [exec, goToLine_bind] at h
      obtain ⟨w, hw, hfault⟩ := exists_inside h he
      exact .inl ⟨w, .block hw, hfault⟩
    | cond c yes no line =>
      unfold exec at h
      rw [goToLine_bind] at h
      rcases bind_eq_fault.1 h with h | ⟨u, m₁, hc, h⟩
      · exact .inl ⟨_, .condition, h⟩
      rcases bind_eq_fault.1 h with h | ⟨holds, m₂, ht, h⟩
      · right
        rw [(KeepsLine.heapOnly (.testCondition .cond u)).of_fault h, line_of_eval hc]
        rw [Stmt.line, m.line_goTo]
        rfl
      cases holds with
      | true =>
        obtain ⟨w, hw, hfault⟩ := exists_inside h he
        exact .inl ⟨w, .yes hc ht hw, hfault⟩
      | false =>
        cases no with
        | none => cases h
        | some no =>
          obtain ⟨w, hw, hfault⟩ := exists_inside h he
          exact .inl ⟨w, .no hc ht hw, hfault⟩
    | loop c body line =>
      rw [exec, goToLine_bind] at h
      exact .inl ⟨_, .loop, h⟩
    | function name params body line =>
      rw [exec, goToLine_bind] at h
      exact .inr (((KeepsLine.defineFunction _).of_fault h).trans (m.line_goTo line))
    | ret value line =>
      cases value with
      | none =>
        rw [exec, goToLine_bind] at h
        exact .inr (((KeepsLine.leaveFunction none).of_fault h).trans (m.line_goTo line))
      | some x =>
        rw [exec, goToLine_bind] at h
        rcases operand_or_line (fun u => KeepsLine.leaveFunction (some u)) h with h | h
        · exact .inl ⟨_, .ret, h⟩
        · exact .inr h
    | brk line =>
      rw [exec, goToLine_bind] at h
      cases h

/-- A round of a loop that starts on the line on which the machine is. -/
theorem part_or_line_round {c : Option Expr} {body : List Stmt} {rounds line : Nat}
    (h : execLoop fuel c body rounds m = .fault e m') (he : e.code ≠ .snapshotLimitExceeded)
    (hstart : startLine ⟨fuel, .round c body rounds line, m⟩ = m.line) :
    (∃ w, Part ⟨fuel, .round c body rounds line, m⟩ w ∧ w.Faults e m') ∨
      m'.line = faultLine ⟨fuel, .round c body rounds line, m⟩ e := by
  cases fuel with
  | zero => cases h
  | succ fuel =>
    rw [execLoop] at h
    rcases bind_eq_fault.1 h with h | ⟨proceed, m₁, hc, h⟩
    · cases c with
      | none => cases h
      | some c =>
        rcases bind_eq_fault.1 h with h | ⟨u, m₁, hc, h⟩
        · exact .inl ⟨_, .test, h⟩
        · right
          have htest : ∀ u, HeapOnly (do
              let proceed ← testCondition .loop u
              sweepCondition
              pure proceed) := fun u =>
            (HeapOnly.testCondition _ u).bind fun _ => HeapOnly.sweepCondition.bind fun _ => .pure _
          have hline : m'.line = m₁.line := (KeepsLine.heapOnly (htest u)).of_fault h
          rw [hline, line_of_eval hc, faultLine, hstart]
          rfl
    cases proceed with
    | false => cases h
    | true =>
      rcases bind_eq_fault.1 h with h | ⟨again, m₂, hround, h⟩
      · obtain ⟨id, m₂, henter, h⟩ := withScope_eq_fault.1 h
        rcases bind_eq_fault.1 h with h | ⟨_, m₃, -, h⟩
        · obtain ⟨w, hw, hfault⟩ := exists_listed h he
          exact .inl ⟨w, .body hc ⟨id, m₂, henter, hw⟩, hfault⟩
        · exact (FaultsIn.finishRound (E := fun _ => False) _ _ _ h).elim
      · cases again with
        | true => exact .inl ⟨_, .again hc hround, h⟩
        | false => cases h

/-! ## The line of the visit to blame -/

/-- A round starts on the line on which the machine is. -/
def Entered (v : Visit) : Prop :=
  match v.phrase with
  | .round .. => v.startLine = v.machine.line
  | _ => True

theorem Actual.entered {params : List String} {args : List Expr} (h : Actual fuel params args m w) :
    w.Entered := by
  induction h with
  | first => exact trivial
  | later _ _ ih => exact ih

theorem Listed.entered {body : List Stmt} (h : Listed fuel body m w) : w.Entered := by
  induction h with
  | first => exact trivial
  | later _ _ _ _ ih => exact ih

theorem Inside.entered {kind : ScopeKind} {name : String} {body : List Stmt}
    (h : Inside kind name fuel body m w) : w.Entered := by
  obtain ⟨_, _, _, h⟩ := h
  exact h.entered

theorem Called.entered {name : String} {args : List Expr} {line : Nat}
    (h : Called fuel name args line m w) : w.Entered := by
  cases h with
  | actual _ h => exact h.entered
  | body _ _ _ h => exact h.entered

theorem Part.entered (h : Part v w) : w.Entered := by
  cases h with
  | call h | callStmt h => exact h.entered
  | block h | yes _ _ h | no _ _ h | body _ h => exact h.entered
  | @loop fuel c body line m =>
    -- the statement went to its line just before
    exact ((m.goTo line).line_goTo line).symm.trans (by rw [m.goTo_goTo])
  | again => rfl
  | _ => trivial

theorem entered_of_reaches (h : Relation.ReflTransGen Part v w) (hv : v.Entered) : w.Entered := by
  cases h with
  | refl => exact hv
  | tail _ hpart => exact hpart.entered

theorem line_of_blamed (hv : v.Entered) (hblamed : v.Blamed e) (h : v.Faults e m')
    (he : e.code ≠ .snapshotLimitExceeded) : m'.line = v.faultLine e := by
  have hparts : (∃ w, Part v w ∧ w.Faults e m') ∨ m'.line = v.faultLine e := by
    obtain ⟨fuel, phrase, m⟩ := v
    cases phrase with
    | expr x => exact part_or_line_expr h he
    | stmt s => exact part_or_line_stmt h he
    | round c body rounds line => exact part_or_line_round h he hv
  rcases hparts with ⟨w, hw, hfault⟩ | hline
  · exact absurd hfault (hblamed.parts w hw e m')
  · exact hline

/-- The line of the node is that of its fault if the operands before it end on the same line. -/
theorem knownLine_faultLine (hline : 0 < v.phrase.line) (hv : v.phrase.isLaterRound = false) :
    knownLine (v.faultLine e) = some v.phrase.line ↔ ∀ l ∈ v.operandLine e, l = v.phrase.line := by
  have hstart : v.startLine = v.phrase.line := by simp [startLine, hv, knownLine, hline]
  rw [faultLine, hstart]
  cases v.operandLine e with
  | none => simp [knownLine, hline]
  | some l =>
    by_cases hl : 0 < l
    · simp [knownLine, hl]
    · simp [knownLine, hl]
      omega

end Visit

theorem Exec.line_recordFault (m : Machine) : (recordFault m).line = m.line := by
  unfold recordFault
  split
  · split <;> rfl
  · rfl

/-! ## Main results -/

/-- A run faults in a node all of whose parts come to an end. The report names the last line of the
operands that were evaluated before, and so the line of the node exactly if these end on it. -/
theorem fault_reported_at_last_operand {fuel : Nat} {m m' : Machine} {e : Fault}
    (h : Exec.run fuel m = .fault e m') (he : e.code ≠ .snapshotLimitExceeded) :
    (∃ v, m.Executes fuel v ∧ v.Blamed e) ∧
    ∀ v, m.Executes fuel v → v.Blamed e →
      (m'.diagnose e).line = knownLine (v.faultLine e) ∧
      (0 < v.phrase.line → v.phrase.isLaterRound = false →
        ((m'.diagnose e).line = some v.phrase.line ↔
          ∀ l ∈ v.operandLine e, l = v.phrase.line)) := by
  refine ⟨?_, fun v hv hblamed => ?_⟩
  · obtain ⟨m₀, w, m₁, hstart, hw, hfault, -⟩ := exists_listed_of_run h he
    obtain ⟨v, hreach, hblamed⟩ := Visit.exists_blamed hfault
    exact ⟨v, ⟨m₀, w, hstart, hw, hreach⟩, hblamed⟩
  · obtain ⟨m₁, hfault⟩ := hblamed.faults
    have hentered : v.Entered := by
      obtain ⟨m₀, w, -, hw, hreach⟩ := hv
      exact Visit.entered_of_reaches hreach hw.entered
    have hline : (m'.diagnose e).line = knownLine (v.faultLine e) := by
      rw [Machine.diagnose, ← recordFault_of_executes h he hv hfault, Exec.line_recordFault,
        Visit.line_of_blamed hentered hblamed hfault he]
    refine ⟨hline, fun hpos hround => ?_⟩
    rw [hline]
    exact Visit.knownLine_faultLine hpos hround

/-- Negates a parameter on lines 2 and 3, in a call on lines 4 and 5 that gives it a boolean. -/
def Machine.negatingTrue : Machine :=
  .initial [.function "f" ["p"] [.expr (.unary .neg (.identifier "p" 3) 2)] 1,
    .expr (.call "f" [.literal (.boolean true) 5] 4)] { heapCapacity := 8 }

/-- The report names the line of the operand. -/
theorem fault_reported_at_operand_negatingTrue :
    ∃ e m', Exec.run 8 .negatingTrue = .fault e m' ∧ e.code ≠ .snapshotLimitExceeded ∧
      (∃ v, Machine.negatingTrue.Executes 8 v ∧ v.Blamed e ∧
        (m'.diagnose e).line = knownLine (v.faultLine e)) ∧
      (m'.diagnose e).line = some 3 := by
  have h : Exec.run 8 .negatingTrue = .fault (.operandType (.unary .neg .boolean)) _ :=
    Outcome.eq_fault (by decide +kernel)
  obtain ⟨⟨v, hv, hblamed⟩, hline⟩ := fault_reported_at_last_operand h (by decide)
  exact ⟨_, _, h, by decide, ⟨v, hv, hblamed, (hline v hv hblamed).1⟩, by decide +kernel⟩

/-- The negation of `true`, which is on the line below its operator. -/
def Expr.negatedBelow : Expr := .unary .neg (.literal (.boolean true) 2) 1

/-- The negation on line 1 fails after its operand was evaluated, and line 2 is reported. -/
theorem fault_reported_off_its_node :
    ∃ (m m' : Machine) (e : Fault) (v : Visit), Exec.run 4 m = .fault e m' ∧
      e.code ≠ .snapshotLimitExceeded ∧ m.Executes 4 v ∧ v.Blamed e ∧ v.phrase.line = 1 ∧
      (m'.diagnose e).line = some 2 := by
  have hrun : Exec.run 4 (.initial [.expr .negatedBelow] { heapCapacity := 8 }) =
      .fault (.operandType (.unary .neg .boolean)) _ := Outcome.eq_fault (by decide +kernel)
  have hstart : (do Exec.note .starting; Exec.takeSnapshot)
      (Machine.initial [.expr .negatedBelow] { heapCapacity := 8 }) = .done () _ :=
    Outcome.eq_done (by decide +kernel)
  refine ⟨_, _, _, _, hrun, by decide, ⟨_, _, hstart, .first, .single (.exprStmt ?_)⟩,
    ⟨⟨_, Outcome.eq_fault (by decide +kernel)⟩, fun w hw e m hfault => ?_⟩, rfl, by decide +kernel⟩
  · intro name args line h
    cases h
  · cases hw
    have hdone : _ = false := congrArg Outcome.isDone hfault
    exact absurd hdone (by decide +kernel)

end HeapWalk
