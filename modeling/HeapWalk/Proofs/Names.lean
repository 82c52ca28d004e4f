import HeapWalk.Proofs.Exactness

/-!
# The names that a program binds

A program binds the targets of its assignments and the parameters of its functions, at any depth
(`Program.Assigns`, `Program.HasParameter`). A name is read by a `primary` node that has the name as
its text, and such a node is a literal wherever its text writes one; so `Node.ReadsBack` holds of
the names that are neither empty nor literals (`Node.readsBack_iff`).

Each statement and each expression of a program stands for some node, so what the grammar asks of
one node holds all over the program. It asks of a target that it reads back. Of a parameter it only
asks that it is not empty: a parameter named `true` or `1` is bound at each call and cannot be read.
-/

set_option autoImplicit false

namespace HeapWalk

/-! ## Parts of programs -/

/-- The expressions that an expression is made of. -/
def Expr.parts : Expr → List Expr
  | .literal .. | .identifier .. | .composite .. => []
  | .unary _ operand _ | .print operand _ => [operand]
  | .binary _ left right _ => [left, right]
  | .assign _ value _ => [value]
  | .call _ args _ => args

/-- The second expression occurs in the first one, at any depth. -/
inductive Expr.Contains : Expr → Expr → Prop where
  | self (e : Expr) : Contains e e
  | part {e d x : Expr} (hd : d ∈ e.parts) (hx : Contains d x) : Contains e x

namespace Stmt

/-- The expressions that a statement is made of. -/
def exprs : Stmt → List Expr
  | expr e => [e]
  | cond condition _ _ _ => [condition]
  | loop condition _ _ => condition.toList
  | ret value _ => value.toList
  | block .. | function .. | brk .. => []

/-- The lists of statements that a statement is made of. -/
def lists : Stmt → List (List Stmt)
  | block body _ | loop _ body _ | function _ _ body _ => [body]
  | cond _ thenBranch elseBranch _ => thenBranch :: elseBranch.toList
  | expr .. | ret .. | brk .. => []

end Stmt

namespace Program

/-- The statement occurs in the program, at any depth. -/
inductive Contains : Program → Stmt → Prop where
  | member {p : Program} {s : Stmt} (hs : s ∈ p) : Contains p s
  | inside {p : Program} {s t : Stmt} {body : List Stmt} (hs : s ∈ p) (hb : body ∈ s.lists)
    (ht : Contains body t) : Contains p t

/-- The name is the target of an assignment somewhere in the program. -/
def Assigns (p : Program) (name : String) : Prop :=
  ∃ s, p.Contains s ∧ ∃ e ∈ s.exprs, ∃ value line, e.Contains (.assign name value line)

/-- The name is a parameter of a function somewhere in the program. -/
def HasParameter (p : Program) (name : String) : Prop :=
  ∃ f params body line, p.Contains (.function f params body line) ∧ name ∈ params

end Program

namespace Node

/-- Every childless `primary` node with this text reads the variable of this name. -/
def ReadsBack (name : String) : Prop :=
  ∀ n : Node, n.label = "primary" → n.children = [] → n.description = name →
    n.toExpr = .ok (.identifier name n.line)

theorem readsBack_iff {name : String} : ReadsBack name ↔ IsName name := by
  constructor
  · intro h
    have hread := h { label := "primary", description := name } rfl rfl rfl
    rcases (isExpr_of_primary rfl rfl).1 ((decides_toExpr _).ok _ |>.1 hread) with
      ⟨v, -, heq⟩ | ⟨hname, -⟩
    · cases heq
    · exact hname
  · rintro hname n hl hc rfl
    exact ((decides_toExpr n).ok _).2 ((isExpr_of_primary hl hc).2 (.inr ⟨hname, rfl⟩))

/-! ## What the parts stand for -/

theorem exists_of_forall₂ {α β : Type} {R : α → β → Prop} {as : List α} {bs : List β}
    (h : List.Forall₂ R as bs) {b : β} (hb : b ∈ bs) : ∃ a, R a b := by
  induction h with
  | nil => cases hb
  | cons hab _ ih =>
    rcases List.mem_cons.1 hb with rfl | hb
    · exact ⟨_, hab⟩
    · exact ih hb

theorem IsExpr.exists_of_part {n : Node} {e d : Expr} (h : n.IsExpr e) (hd : d ∈ e.parts) :
    ∃ x : Node, x.IsExpr d := by
  cases h with
  | literal | composite | constant | identifier => cases hd
  | unary _ _ _ _ hx | print _ _ _ hx | assign _ _ _ _ hx =>
    rw [List.mem_singleton.1 hd]
    exact ⟨_, hx⟩
  | binary _ _ _ _ hx hy =>
    rcases List.mem_cons.1 hd with rfl | hd
    · exact ⟨_, hx⟩
    · rw [List.mem_singleton.1 hd]
      exact ⟨_, hy⟩
  | call _ _ ha => exact exists_of_forall₂ (hasActuals_zero.1 ha) hd

theorem IsExpr.exists_of_contains {n : Node} {e x : Expr} (h : n.IsExpr e) (hx : e.Contains x) :
    ∃ y : Node, y.IsExpr x := by
  induction hx generalizing n with
  | self => exact ⟨n, h⟩
  | part hd _ ih =>
    obtain ⟨y, hy⟩ := h.exists_of_part hd
    exact ih hy

theorem IsStmt.exists_expr {n : Node} {s : Stmt} {e : Expr} (h : n.IsStmt s) (he : e ∈ s.exprs) :
    ∃ x : Node, x.IsExpr e := by
  cases h with
  | expr hx | cond _ _ hx | condElse _ _ hx | loop _ _ hx | ret _ _ hx =>
    rw [List.mem_singleton.1 he]
    exact ⟨_, hx⟩
  | block | forever | function | leave | brk => cases he

theorem IsStmt.exists_list {n : Node} {s : Stmt} {body : List Stmt} (h : n.IsStmt s)
    (hb : body ∈ s.lists) : ∃ x : Node, x.IsBlock body := by
  cases h with
  | block hl hs =>
    rw [List.mem_singleton.1 hb]
    exact ⟨n, .many hl hs⟩
  | cond _ _ _ _ hs | forever _ _ _ hs | loop _ _ _ _ hs | function _ _ _ _ hs =>
    rw [List.mem_singleton.1 hb]
    exact ⟨_, hs⟩
  | condElse _ _ _ _ hs _ ht =>
    rcases List.mem_cons.1 hb with rfl | hb
    · exact ⟨_, hs⟩
    · rw [List.mem_singleton.1 hb]
      exact ⟨_, ht⟩
  | expr | leave | ret | brk => cases hb

theorem IsBlock.exists_member {n : Node} {p : Program} {s : Stmt} (h : n.IsBlock p) (hs : s ∈ p) :
    ∃ x : Node, x.IsStmt s := by
  cases h with
  | many _ hss => exact exists_of_forall₂ (areStmts_iff.1 hss) hs
  | single _ hx =>
    rw [List.mem_singleton.1 hs]
    exact ⟨n, hx⟩

theorem IsBlock.exists_of_contains {n : Node} {p : Program} {s : Stmt} (h : n.IsBlock p)
    (hs : p.Contains s) : ∃ x : Node, x.IsStmt s := by
  induction hs generalizing n with
  | member hs => exact h.exists_member hs
  | inside hs hb _ ih =>
    obtain ⟨x, hx⟩ := h.exists_member hs
    obtain ⟨y, hy⟩ := hx.exists_list hb
    exact ih hy

/-! ## Targets and parameters -/

theorem IsBlock.isName_of_assigns {n : Node} {p : Program} {name : String} (h : n.IsBlock p)
    (hp : p.Assigns name) : IsName name := by
  obtain ⟨s, hs, e, he, value, line, hassign⟩ := hp
  obtain ⟨x, hx⟩ := h.exists_of_contains hs
  obtain ⟨y, hy⟩ := hx.exists_expr he
  obtain ⟨z, hz⟩ := hy.exists_of_contains hassign
  cases hz with
  | assign _ _ _ htarget _ => exact htarget.isName

theorem IsBlock.nonempty_of_hasParameter {n : Node} {p : Program} {name : String} (h : n.IsBlock p)
    (hp : p.HasParameter name) : name ≠ "" := by
  obtain ⟨f, params, body, line, hf, hname⟩ := hp
  obtain ⟨x, hx⟩ := h.exists_of_contains hf
  cases hx with
  | function _ _ hformals _ _ =>
    rintro rfl
    exact hformals.nonempty hname

/-- Every name that a program assigns can be read back. A parameter is not empty, and can be read
back exactly if its text is not a literal. -/
theorem bound_names_read_back {tree : Node} {p : Program} (h : tree.toProgram = .ok p) :
    (∀ name, p.Assigns name → ReadsBack name) ∧
      ∀ name, p.HasParameter name →
        name ≠ "" ∧ (ReadsBack name ↔ Value.ofLiteral? name = none) := by
  have hblock : tree.IsBlock p :=
    ((decides_toStmts fun x _ => x.decides_toStmt).ok p).1 h
  refine ⟨fun name hname => readsBack_iff.2 (hblock.isName_of_assigns hname), fun name hname => ?_⟩
  have hne := hblock.nonempty_of_hasParameter hname
  refine ⟨hne, ?_⟩
  rw [readsBack_iff, Value.ofLiteral?_eq_none]
  exact and_iff_right hne

/-- A function with the parameters `n` and `true`, the body of which assigns `true` to `n`. -/
def trueParameter : Node where
  label := "scope"
  children := [{
    label := "function"
    description := "f"
    properties := [
      ("args", {
        label := "args"
        children := [
          { label := "primary", description := "n" },
          { label := "primary", description := "true" }] }),
      ("body", {
        label := "operator"
        description := "="
        children := [
          { label := "primary", description := "n" },
          { label := "primary", description := "true" }] })] }]

theorem toProgram_trueParameter :
    trueParameter.toProgram = .ok [.function "f" ["n", "true"]
      [.expr (.assign "n" (.literal (.boolean true) 0) 0)] 0] := by
  have hn : IsName "n" := ⟨by decide, Value.ofLiteral?_eq_none.1 (by decide)⟩
  have hbody : IsExpr _ (.assign "n" (.literal (.boolean true) 0) 0) :=
    .assign (n := ⟨"operator", "=", [⟨"primary", "n", [], [], 0⟩, ⟨"primary", "true", [], [], 0⟩],
      [], 0⟩) rfl rfl rfl ⟨.inl rfl, rfl, rfl, hn⟩ (.constant rfl rfl (.true rfl))
  refine ((decides_toStmts fun x _ => x.decides_toStmt).ok _).2 (.many (.inl rfl) (.cons ?_ .nil))
  refine .function rfl (by decide) ⟨rfl, by decide⟩ rfl (.single ?_ (.expr hbody))
  simp [IsBlockLabel]

/-- The target of the assignment is read back, and so is the first parameter; the second one, whose
text is a literal, is not. -/
theorem bound_names_read_back_trueParameter :
    trueParameter.toProgram = .ok [.function "f" ["n", "true"]
      [.expr (.assign "n" (.literal (.boolean true) 0) 0)] 0] ∧
      ReadsBack "n" ∧ (ReadsBack "true" ↔ Value.ofLiteral? "true" = none) := by
  obtain ⟨htargets, hparameters⟩ := bound_names_read_back toProgram_trueParameter
  refine ⟨toProgram_trueParameter, htargets "n" ?_, (hparameters "true" ?_).2⟩
  · exact ⟨_, .inside List.mem_cons_self List.mem_cons_self (.member List.mem_cons_self), _,
      List.mem_cons_self, _, _, .self _⟩
  · exact ⟨_, _, _, _, .member List.mem_cons_self, by decide⟩

/-- A program that is accepted may have a parameter that cannot be read back. -/
theorem parameter_not_read_back :
    ∃ p : Program, trueParameter.toProgram = .ok p ∧ p.HasParameter "true" ∧
      ¬ ReadsBack "true" := by
  refine ⟨_, toProgram_trueParameter, ⟨_, _, _, _, .member List.mem_cons_self, by decide⟩, ?_⟩
  rw [readsBack_iff]
  exact fun hname => hname.2 (.boolean true) (.true rfl)

end Node

end HeapWalk
