import HeapWalk.Fault
import HeapWalk.Program.Basic
import HeapWalk.Tree.Node

/-!
# From trees to programs

Labels say what a node stands for, its description holds the operator, name or literal, and its
parts are children or properties:

* `scope`, `block`: statements in `children`;
* `literal`: a number or boolean in `description`;
* `primary`: a name or a literal; with children, a composite;
* `operator`: the symbol in `description`, the operands in `children`;
* `call`: the callee in `description`, the actuals in the properties `args0`, `args1`, …;
* `function`: the name in `description`, the formals in `args`, the property `body`;
* `if`: the properties `condition`, `body` and possibly `else`;
* `loop`: the property `body` and possibly `condition`;
* `return`: an operand in the first child, if any;
* `break`.

All else in a node is ignored. A tree of another shape has a `Defect`, which carries the line of
the node where it was found.
-/

set_option autoImplicit false

namespace HeapWalk

/-! ## Defects -/

/-- The ways in which a node is malformed. -/
inductive Malformation where
  | unexpectedStatement (label : String)
  | invalidExpression (label : String)
  | invalidLiteral (text : String)
  | namelessPrimary
  | missingPart (label part : String)
  | namelessFunction
  | namelessParameter (function : String)
  | operandCount (symbol : String) (count : Nat)
  | namelessCallee
  | notAssignable (text : String)
deriving DecidableEq, Repr, Inhabited

def Malformation.text : Malformation → String
  | unexpectedStatement label => s!"unexpected statement '{label}'"
  | invalidExpression label => s!"invalid expression '{label}'"
  | invalidLiteral text => s!"invalid literal '{text}'"
  | namelessPrimary => "primary without a name"
  | missingPart label part => s!"'{label}' node is missing its '{part}'"
  | namelessFunction => "function without a name"
  | namelessParameter function => s!"unnamed parameter in function '{function}'"
  | operandCount symbol count => s!"operator '{symbol}' applied to {count} operands"
  | namelessCallee => "call without a callee"
  | notAssignable text => s!"cannot assign to '{text}'"

/-- Why a tree is no program. -/
inductive Defect where
  | invalidOperator (symbol : String) (line : Nat)
  | malformed (m : Malformation) (line : Nat)
deriving DecidableEq, Repr, Inhabited

namespace Defect

def code : Defect → Code
  | invalidOperator .. => .invalidOperator
  | malformed .. => .malformedTree

def message : Defect → String
  | invalidOperator symbol _ => s!"invalid operator '{symbol}'"
  | malformed m _ => s!"malformed syntax tree: {m.text}"

def line : Defect → Nat
  | invalidOperator _ line => line
  | malformed _ line => line

end Defect

/-! ## Labels -/

inductive Label where
  | block
  | literal
  | primary
  | operator
  | call
  | function
  | cond
  | loop
  | ret
  | brk
deriving DecidableEq, Repr, Inhabited

def Label.ofText? : String → Option Label
  | "scope" => some block
  | "block" => some block
  | "literal" => some literal
  | "primary" => some primary
  | "operator" => some operator
  | "call" => some call
  | "function" => some function
  | "if" => some cond
  | "loop" => some loop
  | "return" => some ret
  | "break" => some brk
  | _ => none

namespace Node

def kind? (n : Node) : Option Label := Label.ofText? n.label

def malformed {α : Type} (n : Node) (m : Malformation) : Except Defect α :=
  .error (.malformed m n.line)

def lacks {α : Type} (n : Node) (part : String) : Except Defect α :=
  n.malformed (.missingPart n.label part)

/-! ## Names -/

/-- The name of the property that holds the actual of index `k`. -/
def actualName (k : Nat) : String := s!"args{k}"

/-- At most `count` actuals of a call, from index `k` on, up to the first that is missing. -/
def actualsFrom (n : Node) : (count k : Nat) → List Node
  | 0, _ => []
  | count + 1, k =>
    match n.property? (actualName k) with
    | some a => a :: actualsFrom n count (k + 1)
    | none => []

/-- The actuals of a call: the properties `args0`, `args1`, … up to the first that is missing. There
are no more of them than the node has properties. -/
def actuals (n : Node) : List Node := n.actualsFrom n.properties.length 0

theorem sizeOf_lt_of_mem_actualsFrom {n a : Node} {count k : Nat}
    (h : a ∈ n.actualsFrom count k) : sizeOf a < sizeOf n := by
  induction count generalizing k with
  | zero => simp [actualsFrom] at h
  | succ count ih =>
    simp only [actualsFrom] at h
    split at h
    · rename_i b hb
      rcases List.mem_cons.1 h with rfl | h
      · exact sizeOf_lt_of_property? hb
      · exact ih h
    · simp at h

theorem sizeOf_lt_of_mem_actuals {n a : Node} (h : a ∈ n.actuals) : sizeOf a < sizeOf n :=
  sizeOf_lt_of_mem_actualsFrom h

/-- The names of the formals of a function. -/
def formals (n : Node) : Except Defect (List String) :=
  match n.property? "args" with
  | none => .ok []
  | some args => args.children.mapM fun param =>
    if param.description = "" then param.malformed (.namelessParameter n.description)
    else .ok param.description

/-- A node that names a variable: it has no children, and its text is neither empty nor a literal. -/
def isTarget (n : Node) : Bool :=
  (n.label = "primary" || n.label = "identifier") && n.children.isEmpty && n.description != "" &&
    (Value.ofLiteral? n.description).isNone

def target (n : Node) : Except Defect String :=
  if n.isTarget then .ok n.description else n.malformed (.notAssignable n.description)

/-! ## Expressions -/

/-- An operator with one operand. -/
def unaryExpr (n : Node) (operand : Expr) : Except Defect Expr :=
  match n.description with
  | "+" => .ok (.unary .plus operand n.line)
  | "-" => .ok (.unary .neg operand n.line)
  | "#" => .ok (.print operand n.line)
  | symbol => .error (.invalidOperator symbol n.line)

/-- The defect of an operator with neither one nor two operands. -/
def operandDefect (n : Node) : Defect :=
  let symbol := n.description
  if (BinaryOp.ofSymbol? symbol).isSome || symbol = "=" || symbol = "#" then
    .malformed (.operandCount symbol n.children.length) n.line
  else .invalidOperator symbol n.line

def primaryExpr (n : Node) : Except Defect Expr :=
  if !n.children.isEmpty then .ok (.composite n.description n.line)
  else match Value.ofLiteral? n.description with
    | some value => .ok (.literal value n.line)
    | none =>
      if n.description = "" then n.malformed .namelessPrimary
      else .ok (.identifier n.description n.line)

/-- The expression that a node stands for. -/
def toExpr (n : Node) : Except Defect Expr :=
  match n.kind? with
  | some .literal =>
    match Value.ofLiteral? n.description with
    | some value => .ok (.literal value n.line)
    | none => n.malformed (.invalidLiteral n.description)
  | some .primary => n.primaryExpr
  | some .operator =>
    match _h : n.children with
    | [operand] => do
      let operand ← operand.toExpr
      n.unaryExpr operand
    | [left, right] =>
      if n.description = "=" then do
        let name ← left.target
        let value ← right.toExpr
        .ok (.assign name value n.line)
      else match BinaryOp.ofSymbol? n.description with
        | none => .error (.invalidOperator n.description n.line)
        | some op => do
          let left ← left.toExpr
          let right ← right.toExpr
          .ok (.binary op left right n.line)
    | _ => .error n.operandDefect
  | some .call =>
    if n.description = "" then n.malformed .namelessCallee
    else do
      let args ← n.actuals.attach.mapM fun a => a.val.toExpr
      .ok (.call n.description args n.line)
  | _ => n.malformed (.invalidExpression n.label)
termination_by sizeOf n
decreasing_by
  all_goals first
    | exact sizeOf_lt_of_mem_actuals a.property
    | exact sizeOf_lt_of_mem_children (by simp [_h])

/-! ## Statements -/

mutual

/-- The statement that a node stands for. -/
def toStmt (n : Node) : Except Defect Stmt :=
  match n.kind? with
  | some .block => do
    let body ← n.children.attach.mapM fun c => c.val.toStmt
    .ok (.block body n.line)
  | some .cond =>
    match n.property? "condition" with
    | none => n.lacks "condition"
    | some condition => do
      let condition ← condition.toExpr
      match _h : n.property? "body" with
      | none => n.lacks "body"
      | some body =>
        let thenBranch ← body.toStmts
        match _h : n.property? "else" with
        | none => .ok (.cond condition thenBranch none n.line)
        | some other =>
          let elseBranch ← other.toStmts
          .ok (.cond condition thenBranch (some elseBranch) n.line)
  | some .loop => do
    let condition ← (n.property? "condition").mapM toExpr
    match _h : n.property? "body" with
    | none => n.lacks "body"
    | some body =>
      let body ← body.toStmts
      .ok (.loop condition body n.line)
  | some .function =>
    if n.description = "" then n.malformed .namelessFunction
    else do
      let params ← n.formals
      match _h : n.property? "body" with
      | none => n.lacks "body"
      | some body =>
        let body ← body.toStmts
        .ok (.function n.description params body n.line)
  | some .ret => do
    let value ← n.children.head?.mapM toExpr
    .ok (.ret value n.line)
  | some .brk => .ok (.brk n.line)
  | some .literal | some .primary | some .operator | some .call => do
    let e ← n.toExpr
    .ok (.expr e)
  | none => n.malformed (.unexpectedStatement n.label)
termination_by (sizeOf n, 0)
decreasing_by
  all_goals apply Prod.Lex.left
  all_goals first
    | exact sizeOf_lt_of_mem_children c.property
    | exact sizeOf_lt_of_property? _h

/-- The statements that a node stands for: those of a block, or a single one. -/
def toStmts (n : Node) : Except Defect (List Stmt) :=
  if n.kind? = some .block then n.children.attach.mapM fun c => c.val.toStmt
  else do
    let s ← n.toStmt
    .ok [s]
termination_by (sizeOf n, 1)
decreasing_by
  · exact Prod.Lex.left _ _ (sizeOf_lt_of_mem_children c.property)
  · exact Prod.Lex.right _ (by decide)

end

/-- The program that a tree stands for; its root is the block of the global scope. -/
def toProgram (n : Node) : Except Defect Program := n.toStmts

end Node

end HeapWalk
