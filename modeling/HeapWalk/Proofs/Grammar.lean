import HeapWalk.Program.Lowering

/-!
# The grammar of syntax trees

Which tree stands for which expression, statement or program, said by one rule for each shape of a
node: `Node.IsExpr`, `Node.IsStmt` and `Node.IsBlock`. A rule names the label, the text, the
children and the properties that it looks at; it says nothing of the rest of the node, which is
ignored.

`Literal` says the same of texts: which of them write a value.
-/

set_option autoImplicit false

namespace HeapWalk

/-- The text writes the value: digits with at most one point among them, which write the nearest
number, or one of two words. -/
inductive Literal (text : String) : Value → Prop where
  | whole (digits : List Char) (ht : text.toList = digits) (hne : digits ≠ [])
    (hd : ∀ c ∈ digits, c.isDigit = true) : Literal text (.number (.ofDecimal digits 0))
  | decimal (whole places : List Char) (ht : text.toList = whole ++ '.' :: places)
    (hne : whole ≠ [] ∨ places ≠ []) (hw : ∀ c ∈ whole, c.isDigit = true)
    (hp : ∀ c ∈ places, c.isDigit = true) :
    Literal text (.number (.ofDecimal (whole ++ places) places.length))
  | true (ht : text = "true") : Literal text (.boolean true)
  | false (ht : text = "false") : Literal text (.boolean false)

namespace Node

variable {n : Node}

/-- The text can name a variable. -/
def IsName (text : String) : Prop := text ≠ "" ∧ ∀ v, ¬ Literal text v

/-- The node stands on the left of an assignment. -/
structure Names (n : Node) (name : String) : Prop where
  label : n.label = "primary" ∨ n.label = "identifier"
  children : n.children = []
  text : n.description = name
  isName : IsName name

mutual

/-- The node stands for the expression. -/
inductive IsExpr : Node → Expr → Prop where
  | literal {n : Node} {v : Value} (hl : n.label = "literal") (hv : Literal n.description v) :
    IsExpr n (.literal v n.line)
  | composite {n : Node} (hl : n.label = "primary") (hc : n.children ≠ []) :
    IsExpr n (.composite n.description n.line)
  | constant {n : Node} {v : Value} (hl : n.label = "primary") (hc : n.children = [])
    (hv : Literal n.description v) : IsExpr n (.literal v n.line)
  | identifier {n : Node} (hl : n.label = "primary") (hc : n.children = [])
    (hn : IsName n.description) : IsExpr n (.identifier n.description n.line)
  | unary {n x : Node} {e : Expr} (op : UnaryOp) (hl : n.label = "operator") (hc : n.children = [x])
    (hs : n.description = op.symbol) (hx : IsExpr x e) : IsExpr n (.unary op e n.line)
  | print {n x : Node} {e : Expr} (hl : n.label = "operator") (hc : n.children = [x])
    (hs : n.description = "#") (hx : IsExpr x e) : IsExpr n (.print e n.line)
  | assign {n x y : Node} {name : String} {e : Expr} (hl : n.label = "operator")
    (hc : n.children = [x, y]) (hs : n.description = "=") (hx : x.Names name) (hy : IsExpr y e) :
    IsExpr n (.assign name e n.line)
  | binary {n x y : Node} {d e : Expr} (op : BinaryOp) (hl : n.label = "operator")
    (hc : n.children = [x, y]) (hs : n.description = op.symbol) (hx : IsExpr x d)
    (hy : IsExpr y e) : IsExpr n (.binary op d e n.line)
  | call {n : Node} {es : List Expr} (hl : n.label = "call") (hs : n.description ≠ "")
    (ha : HasActuals n 0 es) : IsExpr n (.call n.description es n.line)

/-- The properties for the actuals from index `k` on, up to the first that is missing, stand for the
expressions. -/
inductive HasActuals : Node → Nat → List Expr → Prop where
  | nil {n : Node} {k : Nat} (ha : n.property? (actualName k) = none) : HasActuals n k []
  | cons {n a : Node} {k : Nat} {e : Expr} {es : List Expr}
    (ha : n.property? (actualName k) = some a) (hx : IsExpr a e) (hr : HasActuals n (k + 1) es) :
    HasActuals n k (e :: es)

end

/-- The formals of a function: the texts of the children of its property `args`, none of them
empty. -/
structure HasFormals (n : Node) (params : List String) : Prop where
  texts : params = (((n.property? "args").map children).getD []).map description
  nonempty : "" ∉ params

/-- The labels of a list of statements. -/
def IsBlockLabel (label : String) : Prop := label = "scope" ∨ label = "block"

mutual

/-- The node stands for the statement. -/
inductive IsStmt : Node → Stmt → Prop where
  | expr {n : Node} {e : Expr} (hx : n.IsExpr e) : IsStmt n (.expr e)
  | block {n : Node} {ss : List Stmt} (hl : IsBlockLabel n.label) (hs : AreStmts n.children ss) :
    IsStmt n (.block ss n.line)
  | cond {n c b : Node} {e : Expr} {ss : List Stmt} (hl : n.label = "if")
    (hc : n.property? "condition" = some c) (hx : c.IsExpr e) (hb : n.property? "body" = some b)
    (hs : IsBlock b ss) (ho : n.property? "else" = none) : IsStmt n (.cond e ss none n.line)
  | condElse {n c b o : Node} {e : Expr} {ss ts : List Stmt} (hl : n.label = "if")
    (hc : n.property? "condition" = some c) (hx : c.IsExpr e) (hb : n.property? "body" = some b)
    (hs : IsBlock b ss) (ho : n.property? "else" = some o) (ht : IsBlock o ts) :
    IsStmt n (.cond e ss (some ts) n.line)
  | forever {n b : Node} {ss : List Stmt} (hl : n.label = "loop")
    (hc : n.property? "condition" = none) (hb : n.property? "body" = some b) (hs : IsBlock b ss) :
    IsStmt n (.loop none ss n.line)
  | loop {n c b : Node} {e : Expr} {ss : List Stmt} (hl : n.label = "loop")
    (hc : n.property? "condition" = some c) (hx : c.IsExpr e) (hb : n.property? "body" = some b)
    (hs : IsBlock b ss) : IsStmt n (.loop (some e) ss n.line)
  | function {n b : Node} {params : List String} {ss : List Stmt} (hl : n.label = "function")
    (hd : n.description ≠ "") (hp : n.HasFormals params) (hb : n.property? "body" = some b)
    (hs : IsBlock b ss) : IsStmt n (.function n.description params ss n.line)
  | leave {n : Node} (hl : n.label = "return") (hc : n.children = []) : IsStmt n (.ret none n.line)
  | ret {n x : Node} {rest : List Node} {e : Expr} (hl : n.label = "return")
    (hc : n.children = x :: rest) (hx : x.IsExpr e) : IsStmt n (.ret (some e) n.line)
  | brk {n : Node} (hl : n.label = "break") : IsStmt n (.brk n.line)

/-- The nodes stand for the statements, one for one. -/
inductive AreStmts : List Node → List Stmt → Prop where
  | nil : AreStmts [] []
  | cons {n : Node} {ns : List Node} {s : Stmt} {ss : List Stmt} (hs : IsStmt n s)
    (hr : AreStmts ns ss) : AreStmts (n :: ns) (s :: ss)

/-- The node stands for a list of statements: it is labelled as one, or it is a single statement,
such as an `if` in the property `else` of another one. -/
inductive IsBlock : Node → List Stmt → Prop where
  | many {n : Node} {ss : List Stmt} (hl : IsBlockLabel n.label) (hs : AreStmts n.children ss) :
    IsBlock n ss
  | single {n : Node} {s : Stmt} (hl : ¬ IsBlockLabel n.label) (hs : IsStmt n s) : IsBlock n [s]

end

/-- The second node occurs in the first one. -/
inductive Occurs : Node → Node → Prop where
  | root (n : Node) : Occurs n n
  | child {n c x : Node} (hc : c ∈ n.children) (hx : Occurs c x) : Occurs n x
  | property {n p x : Node} {name : String} (hp : n.property? name = some p) (hx : Occurs p x) :
    Occurs n x

end Node

end HeapWalk
