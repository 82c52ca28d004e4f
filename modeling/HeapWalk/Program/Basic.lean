import HeapWalk.Program.Operator

/-!
# Programs

A program is a list of statements. Every expression and every statement carries the number of its
source line, `0` if that is unknown.
-/

set_option autoImplicit false

namespace HeapWalk

inductive Expr where
  | literal (value : Value) (line : Nat)
  | identifier (name : String) (line : Nat)
  | unary (op : UnaryOp) (operand : Expr) (line : Nat)
  | binary (op : BinaryOp) (left right : Expr) (line : Nat)
  | assign (target : String) (value : Expr) (line : Nat)
  | print (operand : Expr) (line : Nat)
  | call (name : String) (args : List Expr) (line : Nat)
  /-- A list or record shape, which has no value. -/
  | composite (shape : String) (line : Nat)
deriving Repr, Inhabited

def Expr.line : Expr → Nat
  | literal _ line | identifier _ line | unary _ _ line | binary _ _ _ line | assign _ _ line
  | print _ line | call _ _ line | composite _ line => line

inductive Stmt where
  | expr (e : Expr)
  | block (body : List Stmt) (line : Nat)
  | cond (condition : Expr) (thenBranch : List Stmt) (elseBranch : Option (List Stmt)) (line : Nat)
  /-- Without a condition the loop runs until it is left. -/
  | loop (condition : Option Expr) (body : List Stmt) (line : Nat)
  | function (name : String) (params : List String) (body : List Stmt) (line : Nat)
  | ret (value : Option Expr) (line : Nat)
  | brk (line : Nat)
deriving Repr, Inhabited

def Stmt.line : Stmt → Nat
  | expr e => e.line
  | block _ line | cond _ _ _ line | loop _ _ line | function _ _ _ line | ret _ line
  | brk line => line

structure FunctionDef where
  name : String
  params : List String
  body : List Stmt
  line : Nat
deriving Repr, Inhabited

abbrev Program := List Stmt

end HeapWalk
