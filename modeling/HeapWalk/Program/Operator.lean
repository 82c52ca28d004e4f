import HeapWalk.Value.Basic

/-!
# Operators

Arithmetic and comparison take two numbers, `&&` and `||` two booleans; an operator has no value
on other operands.
-/

set_option autoImplicit false

namespace HeapWalk

inductive UnaryOp where
  | plus
  | neg
deriving DecidableEq, Repr, Inhabited

namespace UnaryOp

def symbol : UnaryOp → String
  | plus => "+"
  | neg => "-"

def apply : UnaryOp → Number → Number
  | plus, n => n
  | neg, n => n.neg

end UnaryOp

inductive BinaryOp where
  | add
  | sub
  | mul
  | div
  | lt
  | gt
  | le
  | ge
  | eq
  | ne
  | and
  | or
deriving DecidableEq, Repr, Inhabited

namespace BinaryOp

def symbol : BinaryOp → String
  | add => "+"
  | sub => "-"
  | mul => "*"
  | div => "/"
  | lt => "<"
  | gt => ">"
  | le => "<="
  | ge => ">="
  | eq => "=="
  | ne => "!="
  | and => "&&"
  | or => "||"

def ofSymbol? : String → Option BinaryOp
  | "+" => some add
  | "-" => some sub
  | "*" => some mul
  | "/" => some div
  | "<" => some lt
  | ">" => some gt
  | "<=" => some le
  | ">=" => some ge
  | "==" => some eq
  | "!=" => some ne
  | "&&" => some and
  | "||" => some or
  | _ => none

def applyNumbers (op : BinaryOp) (x y : Number) : Option Value :=
  match op with
  | add => some (.number (x.add y))
  | sub => some (.number (x.sub y))
  | mul => some (.number (x.mul y))
  | div => some (.number (x.div y))
  | lt => some (.boolean (x.lt y))
  | gt => some (.boolean (y.lt x))
  | le => some (.boolean (x.le y))
  | ge => some (.boolean (y.le x))
  | eq => some (.boolean (x.eq y))
  | ne => some (.boolean (!x.eq y))
  | and | or => none

def applyBooleans (op : BinaryOp) (x y : Bool) : Option Value :=
  match op with
  | and => some (.boolean (x && y))
  | or => some (.boolean (x || y))
  | _ => none

/-- The value of `a op b`, if the operator takes operands of these types. -/
def apply (op : BinaryOp) : Value → Value → Option Value
  | .number x, .number y => op.applyNumbers x y
  | .boolean x, .boolean y => op.applyBooleans x y
  | _, _ => none

end BinaryOp

end HeapWalk
