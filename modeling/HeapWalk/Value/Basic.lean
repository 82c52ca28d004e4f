import HeapWalk.Number.Literal
import HeapWalk.Number.Shortest

/-!
# Values

A value of the language is a number or a boolean. Its type fixes how many bytes of storage it
needs: eight for a number, one for a boolean.
-/

set_option autoImplicit false

namespace HeapWalk

inductive ValueType where
  | number
  | boolean
deriving DecidableEq, Repr, Inhabited

namespace ValueType

/-- Storage size in bytes. -/
def size : ValueType → Nat
  | number => 8
  | boolean => 1

def text : ValueType → String
  | number => "number"
  | boolean => "boolean"

end ValueType

inductive Value where
  | number (n : Number)
  | boolean (b : Bool)
deriving DecidableEq, Repr, Inhabited

namespace Value

def type : Value → ValueType
  | number _ => .number
  | boolean _ => .boolean

def number? : Value → Option Number
  | number n => some n
  | boolean _ => none

def boolean? : Value → Option Bool
  | number _ => none
  | boolean b => some b

def booleanText (b : Bool) : String := if b then "true" else "false"

/-- The text a value is printed as. -/
def text : Value → String
  | number n => n.text
  | boolean b => booleanText b

/-- Reads `true` or `false`. -/
def ofBooleanLiteral? (text : String) : Option Bool :=
  if text = "true" then some true
  else if text = "false" then some false
  else none

/-- Reads a number literal or one of the words `true` and `false`. -/
def ofLiteral? (text : String) : Option Value :=
  (Number.ofLiteral? text).map number <|> (ofBooleanLiteral? text).map boolean

end Value

end HeapWalk
