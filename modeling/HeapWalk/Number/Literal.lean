import HeapWalk.Number.Basic

/-!
# Number literals

A number literal is a row of ASCII digits with at most one point among, before or after them. It
denotes the binary64 value nearest to the decimal it writes.
-/

set_option autoImplicit false

namespace HeapWalk

namespace Number

/-- The natural number that a row of digits writes. -/
def ofDigits (digits : List Char) : Nat :=
  digits.foldl (fun n c => 10 * n + (c.toNat - '0'.toNat)) 0

/-- The number nearest to `digits / 10 ^ places`. -/
def ofDecimal (digits : List Char) (places : Nat) : Number :=
  ofFloat (Float.ofScientific (ofDigits digits) true places)

/-- Reads a number literal: no sign, no exponent, no other characters. -/
def ofLiteral? (text : String) : Option Number :=
  let chars := text.toList
  let whole := chars.takeWhile Char.isDigit
  match chars.dropWhile Char.isDigit with
  | [] => if whole.isEmpty then none else some (ofDecimal whole 0)
  | point :: places =>
    if point = '.' && places.all Char.isDigit && !(whole.isEmpty && places.isEmpty) then
      some (ofDecimal (whole ++ places) places.length)
    else none

end Number

end HeapWalk
