import HeapWalk.Number.Literal

/-!
# Unsigned numbers in text

A natural number below `2 ^ 64` is written in decimal digits, possibly behind a plus sign; zeros in
front do not count.
-/

set_option autoImplicit false

namespace HeapWalk

def unsigned? (text : String) : Option Nat :=
  let digits := match text.toList with
    | '+' :: rest => rest
    | cs => cs
  let value := Number.ofDigits digits
  if !digits.isEmpty && digits.all Char.isDigit && value < 0x10000000000000000 then some value
  else none

end HeapWalk
