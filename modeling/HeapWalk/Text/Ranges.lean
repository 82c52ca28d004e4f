/-!
# Ranges of characters

A class of characters is written as the list of its ranges: pairs of a first and a last code point,
in order and apart from each other.
-/

set_option autoImplicit false

namespace HeapWalk

abbrev CharRanges := List (Nat × Nat)

/-- The first range that does not end before the character decides. -/
def CharRanges.contains (ranges : CharRanges) (c : Char) : Bool :=
  match ranges.find? fun (_, last) => c.toNat ≤ last with
  | some (first, _) => first ≤ c.toNat
  | none => false

/-- Characters that only make room. -/
def blankRanges : CharRanges :=
  [(0x9, 0xd), (0x20, 0x20), (0x85, 0x85), (0xa0, 0xa0), (0x1680, 0x1680), (0x2000, 0x200a),
    (0x2028, 0x2029), (0x202f, 0x202f), (0x205f, 0x205f), (0x3000, 0x3000)]

def isBlank (c : Char) : Bool := blankRanges.contains c

/-- `cs` without the blanks at its ends. -/
def trimBlanks (cs : List Char) : List Char :=
  ((cs.dropWhile isBlank).reverse.dropWhile isBlank).reverse

end HeapWalk
