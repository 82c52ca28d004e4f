/-!
# Numbers

The numbers of the language are IEEE-754 binary64 values, kept as their bit patterns, so that
equality of `Number`s is equality of bits (a NaN equals itself, `0` and `-0` differ).
Arithmetic and comparison are those of the format.
-/

set_option autoImplicit false

namespace HeapWalk

structure Number where
  bits : UInt64
deriving DecidableEq, Repr, Inhabited

namespace Number

def toFloat (x : Number) : Float := Float.ofBits x.bits

def ofFloat (f : Float) : Number := ⟨f.toBits⟩

/-! ## The fields of the bit pattern -/

def isNegative (x : Number) : Bool := x.bits >>> 63 == 1

/-- The biased exponent, `0` to `2047`. -/
def exponent (x : Number) : Nat := ((x.bits >>> 52) &&& 0x7ff).toNat

/-- The trailing significand, below `2 ^ 52`. -/
def fraction (x : Number) : Nat := (x.bits &&& 0xfffffffffffff).toNat

def isNaN (x : Number) : Bool := x.exponent == 2047 && x.fraction != 0

def isInfinite (x : Number) : Bool := x.exponent == 2047 && x.fraction == 0

/-! ## Arithmetic -/

def add (x y : Number) : Number := ofFloat (x.toFloat + y.toFloat)

def sub (x y : Number) : Number := ofFloat (x.toFloat - y.toFloat)

def mul (x y : Number) : Number := ofFloat (x.toFloat * y.toFloat)

/-- Division by zero gives an infinity or a NaN. -/
def div (x y : Number) : Number := ofFloat (x.toFloat / y.toFloat)

/-- Negation flips the sign bit, of a NaN too. -/
def neg (x : Number) : Number := ⟨x.bits ^^^ 0x8000000000000000⟩

/-! ## Comparison -/

def lt (x y : Number) : Bool := x.toFloat < y.toFloat

def le (x y : Number) : Bool := x.toFloat ≤ y.toFloat

/-- Equality of values: `0` equals `-0`, and a NaN equals nothing. -/
def eq (x y : Number) : Bool := x.toFloat == y.toFloat

end Number

end HeapWalk
