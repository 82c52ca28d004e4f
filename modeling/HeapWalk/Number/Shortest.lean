import HeapWalk.Number.Basic

/-!
# The text of a number

A finite number is written with the fewest decimal digits that read back as the same number, the
nearest such decimal if there are several, and always positionally: no exponent, and no point
after a whole number.

`Interval` holds the decimals that read back as a number, as exact fractions; `Interval.shortest`
tries one digit, two digits, and so on, until one of the two neighbours of the number on that
decimal grid lies in the interval.
-/

set_option autoImplicit false

namespace HeapWalk

namespace Decimal

/-- The positive fractions that round to `value / scale`: those between
`(value - below) / scale` and `(value + above) / scale`, the ends included if `closed`. -/
structure Interval where
  value : Nat
  below : Nat
  above : Nat
  scale : Nat
  closed : Bool

namespace Interval

/-- `d * 10 ^ k` reads back. -/
def contains (i : Interval) (d : Nat) (k : Int) : Bool :=
  let grown := d * Nat.pow 10 k.toNat * i.scale
  let lower := (i.value - i.below) * Nat.pow 10 (-k).toNat
  let upper := (i.value + i.above) * Nat.pow 10 (-k).toNat
  if i.closed then lower ≤ grown && grown ≤ upper else lower < grown && grown < upper

/-- The greatest `d` with `d * 10 ^ k ≤ value / scale`. -/
def floorAt (i : Interval) (k : Int) : Nat :=
  i.value * Nat.pow 10 (-k).toNat / (i.scale * Nat.pow 10 k.toNat)

/-- The upper neighbour on the grid `10 ^ k` is at most as far from the value as the lower. -/
def roundsUpAt (i : Interval) (k : Int) : Bool :=
  let unit := i.scale * Nat.pow 10 k.toNat
  unit ≤ 2 * (i.value * Nat.pow 10 (-k).toNat % unit)

/-- The better of the two neighbours on the grid `10 ^ k`, if either reads back. -/
def hitAt (i : Interval) (k : Int) : Option Nat :=
  let low := i.floorAt k
  match i.contains low k, i.contains (low + 1) k with
  | true, true => some (if i.roundsUpAt k then low + 1 else low)
  | true, false => some low
  | false, true => some (low + 1)
  | false, false => none

/-- The power of ten of the leading digit of the value. -/
def leading (i : Interval) : Int :=
  let span : Int := (Nat.repr i.value).length - (Nat.repr i.scale).length
  if i.scale * Nat.pow 10 span.toNat ≤ i.value * Nat.pow 10 (-span).toNat then span else span - 1

/-- Digits `d` and a power `k` such that `d * 10 ^ k` reads back, with the fewest digits. Seventeen
digits always suffice. -/
def shortest (i : Interval) : Nat × Int :=
  let top := i.leading
  let hit := (List.range 17).findSome? fun (n : Nat) =>
    (i.hitAt (top - n)).map fun d => (d, top - (n : Int))
  hit.getD (i.floorAt (top - 16), top - 16)

end Interval

/-- The decimal digits of `d`, without the zeros at its end, and the number of those zeros. -/
def significant (d : Nat) : List Char × Nat :=
  let reversed := (Nat.repr d).toList.reverse
  ((reversed.dropWhile (· == '0')).reverse, (reversed.takeWhile (· == '0')).length)

/-- The decimal `digits * 10 ^ k` written out positionally. -/
def positional (digits : List Char) (k : Int) : List Char :=
  let point : Int := digits.length + k
  if point ≤ 0 then
    '0' :: '.' :: (List.replicate (-point).toNat '0' ++ digits)
  else if k < 0 then
    digits.take point.toNat ++ '.' :: digits.drop point.toNat
  else
    digits ++ List.replicate k.toNat '0'

end Decimal

namespace Number

/-- The decimals that read back as the magnitude of `x`, for `x` finite and not zero. Below a power
of two the neighbour is half as far away. -/
def interval (x : Number) : Decimal.Interval :=
  let e := x.exponent
  let f := x.fraction
  let m := if e = 0 then f else f + 0x10000000000000
  let q : Int := (if e = 0 then 1 else (e : Int)) - 1077
  let unit := Nat.pow 2 q.toNat
  { value := 4 * m * unit
    below := (if f = 0 && 1 < e then 1 else 2) * unit
    above := 2 * unit
    scale := Nat.pow 2 (-q).toNat
    closed := m % 2 == 0 }

/-- The text of the magnitude of a finite number. -/
def magnitudeText (x : Number) : String :=
  if x.exponent = 0 && x.fraction = 0 then "0"
  else
    let (d, k) := x.interval.shortest
    let (digits, zeros) := Decimal.significant d
    String.ofList (Decimal.positional digits (k + zeros))

def text (x : Number) : String :=
  if x.isNaN then "NaN"
  else
    let magnitude := if x.isInfinite then "inf" else x.magnitudeText
    if x.isNegative then "-" ++ magnitude else magnitude

end Number

end HeapWalk
