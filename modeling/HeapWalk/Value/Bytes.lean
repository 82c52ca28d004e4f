import HeapWalk.Value.Basic

/-!
# Values as bytes

A number takes the first eight bytes of its range, the least significant byte of its pattern
first. A boolean is the last byte of its range, `1` for true. The other bytes of a range are zero.
-/

set_option autoImplicit false

namespace HeapWalk

/-- The eight bytes of a word, least significant first. -/
def wordBytes (w : UInt64) : List UInt8 :=
  [w.toUInt8, (w >>> 8).toUInt8, (w >>> 16).toUInt8, (w >>> 24).toUInt8,
    (w >>> 32).toUInt8, (w >>> 40).toUInt8, (w >>> 48).toUInt8, (w >>> 56).toUInt8]

/-- The word whose least significant bytes are `bytes`, the first the lowest. -/
def wordOfBytes (bytes : List UInt8) : UInt64 :=
  bytes.foldr (fun b w => (w <<< 8) ||| b.toUInt64) 0

namespace Value

/-- Exactly `size` bytes that hold the value, if they can. -/
def encode (v : Value) (size : Nat) : Option (List UInt8) :=
  if size < v.type.size then none
  else match v with
    | number n => some (wordBytes n.bits ++ List.replicate (size - 8) 0)
    | boolean b => some (List.replicate (size - 1) 0 ++ [if b then 1 else 0])

/-- The value of type `t` that a range of bytes holds, if it is long enough. -/
def decode (bytes : List UInt8) (t : ValueType) : Option Value :=
  if bytes.length < t.size then none
  else match t with
    | .number => some (number ⟨wordOfBytes (bytes.take 8)⟩)
    | .boolean => bytes.getLast?.map fun flag => boolean (flag == 1)

end Value

end HeapWalk
