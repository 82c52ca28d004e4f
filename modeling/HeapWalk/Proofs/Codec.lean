import HeapWalk.Value.Bytes

/-!
# Values read back from their bytes

`Value.decode_of_encode`: the bytes that a value is written as have the length that was asked for
and read back as the value, bit for bit, whatever the number and whatever the length.
-/

set_option autoImplicit false

namespace HeapWalk

/-! ## Words -/

/-- A word is its low byte below the rest of it. -/
theorem shiftLeft_or_toUInt8 (w : UInt64) : (w >>> 8) <<< 8 ||| w.toUInt8.toUInt64 = w := by
  apply UInt64.eq_of_toBitVec_eq
  apply BitVec.eq_of_getLsbD_eq
  intro i hi
  simp only [UInt64.toBitVec_or, UInt64.toBitVec_shiftLeft, UInt64.toBitVec_shiftRight,
    UInt8.toBitVec_toUInt64, UInt64.toBitVec_toUInt8, BitVec.getLsbD_or, BitVec.getLsbD_setWidth]
  by_cases h8 : i < 8
  · simp [hi, h8]
  · simp [hi, h8, show 8 + (i - 8) = i by omega]

/-- A shift by less than the width of a word, counted in bits. -/
theorem toNat_ofNat_mod (k : Nat) (hk : k < 64) :
    ((UInt64.ofNat k).toBitVec % 64).toNat = k := by
  have hlt : k < UInt64.size := Nat.lt_trans hk (by decide)
  simp only [BitVec.toNat_umod, UInt64.toNat_toBitVec, UInt64.toNat_ofNat_of_lt' hlt]
  exact Nat.mod_eq_of_lt hk

theorem shiftRight_shiftRight_eight (w : UInt64) {k : Nat} (hk : k + 8 < 64) :
    (w >>> UInt64.ofNat k) >>> 8 = w >>> UInt64.ofNat (k + 8) := by
  apply UInt64.eq_of_toBitVec_eq
  rw [show (8 : UInt64) = UInt64.ofNat 8 from rfl]
  simp only [UInt64.toBitVec_shiftRight, BitVec.ushiftRight_eq']
  rw [toNat_ofNat_mod k (by omega), toNat_ofNat_mod (k + 8) hk, toNat_ofNat_mod 8 (by omega),
    BitVec.shiftRight_add]

/-- The last step of reading a word: the byte `k` bits up is put below what is above it. -/
theorem shiftLeft_or_byte (w : UInt64) {k : Nat} (hk : k + 8 < 64) :
    (w >>> UInt64.ofNat (k + 8)) <<< 8 ||| (w >>> UInt64.ofNat k).toUInt8.toUInt64 =
      w >>> UInt64.ofNat k := by
  rw [← shiftRight_shiftRight_eight w hk]
  exact shiftLeft_or_toUInt8 _

theorem shiftLeft_zero_or_top (w : UInt64) :
    (0 : UInt64) <<< 8 ||| (w >>> 56).toUInt8.toUInt64 = w >>> 56 := by
  have h : (w >>> 56) >>> 8 = 0 := by
    apply UInt64.eq_of_toBitVec_eq
    apply BitVec.eq_of_getLsbD_eq
    intro i hi
    simp
  rw [← h]
  exact shiftLeft_or_toUInt8 _

theorem wordOfBytes_wordBytes (w : UInt64) : wordOfBytes (wordBytes w) = w := by
  simp only [wordOfBytes, wordBytes, List.foldr_cons, List.foldr_nil]
  rw [shiftLeft_zero_or_top]
  rw [show w >>> 56 = w >>> UInt64.ofNat (48 + 8) from rfl]
  rw [show w >>> 48 = w >>> UInt64.ofNat 48 from rfl, shiftLeft_or_byte w (by omega)]
  rw [show w >>> 40 = w >>> UInt64.ofNat 40 from rfl, shiftLeft_or_byte w (by omega)]
  rw [show w >>> 32 = w >>> UInt64.ofNat 32 from rfl, shiftLeft_or_byte w (by omega)]
  rw [show w >>> 24 = w >>> UInt64.ofNat 24 from rfl, shiftLeft_or_byte w (by omega)]
  rw [show w >>> 16 = w >>> UInt64.ofNat 16 from rfl, shiftLeft_or_byte w (by omega)]
  rw [show w >>> 8 = w >>> UInt64.ofNat 8 from rfl, shiftLeft_or_byte w (by omega)]
  exact shiftLeft_or_toUInt8 w

/-! ## Values -/

namespace Value

theorem type_of_decode {bytes : List UInt8} {t : ValueType} {v : Value}
    (h : decode bytes t = some v) : v.type = t := by
  unfold decode at h
  split at h
  · cases h
  · cases t with
    | number => simp only [Option.some.injEq] at h; rw [← h]; rfl
    | boolean =>
      obtain ⟨flag, -, rfl⟩ := Option.map_eq_some_iff.1 h
      rfl

theorem decode_isSome {bytes : List UInt8} {t : ValueType} (h : t.size ≤ bytes.length) :
    ∃ v, decode bytes t = some v := by
  unfold decode
  rw [if_neg (by omega)]
  cases t with
  | number => exact ⟨_, rfl⟩
  | boolean =>
    have hne : bytes ≠ [] := by
      rintro rfl
      exact absurd h (by decide)
    exact ⟨_, by rw [List.getLast?_eq_some_getLast hne]; rfl⟩

theorem decode_eq_none {bytes : List UInt8} {t : ValueType} (h : bytes.length < t.size) :
    decode bytes t = none := by
  unfold decode
  exact if_pos h

theorem encode_eq_none {v : Value} {size : Nat} (h : size < v.type.size) :
    v.encode size = none := by
  unfold encode
  exact if_pos h

theorem encode_isSome (v : Value) {size : Nat} (h : v.type.size ≤ size) :
    ∃ bytes, v.encode size = some bytes := by
  unfold encode
  rw [if_neg (by omega)]
  cases v <;> exact ⟨_, rfl⟩

theorem size_le_of_encode {v : Value} {size : Nat} {bytes : List UInt8}
    (h : v.encode size = some bytes) : v.type.size ≤ size := by
  unfold encode at h
  split at h
  · cases h
  · omega

theorem decode_of_encode {v : Value} {size : Nat} {bytes : List UInt8}
    (h : v.encode size = some bytes) : bytes.length = size ∧ decode bytes v.type = some v := by
  unfold encode at h
  split at h
  · cases h
  rename_i hs
  cases v with
  | number n =>
    obtain rfl := Option.some.inj h
    have hs : 8 ≤ size := Nat.le_of_not_lt hs
    have hlen : (wordBytes n.bits ++ List.replicate (size - 8) 0).length = size := by
      simp [wordBytes]; omega
    refine ⟨hlen, ?_⟩
    unfold decode
    rw [if_neg (by rw [hlen]; exact Nat.not_lt.2 hs)]
    show some (number ⟨wordOfBytes (List.take 8 (wordBytes n.bits ++ _))⟩) = _
    rw [List.take_left' (by rfl), wordOfBytes_wordBytes]
  | boolean b =>
    obtain rfl := Option.some.inj h
    have hs : 1 ≤ size := Nat.le_of_not_lt hs
    have hlen : (List.replicate (size - 1) 0 ++ [if b then (1 : UInt8) else 0]).length = size := by
      simp; omega
    refine ⟨hlen, ?_⟩
    unfold decode
    rw [if_neg (by rw [hlen]; exact Nat.not_lt.2 hs)]
    show Option.map _ (List.getLast? _) = _
    rw [List.getLast?_concat]
    cases b <;> rfl

end Value

end HeapWalk
