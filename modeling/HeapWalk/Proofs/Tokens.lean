import HeapWalk.Proofs.JsonText
import HeapWalk.Tree.Reader

/-!
# Reading tokens

The readers of blanks, strings and numerals undo what the grammar of JSON text allows in writing
them (`readString_of_writes`, `readLineNumber_of_natural`), whatever text follows. Only a numeral
needs that what follows does not go on with it (`EndsNumeral`).
-/

set_option autoImplicit false

namespace HeapWalk.Tree

open Json

/-! ## Blanks -/

theorem isBlank_of_blank {a : List Char} (ha : Blank a) : ∀ c ∈ a, isBlank c = true := by
  intro c hc
  rcases ha c hc with rfl | rfl | rfl | rfl <;> rfl

theorem skipBlank_append {a : List Char} (ha : Blank a) (cs : List Char) :
    skipBlank (a ++ cs) = skipBlank cs := List.dropWhile_append_of_pos (isBlank_of_blank ha)

/-- Blanks are skipped up to the first other character. -/
theorem skipBlank_cons {a : List Char} (ha : Blank a) {c : Char} (hc : isBlank c = false)
    (cs : List Char) : skipBlank (a ++ c :: cs) = c :: cs := by
  rw [skipBlank_append ha]
  exact List.dropWhile_cons_of_neg (by rw [hc]; exact Bool.false_ne_true)

/-! ## Strings -/

theorem hexDigit?_of_mem : ∀ p ∈ hexDigits, hexDigit? p.1 = some p.2 := by decide

theorem readHex_of_writes {n : Nat} {digits : List Char} (hd : WritesHex n digits)
    (rest : List Char) : readHex (digits ++ rest) = .ok (n, rest) := by
  obtain ⟨ha, hb, hc, hd⟩ := hd
  simp only [List.cons_append, List.nil_append, readHex, hexDigit?_of_mem _ ha,
    hexDigit?_of_mem _ hb, hexDigit?_of_mem _ hc, hexDigit?_of_mem _ hd]

theorem simpleEscape?_of_mem :
    ∀ p ∈ escapeLetters, p.1 ≠ 'u' ∧ simpleEscape? p.1 = some p.2 := by decide

/-- A character is no surrogate. -/
theorem toNat_lt_or_gt (c : Char) : c.toNat < 0xd800 ∨ 0xdfff < c.toNat ∧ c.toNat < 0x110000 :=
  c.valid

theorem readEscape_of_letter {c e : Char} (he : (e, c) ∈ escapeLetters) (rest : List Char) :
    readEscape (e :: rest) = .ok (c, rest) := by
  obtain ⟨hu, hc⟩ := simpleEscape?_of_mem _ he
  simp only [readEscape, if_neg hu, hc]

theorem readEscape_of_code {c : Char} {digits : List Char} (hd : WritesHex c.toNat digits)
    (rest : List Char) : readEscape ('u' :: (digits ++ rest)) = .ok (c, rest) := by
  have hlow : isLowSurrogate c.toNat = false := by
    have := toNat_lt_or_gt c
    simp only [isLowSurrogate, Bool.and_eq_false_iff, decide_eq_false_iff_not]
    omega
  have hhigh : isHighSurrogate c.toNat = false := by
    have := toNat_lt_or_gt c
    simp only [isHighSurrogate, Bool.and_eq_false_iff, decide_eq_false_iff_not]
    omega
  simp [readEscape, readHex_of_writes hd, bind, Except.bind, hlow, hhigh]

theorem readEscape_of_surrogates {c : Char} {high low : List Char} (hc : 0x10000 ≤ c.toNat)
    (hh : WritesHex (0xd800 + (c.toNat - 0x10000) / 0x400) high)
    (hl : WritesHex (0xdc00 + (c.toNat - 0x10000) % 0x400) low) (rest : List Char) :
    readEscape ('u' :: (high ++ '\\' :: 'u' :: (low ++ rest))) = .ok (c, rest) := by
  have hvalid := toNat_lt_or_gt c
  generalize hhigh : 0xd800 + (c.toNat - 0x10000) / 0x400 = h at hh
  generalize hlow : 0xdc00 + (c.toNat - 0x10000) % 0x400 = l at hl
  have h₁ : isLowSurrogate h = false := by
    simp only [isLowSurrogate, Bool.and_eq_false_iff, decide_eq_false_iff_not]
    omega
  have h₂ : isHighSurrogate h = true := by
    simp only [isHighSurrogate, Bool.and_eq_true, decide_eq_true_eq]
    omega
  have h₃ : isLowSurrogate l = true := by
    simp only [isLowSurrogate, Bool.and_eq_true, decide_eq_true_eq]
    omega
  have hpair : Char.ofNat (0x10000 + (h - 0xd800) * 0x400 + (l - 0xdc00)) = c := by
    rw [show 0x10000 + (h - 0xd800) * 0x400 + (l - 0xdc00) = c.toNat by omega, Char.ofNat_toNat]
  simp [readEscape, readLowSurrogate, expect, readHex_of_writes hh, readHex_of_writes hl, bind,
    Except.bind, h₁, h₂, h₃, hpair]

theorem readString_escape {acc rest tail : List Char} {c : Char}
    (he : readEscape rest = .ok (c, tail)) :
    readString acc ('\\' :: rest) = readString (c :: acc) tail := by
  rw [readString, if_neg (by decide), if_pos rfl]
  split
  · rename_i e h
    rw [he] at h
    cases h
  · rename_i x t h
    rw [he] at h
    cases h
    rfl

theorem readString_char {c : Char} {cs : List Char} (hc : WritesChar c cs) (acc rest : List Char) :
    readString acc (cs ++ rest) = readString (c :: acc) rest := by
  cases hc with
  | plain hq hb hc =>
    rw [List.singleton_append, readString, if_neg hq, if_neg hb, if_neg (Nat.not_lt.2 hc)]
  | letter he => exact readString_escape (readEscape_of_letter he rest)
  | code hd => exact readString_escape (readEscape_of_code hd rest)
  | surrogates hc hh hl =>
    rw [List.cons_append, List.cons_append, List.append_assoc, List.cons_append, List.cons_append]
    exact readString_escape (readEscape_of_surrogates hc hh hl rest)

theorem readString_chars {s cs : List Char} (hs : WritesChars s cs) (acc rest : List Char) :
    readString acc (cs ++ '"' :: rest) = .ok (String.ofList (acc.reverse ++ s), rest) := by
  induction hs generalizing acc with
  | nil => rw [List.nil_append, readString, if_pos rfl, List.append_nil]
  | cons hc _ ih =>
    rw [List.append_assoc, readString_char hc, ih, List.reverse_cons, List.append_assoc,
      List.singleton_append]

/-- The rest of a written string, behind its opening quote. -/
theorem readString_of_writes {s : String} {cs : List Char} (hs : WritesChars s.toList cs)
    (rest : List Char) : readString [] (cs ++ '"' :: rest) = .ok (s, rest) := by
  rw [readString_chars hs, List.reverse_nil, List.nil_append, String.ofList_toList]

theorem readText_of_writes {s : String} {a cs : List Char} (ha : Blank a) (hs : WritesString s cs)
    (rest : List Char) : readText (a ++ (cs ++ rest)) = .ok (s, rest) := by
  obtain ⟨hs⟩ := hs
  unfold readText
  rw [List.cons_append, skipBlank_cons ha rfl]
  simp only [List.append_assoc, List.singleton_append]
  exact readString_of_writes hs rest

/-! ## Numerals -/

/-- The text does not go on with a numeral that stands before it. -/
def EndsNumeral (rest : List Char) : Prop :=
  ∀ c ∈ rest.head?, c.isDigit = false ∧ c ≠ '.' ∧ c ≠ 'e' ∧ c ≠ 'E'

/-- Only zero begins with a zero. -/
theorem head?_toDigits_ne_zero {n : Nat} (hn : 0 < n) : (Nat.toDigits 10 n).head? ≠ some '0' := by
  induction n using Nat.strongRecOn with
  | ind n ih =>
    rcases Nat.lt_or_ge n 10 with hlt | hge
    · rw [Nat.toDigits_of_lt_base hlt]
      simp
      omega
    · have hhead := ih (n / 10) (by omega) (by omega)
      rw [Nat.toDigits_of_base_le (by decide) hge, List.head?_append]
      cases hd : Nat.toDigits 10 (n / 10) with
      | nil => exact absurd hd Nat.toDigits_ne_nil
      | cons c digits =>
        rw [hd] at hhead
        exact hhead

theorem readDigits_toDigits (early : ReadError) (n : Nat) {rest : List Char}
    (hr : EndsNumeral rest) :
    readDigits early (Nat.toDigits 10 n ++ rest) = .ok (Nat.toDigits 10 n, rest) := by
  have hdigits : ∀ c ∈ Nat.toDigits 10 n, c.isDigit = true := fun c hc =>
    Nat.isDigit_of_mem_toDigits (by decide) (by decide) hc
  have hstop : rest.takeWhile Char.isDigit = [] ∧ rest.dropWhile Char.isDigit = rest := by
    cases rest with
    | nil => exact ⟨rfl, rfl⟩
    | cons c rest =>
      have hc := (hr c rfl).1
      simp [hc]
  have htake : (Nat.toDigits 10 n ++ rest).takeWhile Char.isDigit = Nat.toDigits 10 n := by
    rw [List.takeWhile_append_of_pos hdigits, hstop.1, List.append_nil]
  have hdrop : (Nat.toDigits 10 n ++ rest).dropWhile Char.isDigit = rest := by
    rw [List.dropWhile_append_of_pos hdigits, hstop.2]
  unfold readDigits
  rw [htake]
  split
  · exact absurd ‹_› Nat.toDigits_ne_nil
  · exact absurd ‹_› Nat.toDigits_ne_nil
  · rw [hdrop]

theorem readWhole_toDigits (early : ReadError) (n : Nat) {rest : List Char}
    (hr : EndsNumeral rest) :
    readWhole early (Nat.toDigits 10 n ++ rest) = .ok (Nat.toDigits 10 n, rest) := by
  unfold readWhole
  simp only [readDigits_toDigits early n hr, bind, Except.bind]
  split
  · rename_i c digits hd
    rcases Nat.eq_zero_or_pos n with rfl | hn
    · rw [Nat.toDigits_zero] at hd
      cases hd
    · exact absurd (by rw [hd]; rfl) (head?_toDigits_ne_zero hn)
  · rfl

theorem readNumeral_toDigits (early : ReadError) (n : Nat) {rest : List Char}
    (hr : EndsNumeral rest) :
    readNumeral early (Nat.toDigits 10 n ++ rest) =
      .ok (⟨Nat.toDigits 10 n, [], 0, true⟩, rest) := by
  unfold readNumeral
  simp only [readWhole_toDigits early n hr, bind, Except.bind]
  cases rest with
  | nil => rfl
  | cons c rest =>
    obtain ⟨-, hpoint, he, hE⟩ := hr c rfl
    split
    · exact absurd (List.cons.inj ‹_›).1 hpoint
    · split
      · exact absurd (List.cons.inj ‹_›).1 he
      · exact absurd (List.cons.inj ‹_›).1 hE
      · rfl

theorem word?_toDigits {n : Nat} (hn : n < wordLimit) :
    Numeral.word? ⟨Nat.toDigits 10 n, [], 0, true⟩ = some n := by
  have hvalue : Number.ofDigits (Nat.toDigits 10 n) = n := Nat.ofDigitChars_ten_toDigits
  simp only [Numeral.word?, hvalue, Bool.true_and, decide_eq_true_eq, if_pos hn]

theorem exists_toDigits_eq_cons (n : Nat) :
    ∃ c digits, Nat.toDigits 10 n = c :: digits ∧ c.isDigit = true := by
  cases hd : Nat.toDigits 10 n with
  | nil => exact absurd hd Nat.toDigits_ne_nil
  | cons c digits =>
    have hc : c ∈ Nat.toDigits 10 n := hd ▸ List.mem_cons_self
    exact ⟨c, digits, rfl, Nat.isDigit_of_mem_toDigits (by decide) (by decide) hc⟩

theorem isBlank_of_isDigit {c : Char} (hc : c.isDigit = true) : isBlank c = false := by
  have hne : ∀ d : Char, d.isDigit = false → c ≠ d := fun d hd heq => by simp [heq, hd] at hc
  simp [isBlank, hne ' ' rfl, hne '\n' rfl, hne '\t' rfl, hne '\r' rfl]

theorem readLineNumber_of_natural {n : Nat} (hn : n < wordLimit) {a rest : List Char}
    (ha : Blank a) (hr : EndsNumeral rest) :
    readLineNumber (a ++ (Nat.toDigits 10 n ++ rest)) = .ok (n, rest) := by
  have hread := readNumeral_toDigits .truncated n hr
  have hword := word?_toDigits hn
  obtain ⟨c, digits, hd, hc⟩ := exists_toDigits_eq_cons n
  rw [hd] at hread hword ⊢
  unfold readLineNumber
  rw [List.cons_append, skipBlank_cons ha (isBlank_of_isDigit hc)]
  rw [List.cons_append] at hread
  simp only [if_pos hc, hread, hword, bind, Except.bind]

end HeapWalk.Tree
