import HeapWalk.Number.Basic
import HeapWalk.Number.Literal

/-!
# The tokens of JSON text

Readers take the characters that are left and give back what they read and what is left then, or
the reason for which the text is refused at its first offending place (`ReadError`). Text that is
skipped has to be well-formed only: its numbers may have any magnitude, its escapes may name lone
surrogates, and it may nest as deeply as it likes.
-/

set_option autoImplicit false

namespace HeapWalk.Tree

inductive ReadError where
  /-- The text is no JSON text, or nests too deeply. -/
  | illFormed
  /-- The text is JSON so far, but not of a node. -/
  | wrongShape
  /-- The text ends too early. -/
  | truncated
deriving DecidableEq, Repr, Inhabited

abbrev Reader (α : Type) := List Char → Except ReadError (α × List Char)

/-! ## Blanks and words -/

def isBlank (c : Char) : Bool := c = ' ' || c = '\n' || c = '\t' || c = '\r'

def skipBlank (cs : List Char) : List Char := cs.dropWhile isBlank

/-- What is left behind `word`. -/
def expect : (word cs : List Char) → Except ReadError (List Char)
  | [], cs => .ok cs
  | _ :: _, [] => .error .truncated
  | w :: word, c :: cs => if c = w then expect word cs else .error .illFormed

/-! ## Strings -/

def hexDigit? (c : Char) : Option Nat :=
  if '0' ≤ c && c ≤ '9' then some (c.toNat - '0'.toNat)
  else if 'a' ≤ c && c ≤ 'f' then some (c.toNat - 'a'.toNat + 10)
  else if 'A' ≤ c && c ≤ 'F' then some (c.toNat - 'A'.toNat + 10)
  else none

/-- Four hexadecimal digits. The text is too short for them if fewer than four bytes of it, in
UTF-8, are left. -/
def readHex : Reader Nat
  | a :: b :: c :: d :: rest =>
    match hexDigit? a, hexDigit? b, hexDigit? c, hexDigit? d with
    | some a, some b, some c, some d => .ok (((a * 16 + b) * 16 + c) * 16 + d, rest)
    | _, _, _, _ => .error .illFormed
  | few =>
    if few.foldl (fun size c => size + c.utf8Size) 0 < 4 then .error .truncated
    else .error .illFormed

/-- The characters that stand for themselves or for a control character behind a backslash. -/
def simpleEscape? (c : Char) : Option Char :=
  match c with
  | '"' => some '"'
  | '\\' => some '\\'
  | '/' => some '/'
  | 'b' => some '\x08'
  | 'f' => some '\x0c'
  | 'n' => some '\n'
  | 'r' => some '\r'
  | 't' => some '\t'
  | _ => none

def isHighSurrogate (n : Nat) : Bool := 0xd800 ≤ n && n < 0xdc00

def isLowSurrogate (n : Nat) : Bool := 0xdc00 ≤ n && n < 0xe000

/-- The second half of a surrogate pair, whose first half was `high`. -/
def readLowSurrogate (high : Nat) (cs : List Char) : Except ReadError (Char × List Char) := do
  let cs ← expect ['\\', 'u'] cs
  let (low, cs) ← readHex cs
  if isLowSurrogate low then
    .ok (Char.ofNat (0x10000 + (high - 0xd800) * 0x400 + (low - 0xdc00)), cs)
  else .error .illFormed

/-- The character that an escape names; `cs` is what follows the backslash. -/
def readEscape (cs : List Char) : Except ReadError (Char × List Char) :=
  match cs with
  | [] => .error .truncated
  | c :: rest =>
    if c = 'u' then do
      let (n, rest) ← readHex rest
      if isLowSurrogate n then .error .illFormed
      else if isHighSurrogate n then readLowSurrogate n rest
      else .ok (Char.ofNat n, rest)
    else match simpleEscape? c with
      | some x => .ok (x, rest)
      | none => .error .illFormed

theorem length_of_expect {word cs rest : List Char} (h : expect word cs = .ok rest) :
    rest.length + word.length = cs.length := by
  induction word generalizing cs with
  | nil => simp only [expect, Except.ok.injEq] at h; simp [h]
  | cons w word ih =>
    cases cs with
    | nil => simp [expect] at h
    | cons c cs =>
      simp only [expect] at h
      split at h
      · have := ih h
        simp only [List.length_cons]
        omega
      · simp at h

theorem length_of_readHex {cs rest : List Char} {n : Nat} (h : readHex cs = .ok (n, rest)) :
    rest.length + 4 = cs.length := by
  unfold readHex at h
  split at h
  · split at h
    · simp only [Except.ok.injEq, Prod.mk.injEq] at h
      simp [h.2]
    · simp at h
  · split at h <;> simp at h

theorem length_of_readEscape {cs rest : List Char} {x : Char}
    (h : readEscape cs = .ok (x, rest)) : rest.length < cs.length := by
  cases cs with
  | nil => simp [readEscape] at h
  | cons c cs =>
    simp only [readEscape] at h
    split at h
    · cases hx : readHex cs with
      | error e => simp [hx, bind, Except.bind] at h
      | ok p =>
        obtain ⟨n, tail⟩ := p
        have hlen := length_of_readHex hx
        simp only [hx, bind, Except.bind] at h
        split at h
        · simp at h
        · split at h
          · simp only [readLowSurrogate, bind, Except.bind] at h
            cases he : expect ['\\', 'u'] tail with
            | error e => simp [he] at h
            | ok tail' =>
              have hexp := length_of_expect he
              cases hy : readHex tail' with
              | error e => simp [he, hy] at h
              | ok q =>
                obtain ⟨m, tail''⟩ := q
                have hlen' := length_of_readHex hy
                simp only [he, hy] at h
                split at h
                · simp only [Except.ok.injEq, Prod.mk.injEq] at h
                  simp only [← h.2, List.length_cons] at *
                  omega
                · simp at h
          · simp only [Except.ok.injEq, Prod.mk.injEq] at h
            simp only [← h.2, List.length_cons]
            omega
    · split at h
      · simp only [Except.ok.injEq, Prod.mk.injEq] at h
        simp [h.2]
      · simp at h

/-- The rest of a string behind its opening quote; `acc` is what was read of it, backwards. -/
def readString (acc cs : List Char) : Except ReadError (String × List Char) :=
  match cs with
  | [] => .error .truncated
  | c :: rest =>
    if c = '"' then .ok (String.ofList acc.reverse, rest)
    else if c = '\\' then
      match _h : readEscape rest with
      | .error e => .error e
      | .ok (x, tail) => readString (x :: acc) tail
    else if c.toNat < 0x20 then .error .illFormed
    else readString (c :: acc) rest
termination_by cs.length
decreasing_by
  · have := length_of_readEscape _h
    simp only [List.length_cons]
    omega
  · simp

/-- What is left behind an escape of a skipped string. -/
def skipEscape (cs : List Char) : Except ReadError (List Char) :=
  match cs with
  | [] => .error .truncated
  | c :: rest =>
    if c = 'u' then (readHex rest).map (·.2)
    else if (simpleEscape? c).isSome then .ok rest
    else .error .illFormed

theorem length_of_skipEscape {cs rest : List Char} (h : skipEscape cs = .ok rest) :
    rest.length < cs.length := by
  cases cs with
  | nil => simp [skipEscape] at h
  | cons c cs =>
    simp only [skipEscape] at h
    split at h
    · cases hx : readHex cs with
      | error e => simp [hx, Except.map] at h
      | ok p =>
        obtain ⟨n, tail⟩ := p
        have hlen := length_of_readHex hx
        simp only [hx, Except.map, Except.ok.injEq] at h
        simp only [← h, List.length_cons]
        omega
    · split at h
      · simp only [Except.ok.injEq] at h
        simp [h]
      · simp at h

/-- What is left behind a skipped string, of which the opening quote was read. -/
def skipString (cs : List Char) : Except ReadError (List Char) :=
  match cs with
  | [] => .error .truncated
  | c :: rest =>
    if c = '"' then .ok rest
    else if c = '\\' then
      match _h : skipEscape rest with
      | .error e => .error e
      | .ok tail => skipString tail
    else if c.toNat < 0x20 then .error .illFormed
    else skipString rest
termination_by cs.length
decreasing_by
  · have := length_of_skipEscape _h
    simp only [List.length_cons]
    omega
  · simp

/-! ## Numerals -/

/-- An unsigned numeral: the digits before and behind its point, and its exponent. -/
structure Numeral where
  whole : List Char
  places : List Char
  exponent : Int
  /-- It has neither point nor exponent. -/
  isWhole : Bool

/-- A row of at least one digit; `early` is the error for text that ends instead. -/
def readDigits (early : ReadError) (cs : List Char) : Except ReadError (List Char × List Char) :=
  match cs.takeWhile Char.isDigit, cs with
  | [], [] => .error early
  | [], _ :: _ => .error .illFormed
  | digits, cs => .ok (digits, cs.dropWhile Char.isDigit)

/-- The digits before the point: a zero stands alone. -/
def readWhole (early : ReadError) (cs : List Char) : Except ReadError (List Char × List Char) := do
  let (digits, rest) ← readDigits early cs
  match digits with
  | '0' :: _ :: _ => .error .illFormed
  | _ => .ok (digits, rest)

def readExponent (early : ReadError) (cs : List Char) : Except ReadError (Int × List Char) :=
  match cs with
  | '-' :: rest => do
    let (digits, rest) ← readDigits early rest
    .ok (-(Number.ofDigits digits : Int), rest)
  | '+' :: rest => do
    let (digits, rest) ← readDigits early rest
    .ok (Number.ofDigits digits, rest)
  | rest => do
    let (digits, rest) ← readDigits early rest
    .ok (Number.ofDigits digits, rest)

/-- A numeral without its sign; `early` is the error for text that ends within it. -/
def readNumeral (early : ReadError) (cs : List Char) :
    Except ReadError (Numeral × List Char) := do
  let (whole, cs) ← readWhole early cs
  let (places, cs, pointed) ← match cs with
    | '.' :: rest => (readDigits early rest).map fun (digits, rest) => (digits, rest, true)
    | _ => .ok ([], cs, false)
  match cs with
  | 'e' :: rest | 'E' :: rest =>
    let (exponent, rest) ← readExponent early rest
    .ok (⟨whole, places, exponent, false⟩, rest)
  | _ => .ok (⟨whole, places, 0, !pointed⟩, cs)

/-- The greatest natural number a word holds, plus one. -/
def wordLimit : Nat := 0x10000000000000000

/-- Appends digits to a significand as long as it stays within a word; gives the number of those
appended too. -/
def Numeral.absorb : (significand : Nat) → List Char → Nat × Nat
  | s, [] => (s, 0)
  | s, c :: rest =>
    let next := 10 * s + (c.toNat - '0'.toNat)
    if next < wordLimit then
      let (total, count) := absorb next rest
      (total, count + 1)
    else (s, 0)

/-- The magnitude is too large for a finite number. -/
def Numeral.isHuge (n : Numeral) : Bool :=
  let (significand, kept) := absorb 0 n.whole
  let dropped := n.whole.length - kept
  let (significand, kept) := absorb significand n.places
  let power := n.exponent + dropped - kept
  if significand = 0 || power < 0 then false
  else if 308 < power then true
  else
    let tens := Float.ofScientific 1 false power.toNat
    (Number.ofFloat (Float.ofNat significand * tens)).isInfinite

/-- The natural number that a numeral without point and exponent writes, if a word holds it. -/
def Numeral.word? (n : Numeral) : Option Nat :=
  let value := Number.ofDigits n.whole
  if n.isWhole && value < wordLimit then some value else none

/-! ## Skipping -/

/-- What a skipped item lies in. -/
inductive Frame where
  | list
  | object
deriving DecidableEq

def Frame.close : Frame → Char
  | list => ']'
  | object => '}'

/-- The name of a skipped field, with its colon. -/
def skipKey (cs : List Char) : Except ReadError (List Char) :=
  match skipBlank cs with
  | [] => .error .truncated
  | '"' :: rest => do
    let rest ← skipString rest
    match skipBlank rest with
    | [] => .error .truncated
    | ':' :: rest => .ok rest
    | _ => .error .illFormed
  | _ => .error .illFormed

/-- A value that is neither list nor object. -/
def skipScalar (c : Char) (rest : List Char) : Except ReadError (List Char) :=
  match c with
  | 'n' => expect ['u', 'l', 'l'] rest
  | 't' => expect ['r', 'u', 'e'] rest
  | 'f' => expect ['a', 'l', 's', 'e'] rest
  | '"' => skipString rest
  | '-' => (readNumeral .illFormed rest).map (·.2)
  | c => if c.isDigit then (readNumeral .illFormed (c :: rest)).map (·.2) else .error .illFormed

mutual

/-- Skips an item of the innermost of `frames` and then the rest of them. -/
def skipItem : (fuel : Nat) → List Frame → List Char → Except ReadError (List Char)
  | 0, _, _ => .error .illFormed
  | fuel + 1, frames, cs =>
    match skipBlank cs with
    | [] => .error .truncated
    | '[' :: rest => skipRest fuel false (.list :: frames) rest
    | '{' :: rest => skipRest fuel false (.object :: frames) rest
    | c :: rest => do
      let rest ← skipScalar c rest
      skipRest fuel true frames rest

/-- Skips the rest of `frames`; an item of the innermost was read before if `comma`. -/
def skipRest : (fuel : Nat) → (comma : Bool) → List Frame → List Char →
    Except ReadError (List Char)
  | 0, _, _, _ => .error .illFormed
  | _ + 1, _, [], cs => .ok cs
  | fuel + 1, comma, frame :: outer, cs =>
    match skipBlank cs with
    | [] => .error .truncated
    | c :: rest =>
      if comma && c = ',' then skipFirst fuel frame outer rest
      else if c = frame.close then skipRest fuel true outer rest
      else if comma then .error .illFormed
      else skipFirst fuel frame outer (c :: rest)

/-- Skips an item of `frame`, behind its name in an object, and then the rest. -/
def skipFirst : (fuel : Nat) → Frame → List Frame → List Char → Except ReadError (List Char)
  | 0, _, _, _ => .error .illFormed
  | fuel + 1, .list, outer, cs => skipItem fuel (.list :: outer) cs
  | fuel + 1, .object, outer, cs => do
    let cs ← skipKey cs
    skipItem fuel (.object :: outer) cs

end

/-- What is left behind a value of any kind, in a text of fewer than `limit` characters. Each of them
is looked at in three steps at most. -/
def skipValue (limit : Nat) (cs : List Char) : Except ReadError (List Char) :=
  skipItem (3 * limit) [] cs

end HeapWalk.Tree
