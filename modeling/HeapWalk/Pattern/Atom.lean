import HeapWalk.Pattern.Mode

/-!
# Atoms of a pattern

What one character or one escape stands for. A pattern is matched against UTF-8 text without tables
of characters: in the Unicode mode there are no named kinds of characters, no boundaries of words
and no folding of cases, and in the byte mode nothing may match a byte beyond ASCII.
-/

set_option autoImplicit false

namespace HeapWalk.Pattern

inductive Atom where
  /-- A character; `asByte` says that it is written by two hexadecimal digits. -/
  | char (c : Char) (asByte : Bool)
  | any
  /-- Digits, blanks or characters of words, or all others. -/
  | kind (negated : Bool)
  /-- An end of the text or of a line. -/
  | edge
  | wordEdge
deriving DecidableEq, Repr, Inhabited

def isAscii (c : Char) : Bool := c.toNat < 0x80

namespace Mode

/-- Whether an atom may stand in a sequence. -/
def admits (m : Mode) : Atom → Bool
  | .char c asByte => if m.unicode then !m.caseless else !asByte || isAscii c
  | .any => m.unicode
  | .kind negated => !m.unicode && !negated
  | .edge => true
  | .wordEdge => !m.unicode

/-- Whether an atom may be a member of a class. -/
def admitsMember (m : Mode) : Atom → Bool
  | .char c _ => if m.unicode then !m.caseless else isAscii c
  | .kind negated => !m.unicode && !negated
  | _ => false

end Mode

/-! ## Escapes -/

def hexDigit? (c : Char) : Option Nat :=
  if c.isDigit then some (c.toNat - '0'.toNat)
  else if 'a' ≤ c.toLower && c.toLower ≤ 'f' then some (c.toLower.toNat - 'a'.toNat + 10)
  else none

/-- The number that `count` more hexadecimal digits make of `value`. -/
def readDigits (m : Mode) (count value : Nat) (cs : List Char) : Option (Nat × List Char) :=
  match count, cs with
  | 0, cs => some (value, cs)
  | _, [] => none
  | count + 1, c :: rest =>
    match hexDigit? c with
    | some d => readDigits m count (16 * value + d) (m.skip rest)
    | none => none

/-- A character by `count` hexadecimal digits. -/
def readHex (m : Mode) (count : Nat) (cs : List Char) : Option (Atom × List Char) :=
  match readDigits m count 0 (m.skip cs) with
  | some (code, rest) =>
    if code.isValidChar then some (.char (Char.ofNat code) (count == 2), rest) else none
  | none => none

/-- ASCII characters that stand for themselves behind a backslash. -/
def isEscapable (c : Char) : Bool := isAscii c && !c.isAlphanum && c != '<' && c != '>'

/-- The text behind a backslash. -/
def readEscape (m : Mode) : List Char → Option (Atom × List Char)
  | [] => none
  | c :: rest =>
    match c with
    | 'x' => readHex m 2 rest
    | 'u' => readHex m 4 rest
    | 'U' => readHex m 8 rest
    | 'd' | 's' | 'w' => some (.kind false, rest)
    | 'D' | 'S' | 'W' => some (.kind true, rest)
    | 'a' => some (.char '\x07' false, rest)
    | 't' => some (.char '\t' false, rest)
    | 'n' => some (.char '\n' false, rest)
    | 'v' => some (.char '\x0b' false, rest)
    | 'f' => some (.char '\x0c' false, rest)
    | 'r' => some (.char '\r' false, rest)
    | 'A' | 'z' => some (.edge, rest)
    | 'b' | 'B' | '<' | '>' => some (.wordEdge, rest)
    | _ => if isEscapable c then some (.char c false, rest) else none

/-- An atom in a sequence. -/
def readAtom (m : Mode) : List Char → Option (Atom × List Char)
  | [] => none
  | '\\' :: rest => readEscape m rest
  | '.' :: rest => some (.any, rest)
  | '^' :: rest | '$' :: rest => some (.edge, rest)
  | c :: rest => some (.char c false, rest)

/-- An atom in a class, where most characters stand for themselves. -/
def readMember (m : Mode) : List Char → Option (Atom × List Char)
  | [] => none
  | '\\' :: rest => readEscape m rest
  | c :: rest => some (.char c false, rest)

end HeapWalk.Pattern
