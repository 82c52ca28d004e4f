import HeapWalk.Pattern.Atom

/-!
# Classes of a pattern

A class stands in brackets: members, ranges of members, classes by name and further classes, joined
or combined by the operations `&&`, `--` and `~~`. Readers check the members as they go; what they
keep of a class is its height, the depth to which things are nested in it.
-/

set_option autoImplicit false

namespace HeapWalk.Pattern

/-- The height of parts in a row: one part counts as itself, several are one level higher. -/
def rowHeight : List Nat → Nat
  | [] => 0
  | [h] => h
  | hs => hs.foldl max 0 + 1

/-- A class that is not closed yet. -/
structure OpenClass where
  /-- Only hyphens were read, which are members here. -/
  atStart : Bool := true
  /-- The height of what stands before the last operation. -/
  left : Option Nat := none
  /-- The heights of the members since then. -/
  members : List Nat := []
deriving DecidableEq, Repr, Inhabited

namespace OpenClass

def height (k : OpenClass) : Nat :=
  match k.left with
  | none => rowHeight k.members
  | some l => max l (rowHeight k.members) + 1

def add (k : OpenClass) (height : Nat) : OpenClass :=
  { k with atStart := false, members := height :: k.members }

def operate (k : OpenClass) : OpenClass := { atStart := false, left := some k.height }

end OpenClass

/-! ## Members -/

/-- A member or a range of members. A hyphen before a bracket or a hyphen makes no range. -/
def readMembers (m : Mode) (cs : List Char) : Option (List Char) :=
  match readMember m cs with
  | none => none
  | some (first, rest) =>
    let rest := m.skip rest
    let single := if m.admitsMember first then some rest else none
    match rest with
    | '-' :: behind =>
      if m.glance behind == some ']' || m.glance behind == some '-' then single
      else match first, readMember m (m.skip behind) with
        | .char low _, some (.char high asByte, rest) =>
          if m.admitsMember first && m.admitsMember (.char high asByte) && low ≤ high then some rest
          else none
        | _, _ => none
    | _ => single

def classNames : List String :=
  ["alnum", "alpha", "ascii", "blank", "cntrl", "digit", "graph", "lower", "print", "punct",
    "space", "upper", "word", "xdigit"]

/-- A class by name behind its first bracket, `:alpha:]` or `:^alpha:]`: whether it is negated, and
the text behind it. -/
def readNamed? : List Char → Option (Bool × List Char)
  | ':' :: cs =>
    let negated := cs.head? == some '^'
    let cs := if negated then cs.drop 1 else cs
    let name := cs.takeWhile (· != ':')
    match cs.drop name.length with
    | ':' :: ']' :: rest =>
      if classNames.contains (String.ofList name) then some (negated, rest) else none
    | _ => none
  | _ => none

/-- Whether a class by name may be a member. -/
def Mode.admitsNamed (m : Mode) (negated : Bool) : Bool :=
  if m.unicode then !m.caseless else !negated

/-! ## Brackets -/

/-- The text behind an opening bracket and behind the sign that negates the class, which needs more
than bytes. -/
def openClass (m : Mode) (cs : List Char) : Option (List Char) :=
  match m.skip cs with
  | '^' :: rest => if m.unicode then some rest else none
  | cs => some cs

/-- The rest of the class `k`, which stands in the classes `outer`. -/
def readClass (m : Mode) (fuel : Nat) (k : OpenClass) (outer : List OpenClass) (cs : List Char) :
    Option (Nat × List Char) :=
  match fuel with
  | 0 => none
  | fuel + 1 =>
    match m.skip cs with
    | [] => none
    | '[' :: rest =>
      match readNamed? rest with
      | some (negated, rest) =>
        if m.admitsNamed negated then readClass m fuel (k.add 0) outer rest else none
      | none =>
        match openClass m rest with
        | some rest => readClass m fuel {} (k :: outer) rest
        | none => none
    | c :: rest =>
      if k.atStart && (c == '-' || (c == ']' && k.members.isEmpty)) then
        if m.admitsMember (.char c false) then
          readClass m fuel { k.add 0 with atStart := c == '-' } outer rest
        else none
      else if c == ']' then
        match outer with
        | [] => some (k.height + 1, rest)
        | o :: outer => readClass m fuel (o.add (k.height + 1)) outer rest
      else if (c == '&' || c == '-' || c == '~') && rest.head? == some c then
        readClass m fuel k.operate outer (rest.drop 1)
      else
        match readMembers m (c :: rest) with
        | some rest => readClass m fuel (k.add 0) outer rest
        | none => none

end HeapWalk.Pattern
