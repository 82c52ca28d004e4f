import HeapWalk.Pattern.Class
import HeapWalk.Text.Alphanumeric

/-!
# Patterns

Which texts are regular expressions. A pattern is a sequence of atoms, classes and groups, of which
each may be repeated; alternatives are divided by bars. No group has the name of another, and things
are nested to a limited depth. Patterns stand inside braces, so there is no room for a repetition
that is counted in braces.
-/

set_option autoImplicit false

namespace HeapWalk.Pattern

/-- The greatest height of a pattern. -/
def maxHeight : Nat := 250

/-! ## Groups -/

/-- The name of a group starts with a letter or an underscore. -/
def isGroupName : List Char → Bool
  | [] => false
  | c :: rest =>
    (c == '_' || isAlphabetic c) &&
      rest.all fun c => "_.[]".toList.contains c || isAlphanumeric c

/-- What an opening parenthesis begins. -/
inductive Opening where
  | group
  | named (name : List Char)
  /-- A group with flags of its own. -/
  | flagged (flags : List Char)
  /-- Flags for the rest of the group around them. -/
  | flags (flags : List Char)
deriving DecidableEq, Repr, Inhabited

/-- The text behind an opening parenthesis, up to where the content of the group starts. -/
def readOpening (m : Mode) (cs : List Char) : Option (Opening × List Char) :=
  match m.skip cs with
  | '?' :: 'P' :: '<' :: rest | '?' :: '<' :: rest =>
    let name := rest.takeWhile (· != '>')
    match rest.drop name.length with
    | _ :: behind => if isGroupName name then some (.named name, behind) else none
    | [] => none
  | '?' :: rest =>
    let flags := rest.takeWhile fun c => c != ':' && c != ')'
    match areFlags flags, rest.drop flags.length with
    | true, ':' :: behind => some (.flagged flags, behind)
    | true, ')' :: behind => if flags.isEmpty then none else some (.flags flags, behind)
    | _, _ => none
  | cs => some (.group, cs)

/-- A group that is not closed yet, or the whole pattern. -/
structure OpenGroup where
  mode : Mode := {}
  /-- The heights of the alternatives before the last bar. -/
  branches : List Nat := []
  /-- The heights of the parts since then, the last first. -/
  parts : List Nat := []
  /-- The last part may be repeated. -/
  repeatable : Bool := false
deriving DecidableEq, Repr, Inhabited

namespace OpenGroup

def height (g : OpenGroup) : Nat :=
  match g.branches with
  | [] => rowHeight g.parts
  | hs => hs.foldl max (rowHeight g.parts) + 1

def add (g : OpenGroup) (height : Nat) : OpenGroup :=
  { g with parts := height :: g.parts, repeatable := true }

def addFlags (g : OpenGroup) (flags : List Char) : OpenGroup :=
  { g with mode := g.mode.withFlags flags, parts := 0 :: g.parts, repeatable := false }

def addBar (g : OpenGroup) : OpenGroup :=
  { g with branches := rowHeight g.parts :: g.branches, parts := [], repeatable := false }

/-- Repeats the last part, if there is one that may be repeated. -/
def repeat? (g : OpenGroup) : Option OpenGroup :=
  match g.repeatable, g.parts with
  | true, h :: hs => some { g with parts := (h + 1) :: hs }
  | _, _ => none

end OpenGroup

/-! ## Whole patterns -/

/-- Whether `cs` completes the pattern that the groups `g` and `outer` begin, where `names` are the
names of groups so far. -/
def completes (fuel : Nat) (g : OpenGroup) (outer : List OpenGroup) (names : List (List Char))
    (cs : List Char) : Bool :=
  match fuel with
  | 0 => false
  | fuel + 1 =>
    match g.mode.skip cs with
    | [] => outer.isEmpty && g.height ≤ maxHeight
    | '(' :: rest =>
      match readOpening g.mode rest with
      | none => false
      | some (.group, rest) => completes fuel { mode := g.mode } (g :: outer) names rest
      | some (.named name, rest) =>
        !names.contains name && completes fuel { mode := g.mode } (g :: outer) (name :: names) rest
      | some (.flagged flags, rest) =>
        completes fuel { mode := g.mode.withFlags flags } (g :: outer) names rest
      | some (.flags flags, rest) => completes fuel (g.addFlags flags) outer names rest
    | ')' :: rest =>
      match outer with
      | [] => false
      | o :: outer => completes fuel (o.add (g.height + 1)) outer names rest
    | '|' :: rest => completes fuel g.addBar outer names rest
    | '[' :: rest =>
      match (openClass g.mode rest).bind (readClass g.mode fuel {} []) with
      | some (h, rest) => completes fuel (g.add h) outer names rest
      | none => false
    | '\x7b' :: _ => false
    | c :: rest =>
      if c == '*' || c == '+' || c == '?' then
        match g.repeat? with
        | some g =>
          completes fuel g outer names (if rest.head? == some '?' then rest.drop 1 else rest)
        | none => false
      else
        match readAtom g.mode (c :: rest) with
        | some (a, rest) => g.mode.admits a && completes fuel (g.add 0) outer names rest
        | none => false

end Pattern

def isPattern (text : String) : Bool :=
  let cs := text.toList
  Pattern.completes (cs.length + 1) {} [] [] cs

end HeapWalk
