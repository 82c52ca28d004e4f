import HeapWalk.Text.Ranges

/-!
# Modes of a pattern

Flags such as `(?x-u)` change how the rest of a group is read: they set the flags before the hyphen
and clear those behind it.
-/

set_option autoImplicit false

namespace HeapWalk.Pattern

structure Mode where
  /-- Blanks are left out, and so are comments from a number sign to the end of the line. -/
  spaced : Bool := false
  /-- Letters stand for both their cases. -/
  caseless : Bool := false
  /-- Characters are meant and not bytes. -/
  unicode : Bool := true
deriving DecidableEq, Repr, Inhabited

/-- Whether `flags` set or clear `flag`; otherwise it stays as it was. -/
def flagState (flags : List Char) (flag : Char) (before : Bool) : Bool :=
  if (flags.takeWhile (· != '-')).contains flag then true
  else !flags.contains flag && before

/-- Known flags, each at most once, and something behind the hyphen. -/
def areFlags (flags : List Char) : Bool :=
  flags.all "imsUuxR-".toList.contains && flags.Nodup && flags.getLast? != some '-'

def skipSpaced (inComment : Bool) : List Char → List Char
  | [] => []
  | c :: rest =>
    if inComment then skipSpaced (c != '\n') rest
    else if c == '#' then skipSpaced true rest
    else if isBlank c then skipSpaced false rest
    else c :: rest

def glanceSpaced (inComment : Bool) : List Char → Option Char
  | [] => none
  | c :: rest =>
    if isBlank c then glanceSpaced inComment rest
    else if !inComment && c == '#' then glanceSpaced true rest
    else some c

namespace Mode

def withFlags (m : Mode) (flags : List Char) : Mode where
  spaced := flagState flags 'x' m.spaced
  caseless := flagState flags 'i' m.caseless
  unicode := flagState flags 'u' m.unicode

/-- The text from the next character on that counts. -/
def skip (m : Mode) (cs : List Char) : List Char := if m.spaced then skipSpaced false cs else cs

/-- A glance at what follows. It looks over blanks and the sign of a comment, not over comments. -/
def glance (m : Mode) (cs : List Char) : Option Char :=
  if m.spaced then glanceSpaced false cs else cs.head?

end Mode

end HeapWalk.Pattern
