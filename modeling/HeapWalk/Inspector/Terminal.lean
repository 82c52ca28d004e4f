import HeapWalk.Inspector.Basic

/-!
# Pictures and keys on a terminal

The escape sequences that draw a picture on a terminal, and the keys that typed characters stand for.
-/

set_option autoImplicit false

namespace HeapWalk.Inspector.Terminal

open Screen

def escaped (code : String) : String := s!"\x1b[{code}"

/-- The colour as a parameter of a style sequence that begins with `selector`. -/
def colorCode (selector : Nat) : Color → String
  | .black => s!"{selector};5;0"
  | .rgb r g b => s!"{selector};2;{r.toNat};{g.toNat};{b.toNat}"

def styleText (s : Style) : String :=
  let codes := ["0"] ++ (if s.bold then ["1"] else []) ++
    (s.fg.map (colorCode 38)).toList ++ (s.bg.map (colorCode 48)).toList
  escaped (";".intercalate codes ++ "m")

/-- A row, with a style sequence wherever the style changes; `current` is the style at its start. -/
def rowText (current : Style) : List Cell → String
  | [] => ""
  | c :: rest =>
    let change := if c.style = current then "" else styleText c.style
    change ++ c.glyph.toString ++ rowText c.style rest

/-- Draws a picture from the upper left corner of a cleared terminal. -/
def drawText (p : Picture) : String :=
  escaped "2J" ++ escaped "H" ++
    "\r\n".intercalate (p.map fun row => styleText .plain ++ rowText .plain row) ++
    styleText .plain

/-- The keys that a row of typed characters stands for. -/
def keysOf : List Char → List Key
  | [] => []
  | '\x1b' :: '[' :: 'A' :: rest => .up :: keysOf rest
  | '\x1b' :: '[' :: 'B' :: rest => .down :: keysOf rest
  | '\x1b' :: '[' :: 'C' :: rest => .right :: keysOf rest
  | '\x1b' :: '[' :: 'D' :: rest => .left :: keysOf rest
  | c :: rest =>
    let key := match c with
      | '\x1b' => Key.escape
      | '\t' => .tab
      | '\x7f' => .backspace
      | '\x08' => .backspace
      | c => .char c
    key :: keysOf rest

/-- The keys of a typed line; an empty line is the enter key. -/
def lineKeys (line : String) : List Key :=
  match line.toList.filter fun c => c != '\n' && c != '\r' with
  | [] => [.enter]
  | cs => keysOf cs

end HeapWalk.Inspector.Terminal
