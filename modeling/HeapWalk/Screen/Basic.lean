/-!
# Pictures

A picture is a list of rows of styled cells. Text is drawn from `Line`s of styled spans; a newline
takes no cell, every other character takes one.
-/

set_option autoImplicit false

namespace HeapWalk.Screen

inductive Color where
  | rgb (red green blue : UInt8)
  | black
deriving DecidableEq, Repr, Inhabited

/-- What is missing in a style stays as it is where the style is applied. -/
structure Style where
  fg : Option Color := none
  bg : Option Color := none
  bold : Bool := false
deriving DecidableEq, Repr, Inhabited

namespace Style

def plain : Style := {}

def ofFg (c : Color) : Style := { fg := some c }

/-- `s` with what `top` fixes put over it. -/
def patch (s top : Style) : Style where
  fg := top.fg <|> s.fg
  bg := top.bg <|> s.bg
  bold := s.bold || top.bold

end Style

structure Cell where
  glyph : Char := ' '
  style : Style := {}
deriving DecidableEq, Repr, Inhabited

abbrev Picture := List (List Cell)

structure Span where
  text : String
  style : Style := {}
deriving DecidableEq, Repr, Inhabited

/-- A row of text. Its own style fills the whole row it is drawn in, below the styles of its spans. -/
structure Line where
  spans : List Span
  style : Style := {}
deriving DecidableEq, Repr, Inhabited

namespace Line

def styled (text : String) (style : Style) : Line := ⟨[⟨text, .plain⟩], style⟩

def blank : Line := ⟨[], .plain⟩

end Line

/-- The cells of a span over a ground of style `ground`. -/
def Span.cells (ground : Style) (s : Span) : List Cell :=
  (s.text.toList.filter (· != '\n')).map fun c => ⟨c, ground.patch s.style⟩

def spanCells (ground : Style) (spans : List Span) : List Cell := spans.flatMap (Span.cells ground)

/-- `cells` cut to `width`, or filled up to it with blank cells of style `ground`. -/
def fitLeft (ground : Style) (width : Nat) (cells : List Cell) : List Cell :=
  cells.take width ++ List.replicate (width - cells.length) ⟨' ', ground⟩

/-- `cells` cut to `width`, or moved to its right end behind blank cells of style `ground`. -/
def fitRight (ground : Style) (width : Nat) (cells : List Cell) : List Cell :=
  List.replicate (width - cells.length) ⟨' ', ground⟩ ++ cells.take width

/-- The row that a line is drawn as. A line without text leaves its row plain. -/
def Line.row (width : Nat) (l : Line) : List Cell :=
  let cells := spanCells l.style l.spans
  fitLeft (if cells.isEmpty then .plain else l.style) width cells

/-- `height` rows that show the first lines, and blank rows of style `ground` below them. -/
def rows (ground : Style) (width height : Nat) (lines : List Line) : Picture :=
  (lines.take height).map (Line.row width) ++
    List.replicate (height - lines.length) (List.replicate width ⟨' ', ground⟩)

/-- Two pictures of the same height, one beside the other. -/
def beside (left right : Picture) : Picture := List.zipWith (· ++ ·) left right

end HeapWalk.Screen
