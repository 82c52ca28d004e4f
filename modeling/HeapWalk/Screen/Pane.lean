import HeapWalk.Screen.Theme

/-!
# Panes

A pane is a bordered picture with a title on its upper border. A list pane shows as many of its lines
as fit, from a scroll offset on.
-/

set_option autoImplicit false

namespace HeapWalk.Screen

structure Size where
  width : Nat
  height : Nat
deriving DecidableEq, Repr, Inhabited

/-- `percent` of a length, halves rounded up. -/
def share (percent n : Nat) : Nat := (n * percent + 50) / 100

def borderStyle (focused : Bool) : Style :=
  if focused then { fg := some Theme.focusedBorder, bold := true } else .ofFg Theme.border

/-- A row of `width` glyphs: `first`, `last` at the other end, and `middle` between them. -/
def edge (style : Style) (width : Nat) (first middle last : Char) : List Cell :=
  if width = 0 then []
  else ⟨first, style⟩ :: (List.replicate (width - 2) ⟨middle, style⟩ ++
    List.replicate (min (width - 1) 1) ⟨last, style⟩)

/-- The upper border, with a title from its second cell on. -/
def titleEdge (style : Style) (width : Nat) (title : String) : List Cell :=
  let shown := (spanCells style [⟨title, .plain⟩]).take (width - 2)
  let row := edge style width '┌' '─' '┐'
  row.take 1 ++ shown ++ row.drop (1 + shown.length)

/-- A row of the inside between its two borders. -/
def framedRow (style : Style) (width : Nat) (inner : List Cell) : List Cell :=
  let row := edge style width '│' ' ' '│'
  row.take 1 ++ inner ++ row.drop (1 + inner.length)

def innerSize (s : Size) : Size := ⟨s.width - 2, s.height - 2⟩

/-- A pane around `inner`, a picture of the inner size. -/
def pane (s : Size) (title : String) (focused : Bool) (inner : Picture) : Picture :=
  let style := borderStyle focused
  if s.height = 0 then []
  else titleEdge style s.width title ::
    (inner.map (framedRow style s.width) ++
      List.replicate (min (s.height - 1) 1) (edge style s.width '└' '─' '┘'))

/-! ## Scrolling -/

/-- The greatest scroll offset. -/
def maxOffset : Nat := 0xFFFFFFFFFFFFFFFF

/-- The number of lines that count as visible in a pane. -/
def visibleLines (s : Size) : Nat := max (s.height - 2) 1

/-- The offset, moved back so that the last page stays filled. -/
def clampOffset (offset total visible : Nat) : Nat :=
  if visible < total then min offset (total - visible) else 0

/-- A pane that lists lines from an offset on, with `indent` blank cells before each of them; and the
offset it then has. -/
def listPane (s : Size) (title : String) (focused : Bool) (indent : Nat) (lines : List Line)
    (offset : Nat) : Picture × Nat :=
  let visible := visibleLines s
  let offset := clampOffset offset lines.length visible
  let inner := innerSize s
  let shown := rows .plain (inner.width - indent) inner.height ((lines.drop offset).take visible)
  let margin := List.replicate (min indent inner.width) ({} : Cell)
  (pane s title focused (shown.map (margin ++ ·)), offset)

/-- A pane that shows one line on a ground of that line's style. -/
def messagePane (s : Size) (title : String) (focused : Bool) (text : String) (style : Style) :
    Picture :=
  let inner := innerSize s
  pane s title focused (rows style inner.width inner.height [.styled text style])

end HeapWalk.Screen
