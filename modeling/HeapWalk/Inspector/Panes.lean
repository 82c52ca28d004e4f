import HeapWalk.History
import HeapWalk.Screen.Pane

/-!
# The panes of the inspector

The scopes pane lists the contexts from the innermost outwards; the heap pane shows a map with one
cell for each byte and then the live allocations; the output pane lists the printed values; the
status bar shows the step, a message and the keys.
-/

set_option autoImplicit false

namespace HeapWalk.Inspector

open Screen

def span (text : String) (c : Color) : Span := ⟨text, .ofFg c⟩

/-! ## Scopes -/

def addressText (p : Pointer) : String := s!"0x{hexText 4 p.address}"

/-- A binding with its value, or a mark if that cannot be read. -/
def bindingLine (h : Heap) (name : String) (v : Variable) : Line :=
  let value := match h.readValue v.pointer v.type with
    | .ok value => span value.text Theme.value
    | .error _ => span "<freed>" Theme.error
  ⟨[span s!"  {name}" Theme.text, span s!": {v.type.text} = " Theme.comment, value,
    span s!"  @{addressText v.pointer}" Theme.comment], .plain⟩

def functionLine (f : FunctionDef) : Line :=
  let params := ", ".intercalate f.params
  ⟨[span "  fn " Theme.accent, span f.name Theme.text, span s!"({params})" Theme.comment], .plain⟩

def contextTitle (c : Context) : Line :=
  ⟨[⟨c.name, { fg := some Theme.scopeName, bold := true }⟩,
    span s!" ({c.kind.text} {ScopeId.text c.id})" Theme.comment], .plain⟩

/-- A context: its title, its bindings, functions and return value, or a mark that it has none. -/
def contextLines (h : Heap) (c : Context) : List Line :=
  let bindings := c.locals.map fun (name, v) => bindingLine h name v
  let functions := c.functions.map fun (_, f) => functionLine f
  let returned := c.returnValue.toList.map (bindingLine h "⮐ return")
  let entries := bindings ++ functions ++ returned
  contextTitle c ::
    if entries.isEmpty then [.styled "  (empty)" (.ofFg Theme.comment)] else entries

def scopeLines (h : Heap) (s : ScopeStack) : List Line :=
  if s.isEmpty then [.styled "(no scope contexts)" (.ofFg Theme.comment)]
  else s.contexts.flatMap (contextLines h)

def scopesPane (size : Size) (focused : Bool) (h : Heap) (s : ScopeStack) (offset : Nat) :
    Picture × Nat :=
  listPane size " Scopes " focused 0 (scopeLines h s) offset

/-! ## Heap -/

/-- The ownership of each byte, by address. -/
def owners (h : Heap) : Array (Option Ownership) :=
  h.allocations.foldl
    (fun row a => storeAt row a.pointer.address (List.replicate a.pointer.size (some a.ownership)))
    (Array.replicate h.capacity none)

def ownedGlyph : Char := '█'

def temporaryGlyph : Char := '▒'

def freeGlyph : Char := '·'

/-- The cell of the map for a byte. -/
def byteSpan : Option Ownership → Span
  | some (.owned _) => span ownedGlyph.toString Theme.owned
  | some (.temporary _) => span temporaryGlyph.toString Theme.temporary
  | none => span freeGlyph.toString Theme.free

/-- The items in rows of `width`, which is not zero; the last row may be shorter. -/
def chunks {α : Type} (width : Nat) : List α → List (List α)
  | [] => []
  | x :: rest => (x :: rest.take (width - 1)) :: chunks width (rest.drop (width - 1))
termination_by items => items.length
decreasing_by
  simp only [List.length_drop, List.length_cons]
  omega

/-- One row of the map for each `width` bytes, the lowest addresses first. -/
def occupancyLines (h : Heap) (width : Nat) : List Line :=
  (chunks width ((owners h).toList.map byteSpan)).map fun spans => ⟨spans, .plain⟩

/-- The content of an allocation; its size tells the type. -/
def contentText (h : Heap) (p : Pointer) : String :=
  let type? : Option ValueType :=
    if p.size = ValueType.number.size then some .number
    else if p.size = ValueType.boolean.size then some .boolean
    else none
  match type?.bind fun t => (h.readValue p t).toOption with
  | some value => value.text
  | none => "?"

def ownerSpan : Ownership → Span
  | .owned scope => span s!"owned {ScopeId.text scope}" Theme.owned
  | .temporary scope => span s!"temp  {ScopeId.text scope}" Theme.temporary

def allocationLine (h : Heap) (a : Allocation) : Line :=
  ⟨[span (addressText a.pointer) Theme.comment, ⟨s!" [{a.pointer.size}] ", .plain⟩,
    ownerSpan a.ownership, ⟨" = ", .plain⟩, span (contentText h a.pointer) Theme.value], .plain⟩

def heapLines (h : Heap) (width : Nat) : List Line :=
  let allocations := h.allocations
  let listed :=
    if allocations.isEmpty then [Line.styled "(no allocations)" (.ofFg Theme.comment)]
    else allocations.map (allocationLine h)
  occupancyLines h width ++ Line.blank :: listed

def heapPane (size : Size) (focused : Bool) (h : Heap) (offset : Nat) : Picture × Nat :=
  listPane size s!" Heap {h.occupied}/{h.capacity} bytes " focused 0
    (heapLines h (max (size.width - 2) 8)) offset

/-! ## Output -/

/-- `n`, moved to the right end of `width` characters. -/
def padLeft (width n : Nat) : String :=
  let digits := Nat.repr n
  String.ofList (List.replicate (width - digits.length) ' ') ++ digits

def outputRow (l : OutputLine) : Line :=
  ⟨[span s!"{padLeft 4 l.line} │ " Theme.comment, span l.text Theme.text], .plain⟩

/-- Without output the offset stays as it is. -/
def outputPane (size : Size) (focused : Bool) (o : Output) (offset : Nat) : Picture × Nat :=
  let title := " Output "
  if o.isEmpty then
    (messagePane size title focused "(no output)" (.ofFg Theme.comment), offset)
  else listPane size title focused 1 (o.toList.map outputRow) offset

/-! ## Status bar -/

structure Status where
  message : String
  /-- The position of the cursor, from `0` on. -/
  step : Nat
  total : Nat
  line : Nat
  faulted : Bool
  playing : Bool
deriving DecidableEq, Repr, Inhabited

def onBar (c : Color) : Style := { fg := some c, bg := some Theme.bar }

/-- Black text on a ground. -/
def badge (text : String) (ground : Color) : Span :=
  ⟨text, { fg := some .black, bg := some ground, bold := true }⟩

namespace Status

def leftSpans (s : Status) : List Span :=
  [badge s!" Step {s.step + 1}/{s.total} · line {s.line} "
      (if s.faulted then Theme.error else Theme.accent),
    ⟨" | ", onBar Theme.comment⟩,
    ⟨s!" {s.message} ", onBar (if s.faulted then Theme.error else Theme.text)⟩]

def separator : Span := ⟨"│", onBar Theme.comment⟩

def keyHint (key action : String) : List Span :=
  [⟨key, { fg := some .black, bg := some Theme.comment }⟩, ⟨action, onBar Theme.text⟩]

def keyHints : List Span :=
  keyHint " ←/→ " " step " ++ separator :: keyHint " ⎵ " " play " ++
    separator :: keyHint " ↵ / ⌫ " " end/start " ++ separator :: keyHint " ⇥ " " focus " ++
    separator :: keyHint " q " " quit "

/-- The mark of the state: a fault, playback, the last step or the first. -/
def mark? (s : Status) : Option Span :=
  if s.faulted then some (badge " FAULT " Theme.error)
  else if s.playing then some (badge " ▶ PLAYING " Theme.playing)
  else if s.total ≤ s.step + 1 then some (badge " END " Theme.comment)
  else if s.step = 0 then some (badge " START " Theme.start)
  else none

def rightSpans (s : Status) : List Span :=
  match s.mark? with
  | some mark => keyHints ++ [separator, mark]
  | none => keyHints

end Status

def statusRow (width : Nat) (s : Status) : List Cell :=
  let ground : Style := { bg := some Theme.bar }
  let left := share 50 width
  fitLeft ground left (spanCells ground s.leftSpans) ++
    fitRight ground (width - left) (spanCells ground s.rightSpans)

/-- The status bar is the first row; the rows below it, if there are any, belong to the bar too. -/
def statusBar (size : Size) (s : Status) : Picture :=
  let ground : Style := { bg := some Theme.bar }
  (statusRow size.width s :: List.replicate (size.height - 1)
    (List.replicate size.width ⟨' ', ground⟩)).take size.height

end HeapWalk.Inspector
