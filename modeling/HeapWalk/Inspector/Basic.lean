import HeapWalk.Inspector.Panes
import HeapWalk.Report

/-!
# The inspector

The inspector replays the history of a run. Keys move the cursor, the focus and the scroll offsets of
the panes; while playback is on, every tick moves the cursor one step forward. The machine itself is
only looked at: nothing but the cursor of its history changes.
-/

set_option autoImplicit false

namespace HeapWalk

inductive Focus where
  | scopes
  | heap
  | output
deriving DecidableEq, Repr, Inhabited

def Focus.next : Focus → Focus
  | scopes => heap
  | heap => output
  | output => scopes

inductive Key where
  | left
  | right
  | up
  | down
  | tab
  | enter
  | backspace
  | escape
  | char (c : Char)
deriving DecidableEq, Repr, Inhabited

/-- The scroll offsets of the panes. -/
structure Offsets where
  scopes : Nat := 0
  heap : Nat := 0
  output : Nat := 0
deriving DecidableEq, Repr, Inhabited

def Offsets.modify (o : Offsets) (f : Nat → Nat) : Focus → Offsets
  | .scopes => { o with scopes := f o.scopes }
  | .heap => { o with heap := f o.heap }
  | .output => { o with output := f o.output }

structure Inspector where
  machine : Machine
  /-- The report of the fault that ended the run. -/
  fault : Option Report
  focus : Focus := .scopes
  offsets : Offsets := {}
  status : String
  playing : Bool := false
  quitting : Bool := false
deriving Repr, Inhabited

namespace Inspector

/-- An inspector on a machine whose run is over. -/
def ofRun (m : Machine) (fault : Option Report) : Inspector where
  machine := { m with history := m.history.rewind }
  fault := fault
  status := match fault with
    | some r => r.headline
    | none => "Ready!"

def history (i : Inspector) : History := i.machine.history

def withHistory (i : Inspector) (h : History) : Inspector :=
  { i with machine := { i.machine with history := h } }

/-- The output is shown from its end. -/
def showLastOutput (i : Inspector) : Inspector :=
  { i with offsets := { i.offsets with output := Screen.maxOffset } }

/-! ## Keys and ticks -/

def stepBackward (i : Inspector) : Inspector :=
  let (moved, h) := i.history.stepBackward
  { i.withHistory h with
    playing := false
    status := if moved then "Stepped backward" else "Already at the first step" }

def stepForward (i : Inspector) : Inspector :=
  let (moved, h) := i.history.stepForward
  showLastOutput
    { i.withHistory h with
      playing := false
      status := if moved then "Stepped forward" else "Already at the last step" }

def togglePlayback (i : Inspector) : Inspector :=
  { i with
    playing := !i.playing
    status := if i.playing then "Paused" else "Playing..." }

def jumpToEnd (i : Inspector) : Inspector :=
  showLastOutput
    { i.withHistory i.history.jumpToEnd with
      playing := false
      status := "Jumped to end" }

def jumpToStart (i : Inspector) : Inspector :=
  { i.withHistory i.history.rewind with
    playing := false
    status := "Jumped to start" }

def press (i : Inspector) : Key → Inspector
  | .char 'q' | .char 'Q' | .escape => { i with quitting := true }
  | .tab => { i with focus := i.focus.next }
  | .left => i.stepBackward
  | .right => i.stepForward
  | .up => { i with offsets := i.offsets.modify (fun n => n - 1) i.focus }
  | .down => { i with offsets := i.offsets.modify (fun n => min (n + 1) Screen.maxOffset) i.focus }
  | .char ' ' => i.togglePlayback
  | .enter => i.jumpToEnd
  | .backspace => i.jumpToStart
  | .char _ => i

/-- What happens at the end of each interval of playback. -/
def tick (i : Inspector) : Inspector :=
  if i.playing then
    let (moved, h) := i.history.stepForward
    if moved then (i.withHistory h).showLastOutput
    else { i with playing := false, status := "Playback complete" }
  else i

/-! ## Drawing -/

/-- The snapshot under the cursor, or the state of the machine if nothing was recorded. -/
def shown (i : Inspector) : Snapshot :=
  i.history.current?.getD
    { heap := i.machine.heap
      scopes := i.machine.scopes
      output := i.machine.output
      line := i.machine.line
      faulted := i.fault.isSome }

/-- The message of the status bar: the fault, where it is shown. -/
def message (i : Inspector) : String :=
  match i.fault with
  | some r => if i.shown.faulted then r.headline else i.status
  | none => i.status

def statusShown (i : Inspector) : Status where
  message := i.message
  step := i.history.position
  total := max i.history.length 1
  line := i.shown.line
  faulted := i.shown.faulted
  playing := i.playing

/-- The screen that shows a snapshot, its scopes above its output, its heap beside them and the
status bar below, and the offsets that the drawn panes have. -/
def picture (s : Snapshot) (focus : Focus) (offsets : Offsets) (status : Status)
    (size : Screen.Size) : Screen.Picture × Offsets :=
  let height := size.height - 1
  let left := Screen.share 50 size.width
  let upper := Screen.share 65 height
  let (scopes, scopesOffset) :=
    scopesPane ⟨left, upper⟩ (focus = .scopes) s.heap s.scopes offsets.scopes
  let (output, outputOffset) :=
    outputPane ⟨left, height - upper⟩ (focus = .output) s.output offsets.output
  let (heap, heapOffset) :=
    heapPane ⟨size.width - left, height⟩ (focus = .heap) s.heap offsets.heap
  let bar := statusBar ⟨size.width, min size.height 1⟩ status
  (Screen.beside (scopes ++ output) heap ++ bar, ⟨scopesOffset, heapOffset, outputOffset⟩)

/-- The picture of what is shown, and the inspector with the offsets of its panes. -/
def draw (i : Inspector) (size : Screen.Size) : Screen.Picture × Inspector :=
  let (screen, offsets) := picture i.shown i.focus i.offsets i.statusShown size
  (screen, { i with offsets })

end Inspector

end HeapWalk
