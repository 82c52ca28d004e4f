import HeapWalk.Command.Basic
import HeapWalk.Inspector.Terminal

/-!
# The program

Takes its options from the command line and its log filter from the variable `HEAPWALK_LOG`. The
inspector reads its keys line by line and shows playback step by step.
-/

set_option autoImplicit false

namespace HeapWalk.Main

open Command

/-- The size of the inspector's screen. -/
def screenSize : Screen.Size := ⟨80, 24⟩

/-- The pause between two steps of playback, in milliseconds. -/
def playbackPause : UInt32 := 500

def environment : IO Environment := do
  let log ← IO.getEnv "HEAPWALK_LOG"
  let noColor ← IO.getEnv "NO_COLOR"
  return { log, noColor := (noColor.getD "") != "" }

def content (file : String) : IO (Option String) := do
  try
    let text ← IO.FS.readFile file
    return some text
  catch _ => return none

def write (e : Ending) : IO UInt32 := do
  for line in e.stdout do
    IO.println line
  for line in e.stderr do
    IO.eprintln line
  return e.exitCode.toUInt32

partial def inspect (input : IO.FS.Stream) (i : Inspector) : IO Unit := do
  let (picture, i) := i.draw screenSize
  IO.print (Inspector.Terminal.drawText picture)
  if i.quitting then return ()
  if i.playing then
    IO.sleep playbackPause
    inspect input i.tick
  else
    let line ← input.getLine
    if line.isEmpty then return ()
    let keys := Inspector.Terminal.lineKeys line
    inspect input (keys.foldl (fun i key => if i.quitting then i else i.press key) i)

def run (args : List String) : IO UInt32 := do
  let env ← environment
  match parse args with
  | .help => write .help
  | .invalid => write .invalid
  | .run o =>
    match perform plentyOfFuel o env (← content o.tree) with
    | .error e => write e
    | .ok c =>
      if o.inspect then inspect (← IO.getStdin) c.inspector
      write (c.ending env)

end HeapWalk.Main

def main (args : List String) : IO UInt32 := HeapWalk.Main.run args
