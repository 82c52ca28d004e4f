import HeapWalk.Command.Filter
import HeapWalk.Command.Options
import HeapWalk.Inspector.Basic
import HeapWalk.Machine.Run
import HeapWalk.Tree.Reader

/-!
# The command

Reads a syntax tree, runs it as a program and says what to write and with which code to exit. The
values that the program prints and the events of its run go to standard output, reports to standard
error. An inspection shows the recorded run before its report.
-/

set_option autoImplicit false

namespace HeapWalk.Command

/-- What the command takes from its surroundings. -/
structure Environment where
  /-- A log filter that replaces the level chosen by the options. -/
  log : Option String := none
  noColor : Bool := false
  /-- The names by which a log filter calls the components. -/
  nameOf : Component → String := Component.name
deriving Inhabited

/-- The end of a command: the lines it writes and its exit code. -/
structure Ending where
  exitCode : UInt8
  stdout : List String := []
  stderr : List String := []
deriving DecidableEq, Repr, Inhabited

def usage : String :=
  "Usage: heapwalk [--heap-size N] [--no-sweep] [--trace] [--inspect] [--snapshot-limit N] <TREE>"

def Ending.help : Ending := { exitCode := 0, stdout := [usage] }

def Ending.invalid : Ending := { exitCode := 2, stderr := [usage] }

/-! ## Reports in colour -/

def escaped (code : String) : String := s!"\x1b[{code}m"

def redStart (noColor : Bool) : String := escaped (if noColor then "" else "38;5;9")

def redStop (noColor : Bool) : String := escaped (if noColor then "" else "39")

def red (noColor : Bool) (text : String) : String := redStart noColor ++ text ++ redStop noColor

def boldRed (noColor : Bool) (text : String) : String :=
  redStart noColor ++ escaped "1" ++ text ++ escaped "0"

def reportLines (noColor : Bool) (r : Report) : List String :=
  boldRed noColor r.headline ::
    (r.frameLines.map (red noColor) ++ [red noColor "execution interrupted"])

/-! ## Running -/

def filter (o : Options) (env : Environment) : Filter :=
  if o.inspect then .off
  else (env.log.bind (filter? env.nameOf)).getD (.upTo (if o.trace then .debug else .info))

def config (o : Options) (env : Environment) : Config where
  heapCapacity := o.heapSize
  sweep := !o.noSweep
  record := o.inspect
  historyLimit := if o.inspect then o.historyLimit else History.defaultLimit
  echo := !o.inspect
  filter := filter o env

/-- A run that is over, and the report of its fault, if it had one. -/
structure Completed where
  machine : Machine
  fault : Option Report

/-- Runs a program from its start. -/
def execute (fuel : Nat) (program : Program) (c : Config) : Completed :=
  let run : Exec Unit := do
    Exec.note (.lowered program.length)
    Exec.run fuel
  match run (Machine.initial program c) with
  | .done _ m => ⟨m, none⟩
  | .fault e m => ⟨m, some (m.diagnose e)⟩
  | .exhausted m => ⟨m, none⟩

/-- The end of a command whose run is over. -/
def Completed.ending (c : Completed) (env : Environment) : Ending where
  exitCode := if c.fault.isSome then 1 else 0
  stdout := c.machine.journal.toList.map Entry.text
  stderr := match c.fault with
    | some r => reportLines env.noColor r
    | none => []

def Completed.inspector (c : Completed) : Inspector := .ofRun c.machine c.fault

/-- Runs the tree that `content` writes; `content` is what the file holds, if it can be read. -/
def perform (fuel : Nat) (o : Options) (env : Environment) (content : Option String) :
    Except Ending Completed :=
  match content with
  | none => .error { exitCode := 1, stderr := [s!"Error: failed to read {o.tree}"] }
  | some text =>
    match Tree.read text with
    | .error _ =>
      .error { exitCode := 1, stderr := [s!"Error: {o.tree} is not a valid syntax tree"] }
    | .ok node =>
      match node.toProgram with
      | .error d =>
        .error { exitCode := 1, stderr := reportLines env.noColor (Report.ofDefect d) }
      | .ok program => .ok (execute fuel program (config o env))

/-- More fuel than a run that ends in anyone's lifetime uses. -/
def plentyOfFuel : Nat := 1000000000000000000

end HeapWalk.Command
