import HeapWalk.Machine.Basic
import HeapWalk.Text.Unsigned

/-!
# Options

The command line names one file and may set the options `--heap-size N`, `--snapshot-limit N`,
`--no-sweep`, `--trace` and `--inspect`, each at most once. The value of an option stands in the next
argument or behind an equals sign. After `--` every argument is a file name.
-/

set_option autoImplicit false

namespace HeapWalk.Command

structure Options where
  tree : String
  heapSize : Nat := Heap.defaultCapacity
  noSweep : Bool := false
  trace : Bool := false
  inspect : Bool := false
  historyLimit : Nat := History.defaultLimit
deriving DecidableEq, Repr, Inhabited

/-- What a command line asks for. -/
inductive Request where
  | run (o : Options)
  | help
  | invalid
deriving DecidableEq, Repr, Inhabited

/-- The arguments read so far. -/
structure Draft where
  tree : Option String := none
  heapSize : Option Nat := none
  noSweep : Bool := false
  trace : Bool := false
  inspect : Bool := false
  historyLimit : Option Nat := none

def Draft.request (d : Draft) : Request :=
  match d.tree with
  | none => .invalid
  | some tree => .run
    { tree
      heapSize := d.heapSize.getD Heap.defaultCapacity
      noSweep := d.noSweep
      trace := d.trace
      inspect := d.inspect
      historyLimit := d.historyLimit.getD History.defaultLimit }

def Draft.addFile (d : Draft) (name : String) : Option Draft :=
  if d.tree.isSome || name = "" then none else some { d with tree := some name }

def Draft.addFlag (d : Draft) : (name : String) → Option Draft
  | "--no-sweep" => if d.noSweep then none else some { d with noSweep := true }
  | "--trace" => if d.trace then none else some { d with trace := true }
  | "--inspect" => if d.inspect then none else some { d with inspect := true }
  | _ => none

def Draft.addValue (d : Draft) (name value : String) : Option Draft :=
  match name, unsigned? value with
  | "--heap-size", some n => if d.heapSize.isSome then none else some { d with heapSize := some n }
  | "--snapshot-limit", some n =>
    if d.historyLimit.isSome then none else some { d with historyLimit := some n }
  | _, _ => none

def takesValue (name : String) : Bool := name = "--heap-size" || name = "--snapshot-limit"

/-- An argument of the form `name=value`. -/
def assignment? (arg : String) : Option (String × String) :=
  let cs := arg.toList
  match cs.dropWhile (· != '=') with
  | [] => none
  | _ :: value => some (String.ofList (cs.takeWhile (· != '=')), String.ofList value)

inductive ArgKind where
  | file
  | long
  | short

def argKind (arg : String) : ArgKind :=
  match arg.toList with
  | '-' :: '-' :: _ => .long
  | '-' :: _ :: _ => .short
  | _ => .file

/-- Arguments that all name files. -/
def readFiles (d : Draft) : List String → Request
  | [] => d.request
  | arg :: rest =>
    match d.addFile arg with
    | some d => readFiles d rest
    | none => .invalid

/-- Reads arguments from the left; the first that is not understood, or that asks for help, decides. -/
def readArgs (d : Draft) : List String → Request
  | [] => d.request
  | arg :: rest =>
    match argKind arg with
    | .file =>
      match d.addFile arg with
      | some d => readArgs d rest
      | none => .invalid
    | .short => if arg.startsWith "-h" then .help else .invalid
    | .long =>
      if arg = "--" then readFiles d rest
      else if arg = "--help" then .help
      else match assignment? arg with
        | some (name, value) =>
          match d.addValue name value with
          | some d => readArgs d rest
          | none => .invalid
        | none =>
          if takesValue arg then
            match rest with
            | [] => .invalid
            | value :: rest =>
              match d.addValue arg value with
              | some d => readArgs d rest
              | none => .invalid
          else match d.addFlag arg with
            | some d => readArgs d rest
            | none => .invalid

def parse (args : List String) : Request := readArgs {} args

end HeapWalk.Command
