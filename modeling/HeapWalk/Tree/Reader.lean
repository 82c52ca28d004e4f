import HeapWalk.Tree.Node
import HeapWalk.Tree.Text

/-!
# Reading a tree

A node is written as an object with the fields that are declared in `Node.slots`, each at most once
and in any order, or as a list of their values in the order of their declaration. What is left out
is empty, or `0`; fields of other names are skipped. At most `maxDepth` brackets of nodes, lists of
children and objects of properties may be open at once. Any other library for JSON could take the
place of these readers: nothing else in the program depends on how the text is read.

Lists and objects are read with a `limit` on the number of their items. Each item takes a character
at least, so a limit above the length of the text is never met.
-/

set_option autoImplicit false

namespace HeapWalk.Tree

/-- Why a value that starts here is none of the expected kind. A scalar has to be well-formed, and
a number not too large, before its kind is looked at. -/
def refusal (cs : List Char) : ReadError :=
  match cs with
  | [] => .truncated
  | c :: rest =>
    let read : Except ReadError Unit :=
      match c with
      | '[' | '{' => .ok ()
      | '"' => (readString [] rest).map fun _ => ()
      | '-' => numeral rest
      | c => if c.isDigit then numeral (c :: rest) else (skipScalar c rest).map fun _ => ()
    match read with
    | .error e => e
    | .ok () => .wrongShape
where
  numeral (cs : List Char) : Except ReadError Unit := do
    let (n, _) ← readNumeral .truncated cs
    if n.isHuge then .error .illFormed else .ok ()

def readText : Reader String := fun cs =>
  match skipBlank cs with
  | '"' :: rest => readString [] rest
  | cs => .error (refusal cs)

/-- A natural number below `2 ^ 64`, written without sign, point and exponent. -/
def readLineNumber : Reader Nat := fun cs =>
  match skipBlank cs with
  | [] => .error .truncated
  | c :: rest =>
    if c.isDigit then do
      let (n, rest) ← readNumeral .truncated (c :: rest)
      match n.word? with
      | some line => .ok (line, rest)
      | none => .error (if n.isHuge then .illFormed else .wrongShape)
    else .error (refusal (c :: rest))

/-! ## Lists -/

/-- Whether another item of a list follows, and the text from it, or from the closing bracket, on.
No item was read before if `first`. -/
def nextItem (first : Bool) : Reader Bool := fun cs =>
  match skipBlank cs with
  | [] => .error .truncated
  | c :: rest =>
    if c = ']' then .ok (false, c :: rest)
    else if first then .ok (true, c :: rest)
    else if c = ',' then
      match skipBlank rest with
      | [] => .error .truncated
      | ']' :: _ => .error .illFormed
      | rest => .ok (true, rest)
    else .error .illFormed

/-- The items of a list up to its closing bracket; `acc` holds those read before, backwards. -/
def readItems {α : Type} (item : Reader α) : (fuel : Nat) → List α → Reader (List α)
  | 0, _, _ => .error .illFormed
  | fuel + 1, acc, cs => do
    let (more, cs) ← nextItem acc.isEmpty cs
    if more then
      let (x, cs) ← item cs
      readItems item fuel (x :: acc) cs
    else .ok (acc.reverse, cs.drop 1)

/-- A list of fewer than `limit` items. -/
def readList {α : Type} (limit : Nat) (item : Reader α) : Reader (List α) := fun cs =>
  match skipBlank cs with
  | '[' :: rest => readItems item limit [] rest
  | cs => .error (refusal cs)

/-! ## Objects -/

/-- The name of the next field of an object, or none at its end, and the text behind it. No field
was read before if `first`. -/
def nextKey (first : Bool) : Reader (Option String) := fun cs =>
  match skipBlank cs with
  | [] => .error .truncated
  | c :: rest =>
    if c = '}' then .ok (none, rest)
    else if first then key (c :: rest)
    else if c = ',' then key (skipBlank rest)
    else .error .illFormed
where
  key : Reader (Option String)
    | [] => .error .truncated
    | '"' :: rest => (readString [] rest).map fun (name, rest) => (some name, rest)
    | _ => .error .illFormed

def readColon (cs : List Char) : Except ReadError (List Char) :=
  match skipBlank cs with
  | [] => .error .truncated
  | ':' :: rest => .ok rest
  | _ => .error .illFormed

/-- The fields of an object up to its end, added to those of `acc`. -/
def readEntries {α : Type} (item : Reader α) :
    (fuel : Nat) → (first : Bool) → Bindings α → Reader (Bindings α)
  | 0, _, _, _ => .error .illFormed
  | fuel + 1, first, acc, cs => do
    match ← nextKey first cs with
    | (none, cs) => .ok (acc, cs)
    | (some name, cs) =>
      let cs ← readColon cs
      let (x, cs) ← item cs
      readEntries item fuel false (acc.insert name x) cs

/-- An object with fewer than `limit` fields of any names; of two with the same name the later
counts. -/
def readMap {α : Type} (limit : Nat) (item : Reader α) : Reader (Bindings α) := fun cs =>
  match skipBlank cs with
  | '{' :: rest => readEntries item limit true [] rest
  | cs => .error (refusal cs)

/-! ## Nodes -/

/-- A value, and what `put` makes of it. -/
def readInto {α : Type} (item : Reader α) (put : α → Node) : Reader Node := fun cs => do
  let (x, cs) ← item cs
  .ok (put x, cs)

section
variable (limit : Nat) (children : Reader (List Node)) (properties : Reader (Bindings Node))

/-- The value of a field, put into the node. -/
def readSlot (n : Node) : Node.Slot → Reader Node
  | .text put => readInto readText (put · n)
  | .natural put => readInto readLineNumber (put · n)
  | .list put => readInto children (put · n)
  | .map put => readInto properties (put · n)

/-- The field called `name`, of which the text from the colon on is left, put into the node. The
fields called `seen` were read before. -/
def readField (seen : List String) (n : Node) (name : String) : Reader Node := fun cs =>
  match Node.slots.lookup name with
  | some slot =>
    if seen.contains name then .error .wrongShape
    else do
      let cs ← readColon cs
      readSlot children properties n slot cs
  | none => do
    let cs ← readColon cs
    let cs ← skipValue limit cs
    .ok (n, cs)

/-- The fields of a node up to the end of its object, put into the node. -/
def readFields : (fuel : Nat) → (seen : List String) → Node → Reader Node
  | 0, _, _, _ => .error .illFormed
  | fuel + 1, seen, n, cs => do
    match ← nextKey seen.isEmpty cs with
    | (none, cs) => .ok (n, cs)
    | (some name, cs) =>
      let (n, cs) ← readField limit children properties seen n name cs
      readFields fuel (name :: seen) n cs

/-- The fields of a node written as a list, up to the closing bracket, put into the node. The list
may end before it comes to all of them. -/
def readPlaces (n : Node) : (first : Bool) → List (String × Node.Slot) → Reader Node
  | _, [], cs =>
    match skipBlank cs with
    | [] => .error .truncated
    | ']' :: rest => .ok (n, rest)
    | _ => .error .illFormed
  | first, (_, slot) :: slots, cs => do
    let (more, cs) ← nextItem first cs
    let (n, cs) ← if more then readSlot children properties n slot cs else .ok (n, cs)
    readPlaces n false slots cs

/-- A node whose bracket may be opened. -/
def readOpenNode : Reader Node := fun cs =>
  match skipBlank cs with
  | '{' :: rest => readFields limit children properties limit [] {} rest
  | '[' :: rest => readPlaces children properties {} true Node.slots rest
  | cs => .error (refusal cs)

end

/-- Refuses a value that opens one of `brackets`, which may not be opened here. -/
def readTooDeep {α : Type} (brackets : List Char) : Reader α := fun cs =>
  match skipBlank cs with
  | [] => .error .truncated
  | c :: rest => .error (if brackets.contains c then .illFormed else refusal (c :: rest))

/-- A node within which, itself included, `depth` brackets may be open at once. -/
def readNode (limit : Nat) : (depth : Nat) → Reader Node
  | 0 => readTooDeep ['{', '[']
  | 1 => readOpenNode limit (readTooDeep ['[']) (readTooDeep ['{'])
  | depth + 2 =>
    readOpenNode limit (readList limit (readNode limit depth)) (readMap limit (readNode limit depth))

def maxDepth : Nat := 127

/-- Reads a value from a text that holds nothing else. -/
def fromText {α : Type} (value : (limit depth : Nat) → Reader α) (text : String) :
    Except ReadError α := do
  let (x, rest) ← value (text.length + 1) maxDepth text.toList
  if (skipBlank rest).isEmpty then .ok x else .error .illFormed

def read (text : String) : Except ReadError Node := fromText readNode text

end HeapWalk.Tree
