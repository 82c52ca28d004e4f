import HeapWalk.Journal.Filter
import HeapWalk.Pattern.Basic
import HeapWalk.Text.Unsigned

/-!
# Directives

A directive is one item of a log filter: a level, or a target with a level, `heapwalk.heap=debug`.
Behind the target it may name a span and a field in brackets, `heapwalk[run{name=x}]=info`. Places
in a directive are counted without the blanks before it, while its pieces are cut from the whole
text.
-/

set_option autoImplicit false

namespace HeapWalk.Command

/-- A field that a directive asks for, possibly with a certain value. -/
structure FieldTest where
  name : String
  valued : Bool := false
deriving DecidableEq, Repr, Inhabited

structure Directive where
  target : Option String := none
  span : Option String := none
  field : Option FieldTest := none
  verbosity : Verbosity := .upTo .trace
deriving DecidableEq, Repr, Inhabited

/-- A level by its number, or by its name in letters of any case. -/
def verbosity? (word : String) : Option Verbosity :=
  match unsigned? word, word.toLower with
  | some 0, _ | none, "off" => some .off
  | some 1, _ | none, "error" => some (.upTo .error)
  | some 2, _ | none, "warn" => some (.upTo .warn)
  | some 3, _ | none, "info" => some (.upTo .info)
  | some 4, _ | none, "debug" => some (.upTo .debug)
  | some 5, _ | none, "trace" => some (.upTo .trace)
  | _, _ => none

/-! ## Fields -/

/-- The text behind the sign, if there is one. -/
def dropSign : List Char → List Char
  | '+' :: rest | '-' :: rest => rest
  | cs => cs

/-- An exponent, or nothing. -/
def isExponent : List Char → Bool
  | [] => true
  | e :: rest =>
    let digits := dropSign rest
    (e == 'e' || e == 'E') && !digits.isEmpty && digits.all Char.isDigit

/-- A decimal number, an infinity or a NaN. -/
def isDecimal (text : String) : Bool :=
  let cs := dropSign text.toList
  let whole := cs.takeWhile Char.isDigit
  let rest := cs.drop whole.length
  let behindPoint := match rest with
    | '.' :: rest => rest
    | _ => []
  let fraction := behindPoint.takeWhile Char.isDigit
  let exponent := match rest with
    | '.' :: rest => rest.drop fraction.length
    | _ => rest
  ["inf", "infinity", "nan"].contains (String.ofList cs).toLower ||
    (!(whole.isEmpty && fraction.isEmpty) && isExponent exponent)

/-- A field is written as its name or as `name=value`, where the value is a number or a pattern. -/
def fieldTest? (text : String) : Option FieldTest :=
  match text.splitOn "=" with
  | name :: value :: _ =>
    if isDecimal value || isPattern value then some { name, valued := true } else none
  | _ => if text = "" then none else some { name := text }

/-! ## Pieces of a directive -/

def byteLength (cs : List Char) : Nat := cs.foldl (fun size c => size + c.utf8Size) 0

/-- The text between two places. -/
def cut (text : String) (start stop : Nat) : String := String.Pos.Raw.extract text ⟨start⟩ ⟨stop⟩

/-- The directive `d` with the level that stands from `start` on; no text means every level. -/
def Directive.withLevel? (d : Directive) (text : String) (start : Nat) : Option Directive :=
  match cut text start text.utf8ByteSize with
  | "" => some d
  | word => (verbosity? word).map fun v => { d with verbosity := v }

/-- The end of a directive behind its bracket, which closes before `start`. -/
def Directive.close? (d : Directive) (text : String) (start : Nat) : List Char → Option Directive
  | [] => some d
  | '=' :: _ => d.withLevel? text (start + 1)
  | _ => none

/-- The field of a directive behind its brace, which opens before `start`. -/
def Directive.readField? (d : Directive) (text : String) (start : Nat) (cs : List Char) :
    Option Directive :=
  let body := cs.takeWhile (· != '\x7d')
  let stop := start + byteLength body
  match cs.drop body.length with
  | '\x7d' :: ']' :: rest =>
    match fieldTest? (cut text start stop) with
    | some field => close? { d with field := some field } text (stop + 2) rest
    | none => none
  | _ => none

/-- The span of a directive behind its bracket, which opens before `start`. -/
def Directive.readSpan? (d : Directive) (text : String) (start : Nat) (cs : List Char) :
    Option Directive :=
  let body := cs.takeWhile fun c => c != ']' && c != '\x7b'
  let stop := start + byteLength body
  let span := cut text start stop
  match cs.drop body.length with
  | ']' :: rest => close? { d with span := some span } text (stop + 1) rest
  | '\x7b' :: rest =>
    readField? { d with span := if body.isEmpty then none else some span } text (stop + 1) rest
  | _ => none

def startsTarget (c : Char) : Bool := c == '-' || c == ':' || c == '_' || isAlphanumeric c

/-- The directive that `text` writes, unless it is ill-formed. -/
def directive? (text : String) : Option Directive :=
  let cs := trimBlanks text.toList
  match cs with
  | [] => none
  | '[' :: rest => Directive.readSpan? {} text 1 rest
  | c :: _ =>
    if startsTarget c then
      let name := cs.takeWhile fun c => c != '=' && c != '['
      let stop := byteLength name
      let d : Directive := { target := some (cut text 0 stop) }
      match cs.drop name.length with
      | [] =>
        match verbosity? text with
        | some v => some { verbosity := v }
        | none => some { target := some text }
      | '=' :: _ => d.withLevel? text (stop + 1)
      | _ :: rest => d.readSpan? text (stop + 1) rest
    else none

end HeapWalk.Command
