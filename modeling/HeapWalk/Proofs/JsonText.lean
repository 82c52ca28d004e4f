import HeapWalk.Proofs.Grammar
import HeapWalk.Proofs.Scopes
import HeapWalk.Tree.Text

/-!
# Trees written as JSON text

`Json` holds the values that trees are written with. Which texts write a value is said by the
grammar of JSON (`Json.Writes`): characters of strings stand for themselves or are escaped, blanks
may stand around every token. Which values stand for a node is said by `Json.Encodes`: objects with
some of five fields, in any order, where each field that is left out holds its default value.
-/

set_option autoImplicit false

namespace HeapWalk

/-- The nodes that can be written: their line numbers fit into a word, and properties are in the
order of their names, each name once. -/
def Node.IsWritable (n : Node) : Prop :=
  ∀ x, n.Occurs x → x.line < Tree.wordLimit ∧ Bindings.Ordered x.properties

namespace Tree

inductive Json where
  | text (s : String)
  | natural (n : Nat)
  | list (items : List Json)
  | object (fields : List (String × Json))

namespace Json

mutual

/-- The greatest number of lists and objects that lie in one another. -/
def depth : Json → Nat
  | .text _ => 0
  | .natural _ => 0
  | .list items => depthOfItems items + 1
  | .object fields => depthOfFields fields + 1

def depthOfItems : List Json → Nat
  | [] => 0
  | j :: rest => max j.depth (depthOfItems rest)

def depthOfFields : List (String × Json) → Nat
  | [] => 0
  | (_, j) :: rest => max j.depth (depthOfFields rest)

end

/-! ## Strings -/

/-- Blanks that mean nothing. -/
def Blank (cs : List Char) : Prop := ∀ c ∈ cs, c = ' ' ∨ c = '\n' ∨ c = '\t' ∨ c = '\r'

/-- The hexadecimal digits, of either case, with their values. -/
def hexDigits : List (Char × Nat) :=
  [('0', 0), ('1', 1), ('2', 2), ('3', 3), ('4', 4), ('5', 5), ('6', 6), ('7', 7), ('8', 8),
    ('9', 9), ('a', 10), ('b', 11), ('c', 12), ('d', 13), ('e', 14), ('f', 15), ('A', 10),
    ('B', 11), ('C', 12), ('D', 13), ('E', 14), ('F', 15)]

/-- Four hexadecimal digits write the number. -/
inductive WritesHex : Nat → List Char → Prop where
  | mk {a b c d : Char × Nat} (ha : a ∈ hexDigits) (hb : b ∈ hexDigits) (hc : c ∈ hexDigits)
    (hd : d ∈ hexDigits) :
    WritesHex (((a.2 * 16 + b.2) * 16 + c.2) * 16 + d.2) [a.1, b.1, c.1, d.1]

/-- The letters that name a character behind a backslash. -/
def escapeLetters : List (Char × Char) :=
  [('"', '"'), ('\\', '\\'), ('/', '/'), ('b', '\x08'), ('f', '\x0c'), ('n', '\n'), ('r', '\r'),
    ('t', '\t')]

/-- The text writes the character, within a string. -/
inductive WritesChar : Char → List Char → Prop where
  | plain {c : Char} (hq : c ≠ '"') (hb : c ≠ '\\') (hc : 0x20 ≤ c.toNat) : WritesChar c [c]
  | letter {c e : Char} (he : (e, c) ∈ escapeLetters) : WritesChar c ['\\', e]
  | code {c : Char} {digits : List Char} (hd : WritesHex c.toNat digits) :
    WritesChar c ('\\' :: 'u' :: digits)
  /-- A character beyond the first `0x10000` as two surrogates. -/
  | surrogates {c : Char} {high low : List Char} (hc : 0x10000 ≤ c.toNat)
    (hh : WritesHex (0xd800 + (c.toNat - 0x10000) / 0x400) high)
    (hl : WritesHex (0xdc00 + (c.toNat - 0x10000) % 0x400) low) :
    WritesChar c ('\\' :: 'u' :: (high ++ '\\' :: 'u' :: low))

inductive WritesChars : List Char → List Char → Prop where
  | nil : WritesChars [] []
  | cons {c : Char} {s cs rest : List Char} (hc : WritesChar c cs) (hr : WritesChars s rest) :
    WritesChars (c :: s) (cs ++ rest)

inductive WritesString (s : String) : List Char → Prop where
  | mk {cs : List Char} (hs : WritesChars s.toList cs) : WritesString s ('"' :: (cs ++ ['"']))

/-! ## Values -/

mutual

/-- The text writes the value, without blanks before and behind it. -/
inductive Writes : Json → List Char → Prop where
  | text {s : String} {cs : List Char} (hs : WritesString s cs) : Writes (.text s) cs
  | natural (n : Nat) : Writes (.natural n) (Nat.toDigits 10 n)
  | emptyList {a : List Char} (ha : Blank a) : Writes (.list []) ('[' :: (a ++ [']']))
  | list {j : Json} {items : List Json} {a cs more : List Char} (ha : Blank a) (hj : Writes j cs)
    (hm : WritesItems items more) : Writes (.list (j :: items)) ('[' :: (a ++ cs ++ more ++ [']']))
  | emptyObject {a : List Char} (ha : Blank a) : Writes (.object []) ('{' :: (a ++ ['}']))
  | object {f : String × Json} {fields : List (String × Json)} {a cs more : List Char}
    (ha : Blank a) (hf : WritesField f cs) (hm : WritesFields fields more) :
    Writes (.object (f :: fields)) ('{' :: (a ++ cs ++ more ++ ['}']))

/-- The text writes what comes behind the first item of a list: a comma and an item, again and
again. -/
inductive WritesItems : List Json → List Char → Prop where
  | nil {b : List Char} (hb : Blank b) : WritesItems [] b
  | cons {j : Json} {items : List Json} {b a cs more : List Char} (hb : Blank b) (ha : Blank a)
    (hj : Writes j cs) (hm : WritesItems items more) :
    WritesItems (j :: items) (b ++ ',' :: (a ++ cs ++ more))

/-- The text writes a field of an object: its name, a colon and its value. -/
inductive WritesField : String × Json → List Char → Prop where
  | mk {name : String} {j : Json} {key b a cs : List Char} (hk : WritesString name key)
    (hb : Blank b) (ha : Blank a) (hj : Writes j cs) :
    WritesField (name, j) (key ++ b ++ ':' :: (a ++ cs))

/-- The text writes what comes behind the first field of an object. -/
inductive WritesFields : List (String × Json) → List Char → Prop where
  | nil {b : List Char} (hb : Blank b) : WritesFields [] b
  | cons {f : String × Json} {fields : List (String × Json)} {b a cs more : List Char}
    (hb : Blank b) (ha : Blank a) (hf : WritesField f cs) (hm : WritesFields fields more) :
    WritesFields (f :: fields) (b ++ ',' :: (a ++ cs ++ more))

end

/-- The text writes the value and nothing else. -/
def IsWrittenAs (j : Json) (text : String) : Prop :=
  ∃ a cs b, Blank a ∧ j.Writes cs ∧ Blank b ∧ text.toList = a ++ cs ++ b

/-! ## Nodes -/

/-- The fields of the node that have none of these names hold their default values. -/
structure DefaultsExcept (names : List String) (n : Node) : Prop where
  label : "label" ∈ names ∨ n.label = ""
  description : "description" ∈ names ∨ n.description = ""
  children : "children" ∈ names ∨ n.children = []
  properties : "properties" ∈ names ∨ n.properties = []
  line : "lineNumber" ∈ names ∨ n.line = 0

mutual

/-- The value stands for the node. -/
inductive Encodes : Json → Node → Prop where
  | mk {fields : List (String × Json)} {n : Node} (hd : (fields.map Prod.fst).Nodup)
    (hf : ∀ f ∈ fields, EncodesField n f) (hl : DefaultsExcept (fields.map Prod.fst) n) :
    Encodes (.object fields) n

/-- The field holds a field of the node. -/
inductive EncodesField : Node → String × Json → Prop where
  | label {n : Node} : EncodesField n ("label", .text n.label)
  | description {n : Node} : EncodesField n ("description", .text n.description)
  | children {n : Node} {items : List Json} (hc : EncodesItems items n.children) :
    EncodesField n ("children", .list items)
  /-- The properties may be written in any order. -/
  | properties {n : Node} {fields : List (String × Json)} {entries : List (String × Node)}
    (hp : EncodesEntries fields entries) (ho : entries.Perm n.properties) :
    EncodesField n ("properties", .object fields)
  | line {n : Node} : EncodesField n ("lineNumber", .natural n.line)

/-- The values stand for the nodes, one for one. -/
inductive EncodesItems : List Json → List Node → Prop where
  | nil : EncodesItems [] []
  | cons {j : Json} {items : List Json} {n : Node} {nodes : List Node} (hj : Encodes j n)
    (hr : EncodesItems items nodes) : EncodesItems (j :: items) (n :: nodes)

/-- The fields stand for the named nodes, one for one. -/
inductive EncodesEntries : List (String × Json) → List (String × Node) → Prop where
  | nil : EncodesEntries [] []
  | cons {name : String} {j : Json} {fields : List (String × Json)} {n : Node}
    {entries : List (String × Node)} (hj : Encodes j n) (hr : EncodesEntries fields entries) :
    EncodesEntries ((name, j) :: fields) ((name, n) :: entries)

end

end Json

end Tree

end HeapWalk
