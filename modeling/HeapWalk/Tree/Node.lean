import HeapWalk.Bindings

/-!
# Syntax trees

A node carries a label, a text, an ordered list of children, named properties and the number of
its source line (`0` if unknown). The names under which its fields are written are declared in
`Node.slots`.
-/

set_option autoImplicit false

namespace HeapWalk

structure Node where
  label : String := ""
  description : String := ""
  children : List Node := []
  properties : List (String × Node) := []
  line : Nat := 0
deriving Repr, Inhabited

namespace Node

/-- Where the value of a field goes, by the kind of that value. -/
inductive Slot where
  | text (put : String → Node → Node)
  | natural (put : Nat → Node → Node)
  | list (put : List Node → Node → Node)
  | map (put : Bindings Node → Node → Node)

/-- The fields of a node, under the names and in the order in which they are written. -/
def slots : List (String × Slot) :=
  [("label", .text fun x n => { n with label := x }),
    ("description", .text fun x n => { n with description := x }),
    ("children", .list fun x n => { n with children := x }),
    ("properties", .map fun x n => { n with properties := x }),
    ("lineNumber", .natural fun x n => { n with line := x })]

def property? (n : Node) (name : String) : Option Node := Bindings.get? n.properties name

theorem sizeOf_lt_of_mem_children {n c : Node} (h : c ∈ n.children) : sizeOf c < sizeOf n := by
  cases n
  have := List.sizeOf_lt_of_mem h
  simp only [Node.mk.sizeOf_spec] at *
  omega

theorem sizeOf_lt_of_property? {n p : Node} {name : String} (h : n.property? name = some p) :
    sizeOf p < sizeOf n := by
  cases n with
  | mk label description children properties line =>
    have hmem : (name, p) ∈ properties := by
      simp only [property?, Bindings.get?] at h
      induction properties with
      | nil => simp at h
      | cons e rest ih =>
        obtain ⟨k, x⟩ := e
        simp only [List.lookup_cons] at h
        split at h
        · rename_i heq
          simp only [beq_iff_eq] at heq
          simp_all
        · exact List.mem_cons_of_mem _ (ih h)
    have := List.sizeOf_lt_of_mem hmem
    simp only [Prod.mk.sizeOf_spec, Node.mk.sizeOf_spec] at *
    omega

end Node

end HeapWalk
