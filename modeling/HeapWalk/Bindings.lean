/-!
# Bindings

A finite map from names to items: the pairs in order of name, each name once.
-/

set_option autoImplicit false

namespace HeapWalk

abbrev Bindings (α : Type) := List (String × α)

namespace Bindings

variable {α : Type}

def get? (b : Bindings α) (name : String) : Option α := List.lookup name b

/-- Binds `name`; an item it was bound to before is replaced. -/
def insert (name : String) (item : α) : Bindings α → Bindings α
  | [] => [(name, item)]
  | (n, x) :: rest =>
    if name < n then (name, item) :: (n, x) :: rest
    else if name = n then (name, item) :: rest
    else (n, x) :: insert name item rest

end Bindings

end HeapWalk
