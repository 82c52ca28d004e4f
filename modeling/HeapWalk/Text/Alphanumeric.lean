import HeapWalk.Text.Alphabetic
import HeapWalk.Text.Numeric

/-!
# Letters and numbers
-/

set_option autoImplicit false

namespace HeapWalk

def isAlphanumeric (c : Char) : Bool := isAlphabetic c || isNumeric c

end HeapWalk
