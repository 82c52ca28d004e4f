import HeapWalk.Value.Basic

/-!
# Pointers and ownership

A `Pointer` is a handle to a reserved range of heap bytes. Every allocation gets a fresh
generation, and the heap accepts a handle only while the range at its address carries the same
one, so a handle kept across a reuse of its bytes is told apart from the new handle.
-/

set_option autoImplicit false

namespace HeapWalk

/-- Scopes are numbered in the order in which they are pushed, the global scope first. The numbers
stand for a counter of 32 bits that does not wrap around: fewer than `2 ^ 32` scopes are pushed. -/
abbrev ScopeId := Nat

/-- The id of the first scope pushed. -/
def ScopeId.global : ScopeId := 0

def ScopeId.text (id : ScopeId) : String := s!"#{id}"

/-- A handle to the bytes `address, …, address + size - 1`. -/
structure Pointer where
  address : Nat
  size : Nat
  generation : UInt32
deriving DecidableEq, Repr, Inhabited

namespace Pointer

/-- The first address behind the range. -/
def stop (p : Pointer) : Nat := p.address + p.size

end Pointer

/-- `n` in lower-case hexadecimal, at least `width` digits. -/
def hexText (width n : Nat) : String :=
  let digits := Nat.toDigits 16 n
  String.ofList (List.replicate (width - digits.length) '0' ++ digits)

def Pointer.text (p : Pointer) : String :=
  s!"0x{hexText 4 p.address}[{p.size}]@g{p.generation.toNat}"

/-- The lifetime of a reserved range. A temporary is reclaimed by a sweep or with its scope; what a
binding owns is reclaimed with its scope only. -/
inductive Ownership where
  | temporary (scope : ScopeId)
  | owned (scope : ScopeId)
deriving DecidableEq, Repr, Inhabited

namespace Ownership

/-- The scope whose end reclaims the range. -/
def scope : Ownership → ScopeId
  | temporary id => id
  | owned id => id

def isTemporary : Ownership → Bool
  | temporary _ => true
  | owned _ => false

/-- A temporary of the scope `floor` or of one pushed after it. -/
def isTemporaryFrom (floor : ScopeId) : Ownership → Bool
  | temporary id => floor ≤ id
  | owned _ => false

end Ownership

/-- A registered range. -/
structure Allocation where
  pointer : Pointer
  ownership : Ownership
deriving DecidableEq, Repr, Inhabited

/-- A range read as a value of one type. -/
structure Variable where
  pointer : Pointer
  type : ValueType
deriving DecidableEq, Repr, Inhabited

end HeapWalk
