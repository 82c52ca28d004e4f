import HeapWalk.Heap.Basic
import HeapWalk.Program.Operator

/-!
# Faults

A `Fault` ends the run of a program. The code it is reported under is one of a fixed list
(`Code`), which it shares with the defects of a syntax tree.
-/

set_option autoImplicit false

namespace HeapWalk

inductive Code where
  | outOfMemory
  | invalidPointer
  | invalidOperandType
  | invalidOperator
  | undefinedVariable
  | undefinedFunction
  | missingArgument
  | noReturnValue
  | callDepthExceeded
  | invalidComposite
  | malformedTree
  | snapshotLimitExceeded
deriving DecidableEq, Repr, Inhabited

def Code.text : Code → String
  | outOfMemory => "OUT_OF_MEMORY"
  | invalidPointer => "INVALID_POINTER"
  | invalidOperandType => "INVALID_OPERAND_TYPE"
  | invalidOperator => "INVALID_OPERATOR"
  | undefinedVariable => "UNDEFINED_VARIABLE"
  | undefinedFunction => "UNDEFINED_FUNCTION"
  | missingArgument => "MISSING_ARGUMENT"
  | noReturnValue => "NO_RETURN_VALUE"
  | callDepthExceeded => "CALL_DEPTH_EXCEEDED"
  | invalidComposite => "INVALID_COMPOSITE"
  | malformedTree => "MALFORMED_TREE"
  | snapshotLimitExceeded => "SNAPSHOT_LIMIT_EXCEEDED"

/-- The constructs that take a condition. -/
inductive Construct where
  | cond
  | loop
deriving DecidableEq, Repr, Inhabited

def Construct.text : Construct → String
  | cond => "if"
  | loop => "loop"

/-- Operands of types that do not fit. -/
inductive Mismatch where
  | unary (op : UnaryOp) (operand : ValueType)
  | operand (op : UnaryOp) (found : ValueType)
  | binary (op : BinaryOp) (left right : ValueType)
  | assignment (bound assigned : ValueType)
  | condition (construct : Construct) (found : ValueType)
deriving DecidableEq, Repr, Inhabited

namespace Mismatch

def operator : Mismatch → String
  | unary op _ => op.symbol
  | operand op _ => op.symbol
  | binary op _ _ => op.symbol
  | assignment _ _ => "="
  | condition construct _ => construct.text

def found : Mismatch → String
  | unary op t => s!"{op.symbol}{t.text}"
  | operand _ t => t.text
  | binary op l r => s!"{l.text} {op.symbol} {r.text}"
  | assignment l r => s!"{l.text} = {r.text}"
  | condition _ t => t.text

end Mismatch

inductive Fault where
  | heap (e : HeapError)
  | operandType (m : Mismatch)
  | undefinedVariable (name : String)
  | undefinedFunction (name : String)
  | missingArgument (function parameter : String)
  | noReturnValue (function : String)
  | callDepthExceeded (function : String) (limit : Nat)
  | invalidComposite (shape : String)
  | snapshotLimitExceeded (used limit : Nat)
deriving DecidableEq, Repr, Inhabited

namespace Fault

def code : Fault → Code
  | heap (.outOfMemory ..) => .outOfMemory
  | heap (.invalidPointer _) => .invalidPointer
  | heap (.overrun ..) => .invalidPointer
  | operandType _ => .invalidOperandType
  | undefinedVariable _ => .undefinedVariable
  | undefinedFunction _ => .undefinedFunction
  | missingArgument .. => .missingArgument
  | noReturnValue _ => .noReturnValue
  | callDepthExceeded .. => .callDepthExceeded
  | invalidComposite _ => .invalidComposite
  | snapshotLimitExceeded .. => .snapshotLimitExceeded

def message : Fault → String
  | heap e => e.message
  | operandType m => s!"invalid operands to operator '{m.operator}': {m.found}"
  | undefinedVariable name => s!"variable '{name}' does not exist in current scope"
  | undefinedFunction name => s!"function '{name}' is not defined"
  | missingArgument function parameter =>
    s!"missing argument '{parameter}' in call to function '{function}'"
  | noReturnValue function =>
    s!"function '{function}' does not return a value but is expected to"
  | callDepthExceeded function limit =>
    s!"call to function '{function}' exceeds the maximum call depth of {limit}"
  | invalidComposite shape => s!"composite data structure '{shape}' is not supported"
  | snapshotLimitExceeded used limit =>
    s!"snapshot memory limit exceeded: {used} bytes used, limit is {limit}"

end Fault

end HeapWalk
