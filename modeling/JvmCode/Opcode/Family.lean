/-! # Instruction families

Every opcode belongs to exactly one **family**: the opcodes that share an operand shape and a meaning.
`Family.name` is the name used in messages. -/

namespace JvmCode

/-- The families opcodes are grouped into. -/
inductive Family where
  /-- Push a local variable. -/
  | load
  /-- Pop into a local variable. -/
  | store
  /-- Add an immediate to a local variable. -/
  | increment
  /-- Jump to one target, always or on a condition. -/
  | branch
  /-- Jump by a sorted key table. -/
  | lookupSwitch
  /-- Jump by a dense table. -/
  | tableSwitch
  /-- Leave the method. -/
  | methodReturn
  /-- Throw the reference on the stack. -/
  | throwException
  /-- Read or write a field. -/
  | fieldAccess
  /-- Call a method by reference. -/
  | invoke
  /-- Call through a dynamically computed call site. -/
  | invokeDynamic
  /-- Create an object. -/
  | newObject
  /-- Create an array of primitives. -/
  | newPrimitiveArray
  /-- Create an array of references. -/
  | newReferenceArray
  /-- Create a multidimensional array. -/
  | newMultiArray
  /-- Test or assert the class of a reference. -/
  | typeCheck
  /-- Push an array element. -/
  | arrayLoad
  /-- Pop into an array element. -/
  | arrayStore
  /-- Rearrange the operand stack. -/
  | stack
  /-- Convert between primitive kinds. -/
  | convert
  /-- Arithmetic, bitwise, comparison and array length. -/
  | operator
  /-- Push a constant. -/
  | constant
  /-- Enter or leave a monitor. -/
  | monitor
  /-- Do nothing. -/
  | nop
  /-- Call a subroutine of the same method. -/
  | discontinuedJsr
  /-- Return from a subroutine. -/
  | discontinuedRet
  deriving DecidableEq, Repr

/-- The name of a family in messages. -/
def Family.name : Family → String
  | .load => "Load"
  | .store => "Store"
  | .increment => "Increment"
  | .branch => "Branch"
  | .lookupSwitch => "LookupSwitch"
  | .tableSwitch => "TableSwitch"
  | .methodReturn => "Return"
  | .throwException => "ThrowException"
  | .fieldAccess => "FieldAccess"
  | .invoke => "Invoke"
  | .invokeDynamic => "InvokeDynamic"
  | .newObject => "NewObject"
  | .newPrimitiveArray => "NewPrimitiveArray"
  | .newReferenceArray => "NewReferenceArray"
  | .newMultiArray => "NewMultiArray"
  | .typeCheck => "TypeCheck"
  | .arrayLoad => "ArrayLoad"
  | .arrayStore => "ArrayStore"
  | .stack => "Stack"
  | .convert => "Convert"
  | .operator => "Operator"
  | .constant => "Constant"
  | .monitor => "Monitor"
  | .nop => "Nop"
  | .discontinuedJsr => "DiscontinuedJsr"
  | .discontinuedRet => "DiscontinuedRet"

end JvmCode
