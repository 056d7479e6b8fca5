import JvmCode.Opcode.Traits

/-! # Operand formats

How the operands of an instruction are laid out behind its opcode.

* **`Format`** are the layouts; **`Opcode.format`** gives the layout of each opcode.
* **`Format.width?`** is the number of operand bytes where it does not depend on position or content;
  `fixedSize?_eq_format` says that the opcode table agrees with the layouts. -/

namespace JvmCode

/-- How branch targets are laid out. -/
inductive JumpForm where
  /-- One two-byte offset. -/
  | short
  /-- One four-byte offset. -/
  | far
  /-- The padded dense table of `tableswitch`. -/
  | table
  /-- The padded key table of `lookupswitch`. -/
  | lookup
  deriving DecidableEq, Repr

/-- How operands are laid out behind an opcode. -/
inductive Format where
  /-- No operand. -/
  | bare
  /-- No operand bytes, the local variable being part of the opcode. -/
  | implicitSlot (slot : UInt16)
  /-- A local variable in one byte, or in two if `wide`. -/
  | slot (wide : Bool)
  /-- A local variable and a signed increment in one byte each, or in two each if `wide`. -/
  | increment (wide : Bool)
  /-- Branch targets. -/
  | jump (form : JumpForm)
  /-- A signed immediate in one byte, or in two if `wide`. -/
  | immediate (wide : Bool)
  /-- The pool index of a constant in one byte, or in two if `wide`. -/
  | constant (wide : Bool)
  /-- The pool index of a field. -/
  | field
  /-- The pool index of a method. -/
  | method
  /-- The pool index of a method, an argument count and a zero byte. -/
  | interfaceMethod
  /-- The pool index of a call site and two zero bytes. -/
  | callSite
  /-- The pool index of a class. -/
  | classRef
  /-- The array code of a primitive type. -/
  | elementType
  /-- The pool index of an array class and a number of dimensions. -/
  | arrayClass
  deriving DecidableEq, Repr

/-- The number of operand bytes, where it depends on neither position nor content. -/
def Format.width? : Format → Option Nat
  | .bare | .implicitSlot _ => some 0
  | .slot wide | .immediate wide | .constant wide => some (if wide then 2 else 1)
  | .increment wide => some (if wide then 4 else 2)
  | .jump .short => some 2
  | .jump .far => some 4
  -- Padding depends on the position, and the number of cases on the content.
  | .jump .table | .jump .lookup => none
  | .field | .method | .classRef => some 2
  | .interfaceMethod | .callSite => some 4
  | .elementType => some 1
  | .arrayClass => some 3

namespace Opcode

/-- The layout of a constant push. -/
def constantFormat : Opcode → Format
  | .bipush => .immediate false
  | .sipush => .immediate true
  | .ldc => .constant false
  | .ldcW | .ldc2W => .constant true
  | _ => .bare

/-- The layout of the operands of an opcode. -/
def format (op : Opcode) : Format :=
  match op.family with
  | .load | .store | .discontinuedRet =>
      match op.implicitSlot? with
      | some slot => .implicitSlot slot
      | none => .slot op.isWide
  | .increment => .increment op.isWide
  | .branch | .discontinuedJsr => .jump (if op = .gotoW ∨ op = .jsrW then .far else .short)
  | .tableSwitch => .jump .table
  | .lookupSwitch => .jump .lookup
  | .fieldAccess => .field
  | .invoke => if op = .invokeinterface then .interfaceMethod else .method
  | .invokeDynamic => .callSite
  | .newObject | .newReferenceArray | .typeCheck => .classRef
  | .newPrimitiveArray => .elementType
  | .newMultiArray => .arrayClass
  | .constant => op.constantFormat
  | .methodReturn | .throwException | .arrayLoad | .arrayStore | .stack | .convert | .operator
  | .monitor | .nop => .bare

/-- The encoded length of an opcode is that of its own bytes and of its operands. -/
theorem fixedSize?_eq_format : ∀ op : Opcode,
    op.fixedSize? = op.format.width?.map (op.bytes.length + ·) := by
  decide +kernel

end Opcode

end JvmCode
