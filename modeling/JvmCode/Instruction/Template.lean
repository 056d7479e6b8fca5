import JvmCode.Instruction.Basic

/-! # The byte form of instructions

Apart from its branch offsets, the bytes of an instruction are fixed by the instruction and by its
position. A **template** lists them with a hole for each offset.

* **`Instruction.template`** is the template of an instruction at a position.
* **`Chunk`** is a piece of a template; `Chunk.size` does not depend on how labels are placed. -/

namespace JvmCode

/-- A piece of an encoded instruction. -/
inductive Chunk where
  /-- Fixed bytes. -/
  | bytes (content : List UInt8)
  /-- An offset to a label, in four bytes if `far` and in two otherwise. -/
  | offset (far : Bool) (target : Label)
  deriving DecidableEq, Repr

/-- The number of bytes of an offset. -/
def offsetWidth (far : Bool) : Nat := if far then 4 else 2

/-- The number of bytes of a piece. -/
def Chunk.size : Chunk → Nat
  | .bytes content => content.length
  | .offset far _ => offsetWidth far

namespace Instruction

/-- An index or a local variable in two bytes, or its low byte alone. -/
def indexBytes (wide : Bool) (value : UInt16) : List UInt8 :=
  if wide then BigEndian.u2 value else [value.toUInt8]

/-- The zero bytes that align the operands of a switch. -/
def paddingBytes (bci : Nat) : List UInt8 := List.replicate (switchPadding bci) 0

/-- The template of the operands of an opcode at `bci`. -/
def operandTemplate (opcode : Opcode) (bci : Nat) : Operands → List Chunk
  | .none => []
  | .slot slot =>
      if opcode.implicitSlot?.isSome then [] else [.bytes (indexBytes opcode.isWide slot)]
  | .increment slot amount =>
      [.bytes (indexBytes opcode.isWide slot ++ indexBytes opcode.isWide amount.toUInt16)]
  | .target label => [.offset (opcode = .gotoW ∨ opcode = .jsrW) label]
  | .table low high default targets =>
      .bytes (paddingBytes bci) :: .offset true default ::
        .bytes (BigEndian.i4 low ++ BigEndian.i4 high) :: targets.map (.offset true)
  | .lookup default cases =>
      .bytes (paddingBytes bci) :: .offset true default ::
        .bytes (BigEndian.i4 (Int32.ofNat cases.length)) ::
        cases.flatMap fun case => [.bytes (BigEndian.i4 case.value), .offset true case.target]
  | .field ref _ => [.bytes (BigEndian.u2 ref.index)]
  | .method ref count _ =>
      if opcode = .invokeinterface then [.bytes (BigEndian.u2 ref.index ++ [count, 0])]
      else [.bytes (BigEndian.u2 ref.index)]
  | .callSite site _ => [.bytes (BigEndian.u2 site.index ++ [0, 0])]
  | .classRef ref => [.bytes (BigEndian.u2 ref.index)]
  | .element type => [.bytes [type.arrayCode]]
  | .arrayClass ref dimensions => [.bytes (BigEndian.u2 ref.index ++ [dimensions])]
  | .immediate value =>
      [.bytes (indexBytes (opcode ≠ .bipush) (UInt16.ofNat value.toUInt32.toNat))]
  | .constant loaded => [.bytes (indexBytes (opcode ≠ .ldc) loaded.index)]

/-- The template of an instruction at `bci`. -/
def template (i : Instruction) (bci : Nat) : List Chunk :=
  .bytes i.opcode.bytes :: operandTemplate i.opcode bci i.operands

end Instruction

end JvmCode
