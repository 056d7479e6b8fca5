import JvmCode.Instruction.Construct
import JvmCode.Pool.Resolver

/-! # Pushing constants

A constant can be part of the opcode, stand in the instruction, or be loaded from the pool. The three
checked forms are **`Instruction.pushIntrinsic`**, **`pushImmediate`** and **`pushLoaded`**;
**`Instruction.pushOf`** chooses among them and adds to the pool only when it has to. -/

namespace JvmCode.Instruction

/-- A push by an opcode that has its value built in. -/
def pushIntrinsic (opcode : Opcode) : Except Fault Instruction := do
  checkFamily opcode .constant
  if opcode.intrinsic?.isNone then refuse opcode .operandRequired
  return ⟨opcode, .none⟩

/-- A push of a value that stands in the instruction. -/
def pushImmediate (opcode : Opcode) (value : Int32) : Except Fault Instruction := do
  checkFamily opcode .constant
  match opcode.constantFormat with
  | .immediate wide =>
      let fits := if wide then fitsInt16 value.toInt else fitsInt8 value.toInt
      if !fits then refuse opcode .immediateTooLarge
      return ⟨opcode, .immediate value⟩
  | _ => refuse opcode .noImmediate

/-- A push of a constant of the pool. -/
def pushLoaded (opcode : Opcode) (loaded : Loadable) : Except Fault Instruction := do
  checkFamily opcode .constant
  match opcode.constantFormat with
  | .constant wide =>
      if opcode = .ldc2W then
        if !loaded.value.isWide then refuse opcode .needsOneSlotForm
      else
        if loaded.value.isWide then refuse opcode .needsTwoSlotForm
      if !wide && 255 < loaded.index then refuse opcode .indexTooLarge
      return ⟨opcode, .constant loaded⟩
  | _ => refuse opcode .noPoolOperand

/-- The push of an `int` without the pool, if it is small enough. -/
def pushSmall? (value : Constant) : Option Instruction :=
  match value with
  | .integer number =>
      if fitsInt8 number.toInt then some ⟨.bipush, .immediate number⟩
      else if fitsInt16 number.toInt then some ⟨.sipush, .immediate number⟩
      else none
  | _ => none

/-- Add a constant to the pool. The null reference has no entry; it is pushed without one. -/
def internConstant : Constant → Interning UInt16
  | .null => throw (.indexOutOfRange 0)
  | .integer value => Pool.internInteger value
  | .float bits => Pool.internFloat bits
  | .long value => Pool.internLong value
  | .double bits => Pool.internDouble bits
  | .string value => Pool.internString value
  | .classLiteral name => Pool.internClass name
  | .methodType descriptor => Pool.internMethodType descriptor
  | .methodHandle kind reference => Pool.internMethodHandle kind reference.index
  | .dynamic bootstrap name descriptor => Pool.internDynamic bootstrap name descriptor

/-- The opcode that loads a constant from an index. -/
def loadOpcode (value : Constant) (index : UInt16) : Opcode :=
  if value.isWide then .ldc2W else if index ≤ 255 then .ldc else .ldcW

/-- The push of a value: built into the opcode, or as an immediate, or else from the pool, to which the
value is added if it is not there. -/
def pushOf (value : Constant) : Interning Instruction :=
  match Opcode.pushing? value with
  | some opcode => return ⟨opcode, .none⟩
  -- Built-in values come first, so `-1` to `5` never take an immediate.
  | none =>
      match pushSmall? value with
      | some i => return i
      | none => do
          let index ← internConstant value
          return ⟨loadOpcode value index, .constant ⟨index, value⟩⟩

end JvmCode.Instruction
