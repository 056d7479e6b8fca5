import JvmCode.Instruction.Construct
import JvmCode.Instruction.Template

/-! # Emitting an instruction

Filling the offsets of a template. An offset to a label that is already placed is written at once; for
any other label zero bytes are written and a patch is left behind.

* **`Patch`** is an offset that waits for its label.
* **`Instruction.emit`** gives the bytes of an instruction and its patches. -/

namespace JvmCode

/-- An offset that waits for its label to be placed. -/
structure Patch where
  /-- The label. -/
  target : Label
  /-- Where the instruction starts, from which the offset counts. -/
  bci : Nat
  /-- Where the bytes of the offset stand. -/
  position : Nat
  /-- Whether the offset has four bytes and not two. -/
  far : Bool
  deriving DecidableEq, Repr

/-- The bytes of an instruction being emitted. -/
structure Emission where
  /-- What was emitted so far. -/
  bytes : Array UInt8
  /-- The offsets that wait. -/
  patches : Array Patch
  deriving DecidableEq, Repr

/-- The offset from an instruction to a position, if the operand can hold it. -/
def branchOffset (bci position : Nat) (far : Bool) : Except Fault Int :=
  let offset : Int := (position : Int) - bci
  let fits := if far then fitsInt32 offset else fitsInt16 offset
  if fits then .ok offset else .error (.offsetOverflow bci offset)

/-- The bytes of an offset. -/
def offsetBytes (far : Bool) (offset : Int) : List UInt8 :=
  if far then BigEndian.i4 (Int32.ofInt offset) else BigEndian.i2 (Int16.ofInt offset)

/-- An offset has as many bytes as its operand. -/
@[simp] theorem length_offsetBytes (far : Bool) (offset : Int) :
    (offsetBytes far offset).length = offsetWidth far := by
  cases far <;> simp [offsetBytes, offsetWidth, BigEndian.i2, BigEndian.i4, BigEndian.u2, BigEndian.u4]

/-- Emit one piece of the instruction at `bci`. -/
def emitChunk (place : Label → Option Nat) (bci : Nat) (emission : Emission) :
    Chunk → Except Fault Emission
  | .bytes content => .ok { emission with bytes := emission.bytes ++ content }
  | .offset far target =>
      match place target with
      | some position => do
          let offset ← branchOffset bci position far
          return { emission with bytes := emission.bytes ++ offsetBytes far offset }
      | none =>
          -- The zero bytes keep the room that the offset will take.
          let patch := ⟨target, bci, bci + emission.bytes.size, far⟩
          .ok {
            bytes := emission.bytes ++ List.replicate (offsetWidth far) (0 : UInt8)
            patches := emission.patches.push patch }

/-- Emit an instruction at `bci`, with some labels placed. -/
def Instruction.emit (i : Instruction) (place : Label → Option Nat) (bci : Nat) :
    Except Fault Emission :=
  (i.template bci).foldlM (emitChunk place bci) ⟨.empty, .empty⟩

end JvmCode
