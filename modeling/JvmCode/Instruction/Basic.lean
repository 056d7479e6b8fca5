import JvmCode.Opcode.Format
import JvmCode.Opcode.Intrinsic

/-! # Instructions

An **`Instruction`** is an opcode with operands. Branch targets are labels and pool operands are resolved
symbols, so an instruction says nothing about where it stands; only its size may depend on that, through
the padding of switches.

* **`Operands`** are the shapes that operands have.
* **`Instruction.size`** is the encoded length at a position.
* **`Instruction.targets`** lists the labels an instruction may jump to. -/

namespace JvmCode

/-- One case of a switch. -/
structure SwitchCase where
  /-- The key. -/
  value : Int32
  /-- Where the key leads. -/
  target : Label
  deriving DecidableEq, Repr

/-- One case for each of `first`, `first + step`, … up to `last`, all with one target. -/
def SwitchCase.range (first last step : Int) (target : Label) : List SwitchCase :=
  let count := if last < first then 0 else ((last - first) / step + 1).toNat
  (List.range count).map fun place => ⟨Int32.ofInt (first + step * Int.ofNat place), target⟩

/-- The operands of an instruction. -/
inductive Operands where
  /-- No operand. -/
  | none
  /-- A local variable. -/
  | slot (slot : UInt16)
  /-- A local variable and what is added to it. -/
  | increment (slot : UInt16) (amount : Int16)
  /-- A branch target. -/
  | target (label : Label)
  /-- A dense switch: the targets of `low` up to `high`, and of every other key. -/
  | table (low high : Int32) (default : Label) (targets : List Label)
  /-- A key switch: cases in ascending order, and the target of every other key. -/
  | lookup (default : Label) (cases : List SwitchCase)
  /-- A field and the kind of its type. -/
  | field (ref : MemberRef) (kind : ValueKind)
  /-- A method, the slots its arguments take, and the kind of its result. -/
  | method (ref : MemberRef) (count : UInt8) (result : ValueKind)
  /-- A call site and the kind of its result. -/
  | callSite (site : CallSite) (result : ValueKind)
  /-- A class. -/
  | classRef (ref : ClassRef)
  /-- The element type of a primitive array. -/
  | element (type : Primitive)
  /-- An array class and the number of dimensions to allocate. -/
  | arrayClass (ref : ClassRef) (dimensions : UInt8)
  /-- A value in the instruction itself. -/
  | immediate (value : Int32)
  /-- A constant of the pool. -/
  | constant (loaded : Loadable)
  deriving DecidableEq, Repr

/-- An opcode with operands. -/
structure Instruction where
  /-- What the instruction does. -/
  opcode : Opcode
  /-- What it does it with. -/
  operands : Operands
  deriving DecidableEq, Repr

/-- The number of bytes that align the operands of a switch at `bci` to a multiple of four. -/
def switchPadding (bci : Nat) : Nat := 3 - bci % 4

/-- The operands of a switch start at a multiple of four. -/
theorem switchPadding_aligned (bci : Nat) : (bci + 1 + switchPadding bci) % 4 = 0 := by
  unfold switchPadding
  omega

namespace Operands

/-- The labels operands refer to, the default of a switch first. -/
def targets : Operands → List Label
  | .target label => [label]
  | .table _ _ default targets => default :: targets
  | .lookup default cases => default :: cases.map SwitchCase.target
  | _ => []

/-- The cases of a switch: for a dense one, every key between its bounds. -/
def cases : Operands → List SwitchCase
  | .table low _ _ targets =>
      targets.zipIdx.map fun (label, place) => ⟨Int32.ofInt (low.toInt + place), label⟩
  | .lookup _ cases => cases
  | _ => []

end Operands

namespace Instruction

/-- The family of an instruction is that of its opcode. -/
def family (i : Instruction) : Family := i.opcode.family

/-- The labels an instruction may jump to, the default of a switch first. -/
def targets (i : Instruction) : List Label := i.operands.targets

/-- The encoded length of an instruction that starts at `bci`. Only switches look at `bci`. -/
def size (i : Instruction) (bci : Nat) : Nat :=
  match i.operands with
  | .table _ _ _ targets => 1 + switchPadding bci + 12 + 4 * targets.length
  | .lookup _ cases => 1 + switchPadding bci + 8 + 8 * cases.length
  | _ => i.opcode.fixedSize?.getD 1

/-- The kind of value an instruction works on: that of its field, element or constant if it has one,
and else the one its opcode names. -/
def valueKind? (i : Instruction) : Option ValueKind :=
  match i.operands with
  | .field _ kind => some kind
  | .element type => some type.kind
  | .constant loaded => some loaded.value.kind
  | _ => i.opcode.kind?

/-- The value a constant instruction pushes, whichever form it has. -/
def constant? (i : Instruction) : Option Constant :=
  match i.operands with
  | .none => i.opcode.intrinsic?
  | .immediate value => some (.integer value)
  | .constant loaded => some loaded.value
  | _ => .none

/-- Whether a field access goes to a static field. -/
def isStaticAccess (i : Instruction) : Bool := i.opcode == .getstatic || i.opcode == .putstatic

/-- Whether a field access writes. -/
def isPut (i : Instruction) : Bool := i.opcode == .putstatic || i.opcode == .putfield

end Instruction

end JvmCode
