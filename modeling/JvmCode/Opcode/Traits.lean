import JvmCode.Opcode.Basic
import JvmCode.ValueKind

/-! # What an opcode says about its operands

Facts that an opcode alone decides: the kind of value it works on, the local variable it names
without an operand, the kinds a conversion goes between, the element kind of an array access, and its
control flow.

* **`Opcode.kind?`** is the value kind an opcode names.
* **`Opcode.implicitSlot?`** is the local variable built into forms such as `iload_2`.
* **`Opcode.flags`** lists its control flow and encoding properties. -/

namespace JvmCode

namespace Opcode

/-- The value kind the opcode names, if it names one. Array accesses name their element kind, and
`baload` and `bastore`, which serve two kinds of array, name `byte`. -/
def kind? : Opcode → Option ValueKind
  | .iload | .iload0 | .iload1 | .iload2 | .iload3 | .iloadW | .istore | .istore0 | .istore1
  | .istore2 | .istore3 | .istoreW | .iaload | .iastore | .ireturn | .iadd | .isub | .imul
  | .idiv | .irem | .ineg | .ishl | .ishr | .iushr | .iand | .ior | .ixor | .arraylength
  | .ifeq | .ifne | .iflt | .ifge | .ifgt | .ifle | .ifIcmpeq | .ifIcmpne | .ifIcmplt
  | .ifIcmpge | .ifIcmpgt | .ifIcmple | .iinc | .iincW | .iconstM1 | .iconst0 | .iconst1
  | .iconst2 | .iconst3 | .iconst4 | .iconst5 | .bipush | .sipush => some .int
  | .lload | .lload0 | .lload1 | .lload2 | .lload3 | .lloadW | .lstore | .lstore0 | .lstore1
  | .lstore2 | .lstore3 | .lstoreW | .laload | .lastore | .lreturn | .ladd | .lsub | .lmul
  | .ldiv | .lrem | .lneg | .lshl | .lshr | .lushr | .land | .lor | .lxor | .lcmp | .lconst0
  | .lconst1 => some .long
  | .fload | .fload0 | .fload1 | .fload2 | .fload3 | .floadW | .fstore | .fstore0 | .fstore1
  | .fstore2 | .fstore3 | .fstoreW | .faload | .fastore | .freturn | .fadd | .fsub | .fmul
  | .fdiv | .frem | .fneg | .fcmpl | .fcmpg | .fconst0 | .fconst1 | .fconst2 => some .float
  | .dload | .dload0 | .dload1 | .dload2 | .dload3 | .dloadW | .dstore | .dstore0 | .dstore1
  | .dstore2 | .dstore3 | .dstoreW | .daload | .dastore | .dreturn | .dadd | .dsub | .dmul
  | .ddiv | .drem | .dneg | .dcmpl | .dcmpg | .dconst0 | .dconst1 => some .double
  | .aload | .aload0 | .aload1 | .aload2 | .aload3 | .aloadW | .astore | .astore0 | .astore1
  | .astore2 | .astore3 | .astoreW | .aaload | .aastore | .areturn | .aconstNull | .ifAcmpeq
  | .ifAcmpne | .ifnull | .ifnonnull => some .reference
  | .baload | .bastore => some .byte
  | .caload | .castore => some .char
  | .saload | .sastore => some .short
  | .returnVoid => some .void
  | _ => none

/-- The local variable built into forms such as `iload_2`. -/
def implicitSlot? : Opcode → Option UInt16
  | .iload0 | .lload0 | .fload0 | .dload0 | .aload0 | .istore0 | .lstore0 | .fstore0
  | .dstore0 | .astore0 => some 0
  | .iload1 | .lload1 | .fload1 | .dload1 | .aload1 | .istore1 | .lstore1 | .fstore1
  | .dstore1 | .astore1 => some 1
  | .iload2 | .lload2 | .fload2 | .dload2 | .aload2 | .istore2 | .lstore2 | .fstore2
  | .dstore2 | .astore2 => some 2
  | .iload3 | .lload3 | .fload3 | .dload3 | .aload3 | .istore3 | .lstore3 | .fstore3
  | .dstore3 | .astore3 => some 3
  | _ => none

/-- The kinds a conversion takes and gives. -/
def conversion? : Opcode → Option (ValueKind × ValueKind)
  | .i2l => some (.int, .long)
  | .i2f => some (.int, .float)
  | .i2d => some (.int, .double)
  | .l2i => some (.long, .int)
  | .l2f => some (.long, .float)
  | .l2d => some (.long, .double)
  | .f2i => some (.float, .int)
  | .f2l => some (.float, .long)
  | .f2d => some (.float, .double)
  | .d2i => some (.double, .int)
  | .d2l => some (.double, .long)
  | .d2f => some (.double, .float)
  | .i2b => some (.int, .byte)
  | .i2c => some (.int, .char)
  | .i2s => some (.int, .short)
  | _ => none

/-- The element kind of an array load. -/
def arrayLoadKind? (op : Opcode) : Option ValueKind :=
  if op.family = .arrayLoad then op.kind? else none

/-- The element kind of an array store. -/
def arrayStoreKind? (op : Opcode) : Option ValueKind :=
  if op.family = .arrayStore then op.kind? else none

end Opcode

namespace ValueKind

/-- The opcode that loads an element of this kind from an array. -/
def arrayLoad? : ValueKind → Option Opcode
  | .int => some .iaload
  | .long => some .laload
  | .float => some .faload
  | .double => some .daload
  | .reference => some .aaload
  | .byte | .boolean => some .baload
  | .char => some .caload
  | .short => some .saload
  | .void => none

/-- The opcode that stores an element of this kind into an array. -/
def arrayStore? : ValueKind → Option Opcode
  | .int => some .iastore
  | .long => some .lastore
  | .float => some .fastore
  | .double => some .dastore
  | .reference => some .aastore
  | .byte | .boolean => some .bastore
  | .char => some .castore
  | .short => some .sastore
  | .void => none

end ValueKind

/-- Control flow and encoding properties of an opcode. -/
inductive OpcodeFlag where
  /-- Carries at least one branch offset. -/
  | branch
  /-- Never falls through to the next instruction. -/
  | unconditional
  /-- Encoded behind the `wide` byte. -/
  | wide
  /-- Has no fixed encoded length. -/
  | variableSize
  deriving DecidableEq, Repr

namespace OpcodeFlag

/-- The flags, lowest bit first. -/
def all : List OpcodeFlag := [.branch, .unconditional, .wide, .variableSize]

/-- The bit of a flag in a flag word. -/
def bit : OpcodeFlag → Nat
  | .branch => 1
  | .unconditional => 2
  | .wide => 4
  | .variableSize => 8

/-- The name of a flag in listings. -/
def name : OpcodeFlag → String
  | .branch => "BRANCH"
  | .unconditional => "UNCONDITIONAL"
  | .wide => "WIDE"
  | .variableSize => "VARIABLE_SIZE"

end OpcodeFlag

namespace Opcode

/-- Whether control never reaches the next instruction from this one. -/
def isUnconditional (op : Opcode) : Bool :=
  match op.family with
  | .tableSwitch | .lookupSwitch | .methodReturn | .throwException | .discontinuedRet => true
  | _ => op == .goto || op == .gotoW

/-- Whether the opcode carries a branch offset. -/
def isJump (op : Opcode) : Bool :=
  match op.family with
  | .branch | .discontinuedJsr | .tableSwitch | .lookupSwitch => true
  | _ => false

/-- Whether a flag applies to the opcode. -/
def hasFlag (op : Opcode) : OpcodeFlag → Bool
  | .branch => op.isJump
  | .unconditional => op.isUnconditional
  | .wide => op.isWide
  | .variableSize => op.fixedSize?.isNone

/-- The flags that apply to the opcode, lowest bit first. -/
def flags (op : Opcode) : List OpcodeFlag := OpcodeFlag.all.filter op.hasFlag

/-- The flags as one word. -/
def flagWord (op : Opcode) : Nat := op.flags.foldl (fun word flag => word + flag.bit) 0

end Opcode

end JvmCode
