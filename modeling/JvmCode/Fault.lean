import JvmCode.Hex
import JvmCode.Label
import JvmCode.Opcode.Basic
import JvmCode.ValueKind

/-! # Faults

Everything that can go wrong, as causes; the wording of each is in one `message` function per type, and
its short name for reports in one `name` function.

* **`PoolFault`**: what the constant pool refuses.
* **`Malformation`**: what is structurally wrong with a code array or its tables.
* **`OperandIssue`** and **`KindIssue`**: why an instruction cannot be made of what was given.
* **`Fault`** joins them with the faults of labels and offsets. -/

namespace JvmCode

/-- The role a constant pool entry was expected to play. -/
inductive EntryRole where
  /-- A text. -/
  | text
  /-- A class. -/
  | classRef
  /-- A name with a descriptor. -/
  | nameAndType
  /-- A field or method reference. -/
  | member
  /-- A constant that can be pushed. -/
  | loadable
  /-- A dynamically computed call site. -/
  | callSite
  /-- A field reference. -/
  | field
  /-- A method reference. -/
  | method
  /-- A constant that takes two slots. -/
  | twoSlots
  /-- A constant that takes one slot. -/
  | oneSlot
  deriving DecidableEq, Repr

/-- The name of a role in messages. -/
def EntryRole.name : EntryRole → String
  | .text => "Utf8"
  | .classRef => "Class"
  | .nameAndType => "NameAndType"
  | .member => "member reference"
  | .loadable => "loadable constant"
  | .callSite => "InvokeDynamic"
  | .field => "Fieldref"
  | .method => "method reference"
  | .twoSlots => "long or double constant"
  | .oneSlot => "single-slot constant"

/-- What a constant pool refuses. -/
inductive PoolFault where
  /-- No usable entry stands at the index. -/
  | indexOutOfRange (index : UInt16)
  /-- The entry at the index plays another role. -/
  | wrongEntryKind (index : UInt16) (expected : EntryRole)
  /-- No kind of entry has this tag. -/
  | unknownTag (tag : UInt8)
  /-- No kind of method handle has this code. -/
  | unknownHandleKind (code : UInt8)
  /-- The bytes of a text are not modified UTF-8. -/
  | invalidText
  /-- A text of this many encoded bytes has no length field to fit. -/
  | textTooLong (length : Nat)
  /-- The entry at the index carries a descriptor that does not parse. -/
  | invalidDescriptor (index : UInt16)
  /-- No slots are left. -/
  | full
  deriving DecidableEq, Repr

/-- The wording of a constant pool fault. -/
def PoolFault.message : PoolFault → String
  | .indexOutOfRange index => "constant pool index " ++ toString index.toNat ++ " out of range"
  | .wrongEntryKind index expected =>
      "constant pool entry " ++ toString index.toNat ++ " is not a " ++ expected.name ++ " entry"
  | .unknownTag tag => "unknown constant pool tag " ++ toString tag.toNat
  | .unknownHandleKind code => "unknown method handle reference kind " ++ toString code.toNat
  | .invalidText => "invalid UTF-8 in constant pool entry"
  | .textTooLong length =>
      "string of " ++ toString length ++ " encoded bytes does not fit a Utf8 entry"
  | .invalidDescriptor index =>
      "constant pool entry " ++ toString index.toNat ++ " has a malformed descriptor"
  | .full => "constant pool is full"

/-- The name of a constant pool fault in reports. -/
def PoolFault.name : PoolFault → String
  | .indexOutOfRange _ => "IndexOutOfRange"
  | .wrongEntryKind _ _ => "WrongEntryKind"
  | .unknownTag _ => "UnknownTag"
  | .unknownHandleKind _ => "UnknownReferenceKind"
  | .invalidText => "InvalidUtf8"
  | .textTooLong _ => "Utf8TooLong"
  | .invalidDescriptor _ => "InvalidDescriptor"
  | .full => "Overflow"

/-- What is structurally wrong with a code array or its tables. -/
inductive Malformation where
  /-- No opcode has this byte. -/
  | unknownOpcode (byte : UInt8)
  /-- No opcode has a wide form with this byte. -/
  | unknownWideOpcode (byte : UInt8)
  /-- The bytes end inside an item. -/
  | truncated
  /-- A jump goes to a position where no instruction starts. -/
  | badBranchTarget (target : Int)
  /-- The bounds of a dense switch are inverted. -/
  | tableBoundsInverted (low high : Int32)
  /-- A key switch declares a negative number of pairs. -/
  | negativePairCount (count : Int32)
  /-- The keys of a key switch do not ascend strictly. -/
  | unsortedKeys
  /-- No primitive type has this array code. -/
  | unknownArrayType (code : UInt8)
  /-- A multidimensional array without dimensions. -/
  | zeroDimensions
  /-- Bytes that must be zero are not. -/
  | nonZeroReserved
  /-- There is no code at all. -/
  | emptyCode
  /-- The code is longer than its length field allows. -/
  | codeTooLarge (length : Nat)
  /-- A table names a position outside the code. -/
  | badTablePc (pc : Nat)
  deriving DecidableEq, Repr

/-- The wording of a malformation. -/
def Malformation.message : Malformation → String
  | .unknownOpcode byte => "unknown opcode 0x" ++ Hex.ofByte byte
  | .unknownWideOpcode byte => "opcode 0x" ++ Hex.ofByte byte ++ " cannot follow `wide`"
  | .truncated => "instruction runs past the end of the code array"
  | .badBranchTarget target =>
      "branch target " ++ toString target ++ " is not the start of an instruction"
  | .tableBoundsInverted low high =>
      "tableswitch low " ++ toString low.toInt ++ " is greater than high " ++ toString high.toInt
  | .negativePairCount count =>
      "lookupswitch has a negative pair count " ++ toString count.toInt
  | .unsortedKeys => "lookupswitch keys are not sorted"
  | .unknownArrayType code => "unknown newarray type code " ++ toString code.toNat
  | .zeroDimensions => "multianewarray with zero dimensions"
  | .nonZeroReserved => "reserved operand bytes are not zero"
  | .emptyCode => "code array is empty"
  | .codeTooLarge length => "code array of " ++ toString length ++ " bytes exceeds 65535"
  | .badTablePc pc => "table entry refers to pc " ++ toString pc ++ " outside the code array"

/-- The name of a malformation in reports. -/
def Malformation.name : Malformation → String
  | .unknownOpcode _ => "UnknownOpcode"
  | .unknownWideOpcode _ => "UnknownWideOpcode"
  | .truncated => "Truncated"
  | .badBranchTarget _ => "BadBranchTarget"
  | .tableBoundsInverted _ _ => "TableSwitchLowGtHigh"
  | .negativePairCount _ => "LookupSwitchNegativePairs"
  | .unsortedKeys => "LookupSwitchBadSort"
  | .unknownArrayType _ => "UnknownArrayType"
  | .zeroDimensions => "ZeroDimensions"
  | .nonZeroReserved => "NonZeroReserved"
  | .emptyCode => "EmptyCode"
  | .codeTooLarge _ => "CodeTooLarge"
  | .badTablePc _ => "BadTablePc"

/-- Why an opcode cannot take an operand. -/
inductive OperandIssue where
  /-- The opcode already names another local variable. -/
  | slotNotImplicit
  /-- The local variable needs the wide form. -/
  | slotTooLarge
  /-- The increment needs the wide form. -/
  | incrementTooLarge
  /-- The bounds of a dense switch are inverted. -/
  | boundsInverted
  /-- A switch of this size cannot fit any code array. -/
  | tooManyCases
  /-- A case lies outside the bounds of its switch. -/
  | caseOutsideBounds
  /-- Two cases have the same value. -/
  | duplicateCase
  /-- The member is not a field. -/
  | notAField
  /-- The field's descriptor does not parse. -/
  | malformedFieldDescriptor
  /-- The opcode calls another kind of member. -/
  | wrongMemberKind
  /-- The method's descriptor does not parse. -/
  | malformedMethodDescriptor
  /-- The arguments take more slots than a call can pass. -/
  | tooManyArguments
  /-- Arrays are not made by `new`. -/
  | instantiatesArray
  /-- A multidimensional array needs a dimension. -/
  | noDimensions
  /-- The class is not an array class. -/
  | notAnArrayClass
  /-- More dimensions are asked for than the array class has. -/
  | tooManyDimensions
  /-- The opcode does not push a value of its own. -/
  | operandRequired
  /-- The opcode has no immediate operand. -/
  | noImmediate
  /-- The value needs a wider immediate operand. -/
  | immediateTooLarge
  /-- A two-slot constant was given to a one-slot form. -/
  | needsTwoSlotForm
  /-- A one-slot constant was given to the two-slot form. -/
  | needsOneSlotForm
  /-- The pool index needs a two-byte form. -/
  | indexTooLarge
  /-- The opcode does not push pool constants. -/
  | noPoolOperand
  deriving DecidableEq, Repr

/-- The wording of an operand issue. -/
def OperandIssue.message : OperandIssue → String
  | .slotNotImplicit => "slot differs from the opcode's implicit slot"
  | .slotTooLarge => "slot does not fit in one byte"
  | .incrementTooLarge => "constant does not fit in one byte"
  | .boundsInverted => "low is greater than high"
  | .tooManyCases => "too many cases"
  | .caseOutsideBounds => "case value outside low..=high"
  | .duplicateCase => "duplicate case value"
  | .notAField => "operand is not a field reference"
  | .malformedFieldDescriptor => "malformed field descriptor"
  | .wrongMemberKind => "member reference of the wrong kind"
  | .malformedMethodDescriptor => "malformed method descriptor"
  | .tooManyArguments => "too many argument slots"
  | .instantiatesArray => "cannot instantiate an array type"
  | .noDimensions => "dimensions must be at least one"
  | .notAnArrayClass => "class entry is not an array descriptor"
  | .tooManyDimensions => "more dimensions than the array type has"
  | .operandRequired => "opcode takes an operand"
  | .noImmediate => "opcode takes no immediate value"
  | .immediateTooLarge => "value does not fit the immediate operand"
  | .needsTwoSlotForm => "long and double constants need ldc2_w"
  | .needsOneSlotForm => "ldc2_w only loads long and double constants"
  | .indexTooLarge => "pool index does not fit in one byte"
  | .noPoolOperand => "opcode does not load from the pool"

/-- Why no instruction exists for a value kind. -/
inductive KindIssue where
  /-- Values of the kind are not held in local variables. -/
  | noLocalVariable
  /-- Arrays of the kind cannot be read. -/
  | noArrayLoad
  /-- Arrays of the kind cannot be written. -/
  | noArrayStore
  /-- The kind is not primitive. -/
  | notPrimitive
  deriving DecidableEq, Repr

/-- The wording of a kind issue. -/
def KindIssue.message : KindIssue → String
  | .noLocalVariable => "no local variable instruction for this kind"
  | .noArrayLoad => "no array load instruction for this kind"
  | .noArrayStore => "no array store instruction for this kind"
  | .notPrimitive => "newarray only creates arrays of primitives"

/-- Everything that can go wrong with code. -/
inductive Fault where
  /-- The opcode belongs to another family. -/
  | familyMismatch (opcode : Opcode) (expected : Family)
  /-- The opcode cannot take the operand. -/
  | illegalOperand (opcode : Opcode) (issue : OperandIssue)
  /-- No instruction of the wanted shape exists for the kind. -/
  | illegalKind (kind : ValueKind) (issue : KindIssue)
  /-- The bytes at an offset are malformed. -/
  | malformed (offset : Nat) (what : Malformation)
  /-- A label that is referred to was never placed. -/
  | unresolvedLabel (label : Label)
  /-- A label was placed a second time. -/
  | labelAlreadyPlaced (label : Label)
  /-- A range of code is empty or ends before it starts. -/
  | badLabelRange (start stop : Label)
  /-- A jump is too far for its offset operand. -/
  | offsetOverflow (bci : Nat) (offset : Int)
  /-- The constant pool refused. -/
  | pool (cause : PoolFault)
  deriving DecidableEq, Repr

/-- The wording of a fault. -/
def Fault.message : Fault → String
  | .familyMismatch opcode expected =>
      "opcode " ++ opcode.mnemonic ++ " is of kind " ++ opcode.family.name ++ ", expected "
        ++ expected.name
  | .illegalOperand opcode issue =>
      "illegal operand for " ++ opcode.mnemonic ++ ": " ++ issue.message
  | .illegalKind kind issue => "illegal type kind " ++ kind.name ++ ": " ++ issue.message
  | .malformed offset what =>
      "malformed code at offset " ++ toString offset ++ ": " ++ what.message
  | .unresolvedLabel label => "label " ++ label.render ++ " is referenced but never placed"
  | .labelAlreadyPlaced label => "label " ++ label.render ++ " is already placed"
  | .badLabelRange start stop =>
      "label range " ++ start.render ++ ".." ++ stop.render ++ " is empty or inverted"
  | .offsetOverflow bci offset =>
      "branch at bci " ++ toString bci ++ " cannot reach offset " ++ toString offset
  | .pool cause => cause.message

/-- The name of a fault in reports; a fault that wraps another names both. -/
def Fault.name : Fault → String
  | .familyMismatch _ _ => "KindMismatch"
  | .illegalOperand _ _ => "IllegalOperand"
  | .illegalKind _ _ => "IllegalTypeKind"
  | .malformed _ what => "Malformed/" ++ what.name
  | .unresolvedLabel _ => "UnresolvedLabel"
  | .labelAlreadyPlaced _ => "LabelAlreadyPlaced"
  | .badLabelRange _ _ => "BadLabelRange"
  | .offsetOverflow _ _ => "BranchOffsetOverflow"
  | .pool cause => "ConstantPool/" ++ cause.name

end JvmCode
