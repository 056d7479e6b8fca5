import JvmCode.Instruction.Basic

/-! # Making instructions

Checked construction. Each function refuses operands that its opcode cannot encode, so that what it
accepts can be written and read back. Where a value kind or an operand decides the opcode, the shortest
form that can hold the operand is chosen. -/

namespace JvmCode

/-- Whether a number fits a signed byte. -/
def fitsInt8 (value : Int) : Bool := -128 ≤ value && value ≤ 127

/-- Whether a number fits a signed 16-bit word. -/
def fitsInt16 (value : Int) : Bool := -32768 ≤ value && value ≤ 32767

/-- Whether a number fits a signed 32-bit word. -/
def fitsInt32 (value : Int) : Bool := -2147483648 ≤ value && value ≤ 2147483647

/-- The opcodes that access local variables of one kind in one direction. -/
structure LocalForms where
  /-- The form with a one-byte operand. -/
  explicit : Opcode
  /-- The form for the first local variable. -/
  slot0 : Opcode
  /-- The form for the second local variable. -/
  slot1 : Opcode
  /-- The form for the third local variable. -/
  slot2 : Opcode
  /-- The form for the fourth local variable. -/
  slot3 : Opcode
  /-- The form with a two-byte operand. -/
  wide : Opcode

namespace LocalForms

/-- The forms that load values of a kind. -/
def load? (kind : ValueKind) : Option LocalForms :=
  match kind.loadable with
  | .int => some ⟨.iload, .iload0, .iload1, .iload2, .iload3, .iloadW⟩
  | .long => some ⟨.lload, .lload0, .lload1, .lload2, .lload3, .lloadW⟩
  | .float => some ⟨.fload, .fload0, .fload1, .fload2, .fload3, .floadW⟩
  | .double => some ⟨.dload, .dload0, .dload1, .dload2, .dload3, .dloadW⟩
  | .reference => some ⟨.aload, .aload0, .aload1, .aload2, .aload3, .aloadW⟩
  | _ => none

/-- The forms that store values of a kind. -/
def store? (kind : ValueKind) : Option LocalForms :=
  match kind.loadable with
  | .int => some ⟨.istore, .istore0, .istore1, .istore2, .istore3, .istoreW⟩
  | .long => some ⟨.lstore, .lstore0, .lstore1, .lstore2, .lstore3, .lstoreW⟩
  | .float => some ⟨.fstore, .fstore0, .fstore1, .fstore2, .fstore3, .fstoreW⟩
  | .double => some ⟨.dstore, .dstore0, .dstore1, .dstore2, .dstore3, .dstoreW⟩
  | .reference => some ⟨.astore, .astore0, .astore1, .astore2, .astore3, .astoreW⟩
  | _ => none

/-- The shortest form that reaches a local variable. -/
def shortest (forms : LocalForms) (slot : UInt16) : Opcode :=
  match slot.toNat with
  | 0 => forms.slot0
  | 1 => forms.slot1
  | 2 => forms.slot2
  | 3 => forms.slot3
  | n => if n < 256 then forms.explicit else forms.wide

end LocalForms

namespace Instruction

/-- Refuse an opcode of another family. -/
def checkFamily (opcode : Opcode) (expected : Family) : Except Fault Unit :=
  if opcode.family = expected then .ok () else .error (.familyMismatch opcode expected)

/-- Refuse an operand. -/
def refuse {α : Type} (opcode : Opcode) (issue : OperandIssue) : Except Fault α :=
  .error (.illegalOperand opcode issue)

/-! ## Instructions without operands -/

/-- An opcode of a family whose instructions have no operands. -/
def bare (family : Family) (opcode : Opcode) : Except Fault Instruction := do
  checkFamily opcode family
  return ⟨opcode, .none⟩

/-- The return of a value of some kind, or of none. -/
def returnOf (kind : ValueKind) : Instruction :=
  let opcode : Opcode := match kind.loadable with
    | .long => .lreturn
    | .float => .freturn
    | .double => .dreturn
    | .reference => .areturn
    | .void => .returnVoid
    | _ => .ireturn
  ⟨opcode, .none⟩

/-- The load of an array element of some kind. -/
def arrayLoadOf (kind : ValueKind) : Except Fault Instruction :=
  match kind.arrayLoad? with
  | some opcode => .ok ⟨opcode, .none⟩
  | none => .error (.illegalKind kind .noArrayLoad)

/-- The store of an array element of some kind. -/
def arrayStoreOf (kind : ValueKind) : Except Fault Instruction :=
  match kind.arrayStore? with
  | some opcode => .ok ⟨opcode, .none⟩
  | none => .error (.illegalKind kind .noArrayStore)

/-! ## Local variables -/

/-- Refuse a local variable that an opcode cannot name. -/
def checkSlot (opcode : Opcode) (slot : UInt16) : Except Fault Unit :=
  match opcode.implicitSlot? with
  | some implied => if implied = slot then .ok () else refuse opcode .slotNotImplicit
  | none => if opcode.isWide || slot ≤ 255 then .ok () else refuse opcode .slotTooLarge

/-- The access of a local variable by an opcode of a family that has one as operand. -/
def localAccess (family : Family) (opcode : Opcode) (slot : UInt16) : Except Fault Instruction := do
  checkFamily opcode family
  checkSlot opcode slot
  return ⟨opcode, .slot slot⟩

/-- The access of a local variable in its shortest form. -/
def localOf (forms : Option LocalForms) (kind : ValueKind) (slot : UInt16) :
    Except Fault Instruction :=
  match forms with
  | some forms => .ok ⟨forms.shortest slot, .slot slot⟩
  | none => .error (.illegalKind kind.loadable .noLocalVariable)

/-- The shortest load of a value of some kind. -/
def loadOf (kind : ValueKind) (slot : UInt16) : Except Fault Instruction :=
  localOf (LocalForms.load? kind) kind slot

/-- The shortest store of a value of some kind. -/
def storeOf (kind : ValueKind) (slot : UInt16) : Except Fault Instruction :=
  localOf (LocalForms.store? kind) kind slot

/-- An increment by a given opcode. -/
def increment (opcode : Opcode) (slot : UInt16) (amount : Int16) : Except Fault Instruction := do
  checkFamily opcode .increment
  if !opcode.isWide then
    if 255 < slot then refuse opcode .slotTooLarge
    if !fitsInt8 amount.toInt then refuse opcode .incrementTooLarge
  return ⟨opcode, .increment slot amount⟩

/-- The shortest increment. -/
def incrementOf (slot : UInt16) (amount : Int16) : Instruction :=
  let opcode : Opcode := if slot ≤ 255 && fitsInt8 amount.toInt then .iinc else .iincW
  ⟨opcode, .increment slot amount⟩

/-! ## Jumps -/

/-- A jump by an opcode of a family that has one target. -/
def jump (family : Family) (opcode : Opcode) (target : Label) : Except Fault Instruction := do
  checkFamily opcode family
  return ⟨opcode, .target target⟩

/-- More targets than this fit no code array. -/
def maxTargets : Nat := 16383

/-- More key cases than this fit no code array. -/
def maxCases : Nat := 8191

/-- Enter a case into the table of a dense switch that starts at `low`. -/
def enterCase (low high : Int32) (table : Array (Option Label)) (case : SwitchCase) :
    Except Fault (Array (Option Label)) :=
  let place := (case.value.toInt - low.toInt).toNat
  if case.value < low ∨ high < case.value then refuse .tableswitch .caseOutsideBounds
  else
    match table[place]? with
    | some none => .ok (table.setIfInBounds place (some case.target))
    | _ => refuse .tableswitch .duplicateCase

/-- A dense switch. Keys between the bounds without a case go to the default. -/
def tableSwitch (low high : Int32) (default : Label) (cases : List SwitchCase) :
    Except Fault Instruction := do
  if high < low then refuse .tableswitch .boundsInverted
  let count := (high.toInt - low.toInt + 1).toNat
  if maxTargets < count then refuse .tableswitch .tooManyCases
  let table ← cases.foldlM (enterCase low high) (Array.replicate count none)
  let targets := table.toList.map fun target => target.getD default
  return ⟨.tableswitch, .table low high default targets⟩

/-- Whether each key is smaller than the next. -/
def keysAscend : List SwitchCase → Bool
  | first :: second :: rest => first.value < second.value && keysAscend (second :: rest)
  | _ => true

/-- A key switch. The cases may be given in any order. -/
def lookupSwitch (default : Label) (cases : List SwitchCase) : Except Fault Instruction := do
  if maxCases < cases.length then refuse .lookupswitch .tooManyCases
  let sorted := cases.mergeSort fun a b => a.value ≤ b.value
  if !keysAscend sorted then refuse .lookupswitch .duplicateCase
  return ⟨.lookupswitch, .lookup default sorted⟩

/-! ## Fields and methods -/

/-- An access to a field. -/
def fieldAccess (opcode : Opcode) (ref : MemberRef) : Except Fault Instruction := do
  checkFamily opcode .fieldAccess
  if ref.kind ≠ .field then refuse opcode .notAField
  match FieldType.kindOf? ref.descriptor with
  | some kind => return ⟨opcode, .field ref kind⟩
  | none => refuse opcode .malformedFieldDescriptor

/-- Whether an opcode can call a kind of member. -/
def canCall (opcode : Opcode) (kind : MemberKind) : Bool :=
  match opcode with
  | .invokevirtual => kind == .method
  | .invokeinterface => kind == .interfaceMethod
  | _ => kind != .field

/-- The slots that the arguments of a call take, with the receiver if there is one, as a 16-bit count
that starts again at zero beyond 65535. -/
def argumentSlots (opcode : Opcode) (descriptor : MethodDescriptor) : UInt16 :=
  descriptor.parameterSlots + if opcode = .invokestatic then 0 else 1

/-- A call of a method. -/
def invoke (opcode : Opcode) (ref : MemberRef) : Except Fault Instruction := do
  checkFamily opcode .invoke
  if !canCall opcode ref.kind then refuse opcode .wrongMemberKind
  match MethodDescriptor.parse? ref.descriptor with
  | none => refuse opcode .malformedMethodDescriptor
  | some descriptor =>
      let slots := argumentSlots opcode descriptor
      if 255 < slots then refuse opcode .tooManyArguments
      return ⟨opcode, .method ref slots.toUInt8 descriptor.resultKind⟩

/-- A call through a call site. -/
def invokeDynamic (site : CallSite) : Except Fault Instruction :=
  match MethodDescriptor.parse? site.descriptor with
  | none => refuse .invokedynamic .malformedMethodDescriptor
  | some descriptor => .ok ⟨.invokedynamic, .callSite site descriptor.resultKind⟩

/-! ## Objects and arrays -/

/-- The creation of an object. -/
def newObject (ref : ClassRef) : Except Fault Instruction :=
  if ref.name.toList.head? = some '[' then refuse .new .instantiatesArray
  else .ok ⟨.new, .classRef ref⟩

/-- The creation of an array of primitives. -/
def newArray (kind : ValueKind) : Except Fault Instruction :=
  match Primitive.ofKind? kind with
  | some type => .ok ⟨.newarray, .element type⟩
  | none => .error (.illegalKind kind .notPrimitive)

/-- The creation of an array of references. -/
def newReferenceArray (ref : ClassRef) : Instruction := ⟨.anewarray, .classRef ref⟩

/-- The creation of an array of several dimensions, at least one and at most those of its class. -/
def newMultiArray (ref : ClassRef) (dimensions : UInt8) : Except Fault Instruction := do
  if dimensions = 0 then refuse .multianewarray .noDimensions
  match FieldType.parse? ref.name with
  | none => refuse .multianewarray .notAnArrayClass
  | some type =>
      if type.rank < dimensions.toNat then refuse .multianewarray .tooManyDimensions
      return ⟨.multianewarray, .arrayClass ref dimensions⟩

/-- A test of the class of a reference. -/
def typeCheck (opcode : Opcode) (ref : ClassRef) : Except Fault Instruction := do
  checkFamily opcode .typeCheck
  return ⟨opcode, .classRef ref⟩

end Instruction

end JvmCode
