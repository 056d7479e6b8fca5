import JvmCode.Instruction.Construct
import JvmCode.Opcode.Lookup
import JvmCode.Pool.Resolver

/-! # Reading instructions

An instruction is read at the position of its first byte, its bytecode index. Branch offsets become the
labels of the positions they lead to; whether an instruction starts there is not asked here.

* **`readOpcode`** reads an opcode with its `wide` byte.
* **`JumpForm.read`** reads branch targets, which need no constant pool.
* **`Instruction.read`** reads a whole instruction.
* `Instruction.read_position_lt`: reading an instruction always moves on. -/

namespace JvmCode

/-- The outcome of finding an opcode; a fault is reported at the mark. -/
def opcodeFound : Except Malformation Opcode → Reader Opcode
  | .ok opcode => pure opcode
  | .error what => Reader.failAtMark what

/-- Read an opcode. -/
def readOpcode : Reader Opcode := do
  let byte ← Reader.u1
  if byte = Opcode.wideByte then
    let second ← Reader.u1
    opcodeFound (Opcode.ofWideByte second)
  else
    opcodeFound (Opcode.ofByte byte)

/-! ## Branch targets -/

/-- The label an offset leads to from the instruction at `bci`. -/
def jumpTarget (bci : Nat) (offset : Int) : Reader Label :=
  let target : Int := bci + offset
  if 0 ≤ target ∧ target < 65536 then pure (.decoded (UInt16.ofNat target.toNat))
  else Reader.fail (.malformed bci (.badBranchTarget target))

/-- Read a two-byte offset. -/
def readShortTarget (bci : Nat) : Reader Label := do
  let offset ← Reader.i2
  jumpTarget bci offset.toInt

/-- Read a four-byte offset. -/
def readFarTarget (bci : Nat) : Reader Label := do
  let offset ← Reader.i4
  jumpTarget bci offset.toInt

/-- Read `count` more cases of a key switch behind those already read. Keys must ascend. -/
def readCasesInto (bci : Nat) : Nat → Array SwitchCase → Reader (Array SwitchCase)
  | 0, cases => pure cases
  | count + 1, cases => do
      let value ← Reader.i4
      let target ← readFarTarget bci
      -- The whole case is read before its key is compared.
      if cases.back?.any fun last => value ≤ last.value then
        Reader.fail (.malformed bci .unsortedKeys)
      else
        readCasesInto bci count (cases.push ⟨value, target⟩)

/-- Read the operands of a dense switch. -/
def readTable (bci : Nat) : Reader Operands := do
  Reader.skip (switchPadding bci)
  let default ← readFarTarget bci
  let low ← Reader.i4
  let high ← Reader.i4
  if high < low then
    Reader.fail (.malformed bci (.tableBoundsInverted low high))
  else
    let targets ← Reader.sequence (readFarTarget bci) (high.toInt - low.toInt + 1).toNat
    return .table low high default targets.toList

/-- Read the operands of a key switch. -/
def readLookup (bci : Nat) : Reader Operands := do
  Reader.skip (switchPadding bci)
  let default ← readFarTarget bci
  let count ← Reader.i4
  if count < 0 then
    Reader.fail (.malformed bci (.negativePairCount count))
  else
    let cases ← readCasesInto bci count.toInt.toNat .empty
    return .lookup default cases.toList

/-- Read the branch targets of the instruction at `bci`. -/
def JumpForm.read (bci : Nat) : JumpForm → Reader Operands
  | .short => do return .target (← readShortTarget bci)
  | .far => do return .target (← readFarTarget bci)
  | .table => readTable bci
  | .lookup => readLookup bci

/-! ## Operands from the pool -/

namespace Resolver

/-- The field at an index as an operand. -/
def fieldOperand (resolver : Resolver) (index : UInt16) : Except PoolFault Operands := do
  let ref ← resolver.memberRef index
  -- Resolution comes first: a member that cannot be resolved has no kind to complain of.
  if ref.kind ≠ .field then throw (.wrongEntryKind index .field)
  match FieldType.kindOf? ref.descriptor with
  | some kind => return .field ref kind
  | none => throw (.invalidDescriptor index)

/-- The method at an index as an operand. Its argument count is the encoded one, if there is one, and
else the slots of its descriptor, of which more than 255 count as 255. -/
def methodOperand (resolver : Resolver) (opcode : Opcode) (index : UInt16)
    (encoded : Option UInt8) : Except PoolFault Operands := do
  let ref ← resolver.memberRef index
  if ref.kind = .field then throw (.wrongEntryKind index .method)
  match MethodDescriptor.parse? ref.descriptor with
  | none => throw (.invalidDescriptor index)
  | some descriptor =>
      let slots := (min (Instruction.argumentSlots opcode descriptor) 255).toUInt8
      return .method ref (encoded.getD slots) descriptor.resultKind

/-- The call site at an index as an operand. -/
def callSiteOperand (resolver : Resolver) (index : UInt16) : Except PoolFault Operands := do
  let site ← resolver.callSite index
  match MethodDescriptor.parse? site.descriptor with
  | none => throw (.invalidDescriptor index)
  | some descriptor => return .callSite site descriptor.resultKind

/-- The class at an index as an operand. -/
def classOperand (resolver : Resolver) (index : UInt16) : Except PoolFault Operands := do
  return .classRef (← resolver.classRef index)

/-- The constant at an index as the operand of a push that takes two slots or one. -/
def constantOperand (resolver : Resolver) (index : UInt16) (twoSlots : Bool) :
    Except PoolFault Operands := do
  let loaded ← resolver.loadable index
  if loaded.value.isWide = twoSlots then return .constant loaded
  else throw (.wrongEntryKind index (if twoSlots then .twoSlots else .oneSlot))

end Resolver

/-! ## Whole instructions -/

/-- Read an index or a local variable in two bytes, or in one. -/
def readIndex (wide : Bool) : Reader UInt16 :=
  if wide then Reader.u2 else do return (← Reader.u1).toUInt16

/-- Read a local variable and an increment. -/
def readIncrement (wide : Bool) : Reader Operands := do
  let slot ← readIndex wide
  if wide then return .increment slot (← Reader.i2)
  else return .increment slot (← Reader.i1).toInt16

/-- Read a signed immediate. -/
def readImmediate (wide : Bool) : Reader Operands :=
  if wide then do return .immediate (← Reader.i2).toInt32
  else do return .immediate (← Reader.i1).toInt32

/-- Read the operands of an interface call. -/
def readInterfaceMethod (resolver : Resolver) (opcode : Opcode) : Reader Operands := do
  let index ← Reader.u2
  let count ← Reader.u1
  let reserved ← Reader.u1
  if reserved ≠ 0 then Reader.failAtMark .nonZeroReserved
  else Reader.ofPool (resolver.methodOperand opcode index (some count))

/-- Read the operands of a dynamic call. -/
def readCallSite (resolver : Resolver) : Reader Operands := do
  let index ← Reader.u2
  let reserved ← Reader.u2
  if reserved ≠ 0 then Reader.failAtMark .nonZeroReserved
  else Reader.ofPool (resolver.callSiteOperand index)

/-- The element type with an array code; a fault is reported at the mark. -/
def elementFound (code : UInt8) : Reader Primitive :=
  match Primitive.ofArrayCode? code with
  | some type => pure type
  | none => Reader.failAtMark (.unknownArrayType code)

/-- Read the array code of an element type. -/
def Primitive.read : Reader Primitive := do
  let code ← Reader.u1
  elementFound code

/-- Read the operands of the creation of a multidimensional array. -/
def readArrayClass (resolver : Resolver) : Reader Operands := do
  let index ← Reader.u2
  let dimensions ← Reader.u1
  if dimensions = 0 then Reader.failAtMark .zeroDimensions
  else do return .arrayClass (← Reader.ofPool (resolver.classRef index)) dimensions

/-- Read the operands of the instruction at `bci`. -/
def readOperands (resolver : Resolver) (bci : Nat) (opcode : Opcode) : Reader Operands :=
  match opcode.format with
  | .bare => pure .none
  | .implicitSlot slot => pure (.slot slot)
  | .slot wide => do return .slot (← readIndex wide)
  | .increment wide => readIncrement wide
  | .jump form => form.read bci
  | .immediate wide => readImmediate wide
  | .constant wide => do
      let index ← readIndex wide
      Reader.ofPool (resolver.constantOperand index (opcode = .ldc2W))
  | .field => do
      let index ← Reader.u2
      Reader.ofPool (resolver.fieldOperand index)
  | .method => do
      let index ← Reader.u2
      Reader.ofPool (resolver.methodOperand opcode index none)
  | .interfaceMethod => readInterfaceMethod resolver opcode
  | .callSite => readCallSite resolver
  | .classRef => do
      let index ← Reader.u2
      Reader.ofPool (resolver.classOperand index)
  | .elementType => do return .element (← Primitive.read)
  | .arrayClass => readArrayClass resolver

/-- Read the instruction at the current position. -/
def Instruction.read (resolver : Resolver) : Reader Instruction := do
  let bci ← Reader.position
  Reader.markHere
  let opcode ← readOpcode
  let operands ← readOperands resolver bci opcode
  return ⟨opcode, operands⟩

/-! ## Reading moves on -/

namespace Reader.Forward

/-- A sequence of items that never move back does not move back. -/
theorem sequence {α : Type} {item : Reader α} (forward : Forward item) (count : Nat) :
    Forward (Reader.sequence item count) := by
  suffices h : ∀ items, Forward (repeatInto item count items) from h _
  induction count with
  | zero => exact fun items => Forward.pure items
  | succ count ih => exact fun items => forward.bind fun value => ih (items.push value)

/-- Finding an opcode does not move. -/
theorem opcodeFound (found : Except Malformation Opcode) : Forward (opcodeFound found) := by
  cases found with
  | ok opcode => exact Forward.pure opcode
  | error what => exact Forward.failAtMark what

/-- Making a label does not move. -/
theorem jumpTarget (bci : Nat) (offset : Int) : Forward (jumpTarget bci offset) := by
  unfold JvmCode.jumpTarget
  dsimp only
  split
  · exact Forward.pure _
  · exact Forward.fail _

/-- Reading a two-byte offset moves forward. -/
theorem readShortTarget (bci : Nat) : Forward (readShortTarget bci) :=
  Forward.i2.bind fun _ => Forward.jumpTarget bci _

/-- Reading a four-byte offset moves forward. -/
theorem readFarTarget (bci : Nat) : Forward (readFarTarget bci) :=
  Forward.i4.bind fun _ => Forward.jumpTarget bci _

/-- Reading cases moves forward. -/
theorem readCasesInto (bci count : Nat) (cases : Array SwitchCase) :
    Forward (readCasesInto bci count cases) := by
  induction count generalizing cases with
  | zero => exact Forward.pure cases
  | succ count ih =>
      refine Forward.i4.bind fun value => (Forward.readFarTarget bci).bind fun target => ?_
      split
      · exact Forward.fail _
      · exact ih _

/-- Reading branch targets moves forward. -/
theorem jumpForm (bci : Nat) (form : JumpForm) : Forward (form.read bci) := by
  cases form with
  | short => exact (Forward.readShortTarget bci).bind fun _ => Forward.pure _
  | far => exact (Forward.readFarTarget bci).bind fun _ => Forward.pure _
  | table =>
      refine (Forward.skip _).bind fun _ => (Forward.readFarTarget bci).bind fun _ =>
        Forward.i4.bind fun _ => Forward.i4.bind fun _ => ?_
      split
      · exact Forward.fail _
      · exact (Forward.sequence (Forward.readFarTarget bci) _).bind fun _ => Forward.pure _
  | lookup =>
      refine (Forward.skip _).bind fun _ => (Forward.readFarTarget bci).bind fun _ =>
        Forward.i4.bind fun _ => ?_
      split
      · exact Forward.fail _
      · exact (Forward.readCasesInto bci _ _).bind fun _ => Forward.pure _

/-- Reading an index moves forward. -/
theorem readIndex (wide : Bool) : Forward (readIndex wide) := by
  cases wide with
  | true => exact Forward.u2
  | false => exact Forward.u1.bind fun _ => Forward.pure _

/-- Reading operands moves forward. -/
theorem readOperands (resolver : Resolver) (bci : Nat) (opcode : Opcode) :
    Forward (readOperands resolver bci opcode) := by
  unfold JvmCode.readOperands
  split
  · exact Forward.pure _
  · exact Forward.pure _
  · exact (Forward.readIndex _).bind fun _ => Forward.pure _
  · rename_i wide _
    cases wide with
    | true => exact (Forward.readIndex _).bind fun _ => Forward.i2.bind fun _ => Forward.pure _
    | false => exact (Forward.readIndex _).bind fun _ => Forward.i1.bind fun _ => Forward.pure _
  · exact Forward.jumpForm bci _
  · rename_i wide _
    cases wide with
    | true => exact Forward.i2.bind fun _ => Forward.pure _
    | false => exact Forward.i1.bind fun _ => Forward.pure _
  · exact (Forward.readIndex _).bind fun _ => Forward.ofPool _
  · exact Forward.u2.bind fun _ => Forward.ofPool _
  · exact Forward.u2.bind fun _ => Forward.ofPool _
  · refine Forward.u2.bind fun _ => Forward.u1.bind fun _ => Forward.u1.bind fun _ => ?_
    split
    · exact Forward.failAtMark _
    · exact Forward.ofPool _
  · refine Forward.u2.bind fun _ => Forward.u2.bind fun _ => ?_
    split
    · exact Forward.failAtMark _
    · exact Forward.ofPool _
  · exact Forward.u2.bind fun _ => Forward.ofPool _
  · refine (Forward.u1.bind fun code => ?_).bind fun _ => Forward.pure _
    unfold elementFound
    split
    · exact Forward.pure _
    · exact Forward.failAtMark _
  · refine Forward.u2.bind fun _ => Forward.u1.bind fun _ => ?_
    split
    · exact Forward.failAtMark _
    · exact (Forward.ofPool _).bind fun _ => Forward.pure _

end Reader.Forward

/-- Reading an opcode moves on by a byte at least. -/
theorem readOpcode_position_lt {bytes : Array UInt8} {start stop : Cursor} {opcode : Opcode}
    (h : readOpcode bytes start = .ok opcode stop) : start.position < stop.position := by
  obtain ⟨byte, middle, first, rest⟩ := Reader.bind_eq_ok_iff.mp h
  have moved := Reader.u1_position first
  have forward : middle.position ≤ stop.position := by
    split at rest
    · exact (Reader.Forward.u1.bind fun _ => Reader.Forward.opcodeFound _) rest
    · exact Reader.Forward.opcodeFound _ rest
  omega

/-- Reading an instruction moves on by a byte at least. -/
theorem Instruction.read_position_lt {resolver : Resolver} {bytes : Array UInt8}
    {start stop : Cursor} {i : Instruction}
    (h : Instruction.read resolver bytes start = .ok i stop) : start.position < stop.position := by
  obtain ⟨bci, c₁, h₁, h⟩ := Reader.bind_eq_ok_iff.mp h
  obtain ⟨_, c₂, h₂, h⟩ := Reader.bind_eq_ok_iff.mp h
  obtain ⟨opcode, c₃, h₃, h⟩ := Reader.bind_eq_ok_iff.mp h
  obtain ⟨operands, c₄, h₄, h⟩ := Reader.bind_eq_ok_iff.mp h
  have first := Reader.Forward.position h₁
  have second := Reader.Forward.markHere h₂
  have third := readOpcode_position_lt h₃
  have fourth := Reader.Forward.readOperands _ _ _ h₄
  rw [← (Reader.pure_eq_ok_iff.mp h).2]
  omega

end JvmCode
