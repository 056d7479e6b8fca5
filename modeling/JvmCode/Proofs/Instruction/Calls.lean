import JvmCode.Proofs.Descriptors
import JvmCode.Proofs.Instruction.Constructed
import JvmCode.Proofs.Texts
import Mathlib.Algebra.Ring.Nat

/-! # The argument counts of calls

A call counts the slots of its arguments in 16 bits and keeps the count in 8. Both limits are met here: from 256
slots on a call is refused, and at 65536, which is 65535 for the parameters and one for the receiver, the count
starts again at zero and the call is made.

* **`MethodTree.slots`** and **`MethodTree.arguments`** are the exact counts.
* `toNat_argumentSlots`: what is counted is the exact count up to a multiple of 65536.
* `invoke_of_parsed` and `read_call`: what is made and what is read of a method with a descriptor.
* `invoke_count` gives the exact condition for the count to be right; `exists_call_uncounted` is a call for which
  it is not. -/

namespace JvmCode

/-! ## Exact counts -/

namespace TypeTree

/-- The value kind of a type: objects and arrays are references. -/
def kind : TypeTree → ValueKind
  | base kind => kind
  | _ => .reference

/-- The slots that a value of the type takes. -/
def slots : TypeTree → Nat
  | base .long | base .double => 2
  | _ => 1

end TypeTree

namespace MethodTree

/-- The slots that the parameters take, without the receiver. -/
def slots (method : MethodTree) : Nat := (method.parameters.map TypeTree.slots).sum

/-- The slots that the arguments of a call take, with the receiver if there is one. -/
def arguments (method : MethodTree) (opcode : Opcode) : Nat :=
  method.slots + if opcode = .invokestatic then 0 else 1

/-- The value kind of the result. -/
def resultKind (method : MethodTree) : ValueKind :=
  match method.result with
  | some type => type.kind
  | none => .void

end MethodTree

namespace FieldType

/-- The value kind of a type is that of its tree. -/
theorem kind_tree (type : FieldType) : type.tree.kind = type.kind := by
  obtain ⟨rank, leaf⟩ := type
  cases rank <;> cases leaf <;> rfl

/-- The slots of a type are those of its tree. -/
theorem toNat_slotSize_kind (type : FieldType) : type.kind.slotSize.toNat = type.tree.slots := by
  obtain ⟨rank, leaf⟩ := type
  cases rank with
  | succ rank => rfl
  | zero =>
      cases leaf with
      | object name => rfl
      | primitive type => cases type <;> rfl

end FieldType

namespace MethodDescriptor

/-- Adding up slots from a start on is exact up to a multiple of 65536. -/
theorem toNat_foldl_slotSize (types : List FieldType) (start : UInt16) :
    (types.foldl (fun slots type => slots + type.kind.slotSize) start).toNat =
      (start.toNat + (types.map fun type => type.tree.slots).sum) % 65536 := by
  induction types generalizing start with
  | nil => simp [Nat.mod_eq_of_lt start.toNat_lt]
  | cons type types ih =>
      have size := type.toNat_slotSize_kind
      rw [List.foldl_cons, ih, UInt16.toNat_add, size, List.map_cons, List.sum_cons]
      omega

/-- The parameters are counted up to a multiple of 65536. -/
theorem toNat_parameterSlots (method : MethodDescriptor) :
    method.parameterSlots.toNat = method.tree.slots % 65536 := by
  rw [parameterSlots, ← Array.foldl_toList, toNat_foldl_slotSize]
  simp [MethodTree.slots, tree, Function.comp_def]

/-- The kind of the result is that of the tree. -/
theorem resultKind_tree (method : MethodDescriptor) : method.tree.resultKind = method.resultKind := by
  obtain ⟨parameters, result⟩ := method
  cases result with
  | none => rfl
  | some type => exact type.kind_tree

end MethodDescriptor

namespace Instruction

/-- The arguments are counted up to a multiple of 65536. -/
theorem toNat_argumentSlots (opcode : Opcode) (method : MethodDescriptor) :
    (argumentSlots opcode method).toNat = method.tree.arguments opcode % 65536 := by
  rw [argumentSlots, UInt16.toNat_add, method.toNat_parameterSlots, MethodTree.arguments]
  split <;> simp

/-- Below the limit, the 16-bit count is the exact one. -/
theorem toNat_argumentSlots_of_ne {opcode : Opcode} {method : MethodDescriptor}
    (bounded : method.tree.slots ≤ 65535) (inside : method.tree.arguments opcode ≠ 65536) :
    (argumentSlots opcode method).toNat = method.tree.arguments opcode := by
  have few : method.tree.arguments opcode ≤ method.tree.slots + 1 := by
    unfold MethodTree.arguments
    split <;> omega
  rw [toNat_argumentSlots, Nat.mod_eq_of_lt (by omega)]

/-- At the limit, the 16-bit count is zero. -/
theorem argumentSlots_of_eq {opcode : Opcode} {method : MethodDescriptor}
    (full : method.tree.arguments opcode = 65536) : argumentSlots opcode method = 0 := by
  apply UInt16.toNat.inj
  rw [toNat_argumentSlots, full]
  rfl

/-- A count that is cut off at 255 fits 8 bits. -/
theorem toNat_toUInt8_min (slots : UInt16) : (min slots 255).toUInt8.toNat = min slots.toNat 255 := by
  have least : (min slots 255).toNat = min slots.toNat 255 := by
    rw [show min slots 255 = if slots ≤ 255 then slots else 255 from rfl]
    split
    · rename_i few
      exact (Nat.min_eq_left (UInt16.le_iff_toNat_le.mp few)).symm
    · rename_i many
      have above := mt UInt16.le_iff_toNat_le.mpr many
      exact (Nat.min_eq_right (Nat.le_of_not_le above)).symm
  rw [UInt16.toNat_toUInt8, least]
  omega

/-! ## Calls -/

/-- A call of a method with a descriptor is made or refused by its count. -/
theorem invoke_of_parsed {opcode : Opcode} {ref : MemberRef} {method : MethodDescriptor}
    (family : opcode.family = .invoke) (callable : canCall opcode ref.kind = true)
    (parsed : MethodDescriptor.parse? ref.descriptor = some method) :
    invoke opcode ref =
      if 255 < argumentSlots opcode method then .error (.illegalOperand opcode .tooManyArguments)
      else .ok ⟨opcode, .method ref (argumentSlots opcode method).toUInt8 method.resultKind⟩ := by
  have checked : checkFamily opcode .invoke = .ok () := checkFamily_eq_ok_iff.mpr family
  simp only [invoke, checked, callable, parsed, Bool.not_true, Bool.false_eq_true, if_false]
  split <;> rfl

/-- A call other than of an interface method reads back with the count of the descriptor, cut off at 255. -/
theorem read_call {opcode : Opcode} {ref : MemberRef} {method : MethodDescriptor} {resolver : Resolver}
    {code : Array UInt8} {start : Cursor} (family : opcode.family = .invoke)
    (plain : opcode ≠ .invokeinterface) (notField : ref.kind ≠ .field)
    (parsed : MethodDescriptor.parse? ref.descriptor = some method)
    (found : resolver.memberRef ref.index = .ok ref)
    (stands : Stands code start.position (opcode.bytes ++ BigEndian.u2 ref.index)) :
    ∃ stop, Instruction.read resolver code start =
      .ok ⟨opcode, .method ref (min (argumentSlots opcode method) 255).toUInt8 method.resultKind⟩ stop := by
  have format : opcode.format = .method := by rw [Opcode.format, family, if_neg plain]
  have fields (count result) :
      (Operands.method ref count result).fields opcode = [.bytes (BigEndian.u2 ref.index)] := by
    change operandTemplate opcode 0 (.method ref count result) = _
    rw [operandTemplate, if_neg plain]
  have inside : start.position ≤ code.size := by
    have := stands.le_size
    omega
  refine ⟨_, (Instruction.read_eq_ok_iff inside).mpr ⟨?_, ?_, ⟨_, ⟨_, ?_, rfl⟩, stands⟩, rfl⟩⟩
  · rw [Fits, format]
    exact .method ref _ _
  · rw [Instruction.Found, Operands.Found, if_neg plain]
    exact Resolver.methodOperand_eq_ok_iff.mpr ⟨ref, method, found, notField, parsed, rfl⟩
  · exact (Operands.spelled_iff rfl (fields _ _)).mpr rfl

/-- The argument count of a call. For a method with `method.slots ≤ 65535`, `invoke` gives the count
`method.arguments opcode` up to 255 and refuses with `.tooManyArguments` above, but for one number: at 65536,
which is 65535 slots of parameters and a receiver, the count is `0` and the call is made. `Instruction.read`
gives the count cut off at 255, and `0` at the same number. -/
theorem invoke_count {opcode : Opcode} {ref : MemberRef} {method : MethodTree}
    (family : opcode.family = .invoke) (callable : canCall opcode ref.kind = true) (legal : method.Legal)
    (described : ref.descriptor = String.ofList method.render) (bounded : method.slots ≤ 65535) :
    (method.arguments opcode ≤ 255 → ∃ count : UInt8, count.toNat = method.arguments opcode ∧
      invoke opcode ref = .ok ⟨opcode, .method ref count method.resultKind⟩) ∧
    (255 < method.arguments opcode →
      (invoke opcode ref = .error (.illegalOperand opcode .tooManyArguments) ↔
        method.arguments opcode ≠ 65536)) ∧
    (method.arguments opcode = 65536 → invoke opcode ref = .ok ⟨opcode, .method ref 0 method.resultKind⟩) ∧
    (Fault.illegalOperand opcode .tooManyArguments).message =
      "illegal operand for " ++ opcode.mnemonic ++ ": " ++ "too many argument slots" ∧
    (opcode ≠ .invokeinterface → ∀ (resolver : Resolver) (code : Array UInt8) (start : Cursor),
      resolver.memberRef ref.index = .ok ref →
      Stands code start.position (opcode.bytes ++ BigEndian.u2 ref.index) →
      ∃ count stop, Instruction.read resolver code start =
          .ok ⟨opcode, .method ref count method.resultKind⟩ stop ∧
        count.toNat = if method.arguments opcode = 65536 then 0 else min (method.arguments opcode) 255) := by
  obtain ⟨descriptor, rfl⟩ := MethodDescriptor.exists_tree_eq legal
  have parsed := MethodDescriptor.parse?_eq_some_iff.mpr ⟨legal, described⟩
  have outcome := invoke_of_parsed family callable parsed
  rw [descriptor.resultKind_tree]
  refine ⟨?_, ?_, ?_, ?_, ?_⟩
  · intro few
    have counted : (argumentSlots opcode descriptor).toNat = _ := toNat_argumentSlots_of_ne bounded (by omega)
    refine ⟨(argumentSlots opcode descriptor).toUInt8, ?_, ?_⟩
    · rw [UInt16.toNat_toUInt8, counted]
      omega
    · rw [outcome, if_neg]
      rw [UInt16.lt_iff_toNat_lt, counted]
      exact Nat.not_lt.mpr few
  · intro many
    constructor
    · intro refused full
      rw [outcome, argumentSlots_of_eq full] at refused
      cases refused
    · intro inside
      rw [outcome, if_pos]
      rw [UInt16.lt_iff_toNat_lt, toNat_argumentSlots_of_ne bounded inside]
      exact many
  · intro full
    rw [outcome, argumentSlots_of_eq full]
    rfl
  · rfl
  · intro plain resolver code start found stands
    obtain ⟨stop, read⟩ := read_call family plain (ne_field_of_canCall callable) parsed found stands
    refine ⟨_, stop, read, ?_⟩
    rw [toNat_toUInt8_min]
    split
    · rename_i full
      rw [argumentSlots_of_eq full]
      rfl
    · rename_i inside
      rw [toNat_argumentSlots_of_ne bounded inside]

/-- A pool with a method of class `A`. -/
def calledPool : Pool := ⟨#[some (.text "A"), some (.classRef 1), some (.text "m"), some (.text "(I[JD)Z"),
  some (.nameAndType 3 4), some (.member .method 2 5)], ∅⟩

/-- The method of the pool. -/
def calledMethod : MemberRef := ⟨6, .method, ⟨2, "A"⟩, "m", "(I[JD)Z"⟩

/-- A call of the method takes five slots, the receiver's among them. -/
theorem invoke_count_calledMethod :
    (∃ count : UInt8, count.toNat = 5 ∧
      invoke .invokevirtual calledMethod = .ok ⟨.invokevirtual, .method calledMethod count .boolean⟩) ∧
    ∃ count stop, Instruction.read calledPool.resolver #[0xb6, 0, 6] ⟨0, 0⟩ =
      .ok ⟨.invokevirtual, .method calledMethod count .boolean⟩ stop ∧ count.toNat = 5 := by
  have legal : (MethodTree.mk [.base .int, .array (.base .long), .base .double] (some (.base .boolean))).Legal := by
    decide
  obtain ⟨few, -, -, -, read⟩ := @invoke_count .invokevirtual calledMethod _ rfl rfl legal (by decide) (by decide)
  exact ⟨few (by decide), read (by decide) calledPool.resolver #[0xb6, 0, 6] ⟨0, 0⟩ rfl (by decide)⟩

/-- A method with so many parameters of two slots and one of one slot. -/
def wideParameters (count : Nat) : MethodTree := ⟨List.replicate count (.base .long) ++ [.base .int], none⟩

/-- Such a method has a descriptor. -/
theorem legal_wideParameters (count : Nat) : (wideParameters count).Legal := by
  intro type mem
  simp only [MethodTree.types, wideParameters, List.mem_append, List.mem_replicate, List.mem_singleton,
    Option.toList_none, List.not_mem_nil, or_false] at mem
  obtain ⟨-, rfl⟩ | rfl := mem <;> rfl

/-- Such a method takes an odd number of slots. -/
theorem slots_wideParameters (count : Nat) : (wideParameters count).slots = 2 * count + 1 := by
  simp [MethodTree.slots, wideParameters, TypeTree.slots, Nat.mul_comm]

/-- The descriptor of such a method has one byte for each parameter. -/
theorem encodedLength_wideParameters (count : Nat) :
    ModifiedUtf8.encodedLength (String.ofList (wideParameters count).render) = count + 4 := by
  have shape : (wideParameters count).render = '(' :: (List.replicate count 'J' ++ ['I', ')', 'V']) := by
    simp [MethodTree.render, wideParameters, TypeTree.render, ValueKind.descriptorChar, List.flatMap_replicate,
      List.flatten_replicate_singleton]
  let bytes (c : Char) := (ModifiedUtf8.charUnits c).flatMap ModifiedUtf8.unitBytes
  have first : (bytes '(').length = 1 := rfl
  have wide : bytes 'J' = [0x4a] := rfl
  have last : (['I', ')', 'V'].flatMap bytes).length = 3 := rfl
  rw [ModifiedUtf8.encodedLength_eq_length, ModifiedUtf8.encode, ModifiedUtf8.units, String.toList_ofList, shape,
    List.flatMap_assoc]
  change (List.flatMap bytes _).length = count + 4
  rw [List.flatMap_cons, List.flatMap_append, List.flatMap_replicate, wide, List.flatten_replicate_singleton,
    List.length_append, List.length_append, List.length_replicate]
  omega

/-- A method with 65535 slots of parameters. -/
def fullMethod : MemberRef := ⟨6, .method, ⟨2, "A"⟩, "m", String.ofList (wideParameters 32767).render⟩

/-- A pool can hold a method with 65535 slots of parameters, and a call of it is made with a count of zero, although
its arguments take 65536 slots. -/
theorem exists_call_uncounted :
    (wideParameters 32767).Legal ∧ (wideParameters 32767).slots = 65535 ∧
    (wideParameters 32767).arguments .invokevirtual = 65536 ∧
    Pool.textLength (.text fullMethod.descriptor) ≤ Pool.maxTextLength ∧
    invoke .invokevirtual fullMethod = .ok ⟨.invokevirtual, .method fullMethod 0 .void⟩ := by
  have legal := legal_wideParameters 32767
  have slots := slots_wideParameters 32767
  have full : (wideParameters 32767).arguments .invokevirtual = 65536 := by
    rw [MethodTree.arguments, slots]
    rfl
  have short : Pool.textLength (.text fullMethod.descriptor) ≤ Pool.maxTextLength := by
    rw [Pool.textLength, fullMethod, encodedLength_wideParameters]
    decide
  refine ⟨legal, slots, full, short, ?_⟩
  obtain ⟨descriptor, same⟩ := MethodDescriptor.exists_tree_eq legal
  have parsed : MethodDescriptor.parse? fullMethod.descriptor = some descriptor :=
    MethodDescriptor.parse?_eq_some_iff.mpr (same ▸ ⟨legal, rfl⟩)
  have kind : descriptor.resultKind = .void := by
    rw [← descriptor.resultKind_tree, same]
    rfl
  rw [invoke_of_parsed rfl rfl parsed, argumentSlots_of_eq (same ▸ full), kind]
  rfl

end Instruction

end JvmCode
