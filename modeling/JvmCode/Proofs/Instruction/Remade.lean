import JvmCode.Proofs.Instruction.Constructed

/-! # Making decoded instructions again

Decoding makes instructions without the checks of the constructors, by checks of its own. The two agree:
from the parts of an instruction that was decoded, the constructor of its family makes this instruction.
Calls and the creation of objects and of arrays with several dimensions are left out, since their
constructors ask for more than decoding does.

* **`Instruction.remake?`** passes the parts of an instruction to the constructor of its family.
* `tableSwitch_again` and `lookupSwitch_again`: a switch that fits in a code array is not refused for the
  number of its cases, and its cases are entered in order.
* `remake?_of_fits`: an instruction that decoding accepts is made again, by one lemma for each constructor. -/

namespace JvmCode

namespace Instruction

/-- What the constructor of its family makes of the parts of an instruction, or `none` if the operands are
not those of its family. -/
def remake? (i : Instruction) : Option (Except Fault Instruction) :=
  match i.family, i.operands with
  | .load, .slot slot | .store, .slot slot | .discontinuedRet, .slot slot =>
      some (localAccess i.family i.opcode slot)
  | .increment, .increment slot amount => some (increment i.opcode slot amount)
  | .branch, .target label | .discontinuedJsr, .target label => some (jump i.family i.opcode label)
  | .tableSwitch, .table low high default _ => some (tableSwitch low high default i.operands.cases)
  | .lookupSwitch, .lookup default _ => some (lookupSwitch default i.operands.cases)
  | .fieldAccess, .field ref _ => some (fieldAccess i.opcode ref)
  | .invoke, .method ref _ _ => some (invoke i.opcode ref)
  | .invokeDynamic, .callSite site _ => some (invokeDynamic site)
  | .newObject, .classRef ref => some (newObject ref)
  | .newPrimitiveArray, .element type => some (newArray type.kind)
  | .newReferenceArray, .classRef ref => some (.ok (newReferenceArray ref))
  | .newMultiArray, .arrayClass ref dimensions => some (newMultiArray ref dimensions)
  | .typeCheck, .classRef ref => some (typeCheck i.opcode ref)
  | .constant, .none => some (pushIntrinsic i.opcode)
  | .constant, .immediate value => some (pushImmediate i.opcode value)
  | .constant, .constant loaded => some (pushLoaded i.opcode loaded)
  | .methodReturn, .none | .throwException, .none | .arrayLoad, .none | .arrayStore, .none
  | .stack, .none | .convert, .none | .operator, .none | .monitor, .none | .nop, .none =>
      some (bare i.family i.opcode)
  | _, _ => none

variable {opcode : Opcode} {family : Family} {resolver : Resolver}

/-! ## Local variables, increments and jumps -/

/-- An instruction without operands is made of its opcode. -/
theorem bare_again (same : opcode.family = family) : bare family opcode = .ok ⟨opcode, .none⟩ := by
  rw [bare, checkFamily_eq_ok_iff.mpr same]
  rfl

/-- The local variable of an instruction that fits its opcode is accepted. -/
theorem checkSlot_of_fits {slot : UInt16} (fits : (Operands.slot slot).Fits opcode.format) :
    checkSlot opcode slot = .ok () := by
  unfold checkSlot
  generalize shape : opcode.format = format at fits
  cases fits with
  | implicitSlot =>
      rw [Opcode.implicitSlot?_of_format shape]
      exact if_pos rfl
  | @slot wide _ small =>
      obtain ⟨explicit, width⟩ := Opcode.slot_of_format shape
      rw [explicit, width]
      cases wide with
      | true => rfl
      | false =>
          have narrow : slot ≤ 255 := UInt16.le_iff_toNat_le.mpr (Nat.le_of_lt_succ (small rfl))
          exact if_pos (by simpa using narrow)

/-- The access of a local variable is made of its opcode and the variable. -/
theorem localAccess_again {slot : UInt16} (same : opcode.family = family)
    (fits : (Operands.slot slot).Fits opcode.format) :
    localAccess family opcode slot = .ok ⟨opcode, .slot slot⟩ := by
  rw [localAccess, checkFamily_eq_ok_iff.mpr same, checkSlot_of_fits fits]
  rfl

/-- An increment is made of its opcode, its variable and its amount. -/
theorem increment_again {slot : UInt16} {amount : Int16} (same : opcode.family = .increment)
    (fits : (Operands.increment slot amount).Fits opcode.format) :
    increment opcode slot amount = .ok ⟨opcode, .increment slot amount⟩ := by
  rw [format_of_increment same] at fits
  cases fits with
  | increment small =>
      rw [increment, checkFamily_eq_ok_iff.mpr same]
      by_cases wide : opcode.isWide = true
      · rw [wide]
        rfl
      · rw [Bool.not_eq_true] at wide
        obtain ⟨narrow, byte⟩ := small wide
        have inside : ¬255 < slot := by
          rw [UInt16.not_lt, UInt16.le_iff_toNat_le]
          exact Nat.le_of_lt_succ narrow
        rw [wide, byte]
        simp only [inside]
        rfl

/-- A jump is made of its opcode and its target. -/
theorem jump_again {target : Label} (same : opcode.family = family) :
    jump family opcode target = .ok ⟨opcode, .target target⟩ := by
  rw [jump, checkFamily_eq_ok_iff.mpr same]
  rfl

/-! ## Switches -/

/-- The number of a place behind the lower bound of a dense switch is the key of the place. -/
theorem toInt_key {low high : Int32} {place : Nat} (inside : low.toInt + place ≤ high.toInt) :
    (Int32.ofInt (low.toInt + place)).toInt = low.toInt + place := by
  have lower := low.le_toInt
  have upper := high.toInt_lt
  exact Int32.toInt_ofInt_of_le (by omega) (by omega)

/-- The next case of a dense switch is entered behind those entered before. -/
theorem enterCase_next {low high : Int32} {before : List Label} {free : Nat} (label : Label)
    (inside : low.toInt + before.length ≤ high.toInt) :
    enterCase low high (before.map some ++ List.replicate (free + 1) none).toArray
        ⟨Int32.ofInt (low.toInt + before.length), label⟩ =
      .ok ((before ++ [label]).map some ++ List.replicate free none).toArray := by
  have key := toInt_key inside
  have bounds : ¬(Int32.ofInt (low.toInt + before.length) < low ∨
      high < Int32.ofInt (low.toInt + before.length)) := by
    rw [not_or, Int32.not_lt, Int32.not_lt, Int32.le_iff_toInt_le, Int32.le_iff_toInt_le, key]
    omega
  have place : ((Int32.ofInt (low.toInt + before.length)).toInt - low.toInt).toNat = before.length := by
    rw [key]
    omega
  unfold enterCase
  dsimp only
  have free_here : (before.map some ++ List.replicate (free + 1) none).toArray[before.length]? =
      some (none : Option Label) := by
    simp [List.replicate_succ]
  have filled : (before.map some ++ List.replicate (free + 1) none).toArray.setIfInBounds before.length
      (some label) = ((before ++ [label]).map some ++ List.replicate free none).toArray := by
    simp [List.replicate_succ, List.set_append_right]
  rw [if_neg bounds, place, free_here]
  exact congrArg Except.ok filled

/-- The cases of a dense switch are entered in order, those from some place on behind the others. -/
theorem foldlM_enterCase {low high : Int32} (before after : List Label)
    (inside : low.toInt + (before.length + after.length : Nat) ≤ high.toInt + 1) :
    ((after.zipIdx before.length).map fun (label, place) =>
        (⟨Int32.ofInt (low.toInt + place), label⟩ : SwitchCase)).foldlM (enterCase low high)
        (before.map some ++ List.replicate after.length none).toArray =
      .ok ((before ++ after).map some).toArray := by
  induction after generalizing before with
  | nil =>
      simp
      rfl
  | cons label rest ih =>
      rw [List.length_cons] at inside
      have next : low.toInt + before.length ≤ high.toInt := by omega
      have others := ih (before ++ [label]) (by rw [List.length_append, List.length_singleton]; omega)
      rw [List.length_append, List.length_singleton, List.append_assoc, List.singleton_append] at others
      rw [List.zipIdx_cons, List.map_cons, List.foldlM_cons, List.length_cons, enterCase_next label next]
      exact others

/-- A dense switch with one target for every key, and few enough of them, is made of its bounds, its default
and its cases. -/
theorem tableSwitch_again {low high : Int32} {default : Label} {targets : List Label}
    (fits : (Operands.table low high default targets).Fits (.jump .table))
    (few : targets.length ≤ maxTargets) :
    tableSwitch low high default (Operands.table low high default targets).cases =
      .ok ⟨.tableswitch, .table low high default targets⟩ := by
  cases fits with
  | table ordered full =>
      have entered := @foldlM_enterCase low high [] targets (by
        rw [List.length_nil, Nat.zero_add]
        omega)
      have ascending : ¬high < low := by
        rw [Int32.not_lt, Int32.le_iff_toInt_le]
        exact ordered
      unfold tableSwitch
      refine refuse_else_eq_ok_iff.mpr ⟨ascending, ?_⟩
      refine refuse_else_eq_ok_iff.mpr ⟨by rw [← full]; omega, ?_⟩
      refine Outcome.bind_eq_ok_iff.mpr ⟨(targets.map some).toArray, ?_, ?_⟩
      · rw [← full, ← List.toArray_replicate]
        exact entered
      · rw [Outcome.pure_eq_ok_iff, List.map_map]
        simp [Function.comp_def]

/-- Ascending keys are sorted. -/
theorem pairwise_of_keysAscend {cases : List SwitchCase} (ascending : keysAscend cases = true) :
    cases.Pairwise fun first second => first.value.toInt < second.value.toInt := by
  induction cases with
  | nil => exact .nil
  | cons first rest ih =>
      cases rest with
      | nil => exact List.pairwise_singleton _ _
      | cons second others =>
          simp only [keysAscend, Bool.and_eq_true, decide_eq_true_eq, Int32.lt_iff_toInt_lt] at ascending
          have sorted := ih ascending.2
          refine List.pairwise_cons.mpr ⟨?_, sorted⟩
          intro other mem
          rcases List.mem_cons.mp mem with rfl | mem
          · exact ascending.1
          · exact Int.lt_trans ascending.1 ((List.pairwise_cons.mp sorted).1 other mem)

/-- A key switch with ascending keys, and few enough of them, is made of its default and its cases. -/
theorem lookupSwitch_again {default : Label} {cases : List SwitchCase}
    (fits : (Operands.lookup default cases).Fits (.jump .lookup)) (few : cases.length ≤ maxCases) :
    lookupSwitch default cases = .ok ⟨.lookupswitch, .lookup default cases⟩ := by
  cases fits with
  | lookup ascending _ =>
      have sorted : cases.mergeSort (fun a b => a.value ≤ b.value) = cases := by
        refine List.mergeSort_of_pairwise ((pairwise_of_keysAscend ascending).imp ?_)
        intro first second less
        rw [decide_eq_true_eq, Int32.le_iff_toInt_le]
        exact Int.le_of_lt less
      unfold lookupSwitch
      refine refuse_else_eq_ok_iff.mpr ⟨by omega, ?_⟩
      refine refuse_else_eq_ok_iff.mpr ⟨by rw [sorted, ascending]; decide, ?_⟩
      rw [sorted]
      rfl

/-! ## Operands from the pool -/

/-- An access to a field that is found is made of its opcode and the field. -/
theorem fieldAccess_again {ref : MemberRef} {kind : ValueKind} (same : opcode.family = .fieldAccess)
    (found : (Operands.field ref kind).Found resolver opcode) :
    fieldAccess opcode ref = .ok ⟨opcode, .field ref kind⟩ := by
  obtain ⟨_, _, -, isField, kinded, shape⟩ := Resolver.fieldOperand_eq_ok_iff.mp found
  cases shape
  refine Outcome.bind_eq_ok_iff.mpr ⟨(), checkFamily_eq_ok_iff.mpr same, ?_⟩
  refine refuse_else_eq_ok_iff.mpr ⟨not_not_intro isField, ?_⟩
  rw [kinded]
  rfl

/-- A call through a call site that is found is made of the call site. -/
theorem invokeDynamic_again {site : CallSite} {result : ValueKind}
    (found : (Operands.callSite site result).Found resolver opcode) :
    invokeDynamic site = .ok ⟨.invokedynamic, .callSite site result⟩ := by
  obtain ⟨_, descriptor, -, parsed, shape⟩ := Resolver.callSiteOperand_eq_ok_iff.mp found
  cases shape
  rw [invokeDynamic, parsed]

/-- The creation of an array of primitives is made of the kind of its elements. -/
theorem newArray_again (type : Primitive) : newArray type.kind = .ok ⟨.newarray, .element type⟩ := by
  rw [newArray, Primitive.ofKind?_eq_some_iff.mpr rfl]

/-- A test of a class is made of its opcode and the class. -/
theorem typeCheck_again {ref : ClassRef} (same : opcode.family = .typeCheck) :
    typeCheck opcode ref = .ok ⟨opcode, .classRef ref⟩ := by
  rw [typeCheck, checkFamily_eq_ok_iff.mpr same]
  rfl

/-! ## Constants -/

/-- The constants that are not built in have an operand. -/
theorem constant_of_intrinsic? : ∀ op : Opcode, op.family = .constant → op.intrinsic? = none →
    op = .bipush ∨ op = .sipush ∨ op = .ldc ∨ op = .ldcW ∨ op = .ldc2W := by
  decide +kernel

/-- A push that fits its opcode, with a constant that is found, can be encoded. -/
theorem pushForm_of_fits (same : opcode.family = .constant) {operands : Operands}
    (fits : operands.Fits opcode.format) (found : operands.Found resolver opcode) :
    PushForm ⟨opcode, operands⟩ := by
  have slots : ∀ loaded, operands = .constant loaded → loaded.value.isWide = decide (opcode = .ldc2W) := by
    rintro loaded rfl
    obtain ⟨_, -, slots, shape⟩ := Resolver.constantOperand_eq_ok_iff.mp found
    cases shape
    exact slots
  cases built : opcode.intrinsic? with
  | some value =>
      rw [format_of_intrinsic opcode (by rw [built]; rfl)] at fits
      cases fits
      exact .builtIn built
  | none =>
      rw [format_of_constant same] at fits
      rcases constant_of_intrinsic? opcode same built with rfl | rfl | rfl | rfl | rfl
      · cases fits with
        | immediate small => exact .byte (fitsInt8_iff.mp small).1 (fitsInt8_iff.mp small).2
      · cases fits with
        | immediate small => exact .short (fitsInt16_iff.mp small).1 (fitsInt16_iff.mp small).2
      · cases fits with
        | constant small => exact .near (slots _ rfl) (Nat.le_of_lt_succ (small rfl))
      · cases fits with
        | constant => exact .far (slots _ rfl)
      · cases fits with
        | constant => exact .twoSlots (slots _ rfl)

/-! ## All families -/

/-- An instruction without operands is made again. -/
theorem remake?_of_operandless (plain : opcode.family ∈ Family.operandless) {operands : Operands}
    (fits : operands.Fits opcode.format) :
    remake? ⟨opcode, operands⟩ = some (.ok ⟨opcode, operands⟩) := by
  rw [Opcode.format_of_operandless plain] at fits
  cases fits with
  | bare =>
      have parts : remake? ⟨opcode, .none⟩ = some (bare opcode.family opcode) := by
        simp only [Family.operandless, List.mem_cons, List.not_mem_nil, or_false] at plain
        rcases plain with same | same | same | same | same | same | same | same | same <;>
          simp only [remake?, family, same]
      rw [parts, bare_again rfl]

/-- The access of a local variable is made again. -/
theorem remake?_of_slotted (slotted : opcode.family ∈ Family.slotted) {operands : Operands}
    (fits : operands.Fits opcode.format) :
    remake? ⟨opcode, operands⟩ = some (.ok ⟨opcode, operands⟩) := by
  have shape : ∃ slot, operands = .slot slot := by
    rw [Opcode.format_of_slotted slotted] at fits
    split at fits
    · cases fits
      exact ⟨_, rfl⟩
    · cases fits
      exact ⟨_, rfl⟩
  obtain ⟨slot, rfl⟩ := shape
  have parts : remake? ⟨opcode, .slot slot⟩ = some (localAccess opcode.family opcode slot) := by
    simp only [Family.slotted, List.mem_cons, List.not_mem_nil, or_false] at slotted
    rcases slotted with same | same | same <;> simp only [remake?, family, same]
  rw [parts, localAccess_again rfl fits]

/-- A jump is made again. -/
theorem remake?_of_jumping (jumping : opcode.family ∈ Family.jumping) {operands : Operands}
    (fits : operands.Fits opcode.format) :
    remake? ⟨opcode, operands⟩ = some (.ok ⟨opcode, operands⟩) := by
  have shape : ∃ target, operands = .target target := by
    rw [Opcode.format_of_jumping jumping] at fits
    split at fits
    · cases fits
      exact ⟨_, rfl⟩
    · cases fits
      exact ⟨_, rfl⟩
  obtain ⟨target, rfl⟩ := shape
  have parts : remake? ⟨opcode, .target target⟩ = some (jump opcode.family opcode target) := by
    simp only [Family.jumping, List.mem_cons, List.not_mem_nil, or_false] at jumping
    rcases jumping with same | same <;> simp only [remake?, family, same]
  rw [parts, jump_again rfl]

/-- A push of a constant is made again. -/
theorem remake?_of_constant (same : opcode.family = .constant) {operands : Operands}
    (fits : operands.Fits opcode.format) (found : operands.Found resolver opcode) :
    remake? ⟨opcode, operands⟩ = some (.ok ⟨opcode, operands⟩) := by
  have form := pushForm_of_fits same fits found
  have shape : operands = .none ∨ (∃ value, operands = .immediate value) ∨
      ∃ loaded, operands = .constant loaded := by
    have formats : opcode.format = opcode.constantFormat := format_of_constant same
    rw [formats] at fits
    unfold Opcode.constantFormat at fits
    split at fits <;> cases fits <;> simp
  rcases shape with rfl | ⟨value, rfl⟩ | ⟨loaded, rfl⟩
  · simp only [remake?, family, same, pushIntrinsic_eq_ok_iff.mpr ⟨rfl, form⟩]
  · simp only [remake?, family, same, pushImmediate_eq_ok_iff.mpr ⟨rfl, form⟩]
  · simp only [remake?, family, same, pushLoaded_eq_ok_iff.mpr ⟨rfl, form⟩]

/-- The opcode of a family that has one only. -/
theorem opcode_of_family : ∀ op : Opcode,
    (op.family = .tableSwitch → op = .tableswitch) ∧ (op.family = .lookupSwitch → op = .lookupswitch) ∧
      (op.family = .invokeDynamic → op = .invokedynamic) ∧
      (op.family = .newPrimitiveArray → op = .newarray) ∧
      (op.family = .newReferenceArray → op = .anewarray) := by
  decide +kernel

/-- The families whose constructors ask for more than decoding does. -/
def stricter : List Family := [.invoke, .newObject, .newMultiArray]

/-- An instruction that is no longer than a code array, fits its opcode and has symbols that are found is made
again of its parts. -/
theorem remake?_of_fits {i : Instruction} (ordinary : i.family ∉ stricter) {bci : Nat}
    (short : i.size bci ≤ 65535) (fits : i.Fits) (found : i.Found resolver) :
    i.remake? = some (.ok i) := by
  obtain ⟨opcode, operands⟩ := i
  change operands.Fits opcode.format at fits
  change operands.Found resolver opcode at found
  obtain ⟨table, lookup, dynamic, primitive, reference⟩ := opcode_of_family opcode
  have format := fits
  unfold Opcode.format at format
  cases same : opcode.family with
  | load | store | discontinuedRet => exact remake?_of_slotted (by rw [same]; decide) fits
  | branch | discontinuedJsr => exact remake?_of_jumping (by rw [same]; decide) fits
  | methodReturn | throwException | arrayLoad | arrayStore | stack | convert | operator | monitor | nop =>
      exact remake?_of_operandless (by rw [same]; decide) fits
  | constant => exact remake?_of_constant same fits found
  | increment =>
      rw [same] at format
      cases format
      simp only [remake?, family, same, increment_again same fits]
  | tableSwitch =>
      obtain rfl := table same
      have few : ∀ low high default targets, operands = .table low high default targets →
          targets.length ≤ maxTargets := by
        rintro low high default targets rfl
        change 1 + switchPadding bci + 12 + 4 * targets.length ≤ 65535 at short
        unfold maxTargets
        omega
      cases fits with
      | @table low high default targets ordered full =>
          have made := @tableSwitch_again low high default targets (.table ordered full)
            (few _ _ _ _ rfl)
          simp only [remake?, family, same, made]
  | lookupSwitch =>
      obtain rfl := lookup same
      have few : ∀ default cases, operands = .lookup default cases → cases.length ≤ maxCases := by
        rintro default cases rfl
        change 1 + switchPadding bci + 8 + 8 * cases.length ≤ 65535 at short
        unfold maxCases
        omega
      cases fits with
      | @lookup default cases ascending counted =>
          have made := @lookupSwitch_again default cases (.lookup ascending counted) (few _ _ rfl)
          simp only [remake?, family, same, Operands.cases, made]
  | fieldAccess =>
      rw [same] at format
      cases format
      simp only [remake?, family, same, fieldAccess_again same found]
  | invokeDynamic =>
      rw [same] at format
      obtain rfl := dynamic same
      cases format
      simp only [remake?, family, same, invokeDynamic_again found]
  | newPrimitiveArray =>
      rw [same] at format
      obtain rfl := primitive same
      cases format
      simp only [remake?, family, same, newArray_again]
  | newReferenceArray =>
      rw [same] at format
      obtain rfl := reference same
      cases format
      rfl
  | typeCheck =>
      rw [same] at format
      cases format
      simp only [remake?, family, same, typeCheck_again same]
  | invoke | newObject | newMultiArray =>
      exact absurd (by rw [family, same]; decide) ordinary

end Instruction

end JvmCode
