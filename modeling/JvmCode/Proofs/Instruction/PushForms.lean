import JvmCode.Proofs.Pool.Resolving

/-! # The forms of a push

A value is pushed by an opcode that has it built in, by an immediate, or by a load from the pool. The choice is
made for the value alone, in this order, and only a value that has neither of the first two forms goes to the pool.

* **`Instruction.PushForm`** are the pushes whose operand their opcode can encode; `pushIntrinsic_eq_ok_iff`,
  `pushImmediate_eq_ok_iff` and `pushLoaded_eq_ok_iff` say that the checked constructors accept exactly these.
* **`Instruction.Pushed`** is what making a push can do, and `pushOf_cases` says so. -/

namespace JvmCode

/-! ## Forms -/

namespace Opcode

/-- An opcode with a built-in value pushes a constant and has one byte. -/
theorem builtIn_of_intrinsic? : ∀ op : Opcode, op.intrinsic?.isSome = true →
    op.family = .constant ∧ op.fixedSize? = some 1 := by
  decide +kernel

/-- The opcodes with an immediate. -/
theorem immediate_of_constantFormat : ∀ (op : Opcode) (wide : Bool),
    op.constantFormat = .immediate wide → op = if wide then .sipush else .bipush := by
  decide +kernel

/-- The opcodes with a constant of the pool. -/
theorem constant_of_constantFormat : ∀ (op : Opcode) (wide : Bool),
    op.constantFormat = .constant wide → op ≠ .ldc2W → op = if wide then .ldcW else .ldc := by
  decide +kernel

/-- An opcode that pushes a value without operand has it built in. -/
theorem intrinsic?_of_pushing? {op : Opcode} {value : Constant} (found : pushing? value = some op) :
    op.intrinsic? = some value := by
  have holds := List.find?_some (show all.find? (fun op => op.intrinsic? == some value) = some op from found)
  exact beq_iff_eq.mp holds

/-- No opcode has a value built in if none pushes it without operand. -/
theorem intrinsic?_ne_of_pushing? {value : Constant} (none : pushing? value = none) (op : Opcode) :
    op.intrinsic? ≠ some value := by
  intro built
  exact List.find?_eq_none.mp none op (mem_all op) (beq_iff_eq.mpr built)

end Opcode

namespace Instruction

/-- The pushes whose operand their opcode can encode. -/
inductive PushForm : Instruction → Prop where
  /-- The value is built into the opcode. -/
  | builtIn {opcode : Opcode} {value : Constant} (built : opcode.intrinsic? = some value) :
      PushForm ⟨opcode, .none⟩
  /-- The value is an immediate of one byte. -/
  | byte {number : Int32} (lower : -128 ≤ number.toInt) (upper : number.toInt ≤ 127) :
      PushForm ⟨.bipush, .immediate number⟩
  /-- The value is an immediate of two bytes. -/
  | short {number : Int32} (lower : -32768 ≤ number.toInt) (upper : number.toInt ≤ 32767) :
      PushForm ⟨.sipush, .immediate number⟩
  /-- A value of one slot is loaded from an index of one byte. -/
  | near {loaded : Loadable} (oneSlot : loaded.value.isWide = false) (small : loaded.index.toNat ≤ 255) :
      PushForm ⟨.ldc, .constant loaded⟩
  /-- A value of one slot is loaded. -/
  | far {loaded : Loadable} (oneSlot : loaded.value.isWide = false) : PushForm ⟨.ldcW, .constant loaded⟩
  /-- A value of two slots is loaded. -/
  | twoSlots {loaded : Loadable} (wide : loaded.value.isWide = true) : PushForm ⟨.ldc2W, .constant loaded⟩

variable {opcode : Opcode} {i : Instruction}

/-- A push of a built-in value is accepted exactly if the opcode has one. -/
theorem pushIntrinsic_eq_ok_iff : pushIntrinsic opcode = .ok i ↔ i = ⟨opcode, .none⟩ ∧ i.PushForm := by
  constructor
  · intro made
    obtain ⟨⟨⟩, -, made⟩ := Outcome.bind_eq_ok_iff.mp made
    obtain ⟨built, made⟩ := refuse_else_eq_ok_iff.mp made
    obtain rfl := Outcome.pure_eq_ok_iff.mp made
    rw [Option.isNone_iff_eq_none] at built
    obtain ⟨value, built⟩ := Option.ne_none_iff_exists'.mp built
    exact ⟨rfl, .builtIn built⟩
  · rintro ⟨rfl, form⟩
    cases form with
    | @builtIn _ value built =>
        obtain ⟨constant, -⟩ := opcode.builtIn_of_intrinsic? (by rw [built]; rfl)
        refine Outcome.bind_eq_ok_iff.mpr ⟨(), checkFamily_eq_ok_iff.mpr constant, ?_⟩
        exact refuse_else_eq_ok_iff.mpr ⟨by simp [built], rfl⟩

/-- A push of an immediate is accepted exactly if the opcode can encode it. -/
theorem pushImmediate_eq_ok_iff {number : Int32} :
    pushImmediate opcode number = .ok i ↔ i = ⟨opcode, .immediate number⟩ ∧ i.PushForm := by
  constructor
  · intro made
    obtain ⟨⟨⟩, -, made⟩ := Outcome.bind_eq_ok_iff.mp made
    split at made
    · rename_i wide format
      obtain ⟨fits, made⟩ := refuse_else_eq_ok_iff.mp made
      obtain rfl := Outcome.pure_eq_ok_iff.mp made
      rw [Bool.not_eq_true', Bool.not_eq_false] at fits
      obtain rfl := opcode.immediate_of_constantFormat wide format
      refine ⟨rfl, ?_⟩
      cases wide with
      | true =>
          obtain ⟨lower, upper⟩ := Bool.and_eq_true_iff.mp fits
          exact .short (of_decide_eq_true lower) (of_decide_eq_true upper)
      | false =>
          obtain ⟨lower, upper⟩ := Bool.and_eq_true_iff.mp fits
          exact .byte (of_decide_eq_true lower) (of_decide_eq_true upper)
    · cases made
  · rintro ⟨rfl, form⟩
    have accepts (wide : Bool) (opcode : Opcode) (constant : opcode.family = .constant)
        (format : opcode.constantFormat = .immediate wide)
        (fits : (if wide then fitsInt16 number.toInt else fitsInt8 number.toInt) = true) :
        pushImmediate opcode number = .ok ⟨opcode, .immediate number⟩ := by
      refine Outcome.bind_eq_ok_iff.mpr ⟨(), checkFamily_eq_ok_iff.mpr constant, ?_⟩
      rw [format]
      exact refuse_else_eq_ok_iff.mpr ⟨by rw [fits]; decide, rfl⟩
    cases form with
    | byte lower upper =>
        exact accepts false .bipush rfl rfl (by simp [fitsInt8, lower, upper])
    | short lower upper =>
        exact accepts true .sipush rfl rfl (by simp [fitsInt16, lower, upper])

/-- A push of a constant of the pool is accepted exactly if the opcode can encode it. -/
theorem pushLoaded_eq_ok_iff {loaded : Loadable} :
    pushLoaded opcode loaded = .ok i ↔ i = ⟨opcode, .constant loaded⟩ ∧ i.PushForm := by
  constructor
  · intro made
    obtain ⟨⟨⟩, -, made⟩ := Outcome.bind_eq_ok_iff.mp made
    split at made
    · rename_i wide format
      dsimp only at made
      split at made
      · rename_i twoSlots
        obtain ⟨takesTwo, made⟩ := refuse_else_eq_ok_iff.mp made
        obtain ⟨-, made⟩ := refuse_else_eq_ok_iff.mp made
        obtain rfl := Outcome.pure_eq_ok_iff.mp made
        rw [Bool.not_eq_true', Bool.not_eq_false] at takesTwo
        subst twoSlots
        exact ⟨rfl, .twoSlots takesTwo⟩
      · rename_i oneSlot
        obtain ⟨takesOne, made⟩ := refuse_else_eq_ok_iff.mp made
        obtain ⟨small, made⟩ := refuse_else_eq_ok_iff.mp made
        obtain rfl := Outcome.pure_eq_ok_iff.mp made
        rw [Bool.not_eq_true] at takesOne
        obtain rfl := opcode.constant_of_constantFormat wide format oneSlot
        refine ⟨rfl, ?_⟩
        cases wide with
        | true => exact .far takesOne
        | false =>
            rw [Bool.not_false, Bool.true_and, decide_eq_true_eq, UInt16.not_lt,
              UInt16.le_iff_toNat_le] at small
            exact .near takesOne small
    · cases made
  · rintro ⟨rfl, form⟩
    have accepts (wide : Bool) (opcode : Opcode) (constant : opcode.family = .constant)
        (format : opcode.constantFormat = .constant wide)
        (slots : loaded.value.isWide = decide (opcode = .ldc2W))
        (small : wide = false → loaded.index.toNat ≤ 255) :
        pushLoaded opcode loaded = .ok ⟨opcode, .constant loaded⟩ := by
      have index : ¬(!wide && decide (255 < loaded.index)) = true := by
        cases wide with
        | true => simp
        | false =>
            have below := small rfl
            simpa [UInt16.lt_iff_toNat_lt] using below
      refine Outcome.bind_eq_ok_iff.mpr ⟨(), checkFamily_eq_ok_iff.mpr constant, ?_⟩
      rw [format]
      dsimp only
      by_cases twoSlots : opcode = .ldc2W
      · rw [if_pos twoSlots, if_neg (by simp [slots, twoSlots]), if_neg index]
        rfl
      · rw [if_neg twoSlots, if_neg (by simp [slots, twoSlots]), if_neg index]
        rfl
    cases form with
    | near oneSlot small => exact accepts false .ldc rfl rfl oneSlot fun _ => small
    | far oneSlot => exact accepts true .ldcW rfl rfl oneSlot nofun
    | twoSlots wide => exact accepts true .ldc2W rfl rfl wide nofun

/-! ## Making a push -/

/-- What making the push of a value can do: the push that is made, and the pool after it. -/
inductive Pushed (pool : Pool) : Constant → Instruction → Pool → Prop where
  /-- The value is built into an opcode. -/
  | builtIn {opcode : Opcode} {value : Constant} (built : opcode.intrinsic? = some value) :
      Pushed pool value ⟨opcode, .none⟩ pool
  /-- The value is an immediate of one byte. -/
  | byte {number : Int32} (unbuilt : Opcode.pushing? (.integer number) = none)
      (lower : -128 ≤ number.toInt) (upper : number.toInt ≤ 127) :
      Pushed pool (.integer number) ⟨.bipush, .immediate number⟩ pool
  /-- The value is an immediate of two bytes and no less. -/
  | short {number : Int32} (unbuilt : Opcode.pushing? (.integer number) = none)
      (large : ¬(-128 ≤ number.toInt ∧ number.toInt ≤ 127)) (lower : -32768 ≤ number.toInt)
      (upper : number.toInt ≤ 32767) :
      Pushed pool (.integer number) ⟨.sipush, .immediate number⟩ pool
  /-- The value is neither, and was added to the pool. -/
  | loaded {value : Constant} {index : UInt16} {after : Pool} (unbuilt : Opcode.pushing? value = none)
      (large : ∀ number, value = .integer number → ¬(-32768 ≤ number.toInt ∧ number.toInt ≤ 32767))
      (added : internConstant value pool = .ok index after) :
      Pushed pool value ⟨loadOpcode value index, .constant ⟨index, value⟩⟩ after

variable {pool after : Pool} {value : Constant}

/-- A push without the pool has an immediate of one byte, or else of two. -/
theorem pushSmall?_eq_some_iff : pushSmall? value = some i ↔ ∃ number, value = .integer number ∧
    ((-128 ≤ number.toInt ∧ number.toInt ≤ 127) ∧ i = ⟨.bipush, .immediate number⟩ ∨
      ¬(-128 ≤ number.toInt ∧ number.toInt ≤ 127) ∧ (-32768 ≤ number.toInt ∧ number.toInt ≤ 32767) ∧
        i = ⟨.sipush, .immediate number⟩) := by
  cases value with
  | integer number =>
      simp only [pushSmall?, fitsInt8_iff, fitsInt16_iff, Constant.integer.injEq, exists_eq_left']
      by_cases byte : -128 ≤ number.toInt ∧ number.toInt ≤ 127
      · simp [byte, eq_comm]
      · by_cases short : -32768 ≤ number.toInt ∧ number.toInt ≤ 32767
        · simp [byte, short, eq_comm]
        · simp [byte, short]
  | _ => simp [pushSmall?]

/-- A push that was made is one of the four. -/
theorem pushOf_cases (made : pushOf value pool = .ok i after) : Pushed pool value i after := by
  unfold pushOf at made
  cases built : Opcode.pushing? value with
  | some opcode =>
      simp only [built] at made
      obtain ⟨rfl, rfl⟩ := Interning.pure_eq_ok_iff.mp made
      exact .builtIn (Opcode.intrinsic?_of_pushing? built)
  | none =>
      simp only [built] at made
      cases small : pushSmall? value with
      | some j =>
          simp only [small] at made
          obtain ⟨rfl, rfl⟩ := Interning.pure_eq_ok_iff.mp made
          obtain ⟨number, rfl, ⟨⟨lower, upper⟩, rfl⟩ | ⟨large, ⟨lower, upper⟩, rfl⟩⟩ :=
            pushSmall?_eq_some_iff.mp small
          · exact .byte built lower upper
          · exact .short built large lower upper
      | none =>
          simp only [small] at made
          obtain ⟨index, middle, added, made⟩ := Interning.bind_eq_ok_iff.mp made
          obtain ⟨rfl, rfl⟩ := Interning.pure_eq_ok_iff.mp made
          refine .loaded built ?_ added
          rintro number rfl short
          by_cases byte : -128 ≤ number.toInt ∧ number.toInt ≤ 127
          · cases small.symm.trans (pushSmall?_eq_some_iff.mpr ⟨number, rfl, .inl ⟨byte, rfl⟩⟩)
          · cases small.symm.trans (pushSmall?_eq_some_iff.mpr ⟨number, rfl, .inr ⟨byte, short, rfl⟩⟩)

/-- The load of a constant can be encoded by the opcode that is chosen for it. -/
theorem pushForm_load (value : Constant) (index : UInt16) :
    PushForm ⟨loadOpcode value index, .constant ⟨index, value⟩⟩ := by
  unfold loadOpcode
  split
  · rename_i wide
    exact .twoSlots wide
  · rename_i oneSlot
    rw [Bool.not_eq_true] at oneSlot
    split
    · rename_i small
      exact .near oneSlot (UInt16.le_iff_toNat_le.mp small)
    · exact .far oneSlot

/-- A push that was made pushes the value. -/
theorem Pushed.constant? (pushed : Pushed pool value i after) : i.constant? = some value := by
  cases pushed with
  | builtIn built => exact built
  | byte | short | loaded => rfl

/-- A push that was made can be encoded. -/
theorem Pushed.form (pushed : Pushed pool value i after) : i.PushForm := by
  cases pushed with
  | builtIn built => exact .builtIn built
  | byte _ lower upper => exact .byte lower upper
  | short _ _ lower upper => exact .short lower upper
  | loaded => exact pushForm_load _ _

/-- A push that was made of a constant of the pool loads the value. -/
theorem Pushed.found (pushed : Pushed pool value i after) (sound : pool.Sound)
    (handled : ∀ kind ref, value = .methodHandle kind ref → ∃ index, pool.resolver.memberRef index = .ok ref)
    {loaded : Loadable} (loads : i.operands = .constant loaded) :
    after.resolver.loadable loaded.index = .ok loaded ∧ loaded.value = value := by
  cases pushed with
  | loaded _ _ added =>
      cases loads
      refine ⟨sound.loadable_of_internConstant ?_ added, rfl⟩
      intro kind ref same
      obtain ⟨index, found⟩ := handled kind ref same
      rw [Resolver.index_of_memberRef found]
      exact found
  | builtIn | byte | short => cases loads

end Instruction

end JvmCode
