import JvmCode.Proofs.Instruction.Jumps

/-! # What reading an instruction accepts

Reading gives an instruction exactly when its encoding stands there, with any bytes for the alignment
of a switch, its operands fit the opcode, and its symbols are those that the pool has at their indexes.

* **`Operands.Found`** says that the symbols of operands are those of the pool.
* `spells_readOperands` puts together one lemma for each format.
* `Instruction.read_eq_ok_iff` is the equivalence for whole instructions. -/

namespace JvmCode

/-! ## Operands from the pool -/

/-- The symbols of operands are those that the pool has at their indexes. -/
def Operands.Found (resolver : Resolver) (opcode : Opcode) : Operands → Prop
  | .constant loaded =>
      resolver.constantOperand loaded.index (opcode = .ldc2W) = .ok (.constant loaded)
  | .field ref kind => resolver.fieldOperand ref.index = .ok (.field ref kind)
  | .method ref count result =>
      resolver.methodOperand opcode ref.index (if opcode = .invokeinterface then some count else .none)
        = .ok (.method ref count result)
  | .callSite site result => resolver.callSiteOperand site.index = .ok (.callSite site result)
  | .classRef ref | .arrayClass ref _ => resolver.classRef ref.index = .ok ref
  | _ => True

namespace Resolver

variable {resolver : Resolver} {index : UInt16}

/-- A class is found at its own index. -/
theorem index_of_classRef {ref : ClassRef} (h : resolver.classRef index = .ok ref) :
    ref.index = index := by
  obtain ⟨entry, -, h⟩ := Outcome.bind_eq_ok_iff.mp h
  split at h
  · obtain ⟨text, -, h⟩ := Outcome.bind_eq_ok_iff.mp h
    rw [← Outcome.pure_eq_ok_iff.mp h]
  · cases Outcome.throw_eq_ok_iff.mp h

/-- A member is found at its own index. -/
theorem index_of_memberRef {ref : MemberRef} (h : resolver.memberRef index = .ok ref) :
    ref.index = index := by
  obtain ⟨entry, -, h⟩ := Outcome.bind_eq_ok_iff.mp h
  split at h
  · obtain ⟨named, -, h⟩ := Outcome.bind_eq_ok_iff.mp h
    obtain ⟨owner, -, h⟩ := Outcome.bind_eq_ok_iff.mp h
    rw [← Outcome.pure_eq_ok_iff.mp h]
  · cases Outcome.throw_eq_ok_iff.mp h

/-- A call site is found at its own index. -/
theorem index_of_callSite {site : CallSite} (h : resolver.callSite index = .ok site) :
    site.index = index := by
  obtain ⟨entry, -, h⟩ := Outcome.bind_eq_ok_iff.mp h
  split at h
  · obtain ⟨named, -, h⟩ := Outcome.bind_eq_ok_iff.mp h
    rw [← Outcome.pure_eq_ok_iff.mp h]
  · cases Outcome.throw_eq_ok_iff.mp h

/-- A constant is found at its own index. -/
theorem index_of_loadable {loaded : Loadable} (h : resolver.loadable index = .ok loaded) :
    loaded.index = index := by
  obtain ⟨entry, -, h⟩ := Outcome.bind_eq_ok_iff.mp h
  obtain ⟨value, -, h⟩ := Outcome.bind_eq_ok_iff.mp h
  rw [← Outcome.pure_eq_ok_iff.mp h]

/-- A field operand is a member that is a field and has a field descriptor. -/
theorem fieldOperand_eq_ok_iff {operands : Operands} :
    resolver.fieldOperand index = .ok operands ↔
      ∃ ref kind, resolver.memberRef index = .ok ref ∧ ref.kind = .field ∧
        FieldType.kindOf? ref.descriptor = some kind ∧ operands = .field ref kind := by
  rw [fieldOperand, Outcome.bind_eq_ok_iff]
  constructor
  · rintro ⟨ref, found, h⟩
    by_cases isField : ref.kind = .field
    · rw [if_neg (not_not_intro isField)] at h
      cases kinded : FieldType.kindOf? ref.descriptor with
      | none => rw [kinded] at h; cases h
      | some kind =>
          rw [kinded] at h
          exact ⟨ref, kind, found, isField, kinded, (Outcome.pure_eq_ok_iff.mp h).symm⟩
    · rw [if_pos isField] at h
      cases h
  · rintro ⟨ref, kind, found, isField, kinded, rfl⟩
    refine ⟨ref, found, ?_⟩
    rw [if_neg (not_not_intro isField), kinded]
    rfl

/-- A method operand is a member that is not a field and has a method descriptor. -/
theorem methodOperand_eq_ok_iff {opcode : Opcode} {encoded : Option UInt8} {operands : Operands} :
    resolver.methodOperand opcode index encoded = .ok operands ↔
      ∃ ref descriptor, resolver.memberRef index = .ok ref ∧ ref.kind ≠ .field ∧
        MethodDescriptor.parse? ref.descriptor = some descriptor ∧
        operands = .method ref
          (encoded.getD (min (Instruction.argumentSlots opcode descriptor) 255).toUInt8)
          descriptor.resultKind := by
  rw [methodOperand, Outcome.bind_eq_ok_iff]
  constructor
  · rintro ⟨ref, found, h⟩
    by_cases isField : ref.kind = .field
    · rw [if_pos isField] at h
      cases h
    · rw [if_neg isField] at h
      cases parsed : MethodDescriptor.parse? ref.descriptor with
      | none => rw [parsed] at h; cases h
      | some descriptor =>
          rw [parsed] at h
          exact ⟨ref, descriptor, found, isField, parsed, (Outcome.pure_eq_ok_iff.mp h).symm⟩
  · rintro ⟨ref, descriptor, found, isField, parsed, rfl⟩
    refine ⟨ref, found, ?_⟩
    rw [if_neg isField, parsed]
    rfl

/-- A call site operand is a call site with a method descriptor. -/
theorem callSiteOperand_eq_ok_iff {operands : Operands} :
    resolver.callSiteOperand index = .ok operands ↔
      ∃ site descriptor, resolver.callSite index = .ok site ∧
        MethodDescriptor.parse? site.descriptor = some descriptor ∧
        operands = .callSite site descriptor.resultKind := by
  rw [callSiteOperand, Outcome.bind_eq_ok_iff]
  constructor
  · rintro ⟨site, found, h⟩
    cases parsed : MethodDescriptor.parse? site.descriptor with
    | none => rw [parsed] at h; cases h
    | some descriptor =>
        rw [parsed] at h
        exact ⟨site, descriptor, found, parsed, (Outcome.pure_eq_ok_iff.mp h).symm⟩
  · rintro ⟨site, descriptor, found, parsed, rfl⟩
    refine ⟨site, found, ?_⟩
    rw [parsed]
    rfl

/-- A class operand is a class. -/
theorem classOperand_eq_ok_iff {operands : Operands} : resolver.classOperand index = .ok operands ↔
    ∃ ref, resolver.classRef index = .ok ref ∧ operands = .classRef ref := by
  rw [classOperand, Outcome.bind_eq_ok_iff]
  constructor
  · rintro ⟨ref, found, h⟩
    exact ⟨ref, found, (Outcome.pure_eq_ok_iff.mp h).symm⟩
  · rintro ⟨ref, found, rfl⟩
    exact ⟨ref, found, rfl⟩

/-- A constant operand is a constant that takes as many slots as the push. -/
theorem constantOperand_eq_ok_iff {twoSlots : Bool} {operands : Operands} :
    resolver.constantOperand index twoSlots = .ok operands ↔
      ∃ loaded, resolver.loadable index = .ok loaded ∧ loaded.value.isWide = twoSlots ∧
        operands = .constant loaded := by
  rw [constantOperand, Outcome.bind_eq_ok_iff]
  constructor
  · rintro ⟨loaded, found, h⟩
    by_cases same : loaded.value.isWide = twoSlots
    · rw [if_pos same] at h
      exact ⟨loaded, found, same, (Outcome.pure_eq_ok_iff.mp h).symm⟩
    · rw [if_neg same] at h
      cases h
  · rintro ⟨loaded, found, same, rfl⟩
    refine ⟨loaded, found, ?_⟩
    rw [if_pos same]
    rfl

end Resolver

/-! ## Whole instructions -/

/-- Operands of fixed bytes are spelled by them. -/
theorem Operands.spelled_iff {operands : Operands} {opcode : Opcode} {bci : Nat}
    {bytes content : List UInt8} (unaligned : operands.padding bci = 0)
    (shape : operands.fields opcode = [.bytes bytes]) :
    operands.Spelled opcode bci content ↔ content = bytes := by
  unfold Spelled
  simp only [unaligned, shape, Chunk.fillAll_bytes_cons_eq_ok_iff, Chunk.fillAll_nil]
  constructor
  · rintro ⟨alignment, _, none, ⟨_, ⟨⟩, rfl⟩, rfl⟩
    rw [List.eq_nil_of_length_eq_zero none, List.append_nil, List.nil_append]
  · rintro rfl
    exact ⟨[], content, rfl, ⟨[], rfl, by rw [List.append_nil]⟩, rfl⟩

/-- Operands without bytes are spelled by nothing. -/
theorem Operands.spelled_iff_nil {operands : Operands} {opcode : Opcode} {bci : Nat}
    {content : List UInt8} (unaligned : operands.padding bci = 0)
    (shape : operands.fields opcode = []) : operands.Spelled opcode bci content ↔ content = [] := by
  unfold Spelled
  simp only [unaligned, shape, Chunk.fillAll_nil]
  constructor
  · rintro ⟨alignment, _, none, ⟨⟩, rfl⟩
    rw [List.eq_nil_of_length_eq_zero none, List.append_nil]
  · rintro rfl
    exact ⟨[], [], rfl, rfl, rfl⟩

/-- A single offset is spelled by itself. -/
theorem Operands.spelled_target_iff {label : Label} {opcode : Opcode} {bci : Nat} {far : Bool}
    {content : List UInt8} (reach : decide (opcode = .gotoW ∨ opcode = .jsrW) = far) :
    (Operands.target label).Spelled opcode bci content ↔
      (Chunk.offset far label).fill Label.named? bci = .ok content := by
  unfold Spelled
  have shape : (Operands.target label).fields opcode = [.offset far label] := by
    change Instruction.operandTemplate opcode 0 (.target label) = _
    rw [Instruction.operandTemplate, reach]
  simp only [shape, Chunk.fillAll_cons_eq_ok_iff, Chunk.fillAll_nil]
  constructor
  · rintro ⟨alignment, _, none, ⟨first, _, filled, ⟨⟩, rfl⟩, rfl⟩
    rw [List.eq_nil_of_length_eq_zero none, List.append_nil, List.nil_append]
    exact filled
  · intro filled
    exact ⟨[], content, rfl, ⟨content, [], filled, rfl, by rw [List.append_nil]⟩, rfl⟩

/-- An index or a local variable is spelled by its low byte, if that is all of it, or by two bytes. -/
theorem spells_readIndex (wide : Bool) : (readIndex wide).Spells fun value content =>
    (wide = false → value.toNat < 256) ∧ content = Instruction.indexBytes wide value := by
  cases wide with
  | true =>
      refine Reader.Spells.u2.congr fun value content => ?_
      simp [Instruction.indexBytes]
  | false =>
      refine (Reader.Spells.u1.map UInt8.toUInt16).congr fun value content => ?_
      simp only [Instruction.indexBytes, Bool.false_eq_true, if_false, forall_const]
      constructor
      · rintro ⟨byte, rfl, rfl⟩
        exact ⟨byte.toNat_lt, by simp⟩
      · rintro ⟨small, rfl⟩
        refine ⟨value.toUInt8, ?_, rfl⟩
        apply UInt16.toNat.inj
        simp
        omega

/-- A lookup of the index in the next two bytes. -/
theorem spells_lookup (find : UInt16 → Except PoolFault Operands) :
    (Reader.u2 >>= fun index => Reader.ofPool (find index)).Spells fun operands content =>
      ∃ index, find index = .ok operands ∧ content = BigEndian.u2 index := by
  refine (Reader.Spells.u2.bind fun index => Reader.Spells.ofPool (find index)).congr
    fun operands content => ?_
  constructor
  · rintro ⟨index, _, _, rfl, ⟨found, rfl⟩, rfl⟩
    exact ⟨index, found, List.append_nil _⟩
  · rintro ⟨index, found, rfl⟩
    exact ⟨index, _, [], rfl, ⟨found, rfl⟩, (List.append_nil _).symm⟩

/-- An increment is spelled by its local variable and its amount in fields of one width. -/
theorem spells_readIncrement (wide : Bool) : (readIncrement wide).Spells fun operands content =>
    ∃ slot amount, operands = .increment slot amount ∧
      (wide = false → slot.toNat < 256 ∧ fitsInt8 amount.toInt = true) ∧
      content = Instruction.indexBytes wide slot ++ Instruction.indexBytes wide amount.toUInt16 := by
  cases wide with
  | true =>
      refine ((spells_readIndex true).bind fun slot => Reader.Spells.i2.map fun amount =>
        Operands.increment slot amount).congr fun operands content => ?_
      constructor
      · rintro ⟨slot, _, _, ⟨-, rfl⟩, ⟨amount, rfl, rfl⟩, rfl⟩
        exact ⟨slot, amount, rfl, nofun, rfl⟩
      · rintro ⟨slot, amount, rfl, -, rfl⟩
        exact ⟨slot, _, _, ⟨nofun, rfl⟩, ⟨amount, rfl, rfl⟩, rfl⟩
  | false =>
      refine ((spells_readIndex false).bind fun slot => Reader.Spells.i1.map fun amount =>
        Operands.increment slot amount.toInt16).congr fun operands content => ?_
      have narrowed : ∀ amount : Int16,
          Instruction.indexBytes false amount.toUInt16 = [amount.toInt8.toUInt8] := by
        intro amount
        rw [← toUInt8_toUInt16_eq]
        rfl
      constructor
      · rintro ⟨slot, _, _, ⟨small, rfl⟩, ⟨amount, rfl, rfl⟩, rfl⟩
        refine ⟨slot, amount.toInt16, rfl, fun _ => ⟨small rfl, ?_⟩, ?_⟩
        · rw [Int8.toInt_toInt16]
          exact fitsInt8_toInt amount
        · rw [narrowed amount.toInt16, Int8.toInt8_toInt16]
      · rintro ⟨slot, amount, rfl, small, rfl⟩
        refine ⟨slot, _, _, ⟨fun h => (small h).1, rfl⟩, ⟨amount.toInt8, ?_, rfl⟩, ?_⟩
        · rw [toInt16_toInt8_of_fits (small rfl).2]
        · rw [narrowed amount]

/-- An immediate is spelled by the low bytes of a number that they can hold. -/
theorem spells_readImmediate (wide : Bool) : (readImmediate wide).Spells fun operands content =>
    ∃ value : Int32, operands = .immediate value ∧
      (if wide then fitsInt16 value.toInt else fitsInt8 value.toInt) = true ∧
      content = Instruction.indexBytes wide (UInt16.ofNat value.toUInt32.toNat) := by
  cases wide with
  | true =>
      refine (Reader.Spells.i2.map fun value => Operands.immediate value.toInt32).congr
        fun operands content => ?_
      simp only [if_true, Instruction.indexBytes, ofNat_toUInt32_eq]
      constructor
      · rintro ⟨value, rfl, rfl⟩
        refine ⟨value.toInt32, rfl, ?_, ?_⟩
        · rw [Int16.toInt_toInt32]
          exact fitsInt16_toInt value
        · rw [Int16.toInt16_toInt32]
          rfl
      · rintro ⟨value, rfl, fits, rfl⟩
        exact ⟨value.toInt16, by rw [toInt32_toInt16_of_fits fits], rfl⟩
  | false =>
      refine (Reader.Spells.i1.map fun value => Operands.immediate value.toInt32).congr
        fun operands content => ?_
      simp only [Bool.false_eq_true, if_false, Instruction.indexBytes, toUInt8_ofNat_toUInt32_eq]
      constructor
      · rintro ⟨value, rfl, rfl⟩
        refine ⟨value.toInt32, rfl, ?_, ?_⟩
        · rw [Int8.toInt_toInt32]
          exact fitsInt8_toInt value
        · rw [Int8.toInt8_toInt32]
      · rintro ⟨value, rfl, fits, rfl⟩
        exact ⟨value.toInt8, by rw [toInt32_toInt8_of_fits fits], rfl⟩

/-- An element type is spelled by its array code. -/
theorem spells_primitive : Primitive.read.Spells fun type content => content = [type.arrayCode] := by
  have found : ∀ code, (elementFound code).Spells fun type content =>
      code = type.arrayCode ∧ content = [] := by
    intro code
    unfold elementFound
    cases known : Primitive.ofArrayCode? code with
    | some type =>
        refine (Reader.Spells.pure type).congr fun value content => ?_
        have code_eq := Primitive.arrayCode_of_ofArrayCode? known
        constructor
        · rintro ⟨rfl, rfl⟩
          exact ⟨code_eq.symm, rfl⟩
        · rintro ⟨rfl, rfl⟩
          rw [Primitive.ofArrayCode?_arrayCode, Option.some.injEq] at known
          exact ⟨known, rfl⟩
    | none =>
        refine (Reader.Spells.failAtMark _).congr fun value content => ?_
        constructor
        · exact False.elim
        · rintro ⟨rfl, -⟩
          rw [Primitive.ofArrayCode?_arrayCode] at known
          cases known
  refine (Reader.Spells.u1.bind found).congr fun type content => ?_
  constructor
  · rintro ⟨code, _, _, rfl, ⟨rfl, rfl⟩, rfl⟩
    rfl
  · rintro rfl
    exact ⟨type.arrayCode, _, [], rfl, ⟨rfl, rfl⟩, rfl⟩

/-- What reading the operands of an opcode accepts: operands that fit it and are found in the pool, in
one of their byte forms. -/
def Operands.Accepted (resolver : Resolver) (opcode : Opcode) (bci : Nat) : Spelling Operands :=
  fun operands content => operands.Fits opcode.format ∧ operands.Found resolver opcode ∧
    operands.Spelled opcode bci content

namespace Format

variable {resolver : Resolver} {opcode : Opcode} {bci : Nat}

/-- No operand is read without reading. -/
theorem spells_bare (shape : opcode.format = .bare) :
    (pure .none : Reader Operands).Spells (Operands.Accepted resolver opcode bci) := by
  refine (Reader.Spells.pure _).congr fun operands content => ?_
  rw [Operands.Accepted, shape]
  constructor
  · rintro ⟨rfl, rfl⟩
    exact ⟨.bare, trivial, (Operands.spelled_iff_nil rfl rfl).mpr rfl⟩
  · rintro ⟨⟨⟩, -, spelled⟩
    exact ⟨rfl, (Operands.spelled_iff_nil rfl rfl).mp spelled⟩

/-- A built-in local variable is read without reading. -/
theorem spells_implicitSlot {slot : UInt16} (shape : opcode.format = .implicitSlot slot) :
    (pure (.slot slot) : Reader Operands).Spells (Operands.Accepted resolver opcode bci) := by
  have fields : (Operands.slot slot).fields opcode = [] := by
    change Instruction.operandTemplate opcode 0 (.slot slot) = _
    rw [Instruction.operandTemplate, Opcode.implicitSlot?_of_format shape]
    rfl
  refine (Reader.Spells.pure _).congr fun operands content => ?_
  rw [Operands.Accepted, shape]
  constructor
  · rintro ⟨rfl, rfl⟩
    exact ⟨.implicitSlot slot, trivial, (Operands.spelled_iff_nil rfl fields).mpr rfl⟩
  · rintro ⟨⟨⟩, -, spelled⟩
    exact ⟨rfl, (Operands.spelled_iff_nil rfl fields).mp spelled⟩

/-- A local variable is read from its field. -/
theorem spells_slot {wide : Bool} (shape : opcode.format = .slot wide) :
    (readIndex wide >>= fun slot => pure (.slot slot)).Spells
      (Operands.Accepted resolver opcode bci) := by
  have fields : ∀ slot, (Operands.slot slot).fields opcode =
      [.bytes (Instruction.indexBytes wide slot)] := by
    intro slot
    change Instruction.operandTemplate opcode 0 (.slot slot) = _
    obtain ⟨implicit, width⟩ := Opcode.slot_of_format shape
    rw [Instruction.operandTemplate, implicit, width]
    rfl
  refine ((spells_readIndex wide).map Operands.slot).congr fun operands content => ?_
  rw [Operands.Accepted, shape]
  constructor
  · rintro ⟨slot, rfl, small, rfl⟩
    exact ⟨.slot small, trivial, (Operands.spelled_iff rfl (fields slot)).mpr rfl⟩
  · rintro ⟨fits, -, spelled⟩
    cases fits with
    | slot small => exact ⟨_, rfl, small, (Operands.spelled_iff rfl (fields _)).mp spelled⟩

/-- An increment is read from its two fields. -/
theorem spells_increment {wide : Bool} (shape : opcode.format = .increment wide) :
    (readIncrement wide).Spells (Operands.Accepted resolver opcode bci) := by
  have fields : ∀ slot amount, (Operands.increment slot amount).fields opcode =
      [.bytes (Instruction.indexBytes wide slot
        ++ Instruction.indexBytes wide amount.toUInt16)] := by
    intro slot amount
    change Instruction.operandTemplate opcode 0 (.increment slot amount) = _
    rw [Instruction.operandTemplate, Opcode.isWide_of_format_increment shape]
  refine (spells_readIncrement wide).congr fun operands content => ?_
  rw [Operands.Accepted, shape]
  constructor
  · rintro ⟨slot, amount, rfl, small, rfl⟩
    exact ⟨.increment small, trivial, (Operands.spelled_iff rfl (fields slot amount)).mpr rfl⟩
  · rintro ⟨fits, -, spelled⟩
    cases fits with
    | increment small =>
        exact ⟨_, _, rfl, small, (Operands.spelled_iff rfl (fields _ _)).mp spelled⟩

/-- Branch targets are read from their offsets. -/
theorem spells_jump {form : JumpForm} (shape : opcode.format = .jump form) :
    (form.read bci).Spells (Operands.Accepted resolver opcode bci) := by
  cases form with
  | short =>
      have reach := decide_eq_false (Opcode.near_of_format shape)
      refine ((spells_readShortTarget bci).map Operands.target).congr fun operands content => ?_
      rw [Operands.Accepted, shape]
      constructor
      · rintro ⟨label, rfl, filled⟩
        exact ⟨.short label, trivial, (Operands.spelled_target_iff reach).mpr filled⟩
      · rintro ⟨⟨⟩, -, spelled⟩
        exact ⟨_, rfl, (Operands.spelled_target_iff reach).mp spelled⟩
  | far =>
      have reach := decide_eq_true (Opcode.far_of_format shape)
      refine ((spells_readFarTarget bci).map Operands.target).congr fun operands content => ?_
      rw [Operands.Accepted, shape]
      constructor
      · rintro ⟨label, rfl, filled⟩
        exact ⟨.far label, trivial, (Operands.spelled_target_iff reach).mpr filled⟩
      · rintro ⟨⟨⟩, -, spelled⟩
        exact ⟨_, rfl, (Operands.spelled_target_iff reach).mp spelled⟩
  | table =>
      refine (spells_readTable bci).congr fun operands content => ?_
      rw [Operands.Accepted, shape, Opcode.tableswitch_of_format shape]
      constructor
      · rintro ⟨fits, spelled⟩
        refine ⟨fits, ?_, spelled⟩
        cases fits
        trivial
      · rintro ⟨fits, -, spelled⟩
        exact ⟨fits, spelled⟩
  | lookup =>
      refine (spells_readLookup bci).congr fun operands content => ?_
      rw [Operands.Accepted, shape, Opcode.lookupswitch_of_format shape]
      constructor
      · rintro ⟨fits, spelled⟩
        refine ⟨fits, ?_, spelled⟩
        cases fits
        trivial
      · rintro ⟨fits, -, spelled⟩
        exact ⟨fits, spelled⟩

/-- An immediate is read from its field. -/
theorem spells_immediate {wide : Bool} (shape : opcode.format = .immediate wide) :
    (readImmediate wide).Spells (Operands.Accepted resolver opcode bci) := by
  have fields : ∀ value, (Operands.immediate value).fields opcode =
      [.bytes (Instruction.indexBytes wide (UInt16.ofNat value.toUInt32.toNat))] := by
    intro value
    change Instruction.operandTemplate opcode 0 (.immediate value) = _
    rw [Instruction.operandTemplate, Opcode.bipush_of_format shape]
  refine (spells_readImmediate wide).congr fun operands content => ?_
  rw [Operands.Accepted, shape]
  constructor
  · rintro ⟨value, rfl, small, rfl⟩
    exact ⟨.immediate small, trivial, (Operands.spelled_iff rfl (fields value)).mpr rfl⟩
  · rintro ⟨fits, -, spelled⟩
    cases fits with
    | immediate small =>
        exact ⟨_, rfl, small, (Operands.spelled_iff rfl (fields _)).mp spelled⟩

/-- A constant is looked up at the index in its field. -/
theorem spells_constant {wide : Bool} (shape : opcode.format = .constant wide) :
    (readIndex wide >>= fun index =>
      Reader.ofPool (resolver.constantOperand index (opcode = .ldc2W))).Spells
        (Operands.Accepted resolver opcode bci) := by
  have fields : ∀ loaded, (Operands.constant loaded).fields opcode =
      [.bytes (Instruction.indexBytes wide loaded.index)] := by
    intro loaded
    change Instruction.operandTemplate opcode 0 (.constant loaded) = _
    rw [Instruction.operandTemplate, Opcode.ldc_of_format shape]
  refine ((spells_readIndex wide).bind fun index => Reader.Spells.ofPool _).congr
    fun operands content => ?_
  rw [Operands.Accepted, shape]
  constructor
  · rintro ⟨index, _, _, ⟨small, rfl⟩, ⟨found, rfl⟩, rfl⟩
    obtain ⟨loaded, resolved, -, rfl⟩ := Resolver.constantOperand_eq_ok_iff.mp found
    obtain rfl := Resolver.index_of_loadable resolved
    exact ⟨.constant small, found, (Operands.spelled_iff rfl (fields _)).mpr (List.append_nil _)⟩
  · rintro ⟨fits, found, spelled⟩
    cases fits with
    | constant small =>
        refine ⟨_, _, [], ⟨small, rfl⟩, ⟨found, rfl⟩, ?_⟩
        rw [(Operands.spelled_iff rfl (fields _)).mp spelled, List.append_nil]

/-- A field is looked up at the index in its field. -/
theorem spells_field (shape : opcode.format = .field) :
    (Reader.u2 >>= fun index => Reader.ofPool (resolver.fieldOperand index)).Spells
      (Operands.Accepted resolver opcode bci) := by
  refine (spells_lookup resolver.fieldOperand).congr fun operands content => ?_
  rw [Operands.Accepted, shape]
  constructor
  · rintro ⟨index, found, rfl⟩
    obtain ⟨ref, kind, resolved, -, -, rfl⟩ := Resolver.fieldOperand_eq_ok_iff.mp found
    obtain rfl := Resolver.index_of_memberRef resolved
    exact ⟨.field ref kind, found, (Operands.spelled_iff rfl rfl).mpr rfl⟩
  · rintro ⟨⟨⟩, found, spelled⟩
    exact ⟨_, found, (Operands.spelled_iff rfl rfl).mp spelled⟩

/-- A method is looked up at the index in its field. -/
theorem spells_method (shape : opcode.format = .method) :
    (Reader.u2 >>= fun index => Reader.ofPool (resolver.methodOperand opcode index none)).Spells
      (Operands.Accepted resolver opcode bci) := by
  have other := Opcode.invokeinterface_of_format_method shape
  have fields : ∀ ref count result, (Operands.method ref count result).fields opcode =
      [.bytes (BigEndian.u2 ref.index)] := by
    intro ref count result
    change Instruction.operandTemplate opcode 0 (.method ref count result) = _
    rw [Instruction.operandTemplate, if_neg other]
  refine (spells_lookup (resolver.methodOperand opcode · none)).congr fun operands content => ?_
  rw [Operands.Accepted, shape]
  constructor
  · rintro ⟨index, found, rfl⟩
    obtain ⟨ref, descriptor, resolved, -, -, rfl⟩ := Resolver.methodOperand_eq_ok_iff.mp found
    obtain rfl := Resolver.index_of_memberRef resolved
    refine ⟨.method ref _ _, ?_, (Operands.spelled_iff rfl (fields _ _ _)).mpr rfl⟩
    rw [Operands.Found, if_neg other]
    exact found
  · rintro ⟨⟨⟩, found, spelled⟩
    rw [Operands.Found, if_neg other] at found
    exact ⟨_, found, (Operands.spelled_iff rfl (fields _ _ _)).mp spelled⟩

/-- A method of an interface is looked up at the index in its field, with the count behind it. -/
theorem spells_interfaceMethod (shape : opcode.format = .interfaceMethod) :
    (readInterfaceMethod resolver opcode).Spells (Operands.Accepted resolver opcode bci) := by
  have same := Opcode.invokeinterface_of_format shape
  have fields : ∀ ref count result, (Operands.method ref count result).fields opcode =
      [.bytes (BigEndian.u2 ref.index ++ [count, 0])] := by
    intro ref count result
    change Instruction.operandTemplate opcode 0 (.method ref count result) = _
    rw [Instruction.operandTemplate, if_pos same]
  refine (Reader.Spells.u2.bind fun index => Reader.Spells.u1.bind fun count =>
    Reader.Spells.u1.bind fun reserved => Reader.Spells.ite (Reader.Spells.failAtMark _)
      (Reader.Spells.ofPool _)).congr fun operands content => ?_
  rw [Operands.Accepted, shape]
  constructor
  · rintro ⟨index, _, _, rfl, ⟨count, _, _, rfl, ⟨reserved, _, _, rfl, h, rfl⟩, rfl⟩, rfl⟩
    split at h
    · cases h
    · rename_i zero
      obtain ⟨found, rfl⟩ := h
      obtain rfl := Decidable.not_not.mp zero
      obtain ⟨ref, descriptor, resolved, -, -, rfl⟩ := Resolver.methodOperand_eq_ok_iff.mp found
      obtain rfl := Resolver.index_of_memberRef resolved
      refine ⟨.interfaceMethod ref _ _, ?_, (Operands.spelled_iff rfl (fields _ _ _)).mpr rfl⟩
      rw [Operands.Found, if_pos same]
      exact found
  · rintro ⟨fits, found, spelled⟩
    cases fits with
    | interfaceMethod ref count result =>
        rw [Operands.Found, if_pos same] at found
        refine ⟨ref.index, _, _, rfl, ⟨count, _, _, rfl, ⟨0, _, [], rfl, ?_, rfl⟩, rfl⟩,
          (Operands.spelled_iff rfl (fields _ _ _)).mp spelled⟩
        rw [if_neg (not_not_intro rfl)]
        exact ⟨found, rfl⟩

/-- A call site is looked up at the index in its field, with zero bytes behind it. -/
theorem spells_callSite (shape : opcode.format = .callSite) :
    (readCallSite resolver).Spells (Operands.Accepted resolver opcode bci) := by
  refine (Reader.Spells.u2.bind fun index => Reader.Spells.u2.bind fun reserved =>
    Reader.Spells.ite (Reader.Spells.failAtMark _) (Reader.Spells.ofPool _)).congr
    fun operands content => ?_
  rw [Operands.Accepted, shape]
  constructor
  · rintro ⟨index, _, _, rfl, ⟨reserved, _, _, rfl, h, rfl⟩, rfl⟩
    split at h
    · cases h
    · rename_i zero
      obtain ⟨found, rfl⟩ := h
      obtain rfl := Decidable.not_not.mp zero
      obtain ⟨site, descriptor, resolved, -, rfl⟩ := Resolver.callSiteOperand_eq_ok_iff.mp found
      obtain rfl := Resolver.index_of_callSite resolved
      exact ⟨.callSite site _, found, (Operands.spelled_iff rfl rfl).mpr rfl⟩
  · rintro ⟨fits, found, spelled⟩
    cases fits with
    | callSite site result =>
        refine ⟨site.index, _, _, rfl, ⟨0, _, [], rfl, ?_, rfl⟩,
          (Operands.spelled_iff rfl rfl).mp spelled⟩
        rw [if_neg (not_not_intro rfl)]
        exact ⟨found, rfl⟩

/-- A class is looked up at the index in its field. -/
theorem spells_classRef (shape : opcode.format = .classRef) :
    (Reader.u2 >>= fun index => Reader.ofPool (resolver.classOperand index)).Spells
      (Operands.Accepted resolver opcode bci) := by
  refine (spells_lookup resolver.classOperand).congr fun operands content => ?_
  rw [Operands.Accepted, shape]
  constructor
  · rintro ⟨index, found, rfl⟩
    obtain ⟨ref, resolved, rfl⟩ := Resolver.classOperand_eq_ok_iff.mp found
    obtain rfl := Resolver.index_of_classRef resolved
    exact ⟨.classRef ref, resolved, (Operands.spelled_iff rfl rfl).mpr rfl⟩
  · rintro ⟨⟨⟩, resolved, spelled⟩
    exact ⟨_, Resolver.classOperand_eq_ok_iff.mpr ⟨_, resolved, rfl⟩,
      (Operands.spelled_iff rfl rfl).mp spelled⟩

/-- An element type is read from its array code. -/
theorem spells_elementType (shape : opcode.format = .elementType) :
    (Primitive.read >>= fun type => pure (.element type)).Spells
      (Operands.Accepted resolver opcode bci) := by
  refine (spells_primitive.map Operands.element).congr fun operands content => ?_
  rw [Operands.Accepted, shape]
  constructor
  · rintro ⟨type, rfl, rfl⟩
    exact ⟨.element type, trivial, (Operands.spelled_iff rfl rfl).mpr rfl⟩
  · rintro ⟨⟨⟩, -, spelled⟩
    exact ⟨_, rfl, (Operands.spelled_iff rfl rfl).mp spelled⟩

/-- An array class is looked up at the index in its field, with a dimension behind it. -/
theorem spells_arrayClass (shape : opcode.format = .arrayClass) :
    (readArrayClass resolver).Spells (Operands.Accepted resolver opcode bci) := by
  refine (Reader.Spells.u2.bind fun index => Reader.Spells.u1.bind fun dimensions =>
    Reader.Spells.ite (Reader.Spells.failAtMark _) ((Reader.Spells.ofPool _).map fun ref =>
      Operands.arrayClass ref dimensions)).congr fun operands content => ?_
  rw [Operands.Accepted, shape]
  constructor
  · rintro ⟨index, _, _, rfl, ⟨dimensions, _, _, rfl, h, rfl⟩, rfl⟩
    split at h
    · cases h
    · rename_i positive
      obtain ⟨ref, rfl, resolved, rfl⟩ := h
      obtain rfl := Resolver.index_of_classRef resolved
      exact ⟨.arrayClass positive, resolved, (Operands.spelled_iff rfl rfl).mpr rfl⟩
  · rintro ⟨fits, resolved, spelled⟩
    cases fits with
    | arrayClass positive =>
        rename_i ref dimensions
        refine ⟨ref.index, _, _, rfl, ⟨dimensions, _, [], rfl, ?_, rfl⟩,
          (Operands.spelled_iff rfl rfl).mp spelled⟩
        rw [if_neg positive]
        exact ⟨ref, rfl, resolved, rfl⟩

end Format

/-- Operands are read exactly when they fit the opcode, are found in the pool, and a byte form of them
stands there. -/
theorem spells_readOperands (resolver : Resolver) (bci : Nat) (opcode : Opcode) :
    (readOperands resolver bci opcode).Spells (Operands.Accepted resolver opcode bci) := by
  unfold readOperands
  cases shape : opcode.format with
  | bare => exact Format.spells_bare shape
  | implicitSlot slot => exact Format.spells_implicitSlot shape
  | slot wide => exact Format.spells_slot shape
  | increment wide => exact Format.spells_increment shape
  | jump form => exact Format.spells_jump shape
  | immediate wide => exact Format.spells_immediate shape
  | constant wide => exact Format.spells_constant shape
  | field => exact Format.spells_field shape
  | method => exact Format.spells_method shape
  | interfaceMethod => exact Format.spells_interfaceMethod shape
  | callSite => exact Format.spells_callSite shape
  | classRef => exact Format.spells_classRef shape
  | elementType => exact Format.spells_elementType shape
  | arrayClass => exact Format.spells_arrayClass shape

namespace Instruction

/-- The symbols of an instruction are those that the pool has at their indexes. -/
def Found (resolver : Resolver) (i : Instruction) : Prop := i.operands.Found resolver i.opcode

/-- The byte forms of an instruction: its opcode and a byte form of its operands. -/
def Spelled (bci : Nat) : Spelling Instruction := fun i content =>
  ∃ rest, i.operands.Spelled i.opcode bci rest ∧ content = i.opcode.bytes ++ rest

variable {i : Instruction} {resolver : Resolver} {bci : Nat} {content : List UInt8}

/-- Every byte form of an instruction that fits has as many bytes as its size. -/
theorem Fits.length_spelled (fits : i.Fits) (spelled : i.Spelled bci content) :
    content.length = i.size bci := by
  obtain ⟨_, ⟨alignment, body, aligned, filled, rfl⟩, rfl⟩ := spelled
  rw [← fits.total_template, template, Chunk.total_cons, Chunk.size,
    Operands.total_operandTemplate, ← aligned, ← Chunk.length_of_fillAll filled, List.length_append,
    List.length_append]

/-- An encoding is a byte form. -/
theorem spelled_of_encode (h : i.encode Label.named? bci = .ok content) : i.Spelled bci content := by
  obtain ⟨body, filled, rfl⟩ := encode_eq_ok_iff.mp h
  exact ⟨_, ⟨_, body, List.length_replicate, filled, rfl⟩, rfl⟩

/-- Reading gives an instruction exactly when it fits its opcode, is found in the pool, and a byte form
of it stands there. -/
theorem read_eq_ok_iff {code : Array UInt8} {start stop : Cursor}
    (inside : start.position ≤ code.size) :
    Instruction.read resolver code start = .ok i stop ↔
      i.Fits ∧ i.Found resolver ∧
        (∃ content, i.Spelled start.position content ∧ Stands code start.position content) ∧
        stop = ⟨start.position + i.size start.position, start.position⟩ := by
  have spells := spells_readOpcode.bind fun opcode =>
    (spells_readOperands resolver start.position opcode).map fun operands =>
      Instruction.mk opcode operands
  -- Reading an instruction marks its first byte and then reads opcode and operands.
  refine Iff.trans (@spells code ⟨start.position, start.position⟩ inside i stop) ?_
  constructor
  · rintro ⟨content, ⟨opcode, _, rest, rfl, ⟨operands, rfl, fits, found, spelled⟩, rfl⟩, stands, rfl⟩
    have whole : (Instruction.mk opcode operands).Spelled start.position (opcode.bytes ++ rest) :=
      ⟨rest, spelled, rfl⟩
    refine ⟨fits, found, ⟨_, whole, stands⟩, ?_⟩
    rw [← Fits.length_spelled (i := ⟨opcode, operands⟩) fits whole]
    rfl
  · rintro ⟨fits, found, ⟨content, spelled, stands⟩, rfl⟩
    obtain ⟨rest, operandsSpelled, rfl⟩ := id spelled
    refine ⟨_, ⟨i.opcode, _, rest, rfl, ⟨i.operands, rfl, fits, found, operandsSpelled⟩, rfl⟩, stands, ?_⟩
    rw [Fits.length_spelled fits spelled]
    rfl

/-- Reading an instruction starts inside the code. -/
theorem position_le_size_of_read {code : Array UInt8} {start stop : Cursor}
    (h : Instruction.read resolver code start = .ok i stop) : start.position ≤ code.size := by
  obtain ⟨_, _, ⟨⟩, h⟩ := Reader.bind_eq_ok_iff.mp h
  obtain ⟨_, _, ⟨⟩, h⟩ := Reader.bind_eq_ok_iff.mp h
  obtain ⟨opcode, _, opened, -⟩ := Reader.bind_eq_ok_iff.mp h
  obtain ⟨byte, _, first, -⟩ := Reader.bind_eq_ok_iff.mp opened
  have inside := (Reader.u1_eq_ok_iff.mp first).1.le_size
  exact Nat.le_trans (Nat.le_add_right _ _) inside

end Instruction

end JvmCode
