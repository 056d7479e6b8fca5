import JvmCode.Proofs.Instruction.PushForms

/-! # Instructions that were constructed

Every checked constructor only accepts operands that fit the opcode, so that what it makes can be
written and read back.

* **`Instruction.Constructed`** are the instructions that the constructors make of resolved symbols.
* **`Instruction.ReadableWhere`** says of each constructor that what it makes fits its opcode, and under which
  condition its symbols are found again.
* `Constructed.readable`: such an instruction can be read back.
* **`Instruction.Produced`** are the instructions that were read, or that the constructors make of any symbols;
  `Produced.fits`: they fit their opcodes. -/

namespace JvmCode

/-- The families whose instructions have no operands. -/
def Family.operandless : List Family :=
  [.methodReturn, .throwException, .arrayLoad, .arrayStore, .stack, .convert, .operator, .monitor, .nop]

/-- The families whose instructions have a local variable as operand. -/
def Family.slotted : List Family := [.load, .store, .discontinuedRet]

/-- The families whose instructions have one branch target. -/
def Family.jumping : List Family := [.branch, .discontinuedJsr]

namespace Opcode

variable {op : Opcode}

/-- The format of an opcode without operands. -/
theorem format_of_operandless (h : op.family ∈ Family.operandless) : op.format = .bare := by
  unfold format
  generalize op.family = family at h
  simp only [Family.operandless, List.mem_cons, List.not_mem_nil, or_false] at h
  obtain rfl | rfl | rfl | rfl | rfl | rfl | rfl | rfl | rfl := h <;> rfl

/-- The format of an opcode with a local variable. -/
theorem format_of_slotted (h : op.family ∈ Family.slotted) : op.format =
    match op.implicitSlot? with
    | some slot => .implicitSlot slot
    | none => .slot op.isWide := by
  unfold format
  generalize op.family = family at h
  simp only [Family.slotted, List.mem_cons, List.not_mem_nil, or_false] at h
  obtain rfl | rfl | rfl := h <;> rfl

/-- The format of an opcode with one branch target. -/
theorem format_of_jumping (h : op.family ∈ Family.jumping) :
    op.format = .jump (if op = .gotoW ∨ op = .jsrW then .far else .short) := by
  unfold format
  generalize op.family = family at h
  simp only [Family.jumping, List.mem_cons, List.not_mem_nil, or_false] at h
  obtain rfl | rfl := h <;> rfl

end Opcode

namespace Instruction

/-- The instructions that the constructors make of symbols that a resolver finds. A push may have added
its value to a pool that the resolver knows by now. -/
inductive Constructed (resolver : Resolver) : Instruction → Prop where
  /-- No operand. -/
  | bare {family : Family} {opcode : Opcode} {i : Instruction} (plain : family ∈ Family.operandless)
      (made : Instruction.bare family opcode = .ok i) : Constructed resolver i
  /-- The return of a kind of value. -/
  | returnOf (kind : ValueKind) : Constructed resolver (Instruction.returnOf kind)
  /-- The load of a kind of array element. -/
  | arrayLoadOf {kind : ValueKind} {i : Instruction} (made : Instruction.arrayLoadOf kind = .ok i) :
      Constructed resolver i
  /-- The store of a kind of array element. -/
  | arrayStoreOf {kind : ValueKind} {i : Instruction} (made : Instruction.arrayStoreOf kind = .ok i) :
      Constructed resolver i
  /-- The access of a local variable by a given opcode. -/
  | localAccess {family : Family} {opcode : Opcode} {slot : UInt16} {i : Instruction}
      (slotted : family ∈ Family.slotted) (made : Instruction.localAccess family opcode slot = .ok i) :
      Constructed resolver i
  /-- The load of a local variable of some kind. -/
  | loadOf {kind : ValueKind} {slot : UInt16} {i : Instruction}
      (made : Instruction.loadOf kind slot = .ok i) : Constructed resolver i
  /-- The store of a local variable of some kind. -/
  | storeOf {kind : ValueKind} {slot : UInt16} {i : Instruction}
      (made : Instruction.storeOf kind slot = .ok i) : Constructed resolver i
  /-- An increment by a given opcode. -/
  | increment {opcode : Opcode} {slot : UInt16} {amount : Int16} {i : Instruction}
      (made : Instruction.increment opcode slot amount = .ok i) : Constructed resolver i
  /-- The shortest increment. -/
  | incrementOf (slot : UInt16) (amount : Int16) :
      Constructed resolver (Instruction.incrementOf slot amount)
  /-- A jump. -/
  | jump {family : Family} {opcode : Opcode} {target : Label} {i : Instruction}
      (jumping : family ∈ Family.jumping) (made : Instruction.jump family opcode target = .ok i) :
      Constructed resolver i
  /-- A dense switch. -/
  | tableSwitch {low high : Int32} {default : Label} {cases : List SwitchCase} {i : Instruction}
      (made : Instruction.tableSwitch low high default cases = .ok i) : Constructed resolver i
  /-- A key switch. -/
  | lookupSwitch {default : Label} {cases : List SwitchCase} {i : Instruction}
      (made : Instruction.lookupSwitch default cases = .ok i) : Constructed resolver i
  /-- An access to a field. -/
  | fieldAccess {index : UInt16} {opcode : Opcode} {ref : MemberRef} {i : Instruction}
      (found : resolver.memberRef index = .ok ref)
      (made : Instruction.fieldAccess opcode ref = .ok i) : Constructed resolver i
  /-- A call of a method. -/
  | invoke {index : UInt16} {opcode : Opcode} {ref : MemberRef} {i : Instruction}
      (found : resolver.memberRef index = .ok ref) (made : Instruction.invoke opcode ref = .ok i) :
      Constructed resolver i
  /-- A call through a call site. -/
  | invokeDynamic {index : UInt16} {site : CallSite} {i : Instruction}
      (found : resolver.callSite index = .ok site) (made : Instruction.invokeDynamic site = .ok i) :
      Constructed resolver i
  /-- The creation of an object. -/
  | newObject {index : UInt16} {ref : ClassRef} {i : Instruction}
      (found : resolver.classRef index = .ok ref) (made : Instruction.newObject ref = .ok i) :
      Constructed resolver i
  /-- The creation of an array of primitives. -/
  | newArray {kind : ValueKind} {i : Instruction} (made : Instruction.newArray kind = .ok i) :
      Constructed resolver i
  /-- The creation of an array of references. -/
  | newReferenceArray {index : UInt16} {ref : ClassRef} (found : resolver.classRef index = .ok ref) :
      Constructed resolver (Instruction.newReferenceArray ref)
  /-- The creation of an array of several dimensions. -/
  | newMultiArray {index : UInt16} {ref : ClassRef} {dimensions : UInt8} {i : Instruction}
      (found : resolver.classRef index = .ok ref)
      (made : Instruction.newMultiArray ref dimensions = .ok i) : Constructed resolver i
  /-- A test of a class. -/
  | typeCheck {index : UInt16} {opcode : Opcode} {ref : ClassRef} {i : Instruction}
      (found : resolver.classRef index = .ok ref) (made : Instruction.typeCheck opcode ref = .ok i) :
      Constructed resolver i
  /-- A push of a built-in value. -/
  | pushIntrinsic {opcode : Opcode} {i : Instruction}
      (made : Instruction.pushIntrinsic opcode = .ok i) : Constructed resolver i
  /-- A push of an immediate. -/
  | pushImmediate {opcode : Opcode} {value : Int32} {i : Instruction}
      (made : Instruction.pushImmediate opcode value = .ok i) : Constructed resolver i
  /-- A push of a constant of the pool. -/
  | pushLoaded {index : UInt16} {opcode : Opcode} {loaded : Loadable} {i : Instruction}
      (found : resolver.loadable index = .ok loaded)
      (made : Instruction.pushLoaded opcode loaded = .ok i) : Constructed resolver i
  /-- A push of a value, which was added to a pool if it was not there. -/
  | pushOf {before after : Pool} {value : Constant} {i : Instruction} (reachable : before.Reachable)
      (handled : ∀ kind ref, value = .methodHandle kind ref →
        ∃ index, before.resolver.memberRef index = .ok ref)
      (made : Instruction.pushOf value before = .ok i after)
      (grown : resolver.Extends after.resolver) : Constructed resolver i

/-- An instruction that can be written and read back: it fits its opcode, and its symbols are found. -/
def Readable (resolver : Resolver) (i : Instruction) : Prop := i.Fits ∧ i.Found resolver

variable {resolver : Resolver}

/-! ## Local variables -/

/-- An instruction without operands can be read back. -/
theorem readable_bare {family : Family} {opcode : Opcode} {i : Instruction}
    (plain : family ∈ Family.operandless) (made : bare family opcode = .ok i) : i.Readable resolver := by
  obtain ⟨⟨⟩, checked, made⟩ := Outcome.bind_eq_ok_iff.mp made
  obtain rfl := Outcome.pure_eq_ok_iff.mp made
  refine ⟨?_, trivial⟩
  rw [Fits, Opcode.format_of_operandless (checkFamily_eq_ok_iff.mp checked ▸ plain)]
  exact .bare

/-- The return of a kind of value can be read back. -/
theorem readable_returnOf (kind : ValueKind) : (returnOf kind).Readable resolver := by
  have format : (returnOf kind).opcode.format = .bare := by
    cases kind <;> rfl
  refine ⟨?_, trivial⟩
  rw [Fits, format]
  exact .bare

/-- The load of a kind of array element can be read back. -/
theorem readable_arrayLoadOf {kind : ValueKind} {i : Instruction} (made : arrayLoadOf kind = .ok i) :
    i.Readable resolver := by
  have formats : ∀ kind opcode, ValueKind.arrayLoad? kind = some opcode → opcode.format = .bare := by
    intro kind opcode known
    cases kind <;> cases known <;> rfl
  unfold arrayLoadOf at made
  split at made
  · rename_i opcode known
    cases made
    refine ⟨?_, trivial⟩
    rw [Fits, formats kind opcode known]
    exact .bare
  · cases made

/-- The store of a kind of array element can be read back. -/
theorem readable_arrayStoreOf {kind : ValueKind} {i : Instruction} (made : arrayStoreOf kind = .ok i) :
    i.Readable resolver := by
  have formats : ∀ kind opcode, ValueKind.arrayStore? kind = some opcode → opcode.format = .bare := by
    intro kind opcode known
    cases kind <;> cases known <;> rfl
  unfold arrayStoreOf at made
  split at made
  · rename_i opcode known
    cases made
    refine ⟨?_, trivial⟩
    rw [Fits, formats kind opcode known]
    exact .bare
  · cases made

/-- A local variable that was checked can be read back. -/
theorem readable_localAccess {family : Family} {opcode : Opcode} {slot : UInt16} {i : Instruction}
    (slotted : family ∈ Family.slotted) (made : localAccess family opcode slot = .ok i) : i.Readable resolver := by
  obtain ⟨⟨⟩, checked, made⟩ := Outcome.bind_eq_ok_iff.mp made
  obtain ⟨⟨⟩, named, made⟩ := Outcome.bind_eq_ok_iff.mp made
  obtain rfl := Outcome.pure_eq_ok_iff.mp made
  refine ⟨?_, trivial⟩
  rw [Fits, Opcode.format_of_slotted (checkFamily_eq_ok_iff.mp checked ▸ slotted)]
  unfold checkSlot at named
  cases implied : opcode.implicitSlot? with
  | some implicit =>
      simp only [implied] at named ⊢
      by_cases same : implicit = slot
      · rw [same]
        exact .implicitSlot slot
      · rw [if_neg same] at named
        cases named
  | none =>
      simp only [implied] at named ⊢
      refine .slot fun narrow => ?_
      by_cases small : (opcode.isWide || decide (slot ≤ 255)) = true
      · rw [narrow, Bool.false_or, decide_eq_true_eq, UInt16.le_iff_toNat_le] at small
        exact Nat.lt_succ_of_le small
      · rw [if_neg small] at named
        cases named

/-- Forms that access local variables have the formats that their names promise. -/
structure LocalFormats (forms : LocalForms) : Prop where
  /-- The first local variable is built in. -/
  slot0 : forms.slot0.format = .implicitSlot 0
  /-- The second local variable is built in. -/
  slot1 : forms.slot1.format = .implicitSlot 1
  /-- The third local variable is built in. -/
  slot2 : forms.slot2.format = .implicitSlot 2
  /-- The fourth local variable is built in. -/
  slot3 : forms.slot3.format = .implicitSlot 3
  /-- The explicit form has one byte. -/
  explicit : forms.explicit.format = .slot false
  /-- The wide form has two. -/
  wide : forms.wide.format = .slot true

/-- The shortest form can be read back. -/
theorem LocalFormats.fits {forms : LocalForms} (formats : LocalFormats forms) (slot : UInt16) :
    Fits ⟨forms.shortest slot, .slot slot⟩ := by
  have numbered : ∀ n : UInt16, slot.toNat = n.toNat → slot = n := fun n same => UInt16.toNat.inj same
  unfold Fits LocalForms.shortest
  dsimp only
  split
  · rename_i same
    rw [formats.slot0, numbered 0 same]
    exact .implicitSlot 0
  · rename_i same
    rw [formats.slot1, numbered 1 same]
    exact .implicitSlot 1
  · rename_i same
    rw [formats.slot2, numbered 2 same]
    exact .implicitSlot 2
  · rename_i same
    rw [formats.slot3, numbered 3 same]
    exact .implicitSlot 3
  · by_cases small : slot.toNat < 256
    · rw [if_pos small, formats.explicit]
      exact .slot fun _ => small
    · rw [if_neg small, formats.wide]
      exact .slot fun h => (nomatch h)

/-- The access of a local variable in its shortest form can be read back. -/
theorem readable_localOf {forms : Option LocalForms} {kind : ValueKind} {slot : UInt16} {i : Instruction}
    (formats : ∀ known, forms = some known → LocalFormats known)
    (made : localOf forms kind slot = .ok i) : i.Readable resolver := by
  cases forms with
  | none => cases made
  | some known =>
      cases made
      exact ⟨(formats known rfl).fits slot, trivial⟩

/-- The shortest load can be read back. -/
theorem readable_loadOf {kind : ValueKind} {slot : UInt16} {i : Instruction}
    (made : loadOf kind slot = .ok i) : i.Readable resolver := by
  refine readable_localOf (fun known same => ?_) made
  cases kind <;> cases same <;> constructor <;> rfl

/-- The shortest store can be read back. -/
theorem readable_storeOf {kind : ValueKind} {slot : UInt16} {i : Instruction}
    (made : storeOf kind slot = .ok i) : i.Readable resolver := by
  refine readable_localOf (fun known same => ?_) made
  cases kind <;> cases same <;> constructor <;> rfl

/-- The format of an increment. -/
theorem format_of_increment {op : Opcode} (h : op.family = .increment) :
    op.format = .increment op.isWide := by
  unfold Opcode.format
  rw [h]

/-- An increment that was checked can be read back. -/
theorem readable_increment {opcode : Opcode} {slot : UInt16} {amount : Int16} {i : Instruction}
    (made : increment opcode slot amount = .ok i) : i.Readable resolver := by
  obtain ⟨⟨⟩, checked, made⟩ := Outcome.bind_eq_ok_iff.mp made
  have format := format_of_increment (checkFamily_eq_ok_iff.mp checked)
  have shape : i = ⟨opcode, .increment slot amount⟩ ∧
      (opcode.isWide = false → slot.toNat < 256 ∧ fitsInt8 amount.toInt = true) := by
    split at made
    · obtain ⟨small, made⟩ := refuse_else_eq_ok_iff.mp made
      obtain ⟨fits, made⟩ := refuse_else_eq_ok_iff.mp made
      rw [Bool.not_eq_true', Bool.not_eq_false] at fits
      rw [UInt16.not_lt, UInt16.le_iff_toNat_le] at small
      exact ⟨(Outcome.pure_eq_ok_iff.mp made).symm, fun _ => ⟨Nat.lt_succ_of_le small, fits⟩⟩
    · rename_i wide
      rw [Bool.not_eq_true', Bool.not_eq_false] at wide
      refine ⟨(Outcome.pure_eq_ok_iff.mp made).symm, fun narrow => ?_⟩
      rw [wide] at narrow
      cases narrow
  obtain ⟨rfl, small⟩ := shape
  refine ⟨?_, trivial⟩
  rw [Fits, format]
  exact .increment small

/-- The shortest increment can be read back. -/
theorem readable_incrementOf (slot : UInt16) (amount : Int16) : (incrementOf slot amount).Readable resolver := by
  refine ⟨?_, trivial⟩
  unfold incrementOf Fits
  dsimp only
  split
  · rename_i small
    rw [Bool.and_eq_true, decide_eq_true_eq, UInt16.le_iff_toNat_le] at small
    rw [show Opcode.iinc.format = .increment false from rfl]
    exact .increment fun _ => ⟨Nat.lt_succ_of_le small.1, small.2⟩
  · rw [show Opcode.iincW.format = .increment true from rfl]
    exact .increment fun h => (nomatch h)

/-! ## Jumps -/

/-- A jump can be read back. -/
theorem readable_jump {family : Family} {opcode : Opcode} {target : Label} {i : Instruction}
    (jumping : family ∈ Family.jumping) (made : jump family opcode target = .ok i) : i.Readable resolver := by
  obtain ⟨⟨⟩, checked, made⟩ := Outcome.bind_eq_ok_iff.mp made
  obtain rfl := Outcome.pure_eq_ok_iff.mp made
  refine ⟨?_, trivial⟩
  rw [Fits, Opcode.format_of_jumping (checkFamily_eq_ok_iff.mp checked ▸ jumping)]
  split
  · exact .far target
  · exact .short target

/-- Entering a case keeps the number of targets. -/
theorem size_of_enterCase {low high : Int32} {table after : Array (Option Label)} {case : SwitchCase}
    (h : enterCase low high table case = .ok after) : after.size = table.size := by
  unfold enterCase at h
  dsimp only at h
  split at h
  · cases h
  · split at h
    · cases h
      rw [Array.size_setIfInBounds]
    · cases h

/-- Entering all cases keeps the number of targets. -/
theorem size_of_enterCases {low high : Int32} {cases : List SwitchCase}
    {table after : Array (Option Label)} (h : cases.foldlM (enterCase low high) table = .ok after) :
    after.size = table.size := by
  induction cases generalizing table with
  | nil =>
      rw [List.foldlM_nil] at h
      rw [Outcome.pure_eq_ok_iff.mp h]
  | cons case rest ih =>
      rw [List.foldlM_cons] at h
      obtain ⟨middle, first, others⟩ := Outcome.bind_eq_ok_iff.mp h
      rw [ih others, size_of_enterCase first]

/-- A dense switch can be read back. -/
theorem readable_tableSwitch {low high : Int32} {default : Label} {cases : List SwitchCase}
    {i : Instruction} (made : tableSwitch low high default cases = .ok i) : i.Readable resolver := by
  unfold tableSwitch at made
  obtain ⟨ordered, made⟩ := refuse_else_eq_ok_iff.mp made
  obtain ⟨-, made⟩ := refuse_else_eq_ok_iff.mp made
  obtain ⟨table, entered, made⟩ := Outcome.bind_eq_ok_iff.mp made
  obtain rfl := Outcome.pure_eq_ok_iff.mp made
  rw [Int32.not_lt, Int32.le_iff_toInt_le] at ordered
  refine ⟨?_, trivial⟩
  rw [Fits, show Opcode.tableswitch.format = .jump .table from rfl]
  refine .table ordered ?_
  rw [List.length_map, Array.length_toList, size_of_enterCases entered, Array.size_replicate]

/-- A key switch can be read back. -/
theorem readable_lookupSwitch {default : Label} {cases : List SwitchCase} {i : Instruction}
    (made : lookupSwitch default cases = .ok i) : i.Readable resolver := by
  unfold lookupSwitch at made
  obtain ⟨few, made⟩ := refuse_else_eq_ok_iff.mp made
  obtain ⟨ascending, made⟩ := refuse_else_eq_ok_iff.mp made
  obtain rfl := Outcome.pure_eq_ok_iff.mp made
  rw [Bool.not_eq_true', Bool.not_eq_false] at ascending
  refine ⟨?_, trivial⟩
  rw [Fits, show Opcode.lookupswitch.format = .jump .lookup from rfl]
  refine .lookup ascending ?_
  rw [List.length_mergeSort]
  unfold maxCases at few
  omega

/-! ## Symbols -/

/-- An instruction that fits its opcode, and can be read back wherever its symbols are found. -/
def ReadableWhere (found : Resolver → Prop) (i : Instruction) : Prop :=
  i.Fits ∧ ∀ resolver, found resolver → i.Found resolver

/-- Where the symbols are found, the instruction can be read back. -/
theorem ReadableWhere.readable {found : Resolver → Prop} {i : Instruction} (h : i.ReadableWhere found)
    (holds : found resolver) : i.Readable resolver :=
  ⟨h.1, h.2 resolver holds⟩

/-- An access to a field can be read back. -/
theorem readable_fieldAccess {opcode : Opcode} {ref : MemberRef} {i : Instruction}
    (made : fieldAccess opcode ref = .ok i) :
    i.ReadableWhere fun resolver => resolver.memberRef ref.index = .ok ref := by
  obtain ⟨⟨⟩, checked, made⟩ := Outcome.bind_eq_ok_iff.mp made
  obtain ⟨isField, made⟩ := refuse_else_eq_ok_iff.mp made
  have format : opcode.format = .field := by
    rw [Opcode.format, checkFamily_eq_ok_iff.mp checked]
  split at made
  · rename_i kind kinded
    obtain rfl := Outcome.pure_eq_ok_iff.mp made
    refine ⟨?_, fun resolver found => Resolver.fieldOperand_eq_ok_iff.mpr
      ⟨ref, kind, found, Decidable.not_not.mp isField, kinded, rfl⟩⟩
    rw [Fits, format]
    exact .field ref kind
  · cases made

/-- No call goes to a field. -/
theorem ne_field_of_canCall {opcode : Opcode} {kind : MemberKind} (h : canCall opcode kind = true) :
    kind ≠ .field := by
  rintro rfl
  unfold canCall at h
  split at h <;> cases h

/-- A call of a method can be read back. -/
theorem readable_invoke {opcode : Opcode} {ref : MemberRef} {i : Instruction}
    (made : invoke opcode ref = .ok i) :
    i.ReadableWhere fun resolver => resolver.memberRef ref.index = .ok ref := by
  obtain ⟨⟨⟩, checked, made⟩ := Outcome.bind_eq_ok_iff.mp made
  obtain ⟨callable, made⟩ := refuse_else_eq_ok_iff.mp made
  have notField : ref.kind ≠ .field := by
    rw [Bool.not_eq_true', Bool.not_eq_false] at callable
    exact ne_field_of_canCall callable
  have format : opcode.format = if opcode = .invokeinterface then .interfaceMethod else .method := by
    rw [Opcode.format, checkFamily_eq_ok_iff.mp checked]
  split at made
  · cases made
  · rename_i descriptor parsed
    obtain ⟨few, made⟩ := refuse_else_eq_ok_iff.mp made
    obtain rfl := Outcome.pure_eq_ok_iff.mp made
    rw [UInt16.not_lt] at few
    have counted : min (argumentSlots opcode descriptor) 255 = argumentSlots opcode descriptor :=
      if_pos few
    constructor
    · rw [Fits, format]
      split
      · exact .interfaceMethod ref _ _
      · exact .method ref _ _
    · intro resolver found
      refine Resolver.methodOperand_eq_ok_iff.mpr ⟨ref, descriptor, found, notField, parsed, ?_⟩
      rw [counted]
      split <;> rfl

/-- A call through a call site can be read back. -/
theorem readable_invokeDynamic {site : CallSite} {i : Instruction} (made : invokeDynamic site = .ok i) :
    i.ReadableWhere fun resolver => resolver.callSite site.index = .ok site := by
  unfold invokeDynamic at made
  split at made
  · cases made
  · rename_i descriptor parsed
    cases made
    refine ⟨?_, fun resolver found =>
      Resolver.callSiteOperand_eq_ok_iff.mpr ⟨site, descriptor, found, parsed, rfl⟩⟩
    rw [Fits, show Opcode.invokedynamic.format = .callSite from rfl]
    exact .callSite site _

/-- The creation of an object can be read back. -/
theorem readable_newObject {ref : ClassRef} {i : Instruction} (made : newObject ref = .ok i) :
    i.ReadableWhere fun resolver => resolver.classRef ref.index = .ok ref := by
  unfold newObject at made
  split at made
  · cases made
  · cases made
    refine ⟨?_, fun resolver found => found⟩
    rw [Fits, show Opcode.new.format = .classRef from rfl]
    exact .classRef ref

/-- The creation of an array of primitives can be read back. -/
theorem readable_newArray {kind : ValueKind} {i : Instruction} (made : newArray kind = .ok i) :
    i.Readable resolver := by
  unfold newArray at made
  split at made
  · rename_i type known
    cases made
    refine ⟨?_, trivial⟩
    rw [Fits, show Opcode.newarray.format = .elementType from rfl]
    exact .element type
  · cases made

/-- The creation of an array of references can be read back. -/
theorem readable_newReferenceArray (ref : ClassRef) :
    (newReferenceArray ref).ReadableWhere fun resolver => resolver.classRef ref.index = .ok ref := by
  refine ⟨?_, fun resolver found => found⟩
  rw [newReferenceArray, Fits, show Opcode.anewarray.format = .classRef from rfl]
  exact .classRef ref

/-- The creation of an array of several dimensions can be read back. -/
theorem readable_newMultiArray {ref : ClassRef} {dimensions : UInt8} {i : Instruction}
    (made : newMultiArray ref dimensions = .ok i) :
    i.ReadableWhere fun resolver => resolver.classRef ref.index = .ok ref := by
  unfold newMultiArray at made
  obtain ⟨positive, made⟩ := refuse_else_eq_ok_iff.mp made
  split at made
  · cases made
  · obtain ⟨-, made⟩ := refuse_else_eq_ok_iff.mp made
    obtain rfl := Outcome.pure_eq_ok_iff.mp made
    refine ⟨?_, fun resolver found => found⟩
    rw [Fits, show Opcode.multianewarray.format = .arrayClass from rfl]
    exact .arrayClass positive

/-- A test of a class can be read back. -/
theorem readable_typeCheck {opcode : Opcode} {ref : ClassRef} {i : Instruction}
    (made : typeCheck opcode ref = .ok i) :
    i.ReadableWhere fun resolver => resolver.classRef ref.index = .ok ref := by
  obtain ⟨⟨⟩, checked, made⟩ := Outcome.bind_eq_ok_iff.mp made
  obtain rfl := Outcome.pure_eq_ok_iff.mp made
  have format : opcode.format = .classRef := by
    rw [Opcode.format, checkFamily_eq_ok_iff.mp checked]
  refine ⟨?_, fun resolver found => found⟩
  rw [Fits, format]
  exact .classRef ref

/-! ## Pushes -/

/-- An opcode with a built-in value has no operands. -/
theorem format_of_intrinsic : ∀ op : Opcode, op.intrinsic?.isSome = true → op.format = .bare := by
  decide +kernel

/-- The format of an opcode that pushes a constant. -/
theorem format_of_constant {op : Opcode} (h : op.family = .constant) :
    op.format = op.constantFormat := by
  rw [Opcode.format, h]

/-- A push that its opcode can encode can be read back where its constant is found. -/
theorem PushForm.readable {i : Instruction} (form : i.PushForm) : i.ReadableWhere fun resolver =>
    ∀ loaded, i.operands = .constant loaded → resolver.loadable loaded.index = .ok loaded := by
  cases form with
  | @builtIn opcode _ built =>
      refine ⟨?_, fun _ _ => trivial⟩
      rw [Fits, format_of_intrinsic opcode (by rw [built]; rfl)]
      exact .bare
  | byte lower upper =>
      refine ⟨?_, fun _ _ => trivial⟩
      rw [Fits, show Opcode.bipush.format = .immediate false from rfl]
      exact .immediate (fitsInt8_iff.mpr ⟨lower, upper⟩)
  | short lower upper =>
      refine ⟨?_, fun _ _ => trivial⟩
      rw [Fits, show Opcode.sipush.format = .immediate true from rfl]
      exact .immediate (fitsInt16_iff.mpr ⟨lower, upper⟩)
  | near oneSlot small =>
      refine ⟨?_, fun _ found => Resolver.constantOperand_eq_ok_iff.mpr ⟨_, found _ rfl, oneSlot, rfl⟩⟩
      rw [Fits, show Opcode.ldc.format = .constant false from rfl]
      exact .constant fun _ => Nat.lt_succ_of_le small
  | far oneSlot =>
      refine ⟨?_, fun _ found => Resolver.constantOperand_eq_ok_iff.mpr ⟨_, found _ rfl, oneSlot, rfl⟩⟩
      rw [Fits, show Opcode.ldcW.format = .constant true from rfl]
      exact .constant nofun
  | twoSlots wide =>
      refine ⟨?_, fun _ found => Resolver.constantOperand_eq_ok_iff.mpr ⟨_, found _ rfl, wide, rfl⟩⟩
      rw [Fits, show Opcode.ldc2W.format = .constant true from rfl]
      exact .constant nofun

/-- A push of a built-in value can be read back. -/
theorem readable_pushIntrinsic {opcode : Opcode} {i : Instruction}
    (made : pushIntrinsic opcode = .ok i) : i.Readable resolver := by
  obtain ⟨rfl, form⟩ := pushIntrinsic_eq_ok_iff.mp made
  exact form.readable.readable nofun

/-- A push of an immediate can be read back. -/
theorem readable_pushImmediate {opcode : Opcode} {value : Int32} {i : Instruction}
    (made : pushImmediate opcode value = .ok i) : i.Readable resolver := by
  obtain ⟨rfl, form⟩ := pushImmediate_eq_ok_iff.mp made
  exact form.readable.readable nofun

/-- A push of a constant of the pool can be read back. -/
theorem readable_pushLoaded {opcode : Opcode} {loaded : Loadable} {i : Instruction}
    (made : pushLoaded opcode loaded = .ok i) :
    i.ReadableWhere fun resolver => resolver.loadable loaded.index = .ok loaded := by
  obtain ⟨rfl, form⟩ := pushLoaded_eq_ok_iff.mp made
  refine ⟨form.readable.1, fun resolver found => form.readable.2 resolver ?_⟩
  rintro _ ⟨⟩
  exact found

/-- A push of a value can be read back. -/
theorem readable_pushOf {before after : Pool} {value : Constant} {i : Instruction}
    (sound : before.Sound) (handled : ∀ kind ref, value = .methodHandle kind ref →
      ∃ index, before.resolver.memberRef index = .ok ref)
    (made : pushOf value before = .ok i after) : i.Readable after.resolver := by
  have pushed := pushOf_cases made
  refine pushed.form.readable.readable fun loaded loads => ?_
  obtain ⟨found, -⟩ := pushed.found sound handled loads
  exact found

/-- What is readable stays so while more is found. -/
theorem Readable.mono {smaller larger : Resolver} (grown : larger.Extends smaller) {i : Instruction}
    (h : i.Readable smaller) : i.Readable larger :=
  ⟨h.1, h.2.mono grown⟩

/-- Every constructed instruction can be read back. -/
theorem Constructed.readable {i : Instruction} (h : i.Constructed resolver) : i.Readable resolver := by
  cases h with
  | bare plain made => exact readable_bare plain made
  | returnOf kind => exact readable_returnOf kind
  | arrayLoadOf made => exact readable_arrayLoadOf made
  | arrayStoreOf made => exact readable_arrayStoreOf made
  | localAccess slotted made => exact readable_localAccess slotted made
  | loadOf made => exact readable_loadOf made
  | storeOf made => exact readable_storeOf made
  | increment made => exact readable_increment made
  | incrementOf slot amount => exact readable_incrementOf slot amount
  | jump jumping made => exact readable_jump jumping made
  | tableSwitch made => exact readable_tableSwitch made
  | lookupSwitch made => exact readable_lookupSwitch made
  | fieldAccess found made =>
      obtain rfl := Resolver.index_of_memberRef found
      exact (readable_fieldAccess made).readable found
  | invoke found made =>
      obtain rfl := Resolver.index_of_memberRef found
      exact (readable_invoke made).readable found
  | invokeDynamic found made =>
      obtain rfl := Resolver.index_of_callSite found
      exact (readable_invokeDynamic made).readable found
  | newObject found made =>
      obtain rfl := Resolver.index_of_classRef found
      exact (readable_newObject made).readable found
  | newArray made => exact readable_newArray made
  | newReferenceArray found =>
      obtain rfl := Resolver.index_of_classRef found
      exact (readable_newReferenceArray _).readable found
  | newMultiArray found made =>
      obtain rfl := Resolver.index_of_classRef found
      exact (readable_newMultiArray made).readable found
  | typeCheck found made =>
      obtain rfl := Resolver.index_of_classRef found
      exact (readable_typeCheck made).readable found
  | pushIntrinsic made => exact readable_pushIntrinsic made
  | pushImmediate made => exact readable_pushImmediate made
  | pushLoaded found made =>
      obtain rfl := Resolver.index_of_loadable found
      exact (readable_pushLoaded made).readable found
  | pushOf reachable handled made grown =>
      exact (readable_pushOf reachable.sound handled made).mono grown

/-! ## Instructions whatever their symbols -/

/-- The instructions that can be got hold of, whatever pools their symbols come from. -/
inductive Produced : Instruction → Prop where
  /-- An instruction that was read from some code. -/
  | read {resolver : Resolver} {code : Array UInt8} {start stop : Cursor} {i : Instruction}
      (given : Instruction.read resolver code start = .ok i stop) : Produced i
  /-- An instruction made of symbols of one pool. -/
  | constructed {resolver : Resolver} {i : Instruction} (h : i.Constructed resolver) : Produced i
  /-- An access to any field. -/
  | fieldAccess {opcode : Opcode} {ref : MemberRef} {i : Instruction}
      (made : Instruction.fieldAccess opcode ref = .ok i) : Produced i
  /-- A call of any method. -/
  | invoke {opcode : Opcode} {ref : MemberRef} {i : Instruction}
      (made : Instruction.invoke opcode ref = .ok i) : Produced i
  /-- A call through any call site. -/
  | invokeDynamic {site : CallSite} {i : Instruction} (made : Instruction.invokeDynamic site = .ok i) :
      Produced i
  /-- The creation of an object of any class. -/
  | newObject {ref : ClassRef} {i : Instruction} (made : Instruction.newObject ref = .ok i) : Produced i
  /-- The creation of an array of any class. -/
  | newReferenceArray (ref : ClassRef) : Produced (Instruction.newReferenceArray ref)
  /-- The creation of an array of several dimensions of any class. -/
  | newMultiArray {ref : ClassRef} {dimensions : UInt8} {i : Instruction}
      (made : Instruction.newMultiArray ref dimensions = .ok i) : Produced i
  /-- A test of any class. -/
  | typeCheck {opcode : Opcode} {ref : ClassRef} {i : Instruction}
      (made : Instruction.typeCheck opcode ref = .ok i) : Produced i
  /-- A push of any constant of a pool. -/
  | pushLoaded {opcode : Opcode} {loaded : Loadable} {i : Instruction}
      (made : Instruction.pushLoaded opcode loaded = .ok i) : Produced i
  /-- A push of any value in any pool. -/
  | pushOf {before after : Pool} {value : Constant} {i : Instruction}
      (made : Instruction.pushOf value before = .ok i after) : Produced i

/-- Whatever its symbols are, an instruction fits its opcode. -/
theorem Produced.fits {i : Instruction} (produced : i.Produced) : i.Fits := by
  cases produced with
  | read given => exact ((read_eq_ok_iff (position_le_size_of_read given)).mp given).1
  | constructed h => exact h.readable.1
  | fieldAccess made => exact (readable_fieldAccess made).1
  | invoke made => exact (readable_invoke made).1
  | invokeDynamic made => exact (readable_invokeDynamic made).1
  | newObject made => exact (readable_newObject made).1
  | newReferenceArray ref => exact (readable_newReferenceArray ref).1
  | newMultiArray made => exact (readable_newMultiArray made).1
  | typeCheck made => exact (readable_typeCheck made).1
  | pushLoaded made => exact (readable_pushLoaded made).1
  | pushOf made => exact (pushOf_cases made).form.readable.1

end Instruction

end JvmCode
