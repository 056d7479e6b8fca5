import JvmCode.Instruction.Construct
import JvmCode.Instruction.Template

/-! # Operands that fit their opcode

An opcode fixes the format of its operands. Operands **fit** a format if they have its shape and every
number is small enough for its field.

* **`Operands.Fits`** lists what fits each format; **`Instruction.Fits`** says it of an instruction.
* `Instruction.Fits.total_template`: the template of an instruction that fits has exactly the bytes that
  `Instruction.size` counts.
* `Instruction.checkFamily_eq_ok_iff` and `refuse_else_eq_ok_iff`: what a constructor makes passed its checks. -/

namespace JvmCode

/-- The operands that fit a format. -/
inductive Operands.Fits : Format → Operands → Prop where
  /-- No operand. -/
  | bare : Fits .bare .none
  /-- The local variable that is part of the opcode. -/
  | implicitSlot (slot : UInt16) : Fits (.implicitSlot slot) (.slot slot)
  /-- A local variable that its field can name. -/
  | slot {wide : Bool} {slot : UInt16} (small : wide = false → slot.toNat < 256) :
      Fits (.slot wide) (.slot slot)
  /-- A local variable and an increment that their fields can hold. -/
  | increment {wide : Bool} {slot : UInt16} {amount : Int16}
      (small : wide = false → slot.toNat < 256 ∧ fitsInt8 amount.toInt = true) :
      Fits (.increment wide) (.increment slot amount)
  /-- A near target. -/
  | short (label : Label) : Fits (.jump .short) (.target label)
  /-- A far target. -/
  | far (label : Label) : Fits (.jump .far) (.target label)
  /-- A dense switch with one target for every key between its bounds. -/
  | table {low high : Int32} {default : Label} {targets : List Label}
      (ordered : low.toInt ≤ high.toInt)
      (full : targets.length = (high.toInt - low.toInt + 1).toNat) :
      Fits (.jump .table) (.table low high default targets)
  /-- A key switch with ascending keys, whose number its field can hold. -/
  | lookup {default : Label} {cases : List SwitchCase}
      (ascending : Instruction.keysAscend cases = true) (few : cases.length < 2147483648) :
      Fits (.jump .lookup) (.lookup default cases)
  /-- An immediate that its field can hold. -/
  | immediate {wide : Bool} {value : Int32}
      (small : (if wide then fitsInt16 value.toInt else fitsInt8 value.toInt) = true) :
      Fits (.immediate wide) (.immediate value)
  /-- A constant whose index its field can hold. -/
  | constant {wide : Bool} {loaded : Loadable} (small : wide = false → loaded.index.toNat < 256) :
      Fits (.constant wide) (.constant loaded)
  /-- A field. -/
  | field (ref : MemberRef) (kind : ValueKind) : Fits .field (.field ref kind)
  /-- A method. -/
  | method (ref : MemberRef) (count : UInt8) (result : ValueKind) :
      Fits .method (.method ref count result)
  /-- A method of an interface. -/
  | interfaceMethod (ref : MemberRef) (count : UInt8) (result : ValueKind) :
      Fits .interfaceMethod (.method ref count result)
  /-- A call site. -/
  | callSite (site : CallSite) (result : ValueKind) : Fits .callSite (.callSite site result)
  /-- A class. -/
  | classRef (ref : ClassRef) : Fits .classRef (.classRef ref)
  /-- An element type. -/
  | element (type : Primitive) : Fits .elementType (.element type)
  /-- An array class and at least one dimension. -/
  | arrayClass {ref : ClassRef} {dimensions : UInt8} (positive : dimensions ≠ 0) :
      Fits .arrayClass (.arrayClass ref dimensions)

/-- The operands of an instruction fit the format of its opcode. -/
def Instruction.Fits (i : Instruction) : Prop := i.operands.Fits i.opcode.format

namespace Opcode

/-! ## What a format says about its opcodes -/

/-- What is known of an opcode with a given format. -/
def Describes (op : Opcode) : Format → Prop
  | .implicitSlot slot => op.implicitSlot? = some slot
  | .slot wide => op.implicitSlot? = none ∧ op.isWide = wide
  | .increment wide => op.isWide = wide
  | .jump .short => ¬(op = .gotoW ∨ op = .jsrW)
  | .jump .far => op = .gotoW ∨ op = .jsrW
  | .jump .table => op = .tableswitch
  | .jump .lookup => op = .lookupswitch
  | .immediate wide => decide (op ≠ .bipush) = wide
  | .constant wide => decide (op ≠ .ldc) = wide
  | .method => op ≠ .invokeinterface
  | .interfaceMethod => op = .invokeinterface
  | .bare | .field | .callSite | .classRef | .elementType | .arrayClass => True

/-- What is known of an opcode can be tested. -/
instance (op : Opcode) : (format : Format) → Decidable (op.Describes format)
  | .implicitSlot slot => inferInstanceAs (Decidable (op.implicitSlot? = some slot))
  | .slot wide => inferInstanceAs (Decidable (op.implicitSlot? = none ∧ op.isWide = wide))
  | .increment wide => inferInstanceAs (Decidable (op.isWide = wide))
  | .jump .short => inferInstanceAs (Decidable (¬(op = .gotoW ∨ op = .jsrW)))
  | .jump .far => inferInstanceAs (Decidable (op = .gotoW ∨ op = .jsrW))
  | .jump .table => inferInstanceAs (Decidable (op = .tableswitch))
  | .jump .lookup => inferInstanceAs (Decidable (op = .lookupswitch))
  | .immediate wide => inferInstanceAs (Decidable (decide (op ≠ .bipush) = wide))
  | .constant wide => inferInstanceAs (Decidable (decide (op ≠ .ldc) = wide))
  | .method => inferInstanceAs (Decidable (op ≠ .invokeinterface))
  | .interfaceMethod => inferInstanceAs (Decidable (op = .invokeinterface))
  | .bare | .field | .callSite | .classRef | .elementType | .arrayClass =>
      inferInstanceAs (Decidable True)

/-- Every opcode is described by its format. -/
theorem describes_format : ∀ op : Opcode, op.Describes op.format := by
  decide +kernel

/-- An opcode is described by the format that it has. -/
theorem describes_of_format {op : Opcode} {format : Format} (shape : op.format = format) :
    op.Describes format :=
  shape ▸ describes_format op

variable {op : Opcode} {wide : Bool}

/-- A built-in local variable is that of the format. -/
theorem implicitSlot?_of_format {slot : UInt16} (shape : op.format = .implicitSlot slot) :
    op.implicitSlot? = some slot :=
  describes_of_format shape

/-- The width of a local variable operand is that of the opcode. -/
theorem slot_of_format (shape : op.format = .slot wide) : op.implicitSlot? = none ∧ op.isWide = wide :=
  describes_of_format shape

/-- The width of an increment is that of the opcode. -/
theorem isWide_of_format_increment (shape : op.format = .increment wide) : op.isWide = wide :=
  describes_of_format shape

/-- The near jumps. -/
theorem near_of_format (shape : op.format = .jump .short) : ¬(op = .gotoW ∨ op = .jsrW) :=
  describes_of_format shape

/-- The far jumps. -/
theorem far_of_format (shape : op.format = .jump .far) : op = .gotoW ∨ op = .jsrW :=
  describes_of_format shape

/-- The dense switch. -/
theorem tableswitch_of_format (shape : op.format = .jump .table) : op = .tableswitch :=
  describes_of_format shape

/-- The key switch. -/
theorem lookupswitch_of_format (shape : op.format = .jump .lookup) : op = .lookupswitch :=
  describes_of_format shape

/-- The immediate of two bytes is that of `sipush`. -/
theorem bipush_of_format (shape : op.format = .immediate wide) : decide (op ≠ .bipush) = wide :=
  describes_of_format shape

/-- The constant index of one byte is that of `ldc`. -/
theorem ldc_of_format (shape : op.format = .constant wide) : decide (op ≠ .ldc) = wide :=
  describes_of_format shape

/-- A method operand without count belongs to a call that is not to an interface. -/
theorem invokeinterface_of_format_method (shape : op.format = .method) : op ≠ .invokeinterface :=
  describes_of_format shape

/-- A method operand with a count belongs to the interface call. -/
theorem invokeinterface_of_format (shape : op.format = .interfaceMethod) : op = .invokeinterface :=
  describes_of_format shape

end Opcode

/-! ## Sizes -/

/-- The number of bytes of a template. -/
def Chunk.total : List Chunk → Nat
  | [] => 0
  | chunk :: rest => chunk.size + total rest

namespace Chunk

/-- A template without pieces has no bytes. -/
@[simp] theorem total_nil : total [] = 0 := rfl

/-- A template has the bytes of its first piece and of the others. -/
@[simp] theorem total_cons (chunk : Chunk) (rest : List Chunk) :
    total (chunk :: rest) = chunk.size + total rest := rfl

/-- Far offsets to a list of labels take four bytes each. -/
theorem total_map_offset (targets : List Label) :
    total (targets.map (Chunk.offset true)) = 4 * targets.length := by
  induction targets with
  | nil => rfl
  | cons target rest ih =>
      rw [List.map_cons, total_cons, ih, List.length_cons]
      simp only [size, offsetWidth, if_true]
      omega

/-- The keys and offsets of a key switch take eight bytes for each case. -/
theorem total_cases (cases : List SwitchCase) :
    total (cases.flatMap fun case => [.bytes (BigEndian.i4 case.value), .offset true case.target])
      = 8 * cases.length := by
  induction cases with
  | nil => rfl
  | cons case rest ih =>
      rw [List.flatMap_cons, List.cons_append, List.cons_append, List.nil_append, total_cons,
        total_cons, ih, List.length_cons]
      simp only [size, offsetWidth, if_true, BigEndian.length_i4]
      omega

end Chunk

namespace Instruction

/-- An index or a local variable takes two bytes or one. -/
@[simp] theorem length_indexBytes (wide : Bool) (value : UInt16) :
    (indexBytes wide value).length = if wide then 2 else 1 := by
  cases wide <;> simp [indexBytes, BigEndian.u2]

/-- Operands that fit a format of fixed width have a template of that width. -/
theorem total_operandTemplate_of_width {opcode : Opcode} {operands : Operands} {width : Nat}
    (fits : operands.Fits opcode.format) (fixed : opcode.format.width? = some width) (bci : Nat) :
    Chunk.total (operandTemplate opcode bci operands) = width := by
  generalize shape : opcode.format = format at fits fixed
  cases fits with
  | bare => simpa [operandTemplate, Format.width?] using fixed
  | implicitSlot slot =>
      simpa [operandTemplate, Format.width?, Opcode.implicitSlot?_of_format shape] using fixed
  | slot small =>
      obtain ⟨implicit, width⟩ := Opcode.slot_of_format shape
      rw [operandTemplate, implicit, width]
      simpa [Chunk.size, Format.width?] using fixed
  | increment small =>
      rename_i wide slot amount
      rw [operandTemplate, Opcode.isWide_of_format_increment shape]
      cases wide <;> simpa [Chunk.size, Format.width?] using fixed
  | short label =>
      simpa [operandTemplate, Opcode.near_of_format shape, Chunk.size, offsetWidth,
        Format.width?] using fixed
  | far label =>
      simpa [operandTemplate, Opcode.far_of_format shape, Chunk.size, offsetWidth,
        Format.width?] using fixed
  | table ordered full => cases fixed
  | lookup ascending few => cases fixed
  | immediate small =>
      rw [operandTemplate, Opcode.bipush_of_format shape]
      simpa [Chunk.size, Format.width?] using fixed
  | constant small =>
      rw [operandTemplate, Opcode.ldc_of_format shape]
      simpa [Chunk.size, Format.width?] using fixed
  | method ref count result =>
      rw [operandTemplate, if_neg (Opcode.invokeinterface_of_format_method shape)]
      simpa [Chunk.size, Format.width?] using fixed
  | interfaceMethod ref count result =>
      rw [operandTemplate, if_pos (Opcode.invokeinterface_of_format shape)]
      simpa [Chunk.size, Format.width?] using fixed
  | field | callSite | classRef | element | arrayClass =>
      simpa [operandTemplate, Chunk.size, Format.width?] using fixed

/-- An instruction whose format has a fixed width has that many bytes behind its opcode. -/
theorem size_of_width {i : Instruction} {width : Nat} (fits : i.Fits)
    (fixed : i.opcode.format.width? = some width) (bci : Nat) :
    i.size bci = i.opcode.bytes.length + width := by
  obtain ⟨opcode, operands⟩ := i
  have listed := Opcode.fixedSize?_eq_format opcode
  change operands.Fits opcode.format at fits
  change opcode.format.width? = some width at fixed
  generalize opcode.format = format at fits fixed listed
  cases fits with
  | table => cases fixed
  | lookup => cases fixed
  | _ => simp only [size, listed, fixed, Option.map_some, Option.getD_some]

/-- The template of an instruction that fits has the bytes that its size counts. -/
theorem Fits.total_template {i : Instruction} (fits : i.Fits) (bci : Nat) :
    Chunk.total (i.template bci) = i.size bci := by
  rw [template, Chunk.total_cons, Chunk.size]
  cases fixed : i.opcode.format.width? with
  | some width => rw [total_operandTemplate_of_width fits fixed, size_of_width fits fixed]
  | none =>
      obtain ⟨opcode, operands⟩ := i
      change operands.Fits opcode.format at fits
      change opcode.format.width? = none at fixed
      -- Only the two switches have no fixed width.
      generalize shape : opcode.format = format at fits fixed
      cases fits with
      | table ordered full =>
          rw [Opcode.tableswitch_of_format shape]
          simp only [operandTemplate, Chunk.total_cons, Chunk.total_map_offset, Chunk.size, size,
            paddingBytes, List.length_replicate, List.length_append, offsetWidth, if_true,
            BigEndian.length_i4]
          rw [show Opcode.tableswitch.bytes.length = 1 from rfl]
          omega
      | lookup ascending few =>
          rw [Opcode.lookupswitch_of_format shape]
          simp only [operandTemplate, Chunk.total_cons, Chunk.total_cases, Chunk.size, size,
            paddingBytes, List.length_replicate, offsetWidth, if_true, BigEndian.length_i4]
          rw [show Opcode.lookupswitch.bytes.length = 1 from rfl]
          omega
      | slot | increment | immediate | constant => simp [Format.width?] at fixed
      | _ => cases fixed

/-! ## Checks -/

/-- An opcode that was checked is of the expected family. -/
theorem checkFamily_eq_ok_iff {opcode : Opcode} {expected : Family} :
    checkFamily opcode expected = .ok () ↔ opcode.family = expected := by
  unfold checkFamily
  split <;> simp_all

/-- What goes on behind a check that may refuse succeeds exactly when the check passes and it succeeds. -/
theorem refuse_else_eq_ok_iff {α : Type} {refused : Prop} [Decidable refused] {opcode : Opcode}
    {issue : OperandIssue} {next : Unit → Except Fault α} {a : α} :
    (if refused then refuse opcode issue >>= next else next ()) = .ok a ↔
      ¬refused ∧ next () = .ok a := by
  split
  · rename_i holds
    exact ⟨fun h => (nomatch h), fun h => absurd holds h.1⟩
  · rename_i holds
    exact ⟨fun h => ⟨holds, h⟩, And.right⟩

/-- What goes on behind a check that may refuse fails when the check refuses or it fails. -/
theorem refuse_else_eq_error_iff {α : Type} {refused : Prop} [Decidable refused] {opcode : Opcode}
    {issue : OperandIssue} {next : Unit → Except Fault α} {fault : Fault} :
    (if refused then refuse opcode issue >>= next else next ()) = .error fault ↔
      refused ∧ fault = .illegalOperand opcode issue ∨ ¬refused ∧ next () = .error fault := by
  split
  · rename_i holds
    simp [holds, refuse, bind, Except.bind, eq_comm]
  · rename_i passes
    simp [passes]

end Instruction

end JvmCode
