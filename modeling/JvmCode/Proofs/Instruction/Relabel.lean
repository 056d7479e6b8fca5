import JvmCode.Proofs.Instruction.Layout
import JvmCode.Proofs.Instruction.Reading

/-! # Relabelled instructions

Labels may be anything while code is built; code that is read has the labels of positions. An
instruction is carried from the one to the other by **relabelling** it.

* **`Label.settled`** is the label of the position where a label was placed.
* **`Instruction.relabel`** puts another label in the place of every label of an instruction. Shape,
  size and symbols stay.
* `assemble_relabel`: relabelled instructions assemble to what the instructions assemble to, if the new
  labels have the places of the old. -/

namespace JvmCode

/-- The label of the position of a label. A label without a position stays. -/
def Label.settled (place : Label → Option Nat) (label : Label) : Label :=
  match place label with
  | some position => .decoded (UInt16.ofNat position)
  | none => label

/-- A settled label names its position, if code can be that long. -/
theorem Label.named?_settled {place : Label → Option Nat} {label : Label} {position : Nat}
    (placed : place label = some position) (small : position < 65536) :
    (label.settled place).named? = some position := by
  rw [settled, placed]
  exact congrArg some (UInt16.toNat_ofNat_of_lt' small)

/-- A case that leads elsewhere. -/
def SwitchCase.relabel (f : Label → Label) (case : SwitchCase) : SwitchCase :=
  ⟨case.value, f case.target⟩

/-- Whether keys ascend does not depend on where they lead. -/
theorem keysAscend_relabel (f : Label → Label) (cases : List SwitchCase) :
    Instruction.keysAscend (cases.map (SwitchCase.relabel f)) = Instruction.keysAscend cases := by
  induction cases with
  | nil => rfl
  | cons first rest ih =>
      cases rest with
      | nil => rfl
      | cons second rest => exact congrArg (first.value < second.value && ·) ih

/-- A piece whose offset goes elsewhere. -/
def Chunk.relabel (f : Label → Label) : Chunk → Chunk
  | .bytes content => .bytes content
  | .offset far target => .offset far (f target)

/-- The label of a piece, if it is an offset. -/
def Chunk.target? : Chunk → Option Label
  | .bytes _ => none
  | .offset _ target => some target

namespace Operands

variable (f : Label → Label) (operands : Operands)

/-- Operands with other labels. -/
def relabel (f : Label → Label) : Operands → Operands
  | .target label => .target (f label)
  | .table low high default targets => .table low high (f default) (targets.map f)
  | .lookup default cases => .lookup (f default) (cases.map (SwitchCase.relabel f))
  | operands => operands

/-- Relabelled operands refer to the other labels. -/
theorem targets_relabel : (operands.relabel f).targets = operands.targets.map f := by
  cases operands with
  | lookup default cases =>
      simp only [relabel, targets, List.map_cons, List.map_map]
      rfl
  | _ => rfl

/-- Relabelled operands have the same alignment. -/
theorem padding_relabel (bci : Nat) : (operands.relabel f).padding bci = operands.padding bci := by
  cases operands <;> rfl

/-- The fields of relabelled operands are the relabelled fields. -/
theorem fields_relabel (opcode : Opcode) :
    (operands.relabel f).fields opcode = (operands.fields opcode).map (Chunk.relabel f) := by
  cases operands with
  | table low high default targets =>
      simp only [relabel, fields, List.map_cons, List.map_map, Chunk.relabel]
      rfl
  | lookup default cases =>
      simp only [relabel, fields, List.map_cons, List.length_map, Chunk.relabel, List.map_flatMap,
        List.flatMap_map, SwitchCase.relabel, List.map_nil]
  | slot | method =>
      simp only [relabel, fields, Instruction.operandTemplate]
      split <;> rfl
  | _ => rfl

/-- The labels among the fields of operands are those that the operands refer to. -/
theorem filterMap_target?_fields (opcode : Opcode) :
    (operands.fields opcode).filterMap Chunk.target? = operands.targets := by
  cases operands with
  | table low high default targets =>
      simp only [fields, Operands.targets, Chunk.target?, List.filterMap_cons, List.filterMap_map]
      exact congrArg (default :: ·) List.filterMap_some
  | lookup default cases =>
      simp only [fields, Operands.targets, Chunk.target?, List.filterMap_cons, List.filterMap_flatMap,
        List.filterMap_nil]
      exact congrArg (default :: ·) List.map_eq_flatMap.symm
  | slot | method =>
      simp only [fields, Instruction.operandTemplate]
      split <;> rfl
  | _ => rfl

variable {operands}

/-- Operands still fit when they are relabelled. -/
theorem Fits.relabel {format : Format} (fits : operands.Fits format) :
    (operands.relabel f).Fits format := by
  cases fits with
  | short label => exact .short _
  | far label => exact .far _
  | table ordered full => exact .table ordered (by rw [List.length_map, full])
  | lookup ascending few =>
      exact .lookup (by rw [keysAscend_relabel, ascending]) (by rw [List.length_map]; exact few)
  | bare => exact .bare
  | implicitSlot => exact .implicitSlot _
  | slot small => exact .slot small
  | increment small => exact .increment small
  | immediate small => exact .immediate small
  | constant small => exact .constant small
  | field => exact .field _ _
  | method => exact .method _ _ _
  | interfaceMethod => exact .interfaceMethod _ _ _
  | callSite => exact .callSite _ _
  | classRef => exact .classRef _
  | element => exact .element _
  | arrayClass positive => exact .arrayClass positive

end Operands

namespace Instruction

variable (f : Label → Label)

/-- An instruction with other labels. -/
def relabel (i : Instruction) : Instruction := ⟨i.opcode, i.operands.relabel f⟩

/-- Nothing changes if every label stays. -/
theorem relabel_id : relabel id = id := by
  funext ⟨opcode, operands⟩
  have cases_id : SwitchCase.relabel id = id := rfl
  cases operands <;> simp only [relabel, Operands.relabel, cases_id, List.map_id, id]

/-- A relabelled instruction jumps to the other labels. -/
theorem targets_relabel (i : Instruction) : (i.relabel f).targets = i.targets.map f :=
  Operands.targets_relabel f i.operands

/-- A relabelled instruction has the same size. -/
@[simp] theorem size_relabel (i : Instruction) (bci : Nat) : (i.relabel f).size bci = i.size bci := by
  obtain ⟨opcode, operands⟩ := i
  cases operands <;> simp only [relabel, Operands.relabel, size, List.length_map]

/-- Relabelled instructions end where the instructions end. -/
@[simp] theorem endOf_map_relabel (bci : Nat) (is : List Instruction) :
    endOf bci (is.map (relabel f)) = endOf bci is := by
  induction is generalizing bci with
  | nil => rfl
  | cons i rest ih => rw [List.map_cons, endOf, endOf, size_relabel, ih]

/-- Relabelled instructions have the same boundaries. -/
theorem boundary_map_relabel_iff {bci position : Nat} {is : List Instruction} :
    Boundary bci (is.map (relabel f)) position ↔ Boundary bci is position := by
  induction is generalizing bci with
  | nil => rfl
  | cons i rest ih => rw [List.map_cons, boundary_cons_iff, boundary_cons_iff, size_relabel, ih]

/-- The symbols of an instruction are found as well when it is relabelled. -/
theorem Found.relabel {resolver : Resolver} {i : Instruction} (found : i.Found resolver) :
    (i.relabel f).Found resolver := by
  obtain ⟨opcode, operands⟩ := i
  cases operands <;> exact found

/-- An instruction still fits when it is relabelled. -/
theorem Fits.relabel {i : Instruction} (fits : i.Fits) : (i.relabel f).Fits :=
  Operands.Fits.relabel f fits

end Instruction

/-! ## Places of labels -/

/-- The labels of filled pieces have places. -/
theorem Chunk.placed_of_fillAll {place : Label → Option Nat} {bci : Nat} {chunks : List Chunk}
    {content : List UInt8} (filled : fillAll place bci chunks = .ok content) {label : Label}
    (mem : label ∈ chunks.filterMap target?) : ∃ position, place label = some position := by
  induction chunks generalizing content with
  | nil => cases mem
  | cons chunk rest ih =>
      obtain ⟨first, others, h₁, h₂, rfl⟩ := fillAll_cons_eq_ok_iff.mp filled
      cases chunk with
      | bytes fixed => exact ih h₂ mem
      | offset far target =>
          obtain rfl | mem := List.mem_cons.mp mem
          · obtain ⟨position, placed, -⟩ := fill_offset_eq_ok_iff.mp h₁
            exact ⟨position, placed⟩
          · exact ih h₂ mem

/-- The targets of assembled instructions have places. -/
theorem placed_of_assemble {place : Label → Option Nat} {bci : Nat} {is : List Instruction}
    {content : List UInt8} (assembled : assemble place bci is = .ok content) {i : Instruction}
    (mem : i ∈ is) {target : Label} (jumps : target ∈ i.targets) :
    ∃ position, place target = some position := by
  induction is generalizing bci content with
  | nil => cases mem
  | cons other rest ih =>
      obtain ⟨first, others, encoded, tail, rfl⟩ := assemble_cons_eq_ok_iff.mp assembled
      obtain rfl | mem := List.mem_cons.mp mem
      · obtain ⟨body, filled, -⟩ := Instruction.encode_eq_ok_iff.mp encoded
        refine Chunk.placed_of_fillAll filled ?_
        rw [Operands.filterMap_target?_fields]
        exact jumps
      · exact ih tail mem

/-- Relabelled pieces are filled as the pieces are, if the new labels have the places of the old. -/
theorem Chunk.fillAll_relabel {place other : Label → Option Nat} {f : Label → Label} {bci : Nat}
    {chunks : List Chunk} {content : List UInt8} (filled : fillAll place bci chunks = .ok content)
    (agree : ∀ label ∈ chunks.filterMap target?, ∀ position, place label = some position →
      other (f label) = some position) :
    fillAll other bci (chunks.map (relabel f)) = .ok content := by
  induction chunks generalizing content with
  | nil => exact filled
  | cons chunk rest ih =>
      obtain ⟨first, others, h₁, h₂, rfl⟩ := fillAll_cons_eq_ok_iff.mp filled
      rw [List.map_cons]
      refine fillAll_cons_eq_ok_iff.mpr ⟨first, others, ?_, ih h₂ ?_, rfl⟩
      · cases chunk with
        | bytes fixed => exact h₁
        | offset far target =>
            obtain ⟨position, placed, fits, rfl⟩ := fill_offset_eq_ok_iff.mp h₁
            have same := agree target (List.mem_cons_self ..) position placed
            exact fill_offset_eq_ok_iff.mpr ⟨position, same, fits, rfl⟩
      · intro label mem
        refine agree label ?_
        cases chunk with
        | bytes fixed => exact mem
        | offset far target => exact List.mem_cons_of_mem _ mem

/-- Relabelled instructions are encoded as the instructions are, if the new labels have the places of
the old. -/
theorem Instruction.encode_relabel {place other : Label → Option Nat} {f : Label → Label} {bci : Nat}
    {i : Instruction} {content : List UInt8} (encoded : i.encode place bci = .ok content)
    (agree : ∀ label ∈ i.targets, ∀ position, place label = some position →
      other (f label) = some position) :
    (i.relabel f).encode other bci = .ok content := by
  obtain ⟨body, filled, rfl⟩ := encode_eq_ok_iff.mp encoded
  refine encode_eq_ok_iff.mpr ⟨body, ?_, ?_⟩
  · rw [relabel, Operands.fields_relabel]
    refine Chunk.fillAll_relabel filled ?_
    rw [Operands.filterMap_target?_fields]
    exact agree
  · rw [relabel, Operands.padding_relabel]

/-- Relabelled instructions assemble to what the instructions assemble to, if the new labels have the
places of the old. -/
theorem assemble_relabel {place other : Label → Option Nat} {f : Label → Label} {bci : Nat}
    {is : List Instruction} {content : List UInt8} (assembled : assemble place bci is = .ok content)
    (agree : ∀ i ∈ is, ∀ label ∈ i.targets, ∀ position, place label = some position →
      other (f label) = some position) :
    assemble other bci (is.map (Instruction.relabel f)) = .ok content := by
  induction is generalizing bci content with
  | nil => exact assembled
  | cons i rest ih =>
      obtain ⟨first, others, h₁, h₂, rfl⟩ := assemble_cons_eq_ok_iff.mp assembled
      rw [List.map_cons]
      refine assemble_cons_eq_ok_iff.mpr ⟨first, others,
        Instruction.encode_relabel h₁ (agree i (List.mem_cons_self ..)), ?_, rfl⟩
      rw [Instruction.size_relabel]
      exact ih h₂ fun other mem => agree other (List.mem_cons_of_mem _ mem)

/-- Instructions assemble to the same with places that agree on their targets. -/
theorem assemble_of_agree {place other : Label → Option Nat} {bci : Nat} {is : List Instruction}
    {content : List UInt8} (assembled : assemble place bci is = .ok content)
    (agree : ∀ i ∈ is, ∀ label ∈ i.targets, other label = place label) :
    assemble other bci is = .ok content := by
  have moved := assemble_relabel (f := id) assembled fun i mem label jumps position placed =>
    (agree i mem label jumps).trans placed
  rwa [Instruction.relabel_id, List.map_id] at moved

end JvmCode
