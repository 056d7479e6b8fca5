import JvmCode.Proofs.Assembler.TwoPass

/-! # Sizes

The size of an instruction is a number in a table, or for the switches a formula. Writing and reading never
look at it, but both move on by exactly this number of bytes.

* **`Assembler.meanwhile`** is where an offset leads while its label is not placed; `Assembler.encode_of_emit`
  says that what is emitted is an encoding with these places.
* `Instruction.size_exact`: the size is what writing takes and what reading consumes. -/

namespace JvmCode

/-! ## Offsets that wait -/

namespace Assembler

/-- Where an offset of the instruction at `bci` leads meanwhile: to its label, or to the instruction itself as
long as the label is not placed. -/
def meanwhile (place : Label → Option Nat) (bci : Nat) (label : Label) : Option Nat :=
  some ((place label).getD bci)

variable {place : Label → Option Nat} {bci : Nat} {emission after : Emission}

/-- Labels that are placed stay where they are. -/
theorem refines_meanwhile : Refines (meanwhile place bci) place := by
  intro label position placed
  rw [meanwhile, placed, Option.getD_some]

/-- The offset to the instruction itself has only zero bytes. -/
theorem offsetBytes_zero (far : Bool) : offsetBytes far 0 = List.replicate (offsetWidth far) 0 := by
  cases far <;> decide

/-- An emitted chunk is filled with the places that its offsets lead to meanwhile. -/
theorem fill_of_emitChunk {chunk : Chunk} (h : emitChunk place bci emission chunk = .ok after) :
    ∃ content, chunk.fill (meanwhile place bci) bci = .ok content ∧
      after.bytes.toList = emission.bytes.toList ++ content := by
  obtain ⟨content, filled, rfl⟩ | ⟨far, target, rfl, waits, rfl⟩ := emitChunk_cases h
  · exact ⟨content, fill_of_refines refines_meanwhile filled, by simp⟩
  · have here : meanwhile place bci target = some bci := by rw [meanwhile, waits, Option.getD_none]
    have zero : (bci : Int) - bci = 0 := Int.sub_self _
    refine ⟨offsetBytes far 0, Chunk.fill_offset_eq_ok_iff.mpr ⟨bci, here, ?_, by rw [zero]⟩, ?_⟩
    · rw [zero]
      cases far <;> rfl
    · rw [offsetBytes_zero]
      simp

/-- Emitted chunks are filled with the places that their offsets lead to meanwhile. -/
theorem fillAll_of_emitChunks {chunks : List Chunk}
    (h : chunks.foldlM (emitChunk place bci) emission = .ok after) :
    ∃ content, Chunk.fillAll (meanwhile place bci) bci chunks = .ok content ∧
      after.bytes.toList = emission.bytes.toList ++ content := by
  induction chunks generalizing emission with
  | nil =>
      obtain rfl := Outcome.pure_eq_ok_iff.mp h
      exact ⟨[], rfl, by simp⟩
  | cons chunk rest ih =>
      rw [List.foldlM_cons] at h
      obtain ⟨middle, first, others⟩ := Outcome.bind_eq_ok_iff.mp h
      obtain ⟨content, filled, same⟩ := fill_of_emitChunk first
      obtain ⟨behind, filledBehind, rest⟩ := ih others
      refine ⟨content ++ behind, Chunk.fillAll_cons_eq_ok_iff.mpr ⟨content, behind, filled, filledBehind, rfl⟩, ?_⟩
      rw [rest, same, List.append_assoc]

/-- What is emitted is an encoding of the instruction, with the places that its offsets lead to meanwhile. -/
theorem encode_of_emit {i : Instruction} (h : i.emit place bci = .ok emission) :
    i.encode (meanwhile place bci) bci = .ok emission.bytes.toList := by
  obtain ⟨content, filled, same⟩ := fillAll_of_emitChunks h
  rw [same]
  exact filled

end Assembler

/-! ## Writing and reading -/

namespace Instruction

variable {i : Instruction} {place : Label → Option Nat} {bci : Nat} {emission : Emission}

/-- An instruction is a switch. -/
def IsSwitch (i : Instruction) : Prop := i.opcode = .tableswitch ∨ i.opcode = .lookupswitch

/-- A switch has one byte in front of its alignment. -/
theorem IsSwitch.length_bytes (switch : i.IsSwitch) : i.opcode.bytes.length = 1 := by
  obtain same | same := switch
  · rw [same]
    rfl
  · rw [same]
    rfl

/-- The operands of a switch are aligned. -/
theorem Fits.padding_of_switch (fits : i.Fits) (switch : i.IsSwitch) :
    i.operands.padding bci = switchPadding bci := by
  obtain ⟨opcode, operands⟩ := i
  change operands.Fits opcode.format at fits
  obtain rfl | rfl := switch
  · cases fits
    rfl
  · cases fits
    rfl

/-- A switch is written as its opcode, zero bytes up to a multiple of four, and its operands there. -/
theorem Fits.fields_of_emit (fits : i.Fits) (switch : i.IsSwitch) (h : i.emit place bci = .ok emission) :
    ∃ fields, emission.bytes.toList = i.opcode.bytes ++ (List.replicate (switchPadding bci) 0 ++ fields) ∧
      Chunk.fillAll (Assembler.meanwhile place bci) bci (i.operands.fields i.opcode) = .ok fields ∧
      (bci + i.opcode.bytes.length + switchPadding bci) % 4 = 0 := by
  obtain ⟨fields, filled, shape⟩ := encode_eq_ok_iff.mp (Assembler.encode_of_emit h)
  rw [fits.padding_of_switch switch] at shape
  refine ⟨fields, shape, filled, ?_⟩
  rw [switch.length_bytes]
  exact switchPadding_aligned bci

/-- The `Instruction.size` is what writing takes and what reading consumes. For a `Produced` instruction,
whatever labels have places, `emit place bci` gives `i.size bci` bytes, which is also by how much
`addInstruction` lets the code grow, and the operands of a switch start at a multiple of four. If
`Instruction.read` gives `i`, it stops `i.size` bytes behind its start. -/
theorem size_exact :
    (∀ i : Instruction, i.Produced → ∀ place bci emission, i.emit place bci = .ok emission →
      emission.bytes.size = i.size bci ∧
        (i.IsSwitch → ∃ fields,
          emission.bytes.toList = i.opcode.bytes ++ (List.replicate (switchPadding bci) 0 ++ fields) ∧
          Chunk.fillAll (Assembler.meanwhile place bci) bci (i.operands.fields i.opcode) = .ok fields ∧
          (bci + i.opcode.bytes.length + switchPadding bci) % 4 = 0)) ∧
    (∀ i : Instruction, i.Produced → ∀ session after, Assembler.addInstruction i session = .ok () after →
      ∃ added, after.code = session.code ++ added ∧ added.size = i.size session.code.size) ∧
    ∀ (resolver : Resolver) (code : Array UInt8) (start stop : Cursor) (i : Instruction),
      Instruction.read resolver code start = .ok i stop →
        stop.position = start.position + i.size start.position := by
  refine ⟨?_, ?_, ?_⟩
  · intro i produced place bci emission emitted
    exact ⟨Assembler.size_of_emit produced.fits emitted, fun switch => produced.fits.fields_of_emit switch emitted⟩
  · intro i produced session after added
    cases emitted : i.emit session.place session.code.size with
    | ok emission =>
        rw [Assembler.addInstruction_of_emit emitted] at added
        cases added
        exact ⟨emission.bytes, rfl, Assembler.size_of_emit produced.fits emitted⟩
    | error fault =>
        rw [Assembler.addInstruction_of_emit_error emitted] at added
        cases added
  · intro resolver code start stop i read
    obtain ⟨-, -, -, rfl⟩ := (read_eq_ok_iff (position_le_size_of_read read)).mp read
    rfl

/-- A key switch with one case. -/
def oneCase : Instruction := ⟨.lookupswitch, .lookup (.fresh 0) [⟨5, .fresh 1⟩]⟩

/-- A key switch behind one byte, with one of its two labels placed, takes two bytes of alignment and nineteen in
all, and it can be added to a new session; a return that is read takes one. -/
theorem size_exact_oneCase :
    (∃ emission, oneCase.emit (fun label => if label = .fresh 0 then some 0 else none) 1 = .ok emission ∧
      emission.bytes.size = oneCase.size 1 ∧ oneCase.size 1 = 19) ∧
    (∃ after, Assembler.addInstruction oneCase (.start .empty {}) = .ok () after ∧
      ∃ added, after.code = #[] ++ added ∧ added.size = oneCase.size 0) ∧
    ∃ i stop, Instruction.read Pool.empty.resolver #[0xb1] Cursor.start = .ok i stop ∧
      stop.position = Cursor.start.position + i.size Cursor.start.position := by
  have made : lookupSwitch (.fresh 0) [⟨5, .fresh 1⟩] = .ok oneCase := by
    unfold lookupSwitch
    rw [List.mergeSort_singleton]
    rfl
  have produced : oneCase.Produced := .constructed (@Constructed.lookupSwitch Pool.empty.resolver _ _ _ made)
  obtain ⟨emission, emitted⟩ : ∃ emission,
      oneCase.emit (fun label => if label = .fresh 0 then some 0 else none) 1 = .ok emission := ⟨_, rfl⟩
  refine ⟨⟨emission, emitted, (size_exact.1 oneCase produced _ 1 emission emitted).1, rfl⟩, ?_, ?_⟩
  · have nowhere : (Assembler.start .empty {}).place = fun _ => none :=
      funext fun _ => Std.HashMap.getElem?_empty
    obtain ⟨first, waiting⟩ : ∃ first, oneCase.emit (fun _ => none) 0 = .ok first := ⟨_, rfl⟩
    obtain ⟨after, taken⟩ : ∃ after, Assembler.addInstruction oneCase (.start .empty {}) = .ok () after :=
      ⟨_, Assembler.addInstruction_of_emit (nowhere ▸ waiting)⟩
    exact ⟨after, taken, size_exact.2.1 oneCase produced _ after taken⟩
  · have read : Instruction.read Pool.empty.resolver #[0xb1] Cursor.start = .ok ⟨.returnVoid, .none⟩ ⟨1, 0⟩ :=
      (read_eq_ok_iff (Nat.zero_le _)).mpr
        ⟨.bare, trivial, ⟨[0xb1], ⟨[], ⟨[], [], rfl, rfl, rfl⟩, rfl⟩, by decide⟩, rfl⟩
    exact ⟨_, _, read, size_exact.2.2 _ _ _ _ _ read⟩

end Instruction

end JvmCode
