import JvmCode.Proofs.Traversal.Reads

/-! # Code that is encoded again

Reading does not look at the bytes that align the operands of a switch; encoding makes them 0. All
other bytes of an instruction are determined by what it reads as.

* **`Instruction.Pads`** are the positions of the bytes that align.
* `Reads.exists_assemble`: code that reads as instructions can be encoded again.
* `Reads.getElem?_assemble`: this changes nothing but bytes that align. -/

namespace JvmCode

namespace Instruction

/-- A position between the opcode and the operands of one of the instructions. -/
def Pads (is : List Instruction) (position : Nat) : Prop :=
  ∃ start i, (start, i) ∈ located 0 is ∧ start < position ∧ position ≤ start + i.operands.padding start

/-- Only opcodes of one byte have operands that are aligned. -/
theorem Fits.length_bytes {i : Instruction} (fits : i.Fits) {bci : Nat}
    (aligned : i.operands.padding bci ≠ 0) : i.opcode.bytes.length = 1 := by
  obtain ⟨opcode, operands⟩ := i
  unfold Fits at fits
  cases operands with
  | table =>
      generalize shape : Opcode.format _ = format at fits
      cases fits
      obtain rfl := Opcode.tableswitch_of_format shape
      rfl
  | lookup =>
      generalize shape : Opcode.format _ = format at fits
      cases fits
      obtain rfl := Opcode.lookupswitch_of_format shape
      rfl
  | _ => exact absurd rfl aligned

/-- The alignment of an instruction is inside the instruction. -/
theorem padding_lt_size (i : Instruction) (bci : Nat) : i.operands.padding bci < i.size bci := by
  have positive := i.size_pos bci
  obtain ⟨opcode, operands⟩ := i
  cases operands with
  | table | lookup =>
      simp only [Operands.padding, size]
      omega
  | _ => exact positive

variable {resolver : Resolver} {code : Array UInt8} {bci : Nat} {i : Instruction}

/-- An instruction that was read can be encoded again, with other bytes in its alignment only. -/
theorem ReadsAt.exists_encode (h : i.ReadsAt resolver code bci) :
    ∃ alignment body, alignment.length = i.operands.padding bci ∧
      Stands code bci (i.opcode.bytes ++ (alignment ++ body)) ∧
      i.encode Label.named? bci =
        .ok (i.opcode.bytes ++ (List.replicate (i.operands.padding bci) 0 ++ body)) := by
  obtain ⟨-, -, _, ⟨_, ⟨alignment, body, aligned, filled, rfl⟩, rfl⟩, stands⟩ := h
  exact ⟨alignment, body, aligned, stands, encode_eq_ok_iff.mpr ⟨body, filled, rfl⟩⟩

/-- Where an instruction is encoded again, its alignment is 0 and all else is as it was read. -/
theorem ReadsAt.getElem?_encode (h : i.ReadsAt resolver code bci) {rebuilt : Array UInt8}
    {content : List UInt8} (encoded : i.encode Label.named? bci = .ok content)
    (stands : Stands rebuilt bci content) {place : Nat} (inside : place < i.size bci) :
    rebuilt[bci + place]? =
      if 0 < place ∧ place ≤ i.operands.padding bci then some 0 else code[bci + place]? := by
  obtain ⟨alignment, body, aligned, original, again⟩ := h.exists_encode
  rw [encoded, Except.ok.injEq] at again
  have length := h.1.length_encode encoded
  rw [stands.getElem? (by rw [length]; exact inside), again]
  rw [again, List.length_append, List.length_append, List.length_replicate, ← aligned] at length
  rw [original.getElem? (by rw [List.length_append, List.length_append, length]; exact inside)]
  -- Without alignment both contents are the same; with it the opcode is one byte.
  by_cases bare : i.operands.padding bci = 0
  · rw [bare] at aligned
    rw [bare, if_neg (by omega), List.length_eq_zero_iff.mp aligned]
    rfl
  · obtain ⟨byte, opens⟩ := List.length_eq_one_iff.mp (h.1.length_bytes bare)
    rw [opens, List.singleton_append, List.singleton_append]
    cases place with
    | zero => rw [if_neg (by omega), List.getElem?_cons_zero, List.getElem?_cons_zero]
    | succ behind =>
        rw [List.getElem?_cons_succ, List.getElem?_cons_succ]
        by_cases between : behind < i.operands.padding bci
        · rw [if_pos ⟨by omega, between⟩, List.getElem?_append_left (by
            rw [List.length_replicate]
            exact between), List.getElem?_replicate_of_lt between]
        · rw [if_neg (by omega), List.getElem?_append_right (by
            rw [List.length_replicate]
            omega), List.getElem?_append_right (by omega), List.length_replicate, aligned]

end Instruction

namespace Reads

variable {resolver : Resolver} {code : Array UInt8} {bci : Nat} {is : List Instruction}

/-- Code that reads as instructions can be encoded again. -/
theorem exists_assemble (h : Reads resolver code bci is) :
    ∃ content, assemble Label.named? bci is = .ok content := by
  induction is generalizing bci with
  | nil => exact ⟨[], rfl⟩
  | cons i rest ih =>
      obtain ⟨_, _, -, -, encoded⟩ := h.1.exists_encode
      obtain ⟨others, assembled⟩ := ih h.2
      exact ⟨_, assemble_cons_eq_ok_iff.mpr ⟨_, others, encoded, assembled, rfl⟩⟩

/-- Code that is encoded again has the same length. -/
theorem size_assemble (h : Reads resolver code 0 is) {rebuilt : Array UInt8}
    (assembled : assemble Label.named? 0 is = .ok rebuilt.toList) : rebuilt.size = code.size := by
  have ends := length_assemble h.fits assembled
  rw [h.endOf_eq, Array.length_toList, Nat.zero_add] at ends
  exact ends

/-- Code that is encoded again is 0 wherever operands are aligned, and as it was everywhere else. -/
theorem getElem?_assemble (h : Reads resolver code 0 is) {rebuilt : Array UInt8}
    (assembled : assemble Label.named? 0 is = .ok rebuilt.toList) (position : Nat) :
    (Instruction.Pads is position → rebuilt[position]? = some 0) ∧
      (¬ Instruction.Pads is position → rebuilt[position]? = code[position]?) := by
  have located := (iff_located.mp h).2
  have stands : ∀ {start i}, (start, i) ∈ Instruction.located 0 is →
      ∃ bytes, i.encode Label.named? start = .ok bytes ∧ Stands rebuilt start bytes :=
    stands_of_assemble h.fits assembled (Stands.rest (Nat.zero_le _))
  constructor
  · rintro ⟨start, i, mem, behind, within⟩
    obtain ⟨bytes, encoded, here⟩ := stands mem
    have short := i.padding_lt_size start
    obtain ⟨place, rfl⟩ := Nat.exists_eq_add_of_le (Nat.le_of_lt behind)
    rw [(located start i mem).getElem?_encode encoded here (by omega), if_pos ⟨by omega, by omega⟩]
  -- Any other byte belongs to some instruction and is not part of its alignment.
  · intro apart
    by_cases inside : position < code.size
    · rw [← h.endOf_eq] at inside
      obtain ⟨start, i, mem, lower, upper⟩ := Instruction.exists_located_of_lt (Nat.zero_le _) inside
      obtain ⟨bytes, encoded, here⟩ := stands mem
      obtain ⟨place, rfl⟩ := Nat.exists_eq_add_of_le lower
      rw [(located start i mem).getElem?_encode encoded here (by omega), if_neg]
      rintro ⟨positive, between⟩
      exact apart ⟨start, i, mem, by omega, by omega⟩
    · have same := h.size_assemble assembled
      rw [Array.getElem?_eq_none (by omega), Array.getElem?_eq_none (by omega)]

end Reads

end JvmCode
