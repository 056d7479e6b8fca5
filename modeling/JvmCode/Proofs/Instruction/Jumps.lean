import JvmCode.Instruction.Reading
import JvmCode.Proofs.Instruction.Encoding
import JvmCode.Proofs.Instruction.Narrow
import JvmCode.Proofs.Spelling

/-! # What reading opcodes and branch targets accepts

Opcodes and branch targets are read without the constant pool. Each reader accepts exactly the bytes
that encoding writes, except that the alignment of a switch may be any bytes.

* `spells_readOpcode`: an opcode is spelled by its own bytes.
* **`Operands.Spelled`** relates operands to their byte forms.
* `spells_readTable` and `spells_readLookup`: a switch is read exactly when it fits its format. -/

namespace JvmCode

/-! ## Opcodes -/

/-- An opcode found by a number has that number as its code. -/
theorem Opcode.code_of_find? {codes : List Opcode} {number : Nat} {op : Opcode}
    (h : codes.find? (fun op => op.code.toNat == number) = some op) : op.code.toNat = number := by
  have same := List.find?_some h
  exact beq_iff_eq.mp same

/-- An opcode found under a byte has that byte as its code. -/
theorem Opcode.code_of_ofByte {byte : UInt8} {op : Opcode} (h : Opcode.ofByte byte = .ok op) :
    op.code.toNat = byte.toNat := by
  rw [ofByte_eq] at h
  cases found : all.find? fun op => op.code.toNat == byte.toNat with
  | some other =>
      rw [found] at h
      cases h
      exact code_of_find? found
  | none =>
      rw [found] at h
      cases h

/-- An opcode found under a byte behind `wide` has both bytes as its code. -/
theorem Opcode.code_of_ofWideByte {byte : UInt8} {op : Opcode}
    (h : Opcode.ofWideByte byte = .ok op) : op.code.toNat = 0xc400 + byte.toNat := by
  rw [ofWideByte_eq] at h
  cases found : all.find? fun op => op.code.toNat == 0xc400 + byte.toNat with
  | some other =>
      rw [found] at h
      cases h
      exact code_of_find? found
  | none =>
      rw [found] at h
      cases h

/-- Only `wide` itself has the byte of `wide`. -/
theorem Opcode.toUInt8_code_ne_wideByte : ∀ op : Opcode, op.isWide = false →
    op.code.toUInt8 ≠ wideByte := by
  decide +kernel

/-- A byte under which an opcode is found spells it. -/
theorem Opcode.bytes_of_ofByte {byte : UInt8} {op : Opcode} (h : Opcode.ofByte byte = .ok op) :
    op.bytes = [byte] := by
  have code := code_of_ofByte h
  have narrow : op.isWide = false := by
    have bound := byte.toNat_lt
    simp only [isWide, decide_eq_false_iff_not, UInt16.not_lt, UInt16.le_iff_toNat_le]
    rw [code]
    exact Nat.le_of_lt_succ bound
  have same : op.code.toUInt8 = byte := by
    apply UInt8.toNat.inj
    rw [code_lt_of_not_isWide op narrow, code]
  rw [bytes, narrow, if_neg Bool.false_ne_true, same]

/-- A byte behind `wide` under which an opcode is found spells it. -/
theorem Opcode.bytes_of_ofWideByte {byte : UInt8} {op : Opcode}
    (h : Opcode.ofWideByte byte = .ok op) : op.bytes = [wideByte, byte] := by
  have code := code_of_ofWideByte h
  have wide : op.isWide = true := by
    simp only [isWide, decide_eq_true_eq, UInt16.lt_iff_toNat_lt]
    rw [code, show (0xff : UInt16).toNat = 255 from rfl]
    omega
  have same : op.code.toUInt8 = byte := by
    apply UInt8.toNat.inj
    have split := code_of_isWide op wide
    omega
  rw [bytes, wide, if_pos rfl, same]

/-- An opcode is spelled by its bytes. -/
theorem spells_readOpcode : readOpcode.Spells fun op content => content = op.bytes := by
  -- Whichever table the opcode is looked up in, the lookup reads nothing.
  have found : ∀ result, (opcodeFound result).Spells fun op content =>
      result = .ok op ∧ content = [] := by
    intro result
    cases result with
    | ok op =>
        refine (Reader.Spells.pure op).congr fun value content => ?_
        rw [Except.ok.injEq, eq_comm]
    | error what =>
        exact (Reader.Spells.failAtMark what).congr fun value content => by simp
  refine (Reader.Spells.u1.bind fun byte => Reader.Spells.ite
    (Reader.Spells.u1.bind fun second => found (Opcode.ofWideByte second))
    (found (Opcode.ofByte byte))).congr fun op content => ?_
  constructor
  · rintro ⟨byte, before, after, rfl, rest, rfl⟩
    by_cases wide : byte = Opcode.wideByte
    · rw [if_pos wide] at rest
      obtain ⟨second, _, _, rfl, ⟨h, rfl⟩, rfl⟩ := rest
      rw [Opcode.bytes_of_ofWideByte h, wide]
      rfl
    · rw [if_neg wide] at rest
      obtain ⟨h, rfl⟩ := rest
      rw [Opcode.bytes_of_ofByte h]
      rfl
  -- Conversely, a narrow opcode is never mistaken for the wide escape.
  · rintro rfl
    cases wide : op.isWide with
    | true =>
        refine ⟨Opcode.wideByte, [Opcode.wideByte], [op.code.toUInt8], rfl, ?_, ?_⟩
        · rw [if_pos rfl]
          exact ⟨op.code.toUInt8, [op.code.toUInt8], [], rfl, ⟨Opcode.ofWideByte_code wide, rfl⟩, rfl⟩
        · rw [Opcode.bytes, wide, if_pos rfl]
          rfl
    | false =>
        refine ⟨op.code.toUInt8, [op.code.toUInt8], [], rfl, ?_, ?_⟩
        · rw [if_neg (Opcode.toUInt8_code_ne_wideByte op wide)]
          exact ⟨Opcode.ofByte_code wide, rfl⟩
        · rw [Opcode.bytes, wide, if_neg Bool.false_ne_true]
          rfl

/-! ## Branch targets -/

/-- A label of a position names that position. -/
theorem Label.named?_eq_some_iff {label : Label} {position : Nat} :
    label.named? = some position ↔
      position < 65536 ∧ label = .decoded (UInt16.ofNat position) := by
  cases label with
  | decoded bci =>
      simp only [named?, Option.some.injEq, decoded.injEq]
      constructor
      · rintro rfl
        exact ⟨bci.toNat_lt, UInt16.ofNat_toNat.symm⟩
      · rintro ⟨bound, rfl⟩
        exact UInt16.toNat_ofNat_of_lt' bound
  | fresh serial => simp [named?]

/-- A label is made exactly of the position that the offset leads to. -/
theorem spells_jumpTarget (bci : Nat) (offset : Int) :
    (jumpTarget bci offset).Spells fun label content =>
      (∃ position : Nat, label.named? = some position ∧ (position : Int) = bci + offset) ∧
        content = [] := by
  unfold jumpTarget
  refine (Reader.Spells.ite (Reader.Spells.pure _) (Reader.Spells.fail _)).congr fun label content => ?_
  -- Positions up to 65535 have a label; a target elsewhere is refused.
  simp only [Label.named?_eq_some_iff]
  constructor
  · intro h
    split at h
    · rename_i inside
      obtain ⟨rfl, rfl⟩ := h
      exact ⟨⟨((bci : Int) + offset).toNat, ⟨by omega, rfl⟩, by omega⟩, rfl⟩
    · cases h
  · rintro ⟨⟨position, ⟨bound, rfl⟩, same⟩, rfl⟩
    rw [if_pos (by omega), ← same]
    exact ⟨rfl, rfl⟩

/-- A target is spelled by its offset in a word of either width, if a word holds every offset that the
width reaches. -/
theorem spells_target {α : Type} {word : Reader α} {bytes : α → List UInt8} {toInt : α → Int}
    {far : Bool} (bci : Nat) (reads : word.Spells fun value content => content = bytes value)
    (exact : ∀ value, reaches far (toInt value) = true ∧ offsetBytes far (toInt value) = bytes value)
    (holds : ∀ offset, reaches far offset = true → ∃ value, toInt value = offset) :
    (word >>= fun value => jumpTarget bci (toInt value)).Spells fun label content =>
      (Chunk.offset far label).fill Label.named? bci = .ok content := by
  refine (reads.bind fun value => spells_jumpTarget bci (toInt value)).congr fun label content => ?_
  rw [Chunk.fill_offset_eq_ok_iff]
  constructor
  · rintro ⟨value, before, after, rfl, ⟨⟨position, named, same⟩, rfl⟩, rfl⟩
    have distance : (position : Int) - bci = toInt value := by omega
    refine ⟨position, named, ?_, ?_⟩
    · rw [distance, (exact value).1]
    · rw [distance, (exact value).2, List.append_nil]
  · rintro ⟨position, named, fits, rfl⟩
    -- The offset that the label needs is one that a word holds.
    obtain ⟨value, distance⟩ := holds _ fits
    refine ⟨value, bytes value, [], rfl, ⟨⟨position, named, by omega⟩, rfl⟩, ?_⟩
    rw [← distance, (exact value).2, List.append_nil]

/-- A two-byte target is spelled by its offset. -/
theorem spells_readShortTarget (bci : Nat) : (readShortTarget bci).Spells fun label content =>
    (Chunk.offset false label).fill Label.named? bci = .ok content := by
  refine spells_target bci Reader.Spells.i2 (fun value => ⟨fitsInt16_toInt value, ?_⟩)
    fun offset fits => ⟨Int16.ofInt offset, toInt_ofInt16_of_fits fits⟩
  rw [offsetBytes, if_neg Bool.false_ne_true, Int16.ofInt_toInt]

/-- A four-byte target is spelled by its offset. -/
theorem spells_readFarTarget (bci : Nat) : (readFarTarget bci).Spells fun label content =>
    (Chunk.offset true label).fill Label.named? bci = .ok content := by
  refine spells_target bci Reader.Spells.i4 (fun value => ⟨fitsInt32_toInt value, ?_⟩)
    fun offset fits => ⟨Int32.ofInt offset, toInt_ofInt32_of_fits fits⟩
  rw [offsetBytes, if_pos rfl, Int32.ofInt_toInt]

/-- Far targets in a row are spelled by their offsets in a row. -/
theorem joined_targets_iff {bci : Nat} {targets : List Label} {content : List UInt8} :
    Joined (fun label content => (Chunk.offset true label).fill Label.named? bci = .ok content)
        targets content ↔
      Chunk.fillAll Label.named? bci (targets.map (.offset true)) = .ok content := by
  induction targets generalizing content with
  | nil => simp [Joined, eq_comm]
  | cons target rest ih => simp only [Joined, List.map_cons, Chunk.fillAll_cons_eq_ok_iff, ih]

/-- The byte forms of operands: any bytes for their alignment, then their fields. -/
def Operands.Spelled (opcode : Opcode) (bci : Nat) : Spelling Operands := fun operands content =>
  ∃ alignment body, alignment.length = operands.padding bci ∧
    Chunk.fillAll Label.named? bci (operands.fields opcode) = .ok body ∧ content = alignment ++ body

/-- A dense switch is read exactly when its bounds are ordered and every key has a target. -/
theorem spells_readTable (bci : Nat) : (readTable bci).Spells fun operands content =>
    operands.Fits (.jump .table) ∧ operands.Spelled .tableswitch bci content := by
  refine ((Reader.Spells.skip _).bind fun _ => (spells_readFarTarget bci).bind fun default =>
    Reader.Spells.i4.bind fun low => Reader.Spells.i4.bind fun high => Reader.Spells.ite
      (Reader.Spells.fail _) (((spells_readFarTarget bci).sequence _).map fun targets =>
        Operands.table low high default targets.toList)).congr fun operands content => ?_
  constructor
  -- What was skipped is the alignment, of which only the length is known.
  · rintro ⟨_, alignment, _, aligned, ⟨default, first, _, filled, ⟨low, _, _, rfl, ⟨high, _, rest, rfl,
      h, rfl⟩, rfl⟩, rfl⟩, rfl⟩
    split at h
    · cases h
    · rename_i ordered
      obtain ⟨targets, rfl, size, joined⟩ := h
      refine ⟨.table ?_ (by rw [Array.length_toList, size]), alignment, _, aligned, ?_, rfl⟩
      · rw [Int32.not_lt, Int32.le_iff_toInt_le] at ordered
        exact ordered
      · refine Chunk.fillAll_cons_eq_ok_iff.mpr ⟨first, _, filled, ?_, rfl⟩
        refine Chunk.fillAll_bytes_cons_eq_ok_iff.mpr ⟨rest, joined_targets_iff.mp joined, ?_⟩
        rw [List.append_assoc]
  · rintro ⟨fits, alignment, body, aligned, filled, rfl⟩
    cases fits with
    | table ordered full =>
        rename_i low high default targets
        obtain ⟨first, _, head, tail, rfl⟩ := Chunk.fillAll_cons_eq_ok_iff.mp filled
        obtain ⟨rest, joined, rfl⟩ := Chunk.fillAll_bytes_cons_eq_ok_iff.mp tail
        refine ⟨(), alignment, _, aligned, ⟨default, first, _, head, ⟨low, _, _, rfl, ⟨high, _, rest,
          rfl, ?_, rfl⟩, rfl⟩, ?_⟩, rfl⟩
        · rw [if_neg (by rw [Int32.not_lt, Int32.le_iff_toInt_le]; exact ordered)]
          exact ⟨targets.toArray, rfl, full, joined_targets_iff.mpr joined⟩
        · rw [List.append_assoc]

/-- The chunks of the cases of a key switch. -/
def SwitchCase.chunks (cases : List SwitchCase) : List Chunk :=
  cases.flatMap fun case => [.bytes (BigEndian.i4 case.value), .offset true case.target]

/-- Cases are filled exactly when the first is, behind its key, and all others are. -/
theorem SwitchCase.fillAll_chunks_cons_eq_ok_iff {place : Label → Option Nat} {bci : Nat}
    {case : SwitchCase} {rest : List SwitchCase} {content : List UInt8} :
    Chunk.fillAll place bci (chunks (case :: rest)) = .ok content ↔
      ∃ first others, (Chunk.offset true case.target).fill place bci = .ok first ∧
        Chunk.fillAll place bci (chunks rest) = .ok others ∧
        content = BigEndian.i4 case.value ++ (first ++ others) := by
  rw [chunks, List.flatMap_cons, List.cons_append, Chunk.fillAll_bytes_cons_eq_ok_iff]
  simp only [List.cons_append, List.nil_append, Chunk.fillAll_cons_eq_ok_iff]
  constructor
  · rintro ⟨_, ⟨first, others, h₁, h₂, rfl⟩, rfl⟩
    exact ⟨first, others, h₁, h₂, rfl⟩
  · rintro ⟨first, others, h₁, h₂, rfl⟩
    exact ⟨_, ⟨first, others, h₁, h₂, rfl⟩, rfl⟩

/-- Keys ascend behind the last of those already read exactly when the next one is greater and the
others ascend behind it. -/
theorem keysAscend_behind_iff {cases : Array SwitchCase} {case : SwitchCase} {rest : List SwitchCase} :
    Instruction.keysAscend (cases.back?.toList ++ case :: rest) = true ↔
      (cases.back?.any fun last => case.value ≤ last.value) = false ∧
        Instruction.keysAscend ((cases.push case).back?.toList ++ rest) = true := by
  rw [Array.back?_push]
  cases cases.back? with
  | none => simp
  | some last =>
      simp only [Option.toList_some, List.cons_append, List.nil_append, Instruction.keysAscend,
        Option.any_some, Bool.and_eq_true, decide_eq_true_eq, decide_eq_false_iff_not, Int32.not_le]

/-- Cases behind others are read exactly when their keys go on ascending. -/
theorem spells_readCasesInto (bci count : Nat) (cases : Array SwitchCase) :
    (readCasesInto bci count cases).Spells fun value content =>
      ∃ added, value = cases ++ added.toArray ∧ added.length = count ∧
        Instruction.keysAscend (cases.back?.toList ++ added) = true ∧
        Chunk.fillAll Label.named? bci (SwitchCase.chunks added) = .ok content := by
  -- Keys are compared with the last one read, so the cases read before are part of the statement.
  induction count generalizing cases with
  | zero =>
      refine (Reader.Spells.pure cases).congr fun value content => ?_
      constructor
      · rintro ⟨rfl, rfl⟩
        refine ⟨[], by simp, rfl, ?_, rfl⟩
        cases value.back? <;> rfl
      · rintro ⟨added, rfl, none, -, filled⟩
        rw [List.eq_nil_of_length_eq_zero none] at filled ⊢
        exact ⟨by simp, (Except.ok.inj filled).symm⟩
  | succ count ih =>
      refine (Reader.Spells.i4.bind fun key => (spells_readFarTarget bci).bind fun target =>
        Reader.Spells.ite (Reader.Spells.fail _) (ih (cases.push ⟨key, target⟩))).congr
        fun value content => ?_
      constructor
      · rintro ⟨key, _, _, rfl, ⟨target, first, others, filled, h, rfl⟩, rfl⟩
        split at h
        · cases h
        · rename_i ascends
          obtain ⟨added, rfl, size, ascending, joined⟩ := h
          refine ⟨⟨key, target⟩ :: added, by simp, by rw [List.length_cons, size], ?_, ?_⟩
          · exact keysAscend_behind_iff.mpr ⟨Bool.not_eq_true _ ▸ ascends, ascending⟩
          · exact SwitchCase.fillAll_chunks_cons_eq_ok_iff.mpr ⟨first, others, filled, joined, rfl⟩
      · rintro ⟨added, rfl, size, ascending, filled⟩
        obtain _ | ⟨case, rest⟩ := added
        · simp at size
        obtain ⟨first, others, head, joined, rfl⟩ :=
          SwitchCase.fillAll_chunks_cons_eq_ok_iff.mp filled
        obtain ⟨greater, ascending⟩ := keysAscend_behind_iff.mp ascending
        refine ⟨case.value, _, _, rfl, ⟨case.target, first, others, head, ?_, rfl⟩, rfl⟩
        rw [if_neg (by rw [greater]; exact Bool.false_ne_true)]
        exact ⟨rest, by simp, by simpa using size, ascending, joined⟩

/-- A key switch is read exactly when its keys ascend. -/
theorem spells_readLookup (bci : Nat) : (readLookup bci).Spells fun operands content =>
    operands.Fits (.jump .lookup) ∧ operands.Spelled .lookupswitch bci content := by
  refine ((Reader.Spells.skip _).bind fun _ => (spells_readFarTarget bci).bind fun default =>
    Reader.Spells.i4.bind fun count => Reader.Spells.ite (Reader.Spells.fail _)
      ((spells_readCasesInto bci _ #[]).map fun cases =>
        Operands.lookup default cases.toList)).congr fun operands content => ?_
  constructor
  · rintro ⟨_, alignment, _, aligned, ⟨default, first, _, filled, ⟨count, _, rest, rfl, h, rfl⟩, rfl⟩,
      rfl⟩
    split at h
    · cases h
    · rename_i positive
      obtain ⟨cases, rfl, added, rfl, size, ascending, joined⟩ := h
      rw [Int32.not_lt, Int32.le_iff_toInt_le] at positive
      have bound := count.toInt_lt
      -- A count that is not negative is the number of cases it announced.
      have counted : Int32.ofNat added.length = count := by
        apply Int32.toInt.inj
        rw [size, Int32.toInt_ofNat_of_lt (by omega)]
        exact Int.toNat_of_nonneg positive
      simp only [List.append_toArray, List.nil_append]
      refine ⟨.lookup ascending (by omega), alignment, _, aligned, ?_, rfl⟩
      refine Chunk.fillAll_cons_eq_ok_iff.mpr ⟨first, _, filled, ?_, rfl⟩
      refine Chunk.fillAll_bytes_cons_eq_ok_iff.mpr ⟨rest, joined, ?_⟩
      rw [counted]
  · rintro ⟨fits, alignment, body, aligned, filled, rfl⟩
    cases fits with
    | lookup ascending few =>
        rename_i default cases
        obtain ⟨first, _, head, tail, rfl⟩ := Chunk.fillAll_cons_eq_ok_iff.mp filled
        obtain ⟨rest, joined, rfl⟩ := Chunk.fillAll_bytes_cons_eq_ok_iff.mp tail
        have counted : (Int32.ofNat cases.length).toInt = cases.length :=
          Int32.toInt_ofNat_of_lt few
        refine ⟨(), alignment, _, aligned, ⟨default, first, _, head, ⟨Int32.ofNat cases.length, _, rest,
          rfl, ?_, rfl⟩, rfl⟩, rfl⟩
        rw [if_neg (by rw [Int32.not_lt, Int32.le_iff_toInt_le, counted]; exact Int.natCast_nonneg _)]
        refine ⟨cases.toArray, rfl, cases, by simp, ?_, ascending, joined⟩
        rw [counted, Int.toNat_natCast]

end JvmCode
