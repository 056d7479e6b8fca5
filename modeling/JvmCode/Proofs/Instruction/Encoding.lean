import JvmCode.Assembler.Emission
import JvmCode.Proofs.Instruction.Fits
import JvmCode.Proofs.Outcomes

/-! # Encoding with all labels placed

The byte form of an instruction once the place of every label is known, with no patch left over.

* **`Instruction.encode`** fills the template of an instruction.
* **`assemble`** encodes instructions one behind the other.
* **`Operands.fields`** are the chunks of operands without the bytes that align a switch;
  `encode_eq_ok_iff` takes an encoding apart into opcode, alignment and fields. -/

namespace JvmCode

/-- Whether an offset operand can hold a number. -/
def reaches (far : Bool) (offset : Int) : Bool :=
  if far then fitsInt32 offset else fitsInt16 offset

/-- An offset is given exactly when the operand can hold it. -/
theorem branchOffset_eq_ok_iff {bci position : Nat} {far : Bool} {offset : Int} :
    branchOffset bci position far = .ok offset ↔
      reaches far ((position : Int) - bci) = true ∧ offset = (position : Int) - bci := by
  change (if reaches far ((position : Int) - bci) = true then _ else _) = _ ↔ _
  by_cases fits : reaches far ((position : Int) - bci) = true
  · rw [if_pos fits, Except.ok.injEq, eq_comm]
    exact ⟨fun same => ⟨fits, same⟩, And.right⟩
  · rw [if_neg fits]
    exact ⟨fun h => (nomatch h), fun h => absurd h.1 fits⟩

/-- The bytes of a piece of the instruction at `bci`. -/
def Chunk.fill (place : Label → Option Nat) (bci : Nat) : Chunk → Except Fault (List UInt8)
  | .bytes content => .ok content
  | .offset far target =>
      match place target with
      | none => .error (.unresolvedLabel target)
      | some position => do return offsetBytes far (← branchOffset bci position far)

/-- The bytes of the pieces of the instruction at `bci`. -/
def Chunk.fillAll (place : Label → Option Nat) (bci : Nat) : List Chunk → Except Fault (List UInt8)
  | [] => .ok []
  | chunk :: rest => do
      let first ← chunk.fill place bci
      let others ← fillAll place bci rest
      return first ++ others

/-- The bytes of an instruction at `bci`. -/
def Instruction.encode (place : Label → Option Nat) (bci : Nat) (i : Instruction) :
    Except Fault (List UInt8) :=
  Chunk.fillAll place bci (i.template bci)

/-- The bytes of instructions that stand one behind the other, the first of them at `bci`. -/
def assemble (place : Label → Option Nat) : Nat → List Instruction → Except Fault (List UInt8)
  | _, [] => .ok []
  | bci, i :: rest => do
      let first ← i.encode place bci
      let others ← assemble place (bci + i.size bci) rest
      return first ++ others

/-- The position that a decoded label names. -/
def Label.named? : Label → Option Nat
  | .decoded bci => some bci.toNat
  | .fresh _ => none

namespace Chunk

variable {place : Label → Option Nat} {bci : Nat}

/-- Fixed bytes are filled by themselves. -/
@[simp] theorem fill_bytes (content : List UInt8) : (bytes content).fill place bci = .ok content :=
  rfl

/-- An offset is filled exactly when its label has a place that the operand can reach. -/
theorem fill_offset_eq_ok_iff {far : Bool} {target : Label} {content : List UInt8} :
    (offset far target).fill place bci = .ok content ↔
      ∃ position : Nat, place target = some position ∧
        reaches far ((position : Int) - bci) = true ∧
        content = offsetBytes far ((position : Int) - bci) := by
  rw [fill]
  cases place target with
  | none => simp
  | some position =>
      simp only [Outcome.bind_eq_ok_iff, Outcome.pure_eq_ok_iff, branchOffset_eq_ok_iff]
      constructor
      · rintro ⟨offset, ⟨fits, rfl⟩, rfl⟩
        exact ⟨position, rfl, fits, rfl⟩
      · rintro ⟨position', same, fits, rfl⟩
        cases same
        exact ⟨_, ⟨fits, rfl⟩, rfl⟩

/-- No piece gives no bytes. -/
@[simp] theorem fillAll_nil : fillAll place bci [] = .ok [] := rfl

/-- Pieces are filled exactly when the first and all others are. -/
theorem fillAll_cons_eq_ok_iff {chunk : Chunk} {rest : List Chunk} {content : List UInt8} :
    fillAll place bci (chunk :: rest) = .ok content ↔
      ∃ first others, chunk.fill place bci = .ok first ∧ fillAll place bci rest = .ok others ∧
        content = first ++ others := by
  simp only [fillAll, Outcome.bind_eq_ok_iff, Outcome.pure_eq_ok_iff]
  constructor
  · rintro ⟨first, h₁, others, h₂, rfl⟩
    exact ⟨first, others, h₁, h₂, rfl⟩
  · rintro ⟨first, others, h₁, h₂, rfl⟩
    exact ⟨first, h₁, others, h₂, rfl⟩

/-- Fixed bytes in front of other pieces. -/
theorem fillAll_bytes_cons_eq_ok_iff {bytes : List UInt8} {rest : List Chunk} {content : List UInt8} :
    fillAll place bci (.bytes bytes :: rest) = .ok content ↔
      ∃ others, fillAll place bci rest = .ok others ∧ content = bytes ++ others := by
  simp only [fillAll_cons_eq_ok_iff, fill_bytes, Except.ok.injEq]
  constructor
  · rintro ⟨first, others, rfl, filled, rfl⟩
    exact ⟨others, filled, rfl⟩
  · rintro ⟨others, filled, rfl⟩
    exact ⟨bytes, others, rfl, filled, rfl⟩

/-- A filled piece has as many bytes as the piece. -/
theorem length_of_fill {chunk : Chunk} {content : List UInt8}
    (h : chunk.fill place bci = .ok content) : content.length = chunk.size := by
  cases chunk with
  | bytes fixed =>
      rw [fill_bytes, Except.ok.injEq] at h
      rw [← h, size]
  | offset far target =>
      obtain ⟨position, -, -, rfl⟩ := fill_offset_eq_ok_iff.mp h
      rw [length_offsetBytes, size]

/-- Filled pieces have as many bytes as the pieces. -/
theorem length_of_fillAll {chunks : List Chunk} {content : List UInt8}
    (h : fillAll place bci chunks = .ok content) : content.length = total chunks := by
  induction chunks generalizing content with
  | nil =>
      rw [fillAll_nil, Except.ok.injEq] at h
      rw [← h, total_nil, List.length_nil]
  | cons chunk rest ih =>
      obtain ⟨first, others, h₁, h₂, rfl⟩ := fillAll_cons_eq_ok_iff.mp h
      rw [List.length_append, length_of_fill h₁, ih h₂, total_cons]

end Chunk

/-! ## Opcode, alignment and fields -/

namespace Operands

/-- The number of bytes that align operands at `bci`. -/
def padding (bci : Nat) : Operands → Nat
  | .table _ _ _ _ | .lookup _ _ => switchPadding bci
  | _ => 0

/-- The chunks of operands behind their alignment. They do not depend on the position. -/
def fields (opcode : Opcode) : Operands → List Chunk
  | .table low high default targets =>
      .offset true default :: .bytes (BigEndian.i4 low ++ BigEndian.i4 high) ::
        targets.map (.offset true)
  | .lookup default cases =>
      .offset true default :: .bytes (BigEndian.i4 (Int32.ofNat cases.length)) ::
        cases.flatMap fun case => [.bytes (BigEndian.i4 case.value), .offset true case.target]
  | operands => Instruction.operandTemplate opcode 0 operands

/-- Filled operands are their alignment and their filled fields. -/
theorem fillAll_operandTemplate_eq_ok_iff {place : Label → Option Nat} {opcode : Opcode} {bci : Nat}
    {operands : Operands} {content : List UInt8} :
    Chunk.fillAll place bci (Instruction.operandTemplate opcode bci operands) = .ok content ↔
      ∃ body, Chunk.fillAll place bci (operands.fields opcode) = .ok body ∧
        content = List.replicate (operands.padding bci) 0 ++ body := by
  cases operands with
  | table => exact Chunk.fillAll_bytes_cons_eq_ok_iff
  | lookup => exact Chunk.fillAll_bytes_cons_eq_ok_iff
  | _ =>
      -- Without a switch there is no alignment, and the template is the same everywhere.
      simp only [padding, List.replicate_zero, List.nil_append, exists_eq_right']
      rfl

/-- The template of operands has the bytes of their alignment and of their fields. -/
theorem total_operandTemplate (opcode : Opcode) (bci : Nat) (operands : Operands) :
    Chunk.total (Instruction.operandTemplate opcode bci operands) =
      operands.padding bci + Chunk.total (operands.fields opcode) := by
  cases operands with
  | table | lookup =>
      rw [Instruction.operandTemplate, Chunk.total_cons, Chunk.size, Instruction.paddingBytes,
        List.length_replicate]
      rfl
  | _ => exact (Nat.zero_add _).symm

end Operands

namespace Instruction

variable {i : Instruction} {place : Label → Option Nat} {bci : Nat} {content : List UInt8}

/-- An encoding is the bytes of the opcode, the alignment and the filled fields. -/
theorem encode_eq_ok_iff : i.encode place bci = .ok content ↔
    ∃ body, Chunk.fillAll place bci (i.operands.fields i.opcode) = .ok body ∧
      content = i.opcode.bytes ++ (List.replicate (i.operands.padding bci) 0 ++ body) := by
  rw [encode, template, Chunk.fillAll_bytes_cons_eq_ok_iff]
  simp only [Operands.fillAll_operandTemplate_eq_ok_iff]
  constructor
  · rintro ⟨others, ⟨body, filled, rfl⟩, rfl⟩
    exact ⟨body, filled, rfl⟩
  · rintro ⟨body, filled, rfl⟩
    exact ⟨_, ⟨body, filled, rfl⟩, rfl⟩

/-- An instruction that fits is encoded in as many bytes as its size. -/
theorem Fits.length_encode (fits : i.Fits) (h : i.encode place bci = .ok content) :
    content.length = i.size bci := by
  rw [Chunk.length_of_fillAll h, fits.total_template]

end Instruction

end JvmCode
