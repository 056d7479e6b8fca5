import JvmCode.Instruction.Reading
import Std.Data.HashSet

/-! # Scanning code

One pass over a code array that finds where instructions start and where they jump to, before anything is
decoded. Instructions without branch targets are passed over by their size.

* **`Scan`** is what the pass finds; **`Scan.run`** makes it and checks that every jump lands on the
  start of an instruction.
* `scanStep_position_lt`: every step moves on, which is why the pass ends. -/

namespace JvmCode

/-- A jump, with the position of the instruction that makes it. -/
structure Jump where
  /-- Where the jumping instruction starts. -/
  bci : Nat
  /-- Where it may go. -/
  target : Label
  deriving DecidableEq, Repr

/-- What a pass over a code array finds. -/
structure Scan where
  /-- The positions where instructions start. -/
  starts : Std.HashSet Nat
  /-- The jumps, in order. -/
  jumps : Array Jump

namespace Scan

/-- Nothing found yet. -/
def empty : Scan := ⟨∅, .empty⟩

/-- Note an instruction and its targets. -/
def note (scan : Scan) (bci : Nat) (targets : List Label) : Scan where
  starts := scan.starts.insert bci
  jumps := scan.jumps ++ targets.map (Jump.mk bci)

end Scan

/-- Pass over the whole instruction at `bci` by its size. -/
def passOver (bci : Nat) (opcode : Opcode) : Reader (List Label) := do
  -- The opcode is already read, and the size counts from its first byte.
  Reader.seek bci
  Reader.skip (opcode.fixedSize?.getD 1)
  return []

/-- Read the branch targets of the instruction at `bci`, whose opcode has been read, or pass over it if
it has none. -/
def scanOperands (bci : Nat) (opcode : Opcode) : Reader (List Label) :=
  match opcode.format with
  | .jump form => do
      let operands ← form.read bci
      return operands.targets
  | _ => passOver bci opcode

/-- Pass over the instruction at the current position and give its branch targets. -/
def scanStep : Reader (List Label) := do
  let bci ← Reader.position
  Reader.markHere
  let opcode ← readOpcode
  scanOperands bci opcode

/-- The size by which an instruction is passed over is not zero. -/
theorem fixedSize?_getD_pos (opcode : Opcode) : 0 < opcode.fixedSize?.getD 1 := by
  have positive := opcode.fixedSize?_ne_zero
  cases fixed : opcode.fixedSize? with
  | none => simp
  | some n =>
      rw [fixed] at positive
      exact Nat.pos_of_ne_zero fun zero => positive (congrArg some zero)

/-- Passing over an instruction ends behind its first byte. -/
theorem passOver_position_lt {bci : Nat} {opcode : Opcode} {bytes : Array UInt8}
    {start stop : Cursor} {targets : List Label}
    (h : passOver bci opcode bytes start = .ok targets stop) : bci < stop.position := by
  obtain ⟨_, c₁, h₁, h⟩ := Reader.bind_eq_ok_iff.mp h
  obtain ⟨_, c₂, h₂, h⟩ := Reader.bind_eq_ok_iff.mp h
  obtain ⟨_, c₃, h₃, h₄⟩ := Reader.bind_eq_ok_iff.mp h₂
  simp only [Reader.seek, EStateM.Result.ok.injEq, true_and] at h₁
  rw [← (Reader.pure_eq_ok_iff.mp h).2, ← (Reader.pure_eq_ok_iff.mp h₄).2,
    (Reader.take_eq_ok_iff.mp h₃).2.2, ← h₁]
  exact Nat.lt_add_of_pos_right (fixedSize?_getD_pos opcode)

/-- An instruction with branch targets is scanned by reading them. -/
theorem scanOperands_of_jump {opcode : Opcode} {form : JumpForm} (jumps : opcode.format = .jump form)
    (bci : Nat) : scanOperands bci opcode = (do return (← form.read bci).targets) := by
  unfold scanOperands
  rw [jumps]

/-- An instruction without branch targets is passed over. -/
theorem scanOperands_of_not_jump {opcode : Opcode} (stays : ∀ form, opcode.format ≠ .jump form)
    (bci : Nat) : scanOperands bci opcode = passOver bci opcode := by
  unfold scanOperands
  split
  · exact absurd ‹_› (stays _)
  · rfl

/-- Scanning operands ends behind the first byte of the instruction. -/
theorem scanOperands_position_lt {bci : Nat} {opcode : Opcode} {bytes : Array UInt8}
    {start stop : Cursor} {targets : List Label} (behind : bci < start.position)
    (h : scanOperands bci opcode bytes start = .ok targets stop) : bci < stop.position := by
  by_cases jumps : ∃ form, opcode.format = .jump form
  · obtain ⟨form, jumps⟩ := jumps
    rw [scanOperands_of_jump jumps] at h
    obtain ⟨operands, c₁, h₁, h⟩ := Reader.bind_eq_ok_iff.mp h
    have forward := Reader.Forward.jumpForm _ _ h₁
    rw [← (Reader.pure_eq_ok_iff.mp h).2]
    omega
  · rw [scanOperands_of_not_jump fun form same => jumps ⟨form, same⟩] at h
    exact passOver_position_lt h

/-- Every step of the pass moves on. -/
theorem scanStep_position_lt {bytes : Array UInt8} {start stop : Cursor} {targets : List Label}
    (h : scanStep bytes start = .ok targets stop) : start.position < stop.position := by
  obtain ⟨bci, c₁, h₁, rest₁⟩ := Reader.bind_eq_ok_iff.mp h
  obtain ⟨_, c₂, h₂, rest₂⟩ := Reader.bind_eq_ok_iff.mp rest₁
  obtain ⟨opcode, c₃, h₃, rest₃⟩ := Reader.bind_eq_ok_iff.mp rest₂
  have second := Reader.Forward.markHere h₂
  have third := readOpcode_position_lt h₃
  simp only [Reader.position, EStateM.Result.ok.injEq] at h₁
  obtain ⟨rfl, rfl⟩ := h₁
  exact scanOperands_position_lt (by omega) rest₃

/-- Continue the pass from a cursor. -/
def scanFrom (code : Array UInt8) (cursor : Cursor) (scan : Scan) : Except Fault Scan :=
  if cursor.position < code.size then
    match h : scanStep code cursor with
    | .error fault _ => .error fault
    | .ok targets next =>
        have := scanStep_position_lt h
        scanFrom code next (scan.note cursor.position targets)
  else .ok scan
termination_by code.size - cursor.position

namespace Scan

/-- Whether an instruction starts at a position. -/
def isStart (scan : Scan) (position : Nat) : Bool := scan.starts.contains position

/-- Refuse a jump that does not land on the start of an instruction. -/
def checkJump (scan : Scan) (jump : Jump) : Except Fault Unit :=
  match jump.target with
  | .decoded target =>
      if scan.isStart target.toNat then .ok ()
      else .error (.malformed jump.bci (.badBranchTarget target.toNat))
  -- Scanning reads decoded labels only; no position is named by a fresh one.
  | .fresh _ => .error (.malformed jump.bci (.badBranchTarget (-1)))

/-- Pass over a code array and check its jumps. -/
def run (code : Array UInt8) : Except Fault Scan := do
  let scan ← scanFrom code Cursor.start empty
  -- A jump may go forward, so its target is known to be a start only after the whole pass.
  scan.jumps.forM scan.checkJump
  return scan

/-- The label of a position that a table names: the start of an instruction or, if `isEnd`, also the end
of the code. -/
def tableLabel (scan : Scan) (length : Nat) (isEnd : Bool) (pc : Nat) : Except Fault Label :=
  if pc < 65536 ∧ (scan.isStart pc ∨ (isEnd ∧ pc = length)) then
    .ok (.decoded (UInt16.ofNat pc))
  else .error (.malformed pc (.badTablePc pc))

end Scan

end JvmCode
