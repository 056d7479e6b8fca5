import JvmCode.Proofs.Instruction.Layout
import JvmCode.Proofs.Instruction.Reading

/-! # Code that reads as instructions

A code array is read as one list of instructions or not at all. The pass that scans code ahead of
decoding sees the same instructions, without their symbols.

* **`Reads`** says that code reads as a list of instructions from a position on, and `Reads.unique` that there is
  one such list only.
* `scanFrom_of_reads`: scanning such code finds where these instructions start and where they jump.
* `Scan.run_eq_ok_iff`: the scan accepts such code exactly when every jump lands on an instruction. -/

namespace JvmCode

/-- The instruction at `bci` reads as `i`. -/
def Instruction.ReadsAt (resolver : Resolver) (code : Array UInt8) (bci : Nat) (i : Instruction) :
    Prop :=
  i.Fits ∧ i.Found resolver ∧ ∃ content, i.Spelled bci content ∧ Stands code bci content

/-- The code from `bci` on reads as instructions up to its end. -/
def Reads (resolver : Resolver) (code : Array UInt8) : Nat → List Instruction → Prop
  | bci, [] => bci = code.size
  | bci, i :: rest => i.ReadsAt resolver code bci ∧ Reads resolver code (bci + i.size bci) rest

namespace Instruction

variable {resolver : Resolver} {code : Array UInt8} {bci : Nat} {i : Instruction}

/-- An instruction is read exactly when it reads as itself. -/
theorem read_eq_ok_iff_readsAt {start stop : Cursor} (inside : start.position ≤ code.size) :
    Instruction.read resolver code start = .ok i stop ↔
      i.ReadsAt resolver code start.position ∧
        stop = ⟨start.position + i.size start.position, start.position⟩ := by
  rw [read_eq_ok_iff inside, ReadsAt, and_assoc, and_assoc]

/-- An instruction that is read lies inside the code. -/
theorem ReadsAt.le_size (h : i.ReadsAt resolver code bci) : bci + i.size bci ≤ code.size := by
  obtain ⟨fits, -, content, spelled, stands⟩ := h
  rw [← fits.length_spelled spelled]
  exact stands.le_size

/-- An instruction is read in one way only. -/
theorem ReadsAt.unique {other : Instruction} (h : i.ReadsAt resolver code bci)
    (h' : other.ReadsAt resolver code bci) : i = other := by
  have inside : (Cursor.startingAt bci).position ≤ code.size :=
    Nat.le_trans (Nat.le_add_right _ _) h.le_size
  have first := (read_eq_ok_iff_readsAt inside).mpr ⟨h, rfl⟩
  have second := (read_eq_ok_iff_readsAt inside).mpr ⟨h', rfl⟩
  rw [first] at second
  injection second

end Instruction

namespace Reads

variable {resolver : Resolver} {code : Array UInt8} {bci : Nat} {is : List Instruction}

/-- The instructions that code reads as end where the code ends. -/
theorem endOf_eq (h : Reads resolver code bci is) : Instruction.endOf bci is = code.size := by
  induction is generalizing bci with
  | nil => exact h
  | cons i rest ih => exact ih h.2

/-- In front of the end of the code there is an instruction. -/
theorem exists_cons (h : Reads resolver code bci is) (more : bci < code.size) :
    ∃ i rest, is = i :: rest := by
  obtain _ | ⟨i, rest⟩ := is
  · exact absurd more (Nat.not_lt.mpr (Nat.le_of_eq (Eq.symm h)))
  · exact ⟨i, rest, rfl⟩

/-- The end of the code reads as no instruction. -/
theorem iff_of_end (ends : bci = code.size) : Reads resolver code bci is ↔ is = [] := by
  constructor
  · intro h
    cases is with
    | nil => rfl
    | cons i rest =>
        have positive := i.size_pos bci
        have behind := h.1.le_size
        omega
  · rintro rfl
    exact ends

/-- Code that starts with an instruction reads as that instruction and what is behind it. -/
theorem iff_of_readsAt {i : Instruction} (first : i.ReadsAt resolver code bci) :
    Reads resolver code bci is ↔ ∃ rest, is = i :: rest ∧ Reads resolver code (bci + i.size bci) rest := by
  constructor
  · intro h
    have positive := i.size_pos bci
    have behind := first.le_size
    obtain ⟨other, rest, rfl⟩ := h.exists_cons (by omega)
    obtain rfl := first.unique h.1
    exact ⟨rest, rfl, h.2⟩
  · rintro ⟨rest, rfl, h⟩
    exact ⟨first, h⟩

/-- Code does not read as instructions where reading fails. -/
theorem not_of_read_error {start cursor : Cursor} {fault : Fault} (more : start.position < code.size)
    (read : Instruction.read resolver code start = .error fault cursor) :
    ¬Reads resolver code start.position is := by
  intro h
  obtain ⟨i, rest, rfl⟩ := h.exists_cons more
  cases read.symm.trans ((Instruction.read_eq_ok_iff_readsAt (Nat.le_of_lt more)).mpr ⟨h.1, rfl⟩)

/-- Code reads as one list of instructions only. -/
theorem unique {js : List Instruction} (h : Reads resolver code bci is) (h' : Reads resolver code bci js) :
    is = js := by
  induction is generalizing bci js with
  | nil => exact ((iff_of_end h).mp h').symm
  | cons i rest ih =>
      obtain ⟨others, rfl, reads⟩ := (iff_of_readsAt h.1).mp h'
      rw [ih h.2 reads]

/-- Code reads as instructions exactly when each of them is read where it starts and they end with the
code. -/
theorem iff_located : Reads resolver code bci is ↔
    Instruction.endOf bci is = code.size ∧
      ∀ start i, (start, i) ∈ Instruction.located bci is → i.ReadsAt resolver code start := by
  induction is generalizing bci with
  | nil => simp [Reads, Instruction.located]
  | cons i rest ih =>
      -- The first instruction is located at the start, the others from its end on.
      rw [Reads, ih, Instruction.endOf, Instruction.located]
      simp only [List.mem_cons, Prod.mk.injEq]
      constructor
      · rintro ⟨first, ends, others⟩
        refine ⟨ends, ?_⟩
        rintro start other (⟨rfl, rfl⟩ | mem)
        · exact first
        · exact others start other mem
      · rintro ⟨ends, all⟩
        exact ⟨all bci i (.inl ⟨rfl, rfl⟩), ends, fun start other mem => all start other (.inr mem)⟩

/-- Code that instructions assemble to, with labels that name positions, reads as them. -/
theorem of_assemble (fits : ∀ i ∈ is, i.Fits) (found : ∀ i ∈ is, i.Found resolver)
    (assembled : assemble Label.named? 0 is = .ok code.toList) : Reads resolver code 0 is := by
  have ends := length_assemble fits assembled
  rw [Array.length_toList, Nat.zero_add] at ends
  refine iff_located.mpr ⟨ends.symm, fun start i mem => ?_⟩
  have within : i ∈ is := by
    rw [← Instruction.map_snd_located 0 is]
    exact List.mem_map_of_mem mem
  obtain ⟨content, encoded, stands⟩ :=
    stands_of_assemble fits assembled (Stands.rest (Nat.zero_le _)) mem
  exact ⟨fits i within, found i within, content, Instruction.spelled_of_encode encoded, stands⟩

/-- Every instruction that code reads as is read somewhere. -/
theorem exists_readsAt (h : Reads resolver code bci is) {i : Instruction} (mem : i ∈ is) :
    ∃ start, i.ReadsAt resolver code start := by
  induction is generalizing bci with
  | nil => cases mem
  | cons first rest ih =>
      obtain rfl | mem := List.mem_cons.mp mem
      · exact ⟨bci, h.1⟩
      · exact ih h.2 mem

/-- Every instruction that code reads as fits. -/
theorem fits (h : Reads resolver code bci is) : ∀ i ∈ is, i.Fits := by
  intro i mem
  obtain ⟨start, fits, -⟩ := h.exists_readsAt mem
  exact fits

/-- Every instruction that code reads as is found in the pool. -/
theorem found (h : Reads resolver code bci is) : ∀ i ∈ is, i.Found resolver := by
  intro i mem
  obtain ⟨start, -, found, -⟩ := h.exists_readsAt mem
  exact found

end Reads

/-! ## Scanning -/

/-- A scan passes over an instruction that has a fixed size and gives no targets. -/
theorem passOver_eq_ok {code : Array UInt8} {bci : Nat} {opcode : Opcode} {start : Cursor}
    (enough : bci + opcode.fixedSize?.getD 1 ≤ code.size) :
    passOver bci opcode code start = .ok [] ⟨bci + opcode.fixedSize?.getD 1, start.mark⟩ := by
  refine Reader.bind_eq_ok_iff.mpr ⟨(), ⟨bci, start.mark⟩, rfl, ?_⟩
  refine Reader.bind_eq_ok_iff.mpr ⟨(), _, ?_, rfl⟩
  have stands : Stands code bci ((code.toList.drop bci).take (opcode.fixedSize?.getD 1)) :=
    ⟨by omega, List.take_prefix _ _⟩
  refine Reader.skip_eq_ok_iff.mpr ⟨_, ?_, stands, rfl⟩
  rw [List.length_take, List.length_drop, Array.length_toList]
  omega

/-- Operands that fit a format without jump have no targets, and their size is that of the opcode. -/
theorem Instruction.Fits.of_not_jump {i : Instruction} (fits : i.Fits)
    (stays : ∀ form, i.opcode.format ≠ .jump form) (bci : Nat) :
    i.targets = [] ∧ i.size bci = i.opcode.fixedSize?.getD 1 := by
  obtain ⟨opcode, operands⟩ := i
  change operands.Fits opcode.format at fits
  change ∀ form, opcode.format ≠ .jump form at stays
  generalize opcode.format = format at fits stays
  cases fits with
  | short | far | table | lookup => exact absurd rfl (stays _)
  | _ => exact ⟨rfl, rfl⟩

/-- Where an instruction is read, a scan gives its targets and passes over it. -/
theorem scanStep_of_read {resolver : Resolver} {code : Array UInt8} {start stop : Cursor}
    {i : Instruction} (inside : start.position ≤ code.size)
    (h : Instruction.read resolver code start = .ok i stop) :
    scanStep code start = .ok i.targets stop := by
  obtain ⟨readsAt, rfl⟩ := (Instruction.read_eq_ok_iff_readsAt inside).mp h
  obtain ⟨_, _, ⟨⟩, h⟩ := Reader.bind_eq_ok_iff.mp h
  obtain ⟨_, _, ⟨⟩, h⟩ := Reader.bind_eq_ok_iff.mp h
  obtain ⟨opcode, behind, opened, h⟩ := Reader.bind_eq_ok_iff.mp h
  obtain ⟨operands, _, given, h⟩ := Reader.bind_eq_ok_iff.mp h
  obtain ⟨rfl, rfl⟩ := Reader.pure_eq_ok_iff.mp h
  refine Reader.bind_eq_ok_iff.mpr ⟨_, _, rfl, Reader.bind_eq_ok_iff.mpr ⟨_, _, rfl,
    Reader.bind_eq_ok_iff.mpr ⟨opcode, behind, opened, ?_⟩⟩⟩
  -- Jumps are read alike by both; all else is passed over by its fixed size.
  by_cases jumps : ∃ form, opcode.format = .jump form
  · obtain ⟨form, jumps⟩ := jumps
    rw [readOperands, jumps] at given
    rw [scanOperands_of_jump jumps]
    exact Reader.bind_eq_ok_iff.mpr ⟨operands, _, given, rfl⟩
  · have stays : ∀ form, opcode.format ≠ .jump form := fun form same => jumps ⟨form, same⟩
    obtain ⟨none, size⟩ := readsAt.1.of_not_jump stays start.position
    have enough := readsAt.le_size
    rw [size] at enough
    -- The opcode was read behind the mark, which stays where the instruction starts.
    have marked : behind.mark = start.position := by
      obtain ⟨content, -, -, rfl⟩ := (@spells_readOpcode code ⟨start.position, start.position⟩ inside
        opcode behind).mp opened
      rfl
    rw [scanOperands_of_not_jump stays, passOver_eq_ok enough, none, size, marked]

/-- Note all instructions of a listing. -/
def Scan.noteAll (scan : Scan) (listing : List (Nat × Instruction)) : Scan :=
  listing.foldl (fun scan entry => scan.note entry.1 entry.2.targets) scan

/-- A scan that passes over an instruction notes it and goes on behind it. -/
theorem scanFrom_of_step {code : Array UInt8} {cursor next : Cursor} {targets : List Label}
    (more : cursor.position < code.size) (step : scanStep code cursor = .ok targets next)
    (scan : Scan) :
    scanFrom code cursor scan = scanFrom code next (scan.note cursor.position targets) := by
  rw [scanFrom, if_pos more]
  split
  · rename_i failed
    rw [step] at failed
    cases failed
  · rename_i passed
    rw [step] at passed
    cases passed
    rfl

/-- Scanning code notes the instructions that it reads as. -/
theorem scanFrom_of_reads {resolver : Resolver} {code : Array UInt8} {is : List Instruction}
    {cursor : Cursor} {scan : Scan} (reads : Reads resolver code cursor.position is) :
    scanFrom code cursor scan = .ok (scan.noteAll (Instruction.located cursor.position is)) := by
  induction is generalizing cursor scan with
  | nil =>
      rw [scanFrom, if_neg (Nat.not_lt.mpr (Nat.le_of_eq (Eq.symm reads)))]
      rfl
  | cons i rest ih =>
      have enough := reads.1.le_size
      have positive := i.size_pos cursor.position
      -- The scan makes the same step as reading, so it comes to the same position.
      have step := scanStep_of_read (by omega)
        ((Instruction.read_eq_ok_iff_readsAt (by omega)).mpr ⟨reads.1, rfl⟩)
      rw [scanFrom_of_step (by omega) step]
      exact @ih ⟨_, _⟩ _ reads.2

/-- A label names the start of one of the instructions. -/
def Label.Lands (is : List Instruction) (label : Label) : Prop :=
  ∃ position, label.named? = some position ∧ Instruction.Starts is position

namespace Scan

/-- Before anything is noted there are no starts. -/
theorem isStart_empty (position : Nat) : empty.isStart position = false := by
  rw [isStart, empty, Std.HashSet.contains_empty]

/-- The starts after noting an instruction are its position and those already noted. -/
theorem isStart_note {scan : Scan} {bci position : Nat} {targets : List Label} :
    (scan.note bci targets).isStart position = true ↔
      scan.isStart position = true ∨ position = bci := by
  rw [isStart, note, Std.HashSet.contains_insert, Bool.or_eq_true, beq_iff_eq, or_comm, @eq_comm _ bci]
  rfl

/-- The starts after noting a listing are those of the listing and those already noted. -/
theorem isStart_noteAll {scan : Scan} {listing : List (Nat × Instruction)} {position : Nat} :
    (scan.noteAll listing).isStart position = true ↔
      scan.isStart position = true ∨ ∃ i, (position, i) ∈ listing := by
  induction listing generalizing scan with
  | nil => simp [noteAll]
  | cons entry rest ih =>
      obtain ⟨bci, i⟩ := entry
      change (Scan.noteAll (scan.note bci i.targets) rest).isStart position = true ↔ _
      rw [ih, isStart_note, or_assoc]
      simp only [List.mem_cons, Prod.mk.injEq, exists_or, exists_and_left, exists_eq, and_true]

/-- The jumps after noting a listing are those already noted and those of the listing. -/
theorem jumps_noteAll (scan : Scan) (listing : List (Nat × Instruction)) :
    (scan.noteAll listing).jumps.toList =
      scan.jumps.toList ++ listing.flatMap fun entry => entry.2.targets.map (Jump.mk entry.1) := by
  induction listing generalizing scan with
  | nil => simp [noteAll]
  | cons entry rest ih =>
      change (Scan.noteAll (scan.note entry.1 entry.2.targets) rest).jumps.toList = _
      rw [ih, note, Array.toList_appendList, List.append_assoc, List.flatMap_cons]

/-- A position is a start exactly when an instruction of the code starts there. -/
theorem isStart_located {is : List Instruction} {position : Nat} :
    (empty.noteAll (Instruction.located 0 is)).isStart position = true ↔
      Instruction.Starts is position := by
  rw [isStart_noteAll, isStart_empty]
  simp [Instruction.Starts]

/-- A jump is accepted exactly when its target names the start of an instruction. -/
theorem checkJump_eq_ok_iff {is : List Instruction} {jump : Jump} :
    (empty.noteAll (Instruction.located 0 is)).checkJump jump = .ok () ↔ jump.target.Lands is := by
  rw [checkJump]
  cases jump.target with
  | decoded bci =>
      simp only [Label.Lands, Label.named?, Option.some.injEq, exists_eq_left']
      rw [← isStart_located]
      split <;> simp_all
  | fresh serial => simp [Label.Lands, Label.named?]

/-- The targets of all jumps of a listing are those of its instructions. -/
theorem map_target_jumps (bci : Nat) (is : List Instruction) :
    (empty.noteAll (Instruction.located bci is)).jumps.toList.map Jump.target =
      is.flatMap Instruction.targets := by
  rw [jumps_noteAll, show empty.jumps.toList = [] from rfl, List.nil_append, List.map_flatMap]
  simp only [List.map_map]
  conv_rhs => rw [← Instruction.map_snd_located bci is, List.flatMap_map]
  apply List.flatMap_congr
  intro entry _
  exact List.map_id _

/-- The scan of code accepts it exactly when every jump lands on the start of an instruction. -/
theorem run_eq_ok_iff {resolver : Resolver} {code : Array UInt8} {is : List Instruction}
    (reads : Reads resolver code 0 is) {scan : Scan} :
    run code = .ok scan ↔
      (∀ i ∈ is, ∀ target ∈ i.targets, target.Lands is) ∧
        scan = empty.noteAll (Instruction.located 0 is) := by
  have found : scanFrom code Cursor.start empty =
      .ok (empty.noteAll (Instruction.located 0 is)) := scanFrom_of_reads reads
  have accepted : (empty.noteAll (Instruction.located 0 is)).jumps.forM
      (empty.noteAll (Instruction.located 0 is)).checkJump = .ok () ↔
        ∀ i ∈ is, ∀ target ∈ i.targets, target.Lands is := by
    rw [← List.forall_mem_flatMap, ← map_target_jumps 0 is, List.forall_mem_map]
    simp only [Outcome.arrayForM_eq_ok_iff, checkJump_eq_ok_iff, Array.mem_toList_iff]
  rw [run, found]
  simp only [Outcome.bind_eq_ok_iff, Except.ok.injEq, exists_eq_left', Outcome.pure_eq_ok_iff]
  constructor
  · rintro ⟨⟨⟩, checked, rfl⟩
    exact ⟨accepted.mp checked, rfl⟩
  · rintro ⟨lands, rfl⟩
    exact ⟨(), accepted.mpr lands, rfl⟩

end Scan

end JvmCode
