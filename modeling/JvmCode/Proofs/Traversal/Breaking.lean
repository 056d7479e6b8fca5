import JvmCode.Proofs.Traversal.Agreement

/-! # Where code breaks off

A sweep over code comes through well-formed instructions to a place where the code is broken: a byte that
is no opcode, a byte that cannot follow `wide`, or an instruction that the end of the code cuts off. A
traversal reports this place and nothing else, whatever else is wrong with the attribute.

* **`Passes`** are the well-formed instructions, and **`Reaches`** the positions a sweep comes to through them.
* **`Breaks`** are the ways in which code can be broken at a position.
* `scanStep_of_passes` and `scanStep_of_breaks`: one step of the scan; `scanFrom_of_reaches`: all of them.
* `CodeAttribute.traversal_of_breaks`: the broken place is the first and only thing that a traversal gives. -/

namespace JvmCode

/-! ## Readers that run out of bytes -/

namespace Reader

variable {bytes : Array UInt8} {start : Cursor}

/-- Taking more bytes than are left fails at the mark. -/
theorem take_of_short {count : Nat} (short : bytes.size < start.position + count) :
    take count bytes start = .error (.malformed start.mark .truncated) start := by
  unfold take
  exact if_neg (Nat.not_le.mpr short)

/-- Passing over more bytes than are left fails at the mark. -/
theorem skip_of_short {count : Nat} (short : bytes.size < start.position + count) :
    skip count bytes start = .error (.malformed start.mark .truncated) start :=
  bind_of_error (take_of_short short)

/-- A word that does not fit into what is left fails at the mark. -/
theorem word_of_short {width : Nat} (short : bytes.size < start.position + width) :
    word width bytes start = .error (.malformed start.mark .truncated) start :=
  bind_of_error (take_of_short short)

/-- A byte behind the last one fails at the mark. -/
theorem u1_of_short (short : bytes.size < start.position + 1) :
    u1 bytes start = .error (.malformed start.mark .truncated) start :=
  bind_of_error (word_of_short short)

/-- A near offset that is cut off fails at the mark. -/
theorem i2_of_short (short : bytes.size < start.position + 2) :
    i2 bytes start = .error (.malformed start.mark .truncated) start :=
  bind_of_error (bind_of_error (word_of_short short))

/-- A far offset that is cut off fails at the mark. -/
theorem i4_of_short (short : bytes.size < start.position + 4) :
    i4 bytes start = .error (.malformed start.mark .truncated) start :=
  bind_of_error (bind_of_error (word_of_short short))

end Reader

/-! ## Well-formed instructions -/

/-- A well-formed instruction stands at `bci` and ends at a position. Without branch targets it only has to
be complete; with them it also has to fit its format, which shapes the switches, and every target has to be
a position that a label can name. -/
inductive Passes (code : Array UInt8) (bci : Nat) : Nat → Prop where
  /-- An instruction without branch targets. -/
  | plain {opcode : Opcode} {size : Nat} (stays : ∀ form, opcode.format ≠ .jump form)
      (fixed : opcode.fixedSize? = some size) (stands : Stands code bci opcode.bytes)
      (complete : bci + size ≤ code.size) : Passes code bci (bci + size)
  /-- An instruction with branch targets. -/
  | jump {i : Instruction} {form : JumpForm} {content : List UInt8}
      (jumps : i.opcode.format = .jump form) (fits : i.Fits) (spelled : i.Spelled bci content)
      (stands : Stands code bci content) : Passes code bci (bci + content.length)

/-- A sweep from the first byte comes to a position through well-formed instructions. -/
inductive Reaches (code : Array UInt8) : Nat → Prop where
  /-- The sweep starts at the first byte. -/
  | start : Reaches code 0
  /-- The sweep goes on behind a well-formed instruction. -/
  | step {bci next : Nat} (before : Reaches code bci) (passes : Passes code bci next) : Reaches code next

/-- The code is broken at a position. -/
inductive Breaks (code : Array UInt8) (bci : Nat) : Malformation → Prop where
  /-- The byte there is neither `wide` nor an opcode. -/
  | unknownOpcode {byte : UInt8} (stands : Stands code bci [byte]) (narrow : byte ≠ Opcode.wideByte)
      (undefined : ∀ opcode : Opcode, opcode.bytes ≠ [byte]) : Breaks code bci (.unknownOpcode byte)
  /-- The byte behind `wide` has no wide form. -/
  | unknownWideOpcode {byte : UInt8} (stands : Stands code bci [Opcode.wideByte, byte])
      (undefined : ∀ opcode : Opcode, opcode.bytes ≠ [Opcode.wideByte, byte]) :
      Breaks code bci (.unknownWideOpcode byte)
  /-- An instruction of a fixed size runs past the end. -/
  | truncated {opcode : Opcode} {size : Nat} (stands : Stands code bci opcode.bytes)
      (fixed : opcode.fixedSize? = some size) (cut : code.size < bci + size) : Breaks code bci .truncated
  /-- Nothing follows `wide`. -/
  | truncatedWide (stands : Stands code bci [Opcode.wideByte]) (cut : code.size < bci + 2) :
      Breaks code bci .truncated

/-! ## Single steps -/

variable {code : Array UInt8} {start : Cursor} {bci : Nat}

/-- The scan passes over well-formed instructions. -/
theorem scanStep_of_passes {next : Nat} (passes : Passes code start.position next) :
    start.position < code.size ∧
      ∃ targets, scanStep code start = .ok targets ⟨next, start.position⟩ := by
  cases passes with
  | @plain opcode size stays fixed stands complete =>
      have positive := fixedSize?_getD_pos opcode
      have width : opcode.fixedSize?.getD 1 = size := by rw [fixed, Option.getD_some]
      have step := scanStep_of_stands stays stands (by rw [width]; exact complete)
      rw [width] at positive step
      exact ⟨by omega, [], step⟩
  | @jump i form content jumps fits spelled stands =>
      have found : i.Found Pool.empty.resolver := by
        obtain ⟨opcode, operands⟩ := i
        change opcode.format = .jump form at jumps
        change operands.Fits opcode.format at fits
        rw [jumps] at fits
        -- Jumps name no symbols.
        cases fits <;> trivial
      have size := fits.length_spelled spelled
      have positive := i.size_pos start.position
      have inside := stands.le_size
      have read := (Instruction.read_eq_ok_iff stands.1).mpr ⟨fits, found, ⟨content, spelled, stands⟩, rfl⟩
      refine ⟨by omega, i.targets, ?_⟩
      rw [size]
      exact scanStep_of_read stands.1 read

/-- A byte that spells no opcode is not found. -/
theorem Opcode.ofByte_of_undefined {byte : UInt8} (undefined : ∀ opcode : Opcode, opcode.bytes ≠ [byte]) :
    ofByte byte = .error (.unknownOpcode byte) := by
  cases known : all.find? fun op => op.code.toNat == byte.toNat with
  | some opcode =>
      have found : ofByte byte = .ok opcode := by rw [ofByte_eq, known, Option.elim_some]
      exact absurd (bytes_of_ofByte found) (undefined opcode)
  | none => rw [ofByte_eq, known, Option.elim_none]

/-- A byte that spells no wide form is not found behind `wide`. -/
theorem Opcode.ofWideByte_of_undefined {byte : UInt8}
    (undefined : ∀ opcode : Opcode, opcode.bytes ≠ [wideByte, byte]) :
    ofWideByte byte = .error (.unknownWideOpcode byte) := by
  cases known : all.find? fun op => op.code.toNat == 0xc400 + byte.toNat with
  | some opcode =>
      have found : ofWideByte byte = .ok opcode := by rw [ofWideByte_eq, known, Option.elim_some]
      exact absurd (bytes_of_ofWideByte found) (undefined opcode)
  | none => rw [ofWideByte_eq, known, Option.elim_none]

/-- A byte that is neither `wide` nor an opcode is reported at the mark. -/
theorem readOpcode_of_undefined {byte : UInt8} (stands : Stands code start.position [byte])
    (narrow : byte ≠ Opcode.wideByte) (undefined : ∀ opcode : Opcode, opcode.bytes ≠ [byte]) :
    readOpcode code start = .error (.malformed start.mark (.unknownOpcode byte)) (start.forward 1) := by
  have first := Reader.u1_eq_ok_iff.mpr ⟨stands, rfl⟩
  refine (Reader.bind_of_ok first).trans ?_
  rw [if_neg narrow, Opcode.ofByte_of_undefined undefined]
  rfl

/-- A byte behind `wide` without a wide form is reported at the mark. -/
theorem readOpcode_of_undefined_wide {byte : UInt8} (stands : Stands code start.position [Opcode.wideByte, byte])
    (undefined : ∀ opcode : Opcode, opcode.bytes ≠ [Opcode.wideByte, byte]) :
    readOpcode code start = .error (.malformed start.mark (.unknownWideOpcode byte)) (start.forward 2) := by
  obtain ⟨here, behind⟩ := (@Stands.append_iff code start.position [_] [_]).mp stands
  have first := Reader.u1_eq_ok_iff.mpr ⟨here, rfl⟩
  have second := (@Reader.u1_eq_ok_iff code (start.forward 1) _ _).mpr ⟨behind, rfl⟩
  refine (Reader.bind_of_ok first).trans ?_
  rw [if_pos rfl]
  refine (Reader.bind_of_ok second).trans ?_
  rw [Opcode.ofWideByte_of_undefined undefined]
  rfl

/-- A missing byte behind `wide` is reported at the mark. -/
theorem readOpcode_of_cut (stands : Stands code start.position [Opcode.wideByte])
    (cut : code.size < start.position + 2) :
    readOpcode code start = .error (.malformed start.mark .truncated) (start.forward 1) := by
  have first := Reader.u1_eq_ok_iff.mpr ⟨stands, rfl⟩
  refine (Reader.bind_of_ok first).trans ?_
  rw [if_pos rfl]
  exact Reader.bind_of_error (Reader.u1_of_short cut)

/-- Operands of a fixed size that the end of the code cuts off are reported at the mark. -/
theorem scanOperands_of_short {opcode : Opcode} {size : Nat} {behind : Cursor}
    (opened : behind.position = bci + opcode.bytes.length) (fixed : opcode.fixedSize? = some size)
    (cut : code.size < bci + size) :
    ∃ stop, scanOperands bci opcode code behind = .error (.malformed behind.mark .truncated) stop := by
  by_cases jumps : ∃ form, opcode.format = .jump form
  · obtain ⟨form, jumps⟩ := jumps
    rw [Opcode.fixedSize?_eq_format, jumps] at fixed
    rw [scanOperands_of_jump jumps]
    -- Of the jumps only single offsets have a fixed size; reading one starts behind the opcode.
    cases form with
    | short =>
        have width : opcode.bytes.length + 2 = size := Option.some.inj fixed
        have short := @Reader.i2_of_short code behind (by omega)
        exact ⟨_, Reader.bind_of_error (Reader.bind_of_error (Reader.bind_of_error short))⟩
    | far =>
        have width : opcode.bytes.length + 4 = size := Option.some.inj fixed
        have short := @Reader.i4_of_short code behind (by omega)
        exact ⟨_, Reader.bind_of_error (Reader.bind_of_error (Reader.bind_of_error short))⟩
    | table => cases fixed
    | lookup => cases fixed
  · have stays : ∀ form, opcode.format ≠ .jump form := fun form same => jumps ⟨form, same⟩
    rw [scanOperands_of_not_jump stays, passOver, fixed]
    have sought : Reader.seek bci code behind = .ok () { behind with position := bci } := rfl
    have skipped := @Reader.skip_of_short code { behind with position := bci } size cut
    exact ⟨_, (Reader.bind_of_ok sought).trans (Reader.bind_of_error skipped)⟩

/-- The bytes of an opcode are not empty. -/
theorem Opcode.length_bytes_pos (opcode : Opcode) : 0 < opcode.bytes.length := by
  unfold bytes
  split <;> exact Nat.succ_pos _

/-- Where code is broken there is a byte. -/
theorem Breaks.lt_size {what : Malformation} (h : Breaks code bci what) : bci < code.size := by
  cases h with
  | unknownOpcode stands | truncatedWide stands => exact stands.le_size
  | unknownWideOpcode stands => exact Nat.lt_of_succ_lt stands.le_size
  | @truncated opcode size stands =>
      have inside := stands.le_size
      have nonempty := opcode.length_bytes_pos
      omega

/-- The scan stops where the code is broken, and says so. -/
theorem scanStep_of_breaks {what : Malformation} (breaks : Breaks code start.position what) :
    ∃ stop, scanStep code start = .error (.malformed start.position what) stop := by
  -- A step marks where it starts, and then reads an opcode and operands.
  have unfolded : scanStep code start =
      (readOpcode >>= scanOperands start.position) code (.startingAt start.position) := rfl
  rw [unfolded]
  cases breaks with
  | unknownOpcode stands narrow undefined =>
      have failed := @readOpcode_of_undefined code (.startingAt start.position) _ stands narrow undefined
      exact ⟨_, Reader.bind_of_error failed⟩
  | unknownWideOpcode stands undefined =>
      have failed := @readOpcode_of_undefined_wide code (.startingAt start.position) _ stands undefined
      exact ⟨_, Reader.bind_of_error failed⟩
  | @truncated opcode size stands fixed cut =>
      have opened := @readOpcode_of_stands code (.startingAt start.position) opcode stands
      rw [Reader.bind_of_ok opened]
      exact scanOperands_of_short rfl fixed cut
  | truncatedWide stands cut =>
      have failed := @readOpcode_of_cut code (.startingAt start.position) stands cut
      exact ⟨_, Reader.bind_of_error failed⟩

/-! ## Whole sweeps -/

/-- The scan comes to every position that a sweep reaches. -/
theorem scanFrom_of_reaches (reaches : Reaches code bci) :
    ∃ cursor scan, cursor.position = bci ∧
      scanFrom code Cursor.start Scan.empty = scanFrom code cursor scan := by
  induction reaches with
  | start => exact ⟨Cursor.start, Scan.empty, rfl, rfl⟩
  | step before passes ih =>
      obtain ⟨cursor, scan, rfl, same⟩ := ih
      obtain ⟨more, targets, step⟩ := scanStep_of_passes passes
      exact ⟨_, _, rfl, same.trans (scanFrom_of_step more step scan)⟩

/-- A scan fails with the first step that fails. -/
theorem scanFrom_of_step_error {cursor stop : Cursor} {fault : Fault} (more : cursor.position < code.size)
    (step : scanStep code cursor = .error fault stop) (scan : Scan) :
    scanFrom code cursor scan = .error fault := by
  rw [scanFrom, if_pos more]
  split
  · rename_i failed
    rw [step] at failed
    cases failed
    rfl
  · rename_i passed
    rw [step] at passed
    cases passed

/-- The scan reports the broken place that a sweep reaches. -/
theorem Scan.run_of_breaks {what : Malformation} (reaches : Reaches code bci) (breaks : Breaks code bci what) :
    Scan.run code = .error (.malformed bci what) := by
  obtain ⟨cursor, scan, rfl, same⟩ := scanFrom_of_reaches reaches
  obtain ⟨stop, failed⟩ := scanStep_of_breaks breaks
  rw [Scan.run, same, scanFrom_of_step_error breaks.lt_size failed scan]
  rfl

namespace CodeAttribute

/-- The first break decides. If a sweep through well-formed instructions `Reaches` a position `bci` at which the
code `Breaks` in some way `what`, the first call of `next` gives the fault `.malformed bci what` and every later
call gives nothing, `drain` gives that fault and no element, and `decode` fails with it. Neither the pool, nor
the tables, nor the options, nor what follows in the code can change that. -/
theorem traversal_of_breaks {attr : CodeAttribute} {bci : Nat} {what : Malformation}
    (reaches : Reaches attr.code bci) (breaks : Breaks attr.code bci what) (resolver : Resolver)
    (options : Options) :
    (∃ after, (Walk.start attr resolver options).next = (some (.error (.malformed bci what)), after) ∧
      after.next = (none, after)) ∧
    (∃ after, (Walk.start attr resolver options).drain = (#[], some (.malformed bci what), after)) ∧
    attr.decode resolver options = .error (.malformed bci what) := by
  have planned : Plan.make attr resolver options = .error (.malformed bci what) := by
    rw [Plan.make, Scan.run_of_breaks reaches breaks]
    rfl
  have first : (Walk.start attr resolver options).next =
      (some (.error (.malformed bci what)), (Walk.start attr resolver options).stopped) := by
    rw [Walk.start, planned]
    rfl
  have drained : (Walk.start attr resolver options).drain =
      (#[], some (.malformed bci what), (Walk.start attr resolver options).stopped) :=
    Walk.drainInto_of_next_error first _
  refine ⟨⟨_, first, rfl⟩, ⟨_, drained⟩, ?_⟩
  rw [decode, drained]

/-- An object of a class that the pool does not have, a jump to where no instruction starts, a byte that is no
opcode, and a handler outside the code. -/
def brokenBehindJump : CodeAttribute where
  code := #[0xbb, 0x00, 0x09, 0xa7, 0x00, 0x04, 0xcb, 0xff]
  exceptions := #[⟨90, 80, 70, 60⟩]

/-- A sweep passes over the object and the jump. -/
theorem reaches_brokenBehindJump : Reaches brokenBehindJump.code 6 := by
  have object : Passes brokenBehindJump.code 0 3 :=
    @Passes.plain _ 0 .new 3 nofun (by decide) (by decide) (by decide)
  have jump : Passes brokenBehindJump.code 3 6 :=
    @Passes.jump _ 3 ⟨.goto, .target (.decoded 7)⟩ .short [0xa7, 0x00, 0x04] (by decide) (.short _)
      (Instruction.spelled_of_encode (by decide +kernel)) (by decide)
  exact .step (.step .start object) jump

/-- The byte behind the jump is no opcode. -/
theorem breaks_brokenBehindJump : Breaks brokenBehindJump.code 6 (.unknownOpcode 0xcb) :=
  .unknownOpcode (by decide) (by decide) (by decide +kernel)

/-- Of all that is wrong, decoding reports the byte. -/
theorem traversal_of_breaks_brokenBehindJump :
    brokenBehindJump.decode Pool.empty.resolver {} = .error (.malformed 6 (.unknownOpcode 0xcb)) :=
  (traversal_of_breaks reaches_brokenBehindJump breaks_brokenBehindJump Pool.empty.resolver {}).2.2

end CodeAttribute

end JvmCode
