import JvmCode.Proofs.Instruction.Consuming
import JvmCode.Proofs.Traversal.Decoding

/-! # The scan and the traversal see the same instructions

Code is passed over twice: once to find where its instructions start, passing over most of them by
their size, and once to decode them. Both passes come to the same positions.

* `read_of_scanStep`: where the scan passes over an instruction, reading stops at the same place or
  fails for a reason that the scan does not look at.
* **`Scans`** lists the positions that the scan comes to; `exists_scans` ties it to what is recorded.
* **`Walk.readPositions`** are the positions where a traversal reads instructions.
* **`Scan.Agrees`** says that the positions read are the recorded starts, up to the first that cannot be
  read; `CodeAttribute.scan_agrees` that they are, once a plan is made. -/

namespace JvmCode

/-! ## One instruction -/

/-- An opcode is read where its bytes stand. -/
theorem readOpcode_of_stands {code : Array UInt8} {start : Cursor} {opcode : Opcode}
    (stands : Stands code start.position opcode.bytes) :
    readOpcode code start = .ok opcode (start.forward opcode.bytes.length) :=
  (spells_readOpcode stands.1 _ _).mpr ⟨_, rfl, stands, rfl⟩

/-- A scan passes over an instruction without branch targets where its opcode stands. -/
theorem scanStep_of_stands {code : Array UInt8} {start : Cursor} {opcode : Opcode}
    (stays : ∀ form, opcode.format ≠ .jump form) (stands : Stands code start.position opcode.bytes)
    (enough : start.position + opcode.fixedSize?.getD 1 ≤ code.size) :
    scanStep code start =
      .ok [] ⟨start.position + opcode.fixedSize?.getD 1, start.position⟩ := by
  have opened := @readOpcode_of_stands code (.startingAt start.position) opcode stands
  have unfolded : scanStep code start = scanOperands start.position opcode code
      ((Cursor.startingAt start.position).forward opcode.bytes.length) := Reader.bind_of_ok opened
  rw [unfolded, scanOperands_of_not_jump stays, passOver_eq_ok enough]
  rfl

/-- Once its opcode is read, the rest of an instruction is its operands. -/
theorem Instruction.read_of_opcode {resolver : Resolver} {code : Array UInt8} {start behind : Cursor}
    {opcode : Opcode} (opened : readOpcode code (.startingAt start.position) = .ok opcode behind) :
    Instruction.read resolver code start =
      (readOperands resolver start.position opcode >>= fun operands =>
        pure ⟨opcode, operands⟩) code behind :=
  Reader.bind_of_ok opened

/-- Where the scan passes over an instruction, reading it stops at the same place or fails for a reason
that the scan does not look at. -/
theorem read_of_scanStep {code : Array UInt8} {start stop : Cursor} {targets : List Label}
    (inside : start.position ≤ code.size) (scanned : scanStep code start = .ok targets stop)
    (resolver : Resolver) :
    (∃ i, Instruction.read resolver code start = .ok i stop) ∨
      ∃ fault failed, Instruction.read resolver code start = .error fault failed ∧
        fault.UnseenAt start.position := by
  obtain ⟨_, _, ⟨⟩, scanned⟩ := Reader.bind_eq_ok_iff.mp scanned
  obtain ⟨_, _, ⟨⟩, scanned⟩ := Reader.bind_eq_ok_iff.mp scanned
  obtain ⟨opcode, behind, opened, scanned⟩ := Reader.bind_eq_ok_iff.mp scanned
  rw [Instruction.read_of_opcode opened]
  by_cases jumps : ∃ form, opcode.format = .jump form
  · -- Branch targets are read alike by both.
    obtain ⟨form, jumps⟩ := jumps
    rw [scanOperands_of_jump jumps] at scanned
    obtain ⟨operands, _, given, same⟩ := Reader.bind_eq_ok_iff.mp scanned
    obtain ⟨-, rfl⟩ := Reader.pure_eq_ok_iff.mp same
    have read : readOperands resolver start.position opcode = form.read start.position := by
      rw [readOperands, jumps]
    refine .inl ⟨⟨opcode, operands⟩, ?_⟩
    rw [read]
    exact Reader.bind_eq_ok_iff.mpr ⟨operands, _, given, rfl⟩
  · -- All else is passed over by its size, which is what reading the operands takes.
    have stays : ∀ form, opcode.format ≠ .jump form := fun form same => jumps ⟨form, same⟩
    rw [scanOperands_of_not_jump stays] at scanned
    obtain ⟨_, _, ⟨⟩, scanned⟩ := Reader.bind_eq_ok_iff.mp scanned
    obtain ⟨_, _, skipped, same⟩ := Reader.bind_eq_ok_iff.mp scanned
    obtain ⟨-, rfl⟩ := Reader.pure_eq_ok_iff.mp same
    obtain ⟨content, size, stands, rfl⟩ := Reader.skip_eq_ok_iff.mp skipped
    obtain ⟨_, rfl, -, rfl⟩ := (@spells_readOpcode code (.startingAt start.position) inside
      opcode behind).mp opened
    have enough := stands.le_size
    rw [size, Opcode.fixedSize?_getD stays] at enough
    have consumes := (Reader.Consumes.readOperands stays resolver start.position).bind
      fun operands => Reader.Consumes.pure (Instruction.mk opcode operands)
    have outcome := @consumes code ((Cursor.startingAt start.position).forward opcode.bytes.length)
      (by simpa [Cursor.startingAt, Nat.add_assoc] using enough)
    rw [Opcode.fixedSize?_getD stays]
    rw [Cursor.forward_forward] at outcome
    exact outcome

/-! ## The positions of the scan -/

/-- Scanning from a position on comes to the listed positions, up to the end of the code. -/
inductive Scans (code : Array UInt8) : Nat → List Nat → Prop where
  /-- At the end of the code the scan is over. -/
  | done {bci : Nat} (ends : code.size ≤ bci) : Scans code bci []
  /-- An instruction is passed over, and the scan goes on behind it. -/
  | step {bci : Nat} {targets : List Label} {next : Cursor} {rest : List Nat} (more : bci < code.size)
      (scanned : scanStep code (.startingAt bci) = .ok targets next)
      (others : Scans code next.position rest) : Scans code bci (bci :: rest)

namespace Scans

variable {code : Array UInt8} {bci : Nat} {starts : List Nat}

/-- A scan comes to no position in front of where it is. -/
theorem le_of_mem (h : Scans code bci starts) : ∀ start ∈ starts, bci ≤ start := by
  induction h with
  | done => simp
  | @step bci targets next rest more scanned others ih =>
      have moved : bci < next.position := scanStep_position_lt scanned
      intro start mem
      obtain rfl | mem := List.mem_cons.mp mem
      · exact Nat.le_refl _
      · have behind := ih start mem
        omega

/-- With bytes left, a scan comes to where it is. -/
theorem mem_of_lt (h : Scans code bci starts) (more : bci < code.size) : bci ∈ starts := by
  cases h with
  | done ends => omega
  | step => exact List.mem_cons_self ..

/-- A scan passes over an instruction at each position it comes to. -/
theorem exists_scanStep (h : Scans code bci starts) {start : Nat} (mem : start ∈ starts) :
    start < code.size ∧ ∃ targets next, scanStep code (.startingAt start) = .ok targets next := by
  induction h with
  | done => simp at mem
  | step more scanned others ih =>
      obtain rfl | mem := List.mem_cons.mp mem
      · exact ⟨more, _, _, scanned⟩
      · exact ih mem

/-- Behind an instruction that is read, a scan comes to the next position or to the end. -/
theorem next_of_read (h : Scans code bci starts) {resolver : Resolver} {cursor stop : Cursor}
    {i : Instruction} (mem : cursor.position ∈ starts)
    (read : Instruction.read resolver code cursor = .ok i stop) :
    (stop.position ∈ starts ∨ stop.position = code.size) ∧
      ∀ start ∈ starts, cursor.position < start → stop.position ≤ start := by
  induction h with
  | done => simp at mem
  | @step bci targets next rest more scanned others ih =>
      have moved : bci < next.position := scanStep_position_lt scanned
      obtain here | later := List.mem_cons.mp mem
      · -- The scan passed over this instruction to where reading it stops.
        subst here
        have inside : cursor.position ≤ code.size := Nat.le_of_lt more
        have same : scanStep code (.startingAt cursor.position) = .ok i.targets stop :=
          scanStep_of_read inside read
        rw [scanned] at same
        obtain ⟨-, rfl⟩ := EStateM.Result.ok.inj same
        have within : next.position ≤ code.size := by
          obtain ⟨readsAt, rfl⟩ := (Instruction.read_eq_ok_iff_readsAt inside).mp read
          exact readsAt.le_size
        refine ⟨?_, fun start mem after => ?_⟩
        · by_cases ended : next.position < code.size
          · exact .inl (List.mem_cons_of_mem _ (others.mem_of_lt ended))
          · exact .inr (by omega)
        · obtain rfl | mem := List.mem_cons.mp mem
          · omega
          · exact others.le_of_mem start mem
      · obtain ⟨behind, first⟩ := ih later
        refine ⟨behind.imp_left (List.mem_cons_of_mem _), fun start mem after => ?_⟩
        obtain rfl | mem := List.mem_cons.mp mem
        · have := others.le_of_mem _ later
          omega
        · exact first start mem after

end Scans

/-- What the scan records are the positions that it comes to. -/
theorem exists_scans {code : Array UInt8} {cursor : Cursor} {scan result : Scan}
    (h : scanFrom code cursor scan = .ok result) :
    ∃ starts, Scans code cursor.position starts ∧ ∀ position,
      result.isStart position = true ↔ scan.isStart position = true ∨ position ∈ starts := by
  induction cursor, scan using scanFrom.induct code with
  | case1 cursor scan more fault _ failed =>
      rw [scanFrom, if_pos more] at h
      split at h
      · cases h
      · simp_all
  | case2 cursor scan more targets next step moved ih =>
      rw [scanFrom_of_step more step] at h
      obtain ⟨starts, scans, recorded⟩ := ih h
      refine ⟨cursor.position :: starts, .step more step scans, fun position => ?_⟩
      rw [recorded, Scan.isStart_note, List.mem_cons, or_assoc]
  | case3 cursor scan ends =>
      rw [scanFrom, if_neg ends, Except.ok.injEq] at h
      subst h
      exact ⟨[], .done (Nat.le_of_not_lt ends), fun position => by simp⟩

/-! ## The positions of the traversal -/

namespace Walk

/-- The position where the next step of a traversal reads an instruction, if it reads one. -/
def readsHere (walk : Walk) : List Nat :=
  if walk.status = .running ∧ walk.queue = [] ∧ walk.cursor.position < walk.code.size then
    [walk.cursor.position]
  else []

/-- The positions where a traversal reads instructions, taking all its steps. -/
def readPositions (walk : Walk) : List Nat :=
  walk.readsHere ++
    match h : walk.next with
    | (some (.ok _), after) =>
        have := next_decreases h
        after.readPositions
    | _ => []
termination_by (walk.bytesLeft, walk.queue.length)
decreasing_by
  simp only [Prod.lex_def]
  exact this

variable {walk : Walk}

/-- A traversal whose next step is an element reads on behind it. -/
theorem readPositions_of_next_ok {after : Walk} {element : Element}
    (h : walk.next = (some (.ok element), after)) :
    walk.readPositions = walk.readsHere ++ after.readPositions := by
  rw [readPositions]
  split <;> simp_all

/-- A traversal whose next step is no element reads nothing behind it. -/
theorem readPositions_of_next_ne_ok (h : ∀ element, walk.next.1 ≠ some (.ok element)) :
    walk.readPositions = walk.readsHere := by
  rw [readPositions]
  split <;> simp_all

/-- Traversals with the same next step read the same behind it. -/
theorem readPositions_of_next_eq {other : Walk} (same : walk.next = other.next)
    (idle : other.readsHere = []) : walk.readPositions = walk.readsHere ++ other.readPositions := by
  by_cases given : ∃ element, other.next.1 = some (.ok element)
  · obtain ⟨element, given⟩ := given
    have step : other.next = (some (.ok element), other.next.2) := Prod.ext given rfl
    rw [readPositions_of_next_ok (same.trans step), readPositions_of_next_ok step, idle, List.nil_append]
  · have none : ∀ element, other.next.1 ≠ some (.ok element) := fun element h => given ⟨element, h⟩
    rw [readPositions_of_next_ne_ok (same ▸ none), readPositions_of_next_ne_ok none, idle,
      List.append_nil]

/-- While elements are already decoded, nothing is read. -/
theorem readPositions_of_queue (unfailed : ∀ fault, walk.status ≠ .failing fault) :
    walk.readPositions = { walk with queue := [] }.readPositions := by
  obtain ⟨code, resolver, labels, lines, queue, cursor, status⟩ := walk
  change ∀ fault, status ≠ .failing fault at unfailed
  induction queue with
  | nil => rfl
  | cons element rest ih =>
      rw [readPositions_of_next_ok (next_of_queue unfailed rfl), ih]
      simp [readsHere]

/-- At the end of the code nothing is read. -/
theorem readPositions_of_end (running : walk.status = .running) (empty : walk.queue = [])
    (ends : ¬walk.cursor.position < walk.code.size) : walk.readPositions = [] := by
  have here : walk.readsHere = [] := by simp [readsHere, ends]
  rw [readPositions_of_next_eq (next_of_end running empty ends) (by simp [readsHere]), here,
    readPositions_of_queue (fun _ failing => by cases failing)]
  exact readPositions_of_next_ne_ok fun _ given => nomatch given

/-- Behind an instruction that is read, the traversal reads on. -/
theorem readPositions_of_read {i : Instruction} {cursor : Cursor} (running : walk.status = .running)
    (empty : walk.queue = []) (inside : walk.cursor.position < walk.code.size)
    (read : Instruction.read walk.resolver walk.code walk.cursor = .ok i cursor) :
    walk.readPositions =
      walk.cursor.position :: { walk with queue := [], cursor }.readPositions := by
  have here : walk.readsHere = [walk.cursor.position] := by
    simp [readsHere, running, empty, inside]
  rw [readPositions_of_next_eq (next_of_read running empty inside read) (by simp [readsHere]), here,
    readPositions_of_queue (by simp [running]), List.singleton_append]

/-- An instruction that cannot be read is the last that a traversal tries. -/
theorem readPositions_of_read_error {fault : Fault} {cursor : Cursor}
    (running : walk.status = .running) (empty : walk.queue = [])
    (inside : walk.cursor.position < walk.code.size)
    (read : Instruction.read walk.resolver walk.code walk.cursor = .error fault cursor) :
    walk.readPositions = [walk.cursor.position] := by
  rw [readPositions_of_next_ne_ok]
  · simp [readsHere, running, empty, inside]
  · simp [next_of_read_error running empty inside read]

/-- A traversal reads at the positions of the scan in turn, up to the first that cannot be read. -/
theorem mem_readPositions_iff {starts : List Nat} (running : walk.status = .running)
    (empty : walk.queue = []) (scans : Scans walk.code walk.cursor.position starts) :
    walk.readPositions.Pairwise (· < ·) ∧ ∀ bci, bci ∈ walk.readPositions ↔
      bci ∈ starts ∧ ∀ earlier ∈ starts, earlier < bci →
        ∃ i stop, Instruction.read walk.resolver walk.code (.startingAt earlier) = .ok i stop := by
  generalize located : walk.cursor.position = position at scans
  generalize coded : walk.code = code at scans
  -- The induction is on what the scan passes over; the walk follows it.
  induction scans generalizing walk with
  | @done position ends =>
      subst located coded
      rw [readPositions_of_end running empty (Nat.not_lt.mpr ends)]
      simp
  | @step position targets next rest more scanned others ih =>
      subst located coded
      have moved : walk.cursor.position < next.position := scanStep_position_lt scanned
      have later : ∀ start ∈ rest, walk.cursor.position < start := fun start mem =>
        Nat.lt_of_lt_of_le moved (others.le_of_mem start mem)
      have first : ∀ start ∈ walk.cursor.position :: rest, ¬start < walk.cursor.position := by
        intro start mem
        obtain rfl | mem := List.mem_cons.mp mem
        · exact Nat.lt_irrefl _
        · exact Nat.lt_asymm (later start mem)
      obtain ⟨i, read⟩ | ⟨fault, failed, read, -⟩ :=
        read_of_scanStep (Nat.le_of_lt more) scanned walk.resolver
      · obtain ⟨ascending, mem_iff⟩ := @ih { walk with queue := [], cursor := next } running rfl rfl rfl
        rw [readPositions_of_read running empty more read]
        refine ⟨List.pairwise_cons.mpr ⟨fun bci mem => later bci ((mem_iff bci).mp mem).1, ascending⟩,
          fun bci => ?_⟩
        rw [List.mem_cons, mem_iff]
        constructor
        · rintro (rfl | ⟨mem, reads⟩)
          · exact ⟨List.mem_cons_self .., fun earlier mem before => absurd before (first earlier mem)⟩
          · exact ⟨List.mem_cons_of_mem _ mem,
              List.forall_mem_cons.mpr ⟨fun _ => ⟨i, next, read⟩, reads⟩⟩
        · rintro ⟨mem, reads⟩
          exact (List.mem_cons.mp mem).imp_right fun mem => ⟨mem, (List.forall_mem_cons.mp reads).2⟩
      · rw [readPositions_of_read_error running empty more read]
        refine ⟨List.pairwise_singleton .., fun bci => ?_⟩
        rw [List.mem_singleton]
        constructor
        · rintro rfl
          exact ⟨List.mem_cons_self .., fun earlier mem before => absurd before (first earlier mem)⟩
        · rintro ⟨mem, reads⟩
          obtain here | mem := List.mem_cons.mp mem
          · exact here
          -- Nothing behind the instruction that cannot be read is ever read.
          · obtain ⟨i, stop, given⟩ := reads _ (List.mem_cons_self ..) (later bci mem)
            cases given.symm.trans read

/-- The fault that ends a traversal is one that the scan does not look at, in an instruction that the
traversal tried to read. -/
theorem unseenAt_of_drainInto {starts : List Nat} (running : walk.status = .running)
    (empty : walk.queue = []) (scans : Scans walk.code walk.cursor.position starts)
    {before elements : Array Element} {fault : Fault} {after : Walk}
    (drained : walk.drainInto before = (elements, some fault, after)) :
    ∃ bci ∈ walk.readPositions, fault.UnseenAt bci := by
  generalize located : walk.cursor.position = position at scans
  generalize coded : walk.code = code at scans
  induction scans generalizing walk before with
  | @done position ends =>
      subst located coded
      rw [drainInto_of_end running empty (Nat.not_lt.mpr ends)] at drained
      cases drained
  | @step position targets next rest more scanned others ih =>
      subst located coded
      obtain ⟨i, read⟩ | ⟨cause, failed, read, unseen⟩ :=
        read_of_scanStep (Nat.le_of_lt more) scanned walk.resolver
      · rw [drainInto_of_read running empty more read] at drained
        obtain ⟨bci, mem, unseen⟩ :=
          @ih { walk with queue := [], cursor := next } running rfl _ drained rfl rfl
        rw [readPositions_of_read running empty more read]
        exact ⟨bci, List.mem_cons_of_mem _ mem, unseen⟩
      · rw [drainInto_of_read_error running empty more read] at drained
        cases drained
        rw [readPositions_of_read_error running empty more read]
        exact ⟨_, List.mem_singleton_self _, unseen⟩

end Walk

/-! ## Agreement -/

/-- The positions where instructions are read agree with what a scan has recorded. -/
structure Scan.Agrees (scan : Scan) (resolver : Resolver) (code : Array UInt8)
    (positions : List Nat) : Prop where
  /-- Instructions are read in ascending order. -/
  ascending : positions.Pairwise (· < ·)
  /-- They are read at the recorded starts, up to the first that cannot be read. -/
  mem_iff : ∀ bci, bci ∈ positions ↔ scan.isStart bci = true ∧
    ∀ earlier, scan.isStart earlier = true → earlier < bci →
      ∃ i stop, Instruction.read resolver code (.startingAt earlier) = .ok i stop
  /-- An instruction that is read ends at the next recorded start or with the code. -/
  ends : ∀ cursor i stop, cursor.position ∈ positions →
    Instruction.read resolver code cursor = .ok i stop →
      (scan.isStart stop.position = true ∨ stop.position = code.size) ∧
        cursor.position < stop.position ∧
        ∀ start, scan.isStart start = true → cursor.position < start → stop.position ≤ start
  /-- An instruction that cannot be read fails for a reason that the scan does not look at. -/
  unseen : ∀ cursor fault stop, cursor.position ∈ positions →
    Instruction.read resolver code cursor = .error fault stop → fault.UnseenAt cursor.position

namespace CodeAttribute

variable {attr : CodeAttribute} {resolver : Resolver} {options : Options} {plan : Plan}

/-- Behind a plan there is a scan. -/
theorem exists_scan_of_plan (planned : Plan.make attr resolver options = .ok plan) :
    ∃ scan starts, Scan.run attr.code = .ok scan ∧ Scans attr.code 0 starts ∧
      ∀ position, scan.isStart position = true ↔ position ∈ starts := by
  obtain ⟨scan, scanned, -⟩ := Outcome.bind_eq_ok_iff.mp planned
  obtain ⟨found, passed, checked⟩ := Outcome.bind_eq_ok_iff.mp scanned
  obtain ⟨-, -, same⟩ := Outcome.bind_eq_ok_iff.mp checked
  obtain rfl := Outcome.pure_eq_ok_iff.mp same
  obtain ⟨starts, scans, recorded⟩ := exists_scans passed
  refine ⟨found, starts, scanned, scans, fun position => ?_⟩
  simp [recorded, Scan.isStart_empty]

/-- A traversal with a plan reads the same instructions as behind the markers of the plan. -/
theorem readPositions_start (planned : Plan.make attr resolver options = .ok plan) :
    (Walk.start attr resolver options).readPositions = (walkOf attr resolver plan).readPositions := by
  rw [Walk.start, planned, Walk.readPositions_of_queue (fun fault failing => by cases failing)]
  rfl

/-- The positions where a traversal reads agree with the scan behind its plan. -/
theorem exists_agrees_of_plan (planned : Plan.make attr resolver options = .ok plan) :
    ∃ scan, Scan.run attr.code = .ok scan ∧
      scan.Agrees resolver attr.code (Walk.start attr resolver options).readPositions := by
  obtain ⟨scan, starts, scanned, scans, recorded⟩ := exists_scan_of_plan planned
  obtain ⟨ascending, mem_iff⟩ :=
    @Walk.mem_readPositions_iff (walkOf attr resolver plan) starts rfl rfl scans
  have within : ∀ bci ∈ (walkOf attr resolver plan).readPositions, bci ∈ starts :=
    fun bci mem => ((mem_iff bci).mp mem).1
  rw [readPositions_start planned]
  refine ⟨scan, scanned, ascending, ?_, ?_, ?_⟩
  · simp only [recorded]
    exact mem_iff
  · intro cursor i stop mem read
    have moved := Instruction.read_position_lt read
    simp only [recorded]
    obtain ⟨behind, first⟩ := scans.next_of_read (within _ mem) read
    exact ⟨behind, moved, first⟩
  · intro cursor fault stop mem failed
    obtain ⟨inside, targets, next, passed⟩ := scans.exists_scanStep (within _ mem)
    obtain ⟨i, read⟩ | ⟨cause, last, read, unseen⟩ :=
      read_of_scanStep (Nat.le_of_lt inside) passed resolver
    · cases failed.symm.trans read
    · cases failed.symm.trans read
      exact unseen

/-- A traversal fails before it gives anything, for what its plan refuses, or where it reads an
instruction, for a reason that the scan does not look at. -/
theorem fault_of_drain {elements : Array Element} {fault : Fault} {after : Walk}
    (drained : (Walk.start attr resolver options).drain = (elements, some fault, after)) :
    (Plan.make attr resolver options = .error fault ∧ elements = #[]) ∨
      ∃ bci ∈ (Walk.start attr resolver options).readPositions, fault.UnseenAt bci := by
  rw [Walk.drain] at drained
  cases planned : Plan.make attr resolver options with
  | error cause =>
      rw [Walk.start, planned, Walk.drainInto_of_next_error rfl] at drained
      cases drained
      exact .inl ⟨rfl, rfl⟩
  | ok plan =>
      obtain ⟨scan, starts, -, scans, -⟩ := exists_scan_of_plan planned
      rw [readPositions_start planned]
      rw [Walk.start, planned, Walk.drainInto_of_queue (fun fault failing => by cases failing)] at drained
      exact .inr (@Walk.unseenAt_of_drainInto (walkOf attr resolver plan) starts rfl rfl scans _ _ _ _ drained)

/-- The scan and the traversal agree. Once `Plan.make` succeeds, `Scan.run` gives a scan that `Agrees` with
`Walk.readPositions`: instructions are read at the starts that it recorded, in order and up to the first that
cannot be read, and each ends where the next one starts. If `drain` ends in a fault, it is that of `Plan.make`,
in front of all elements, or one that a scan does not look for: `UnseenAt` a position that was read. -/
theorem scan_agrees (attr : CodeAttribute) (resolver : Resolver) (options : Options) :
    (∀ plan, Plan.make attr resolver options = .ok plan →
      ∃ scan, Scan.run attr.code = .ok scan ∧
        scan.Agrees resolver attr.code (Walk.start attr resolver options).readPositions) ∧
      ∀ elements fault after,
        (Walk.start attr resolver options).drain = (elements, some fault, after) →
          (Plan.make attr resolver options = .error fault ∧ elements = #[]) ∨
            ∃ bci ∈ (Walk.start attr resolver options).readPositions, fault.UnseenAt bci := by
  constructor
  · intro plan planned
    exact exists_agrees_of_plan planned
  · intro elements fault after drained
    exact fault_of_drain drained

/-- An array of a type that does not exist, between two instructions without operands. -/
def unknownElement : CodeAttribute where
  code := #[0x00, 0xbc, 99, 0xb1]

/-- The scan of the unknown element type finds all three instructions. -/
theorem run_unknownElement : Scan.run unknownElement.code =
    .ok (((Scan.empty.note 0 []).note 1 []).note 3 []) := by
  have first : scanStep unknownElement.code Cursor.start = .ok [] ⟨1, 0⟩ :=
    @scanStep_of_stands _ .start .nop nofun (by decide) (by decide)
  have second : scanStep unknownElement.code ⟨1, 0⟩ = .ok [] ⟨3, 1⟩ :=
    @scanStep_of_stands _ ⟨1, 0⟩ .newarray nofun (by decide) (by decide)
  have third : scanStep unknownElement.code ⟨3, 1⟩ = .ok [] ⟨4, 3⟩ :=
    @scanStep_of_stands _ ⟨3, 1⟩ .returnVoid nofun (by decide) (by decide)
  have scanned : scanFrom unknownElement.code Cursor.start Scan.empty =
      .ok (((Scan.empty.note 0 []).note 1 []).note 3 []) := by
    rw [scanFrom_of_step (by decide) first, scanFrom_of_step (by decide) second,
      scanFrom_of_step (by decide) third, scanFrom, if_neg (by decide)]
    rfl
  have unchecked : (((Scan.empty.note 0 []).note 1 []).note 3 []).jumps = #[] := rfl
  rw [Scan.run, scanned]
  refine Outcome.bind_eq_ok_iff.mpr ⟨_, rfl, Outcome.bind_eq_ok_iff.mpr ⟨(), ?_, rfl⟩⟩
  rw [unchecked]
  rfl

/-- The unknown element type has a plan. -/
theorem exists_plan_unknownElement : ∃ plan,
    Plan.make unknownElement Pool.empty.resolver {} = .ok plan := by
  simp only [Plan.make, Outcome.bind_eq_ok_iff]
  refine ⟨_, _, run_unknownElement, #[], Outcome.arrayMapM_eq_ok_iff.mpr .nil,
    #[], Outcome.arrayMapM_eq_ok_iff.mpr .nil, #[], Outcome.arrayMapM_eq_ok_iff.mpr .nil, #[], rfl, rfl⟩

/-- The traversal of the unknown element type reads up to the unknown type, and not behind it. -/
theorem scan_agrees_unknownElement :
    1 ∈ (Walk.start unknownElement Pool.empty.resolver {}).readPositions ∧
      3 ∉ (Walk.start unknownElement Pool.empty.resolver {}).readPositions := by
  obtain ⟨plan, planned⟩ := exists_plan_unknownElement
  obtain ⟨scan, scanned, agrees⟩ := (scan_agrees unknownElement Pool.empty.resolver {}).1 plan planned
  obtain rfl := Except.ok.inj (run_unknownElement.symm.trans scanned)
  have recorded : ∀ position, (((Scan.empty.note 0 []).note 1 []).note 3 []).isStart position = true ↔
      position = 0 ∨ position = 1 ∨ position = 3 := by
    intro position
    simp [Scan.isStart_note, Scan.isStart_empty, or_assoc]
  simp only [agrees.mem_iff, recorded]
  constructor
  · refine ⟨by simp, fun earlier _ before => ?_⟩
    obtain rfl : earlier = 0 := by omega
    have opened := @readOpcode_of_stands unknownElement.code (.startingAt 0) .nop (by decide)
    rw [@Instruction.read_of_opcode _ _ (.startingAt 0) _ _ opened]
    exact ⟨_, _, rfl⟩
  · rintro ⟨-, reads⟩
    obtain ⟨i, stop, read⟩ := reads 1 (by simp) (by decide)
    have opened := @readOpcode_of_stands unknownElement.code (.startingAt 1) .newarray (by decide)
    rw [@Instruction.read_of_opcode _ _ (.startingAt 1) _ _ opened] at read
    cases read

end CodeAttribute

end JvmCode
