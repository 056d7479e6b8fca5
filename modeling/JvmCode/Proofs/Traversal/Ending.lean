import JvmCode.Proofs.Traversal.Breaking

/-! # Traversals end

A traversal gives finitely many elements, then at most one fault, and then nothing more, however often it is
asked for another step.

* **`Walk.turn`** is one turn of the loop that looks for the next step; `callWithin_two`: two turns are enough.
* **`Walk.Stepped`** is what a step can do, and **`Walk.IsOver`** says that there is nothing more to give.
* **`Walk.elementsLeft`** bounds the elements that are still to come, for lines from given rows;
  `Stepped.elementsLeft_lt`: every element that is given lowers it.
* **`Walk.call`** is what the calls for steps give one after the other; `call_eq_getElem?`: the elements that
  draining gives, the fault if there is one, and nothing more.
* `CodeAttribute.traversal_ends` is about the traversal of any attribute. -/

namespace JvmCode

namespace Walk

/-! ## The loop of a step -/

/-- One turn of the loop that looks for the next step: the loop goes on with another state, or ends with what
the step gives. A fault that is met is reported by the turn behind it. -/
def turn (walk : Walk) : Walk ⊕ Option (Except Fault Element) × Walk :=
  match walk.status, walk.queue with
  | .failing fault, _ => .inr (some (.error fault), walk.stopped)
  | _, element :: rest => .inr (some (.ok element), { walk with queue := rest })
  | .finished, [] => .inr (none, walk)
  | .running, [] =>
      match walk.advance with
      | .ok after => .inl after
      | .error fault => .inl { walk with status := .failing fault }

/-- What the loop ends with, if it ends within a number of turns. -/
def callWithin : Nat → Walk → Option (Option (Except Fault Element) × Walk)
  | 0, _ => none
  | turns + 1, walk =>
      match walk.turn with
      | .inl after => callWithin turns after
      | .inr given => some given

/-- A state that the loop does not leave without decoding more ends the loop with the first decoded element. -/
theorem turn_of_settled {walk : Walk} (unfailed : ∀ fault, walk.status ≠ .failing fault)
    (settled : walk.status = .running → walk.queue ≠ []) : walk.turn = .inr walk.pop := by
  unfold turn pop
  cases status : walk.status with
  | failing fault => exact absurd status (unfailed fault)
  | finished => cases walk.queue <;> rfl
  | running =>
      cases shape : walk.queue with
      | nil => exact absurd shape (settled status)
      | cons element rest => rfl

/-- Decoding the elements of a position gives at least one, or is the last. -/
theorem settled_of_advance {walk after : Walk} (running : walk.status = .running)
    (advanced : walk.advance = .ok after) :
    (∀ fault, after.status ≠ .failing fault) ∧ (after.status = .running → after.queue ≠ []) := by
  unfold advance at advanced
  split at advanced
  · split at advanced
    · cases advanced
      exact ⟨by simp [running], by simp⟩
    · cases advanced
  · cases advanced
    exact ⟨by simp, by simp⟩

/-- The loop ends within two turns, and gives the next step: a turn that decodes leads to one that gives. -/
theorem callWithin_two (walk : Walk) : walk.callWithin 2 = some walk.next := by
  cases status : walk.status with
  | failing fault => rw [callWithin, turn, next, status]
  | finished =>
      have unfailed : ∀ fault, walk.status ≠ .failing fault := by simp [status]
      have settled : walk.status = .running → walk.queue ≠ [] := by simp [status]
      rw [callWithin, turn_of_settled unfailed settled, next, status]
  | running =>
      cases shape : walk.queue with
      | cons element rest =>
          have unfailed : ∀ fault, walk.status ≠ .failing fault := by simp [status]
          rw [callWithin, turn_of_settled unfailed (by simp [shape]), next_of_queue unfailed shape, pop, shape]
      | nil =>
          rw [callWithin, turn, next, status, shape]
          cases advanced : walk.advance with
          | ok after =>
              obtain ⟨unfailed, settled⟩ := settled_of_advance status advanced
              simp only [callWithin, turn_of_settled unfailed settled]
          | error fault => rfl

/-! ## What a step can do -/

/-- What a step can do, and what it then gives. -/
inductive Stepped (walk : Walk) : Option (Except Fault Element) → Walk → Prop where
  /-- A fault that was there from the start is reported. -/
  | failed {fault : Fault} (failing : walk.status = .failing fault) :
      Stepped walk (some (.error fault)) walk.stopped
  /-- An element that is already decoded is given. -/
  | queued {element : Element} {rest : List Element} (unfailed : ∀ fault, walk.status ≠ .failing fault)
      (shape : walk.queue = element :: rest) :
      Stepped walk (some (.ok element)) { walk with queue := rest }
  /-- An instruction is read, and the first element of its position is given. -/
  | read {i : Instruction} {cursor : Cursor} {element : Element} {rest : List Element}
      (running : walk.status = .running) (empty : walk.queue = [])
      (inside : walk.cursor.position < walk.code.size)
      (read : Instruction.read walk.resolver walk.code walk.cursor = .ok i cursor)
      (shape : walk.labelHere ++ walk.linesHere ++ [.instruction i] = element :: rest) :
      Stepped walk (some (.ok element)) { walk with queue := rest, cursor }
  /-- An instruction cannot be read, and the fault is reported. -/
  | unread {fault : Fault} {cursor : Cursor} (running : walk.status = .running) (empty : walk.queue = [])
      (inside : walk.cursor.position < walk.code.size)
      (read : Instruction.read walk.resolver walk.code walk.cursor = .error fault cursor) :
      Stepped walk (some (.error fault)) walk.stopped
  /-- The label of the end is given. -/
  | labelled {element : Element} {rest : List Element} (running : walk.status = .running)
      (empty : walk.queue = []) (ends : ¬walk.cursor.position < walk.code.size)
      (shape : walk.labelHere = element :: rest) :
      Stepped walk (some (.ok element)) { walk with queue := rest, status := .finished }
  /-- The end has no label. -/
  | unlabelled (running : walk.status = .running) (empty : walk.queue = [])
      (ends : ¬walk.cursor.position < walk.code.size) (shape : walk.labelHere = []) :
      Stepped walk none { walk with queue := [], status := .finished }
  /-- Nothing is left to give. -/
  | exhausted (finished : walk.status = .finished) (empty : walk.queue = []) : Stepped walk none walk

/-- The next step does one of these. -/
theorem stepped_next (walk : Walk) : walk.Stepped walk.next.1 walk.next.2 := by
  cases status : walk.status with
  | failing fault =>
      rw [next, status]
      exact .failed status
  | finished =>
      have unfailed : ∀ fault, walk.status ≠ .failing fault := by simp [status]
      cases shape : walk.queue with
      | cons element rest =>
          rw [next_of_queue unfailed shape]
          exact .queued unfailed shape
      | nil =>
          rw [next, status, shape, pop, shape]
          exact .exhausted status shape
  | running =>
      have unfailed : ∀ fault, walk.status ≠ .failing fault := by simp [status]
      cases shape : walk.queue with
      | cons element rest =>
          rw [next_of_queue unfailed shape]
          exact .queued unfailed shape
      | nil =>
          by_cases inside : walk.cursor.position < walk.code.size
          · cases read : Instruction.read walk.resolver walk.code walk.cursor with
            | ok i cursor =>
                obtain ⟨element, rest, first⟩ := List.exists_cons_of_ne_nil
                  (show walk.labelHere ++ walk.linesHere ++ [Element.instruction i] ≠ [] by simp)
                rw [next_of_read status shape inside read, next_of_queue (by simp [status]) first]
                exact .read status shape inside read first
            | error fault cursor =>
                rw [next_of_read_error status shape inside read]
                exact .unread status shape inside read
          · rw [next_of_end status shape inside]
            cases first : walk.labelHere with
            | cons element rest =>
                rw [next_of_queue (by simp) rfl]
                exact .labelled status shape inside first
            | nil => exact .unlabelled status shape inside first

/-- A traversal that has nothing more to give. -/
structure IsOver (walk : Walk) : Prop where
  /-- It has come to its end. -/
  finished : walk.status = .finished
  /-- No element is left. -/
  empty : walk.queue = []

variable {walk after : Walk} {rows : List LineRow}

/-- A step that gives no element is the last that gives anything. -/
theorem Stepped.isOver {given : Option (Except Fault Element)} (step : walk.Stepped given after)
    (none : ∀ element, given ≠ some (.ok element)) : after.IsOver := by
  cases step with
  | failed failing => exact ⟨rfl, rfl⟩
  | queued unfailed shape => exact absurd rfl (none _)
  | read running empty inside read shape => exact absurd rfl (none _)
  | unread running empty inside read => exact ⟨rfl, rfl⟩
  | labelled running empty ends shape => exact absurd rfl (none _)
  | unlabelled running empty ends shape => exact ⟨rfl, rfl⟩
  | exhausted finished empty => exact ⟨finished, empty⟩

/-- A traversal that is over stays as it is. -/
theorem IsOver.next_eq (done : walk.IsOver) : walk.next = (none, walk) := by
  rw [next, done.finished, done.empty, pop, done.empty]

/-! ## Elements that are left -/

/-- The line numbers of a traversal are those of given rows. -/
def Lined (rows : List LineRow) (walk : Walk) : Prop :=
  ∀ position, (walk.lines[position]?.getD .empty).toList =
    (rows.filter fun row => row.startPc.toNat == position).map LineRow.line

/-- A bound on the elements that are still to come: those that are decoded, and while instructions may be
left, a label and an instruction for each byte, the lines from here on, and the label of the end. -/
def elementsLeft (rows : List LineRow) (walk : Walk) : Nat :=
  walk.queue.length +
    match walk.status with
    | .running => 2 * (walk.code.size - walk.cursor.position) + 1 +
        rows.countP fun row => walk.cursor.position ≤ row.startPc.toNat
    | _ => 0

/-- A position has one label at most. -/
theorem length_labelHere_le (walk : Walk) : walk.labelHere.length ≤ 1 := by
  unfold labelHere
  dsimp only
  split <;> simp

/-- A position has the lines of its rows. -/
theorem length_linesHere (lined : walk.Lined rows) :
    walk.linesHere.length = rows.countP fun row => row.startPc.toNat == walk.cursor.position := by
  rw [linesHere, List.length_map, lined, List.length_map, List.countP_eq_length_filter]

/-- The lines of a position and those further on are lines from the position on. -/
theorem countP_add_countP_le (rows : List LineRow) {position behind : Nat} (further : position < behind) :
    (rows.countP fun row => row.startPc.toNat == position) +
        (rows.countP fun row => behind ≤ row.startPc.toNat) ≤
      rows.countP fun row => position ≤ row.startPc.toNat := by
  induction rows with
  | nil => exact Nat.le_refl _
  | cons row rest ih =>
      simp only [List.countP_cons, beq_iff_eq, decide_eq_true_eq]
      split <;> split <;> split <;> omega

/-- Every element that is given lowers the bound. -/
theorem Stepped.elementsLeft_lt {element : Element} (step : walk.Stepped (some (.ok element)) after)
    (lined : walk.Lined rows) : after.Lined rows ∧ after.elementsLeft rows < walk.elementsLeft rows := by
  cases step with
  | queued unfailed shape =>
      refine ⟨lined, ?_⟩
      simp only [elementsLeft, shape, List.length_cons]
      omega
  | read running empty inside read shape =>
      refine ⟨lined, ?_⟩
      have moved := Instruction.read_position_lt read
      have label := walk.length_labelHere_le
      have numbers := length_linesHere lined
      have later := countP_add_countP_le rows moved
      have total := congrArg List.length shape
      simp only [List.length_append, List.length_cons, List.length_nil] at total
      simp only [elementsLeft, running, empty, List.length_nil]
      omega
  | labelled running empty ends shape =>
      refine ⟨lined, ?_⟩
      have label := walk.length_labelHere_le
      rw [shape, List.length_cons] at label
      simp only [elementsLeft, running, empty, List.length_nil]
      omega

/-! ## Repeated calls -/

/-- What the calls for steps give, one after the other. -/
def call (walk : Walk) : Nat → Option (Except Fault Element)
  | 0 => walk.next.1
  | n + 1 => walk.next.2.call n

/-- A traversal that is over gives nothing, however often it is called. -/
theorem IsOver.call_eq_none (done : walk.IsOver) (n : Nat) : walk.call n = none := by
  induction n with
  | zero => rw [call, done.next_eq]
  | succ n ih => rw [call, done.next_eq, ih]

/-- Behind a step that gives no element nothing is given. -/
theorem call_of_next {given : Option (Except Fault Element)} (step : walk.next = (given, after))
    (none : ∀ element, given ≠ some (.ok element)) (n : Nat) : walk.call n = given.toList[n]? := by
  have stepped := walk.stepped_next
  rw [step] at stepped
  cases n with
  | zero =>
      rw [call, step]
      cases given <;> rfl
  | succ n =>
      rw [call, step, (stepped.isOver none).call_eq_none]
      cases given <;> rfl

/-- Calls give the elements that draining puts behind others, then the fault that it ends with, if it ends with
one, and then nothing more. There are no more elements than were left. -/
theorem call_eq_getElem? (walk : Walk) (before : Array Element) :
    ∃ elements, (walk.drainInto before).1.toList = before.toList ++ elements ∧
      (∀ n, walk.call n =
        (elements.map .ok ++ ((walk.drainInto before).2.1.map .error).toList)[n]?) ∧
      ∀ rows, walk.Lined rows → elements.length ≤ walk.elementsLeft rows := by
  -- The induction follows the steps; each element moves from the calls to those before.
  fun_induction drainInto walk before with
  | case1 walk before after step =>
      have calls := call_of_next step fun _ given => nomatch given
      exact ⟨[], by simp, by simpa using calls, by simp⟩
  | case2 walk before fault after step =>
      have calls := call_of_next step fun _ given => nomatch given
      exact ⟨[], by simp, by simpa using calls, by simp⟩
  | case3 walk before element after step _ ih =>
      obtain ⟨elements, shape, calls, bounded⟩ := ih
      refine ⟨element :: elements, by simp [shape], ?_, ?_⟩
      · intro n
        cases n with
        | zero => simp [call, step]
        | succ n => simp [call, step, calls]
      · intro rows lined
        have stepped := walk.stepped_next
        rw [step] at stepped
        obtain ⟨still, fewer⟩ := stepped.elementsLeft_lt lined
        exact Nat.lt_of_le_of_lt (bounded rows still) fewer

end Walk

/-! ## Traversals of attributes -/

namespace Plan

variable {attr : CodeAttribute} {resolver : Resolver} {options : Options} {plan : Plan}

/-- There are no more local variable markers than rows. -/
theorem size_localMarkers_le {scan : Scan} {length : Nat} {rows : Array LocalRow}
    {markers : Array LocalMarker} (made : localMarkers scan resolver length options rows = .ok markers) :
    markers.size ≤ rows.size := by
  unfold localMarkers at made
  split at made
  · exact Nat.le_of_eq (Outcome.arrayMapM_eq_ok_iff.mp made).length_eq.symm
  · cases made
    exact Nat.zero_le _

/-- A plan has no more markers than the tables have rows. -/
theorem length_markers_le (made : make attr resolver options = .ok plan) :
    plan.markers.length ≤ attr.exceptions.size + attr.locals.size + attr.localTypes.size := by
  simp only [make, Outcome.bind_eq_ok_iff, Outcome.pure_eq_ok_iff] at made
  obtain ⟨scan, -, catches, caught, locals, madeLocals, localTypes, madeTypes, lines, -, rfl⟩ := made
  have first := (Outcome.arrayMapM_eq_ok_iff.mp caught).length_eq
  have second := size_localMarkers_le madeLocals
  have third := size_localMarkers_le madeTypes
  simp only [Array.length_toList, Array.size_append, Array.size_map] at first ⊢
  omega

/-- The lines of a plan are those of rows of the attribute. -/
theorem exists_lines (made : make attr resolver options = .ok plan) :
    ∃ rows : Array LineRow, rows.size ≤ attr.lines.size ∧ plan.lines = rows.foldl groupLine ∅ := by
  simp only [make, Outcome.bind_eq_ok_iff, Outcome.pure_eq_ok_iff] at made
  obtain ⟨scan, -, catches, -, locals, -, localTypes, -, lines, passed, rfl⟩ := made
  refine ⟨lines, ?_, rfl⟩
  unfold lineRows at passed
  split at passed
  · obtain ⟨⟨⟩, -, same⟩ := Outcome.bind_eq_ok_iff.mp passed
    exact Nat.le_of_eq (congrArg Array.size (Outcome.pure_eq_ok_iff.mp same).symm)
  · rw [← Outcome.pure_eq_ok_iff.mp passed]
    exact Nat.zero_le _

end Plan

namespace CodeAttribute

/-- A traversal gives no more elements than the tables have rows, the code twice its bytes, and one more. -/
theorem exists_elementsLeft_start (attr : CodeAttribute) (resolver : Resolver) (options : Options) :
    ∃ rows, (Walk.start attr resolver options).Lined rows ∧
      (Walk.start attr resolver options).elementsLeft rows ≤
        attr.exceptions.size + attr.locals.size + attr.localTypes.size + attr.lines.size +
          2 * attr.code.size + 1 := by
  unfold Walk.start
  cases made : Plan.make attr resolver options with
  | error fault =>
      refine ⟨[], fun position => ?_, Nat.zero_le _⟩
      change ((∅ : Std.HashMap Nat (Array UInt16))[position]?.getD .empty).toList = []
      rw [Std.HashMap.getElem?_empty]
      rfl
  | ok plan =>
      obtain ⟨rows, fewer, lines⟩ := Plan.exists_lines made
      have markers := Plan.length_markers_le made
      refine ⟨rows.toList, fun position => ?_, ?_⟩
      · have numbers := Plan.lines_foldl_groupLine rows.toList ∅ position
        rw [Array.foldl_toList, ← lines, Std.HashMap.getElem?_empty] at numbers
        exact numbers
      · have all := @List.countP_le_length _
          (fun row : LineRow => decide (Cursor.start.position ≤ row.startPc.toNat)) rows.toList
        simp only [Walk.elementsLeft, Array.length_toList] at all ⊢
        have : Cursor.start.position = 0 := rfl
        omega

/-- A traversal without a plan gives its fault at once. -/
theorem drainInto_start_of_plan_error {attr : CodeAttribute} {resolver : Resolver} {options : Options}
    {fault : Fault} (failed : Plan.make attr resolver options = .error fault) :
    ∃ after, (Walk.start attr resolver options).drainInto #[] = (#[], some fault, after) := by
  rw [Walk.start, failed]
  exact ⟨_, Walk.drainInto_of_next_error rfl #[]⟩

/-- Decoding is draining, with the elements or the fault as its outcome. -/
theorem decode_eq_drainInto (attr : CodeAttribute) (resolver : Resolver) (options : Options) :
    attr.decode resolver options =
      match ((Walk.start attr resolver options).drainInto #[]).2.1 with
      | none => .ok ((Walk.start attr resolver options).drainInto #[]).1
      | some fault => .error fault := by
  have drained : (Walk.start attr resolver options).drain =
      (Walk.start attr resolver options).drainInto #[] := rfl
  rw [decode, drained]
  obtain ⟨elements, _ | fault, after⟩ := (Walk.start attr resolver options).drainInto #[]
  · rfl
  · rfl

/-- Every traversal ends. Each call of `next` ends within two turns of its loop: `walk.callWithin 2 = some
walk.next`. The calls of `Walk.start`, one after the other, give `elements`, then `fault?` if there is one, and
nothing more. There are at most as many elements as rows in the four tables, one more, and two for every byte of
the code. A fault of `Plan.make` comes in front of all elements. `attr.decode` gives all `elements` if there is
no fault, and the fault otherwise. -/
theorem traversal_ends (attr : CodeAttribute) (resolver : Resolver) (options : Options) :
    (∀ walk : Walk, walk.callWithin 2 = some walk.next) ∧
    ∃ (elements : List Element) (fault? : Option Fault),
      (∀ n, (Walk.start attr resolver options).call n =
        (elements.map .ok ++ (fault?.map .error).toList)[n]?) ∧
      elements.length ≤ attr.exceptions.size + attr.locals.size + attr.localTypes.size +
        attr.lines.size + 2 * attr.code.size + 1 ∧
      (∀ fault, Plan.make attr resolver options = .error fault → elements = [] ∧ fault? = some fault) ∧
      attr.decode resolver options = match fault? with
        | none => .ok elements.toArray
        | some fault => .error fault := by
  refine ⟨Walk.callWithin_two, ?_⟩
  obtain ⟨elements, shape, calls, bounded⟩ := (Walk.start attr resolver options).call_eq_getElem? #[]
  obtain ⟨rows, lined, few⟩ := exists_elementsLeft_start attr resolver options
  have given : ((Walk.start attr resolver options).drainInto #[]).1 = elements.toArray :=
    Array.toList_inj.mp shape
  refine ⟨elements, _, calls, Nat.le_trans (bounded rows lined) few, ?_, ?_⟩
  · intro fault failed
    obtain ⟨after, drained⟩ := drainInto_start_of_plan_error failed
    rw [drained] at shape ⊢
    exact ⟨shape.symm, rfl⟩
  · rw [decode_eq_drainInto, given]

/-- The traversal of broken code gives one fault and nothing else, although its first two instructions could
be decoded. -/
theorem traversal_ends_brokenBehindJump :
    (∀ n, (Walk.start brokenBehindJump Pool.empty.resolver {}).call n =
      [.error (.malformed 6 (.unknownOpcode 0xcb))][n]?) ∧
    brokenBehindJump.decode Pool.empty.resolver {} = .error (.malformed 6 (.unknownOpcode 0xcb)) := by
  have failed : Plan.make brokenBehindJump Pool.empty.resolver {} =
      .error (.malformed 6 (.unknownOpcode 0xcb)) := by
    rw [Plan.make, Scan.run_of_breaks reaches_brokenBehindJump breaks_brokenBehindJump]
    rfl
  obtain ⟨-, elements, fault?, calls, -, planned, decoded⟩ :=
    traversal_ends brokenBehindJump Pool.empty.resolver {}
  obtain ⟨rfl, rfl⟩ := planned _ failed
  exact ⟨calls, decoded⟩

end CodeAttribute

end JvmCode
