import JvmCode.Proofs.Traversal.Plans

/-! # What decoding gives

Draining a traversal gives the elements of each position in turn. Its steps are taken apart once, here,
and then decoding is known by its listing alone.

* `Walk.drainInto_of_queue`: elements that are already decoded are given first.
* `Walk.drainInto_eq_iff`: a traversal from a position on succeeds exactly when the code reads as
  instructions from there on.
* `CodeAttribute.decode_eq_ok_iff`: an attribute is decoded exactly into the elements of a listing. -/

namespace JvmCode

namespace Walk

/-- A traversal whose next step is an element goes on behind it. -/
theorem drainInto_of_next_ok {walk after : Walk} {element : Element}
    (h : walk.next = (some (.ok element), after)) (elements : Array Element) :
    walk.drainInto elements = after.drainInto (elements.push element) := by
  rw [drainInto]
  split <;> simp_all

/-- A traversal whose next step is a fault ends with it. -/
theorem drainInto_of_next_error {walk after : Walk} {fault : Fault}
    (h : walk.next = (some (.error fault), after)) (elements : Array Element) :
    walk.drainInto elements = (elements, some fault, after) := by
  rw [drainInto]
  split <;> simp_all

/-- A traversal without a next step ends. -/
theorem drainInto_of_next_none {walk after : Walk} (h : walk.next = (none, after))
    (elements : Array Element) : walk.drainInto elements = (elements, none, after) := by
  rw [drainInto]
  split <;> simp_all

/-- While elements are already decoded, the next step takes the first of them. -/
theorem next_of_queue {walk : Walk} {element : Element} {rest : List Element}
    (unfailed : ∀ fault, walk.status ≠ .failing fault) (shape : walk.queue = element :: rest) :
    walk.next = (some (.ok element), { walk with queue := rest }) := by
  unfold next
  split
  · exact absurd ‹_› (unfailed _)
  · rename_i empty
    rw [shape] at empty
    cases empty
  · rw [pop, shape]

/-- Elements that are already decoded are given first. -/
theorem drainInto_of_queue {walk : Walk} (unfailed : ∀ fault, walk.status ≠ .failing fault)
    (elements : Array Element) :
    walk.drainInto elements =
      { walk with queue := [] }.drainInto (elements ++ walk.queue.toArray) := by
  obtain ⟨code, resolver, labels, lines, queue, cursor, status⟩ := walk
  change ∀ fault, status ≠ .failing fault at unfailed
  induction queue generalizing elements with
  | nil => simp
  | cons element rest ih =>
      rw [drainInto_of_next_ok (next_of_queue unfailed rfl), ih]
      simp

variable {walk : Walk}

/-- Traversals with the same next step give the same. -/
theorem drainInto_congr {other : Walk} (same : walk.next = other.next) (elements : Array Element) :
    walk.drainInto elements = other.drainInto elements := by
  obtain ⟨⟨step, after⟩, given⟩ : ∃ given, walk.next = given := ⟨_, rfl⟩
  obtain _ | fault | element := step
  · rw [drainInto_of_next_none given, drainInto_of_next_none (same ▸ given)]
  · rw [drainInto_of_next_error given, drainInto_of_next_error (same ▸ given)]
  · rw [drainInto_of_next_ok given]
    exact (drainInto_of_next_ok (same ▸ given) elements).symm

/-- The next step of a traversal without decoded elements is that from where it advances to. -/
theorem next_of_advance {after : Walk} (running : walk.status = .running)
    (empty : walk.queue = []) (advanced : walk.advance = .ok after)
    (unfailed : ∀ fault, after.status ≠ .failing fault)
    (moved : after.status = .running → after.queue ≠ []) : walk.next = after.next := by
  have popped : after.next = after.pop := by
    unfold next
    split
    · exact absurd ‹_› (unfailed _)
    · rename_i stillRunning none
      exact absurd none (moved stillRunning)
    · rfl
  rw [popped, next, running, empty, advanced]

/-- The next step of a traversal at the end of the code is its label, if there is one. -/
theorem next_of_end (running : walk.status = .running) (empty : walk.queue = [])
    (ends : ¬walk.cursor.position < walk.code.size) :
    walk.next = { walk with queue := walk.labelHere, status := .finished }.next := by
  have advanced : walk.advance = .ok { walk with queue := walk.labelHere, status := .finished } := by
    rw [advance, if_neg ends]
  exact next_of_advance running empty advanced (fun _ h => nomatch h) (fun h => nomatch h)

/-- At the end of the code only its label is given. -/
theorem drainInto_of_end (running : walk.status = .running) (empty : walk.queue = [])
    (ends : ¬walk.cursor.position < walk.code.size) (elements : Array Element) :
    walk.drainInto elements =
      (elements ++ walk.labelHere.toArray, none, { walk with queue := [], status := .finished }) := by
  rw [drainInto_congr (next_of_end running empty ends), drainInto_of_queue]
  · exact drainInto_of_next_none rfl _
  · exact fun _ failing => nomatch failing

/-- The next step of a traversal that reads an instruction is the first of its elements. -/
theorem next_of_read {i : Instruction} {cursor : Cursor} (running : walk.status = .running)
    (empty : walk.queue = []) (inside : walk.cursor.position < walk.code.size)
    (read : Instruction.read walk.resolver walk.code walk.cursor = .ok i cursor) :
    walk.next = { walk with
      queue := walk.labelHere ++ walk.linesHere ++ [Element.instruction i], cursor }.next := by
  have advanced : walk.advance = .ok { walk with
      queue := walk.labelHere ++ walk.linesHere ++ [Element.instruction i], cursor } := by
    rw [advance, if_pos inside, read]
  refine next_of_advance running empty advanced ?_ ?_
  · intro fault failing
    rw [running] at failing
    cases failing
  · intro _ none
    simp at none

/-- An instruction that is read is given behind its label and its line numbers. -/
theorem drainInto_of_read {i : Instruction} {cursor : Cursor} (running : walk.status = .running)
    (empty : walk.queue = []) (inside : walk.cursor.position < walk.code.size)
    (read : Instruction.read walk.resolver walk.code walk.cursor = .ok i cursor)
    (elements : Array Element) :
    walk.drainInto elements =
      { walk with queue := [], cursor }.drainInto
        (elements ++ (walk.labelHere ++ walk.linesHere ++ [Element.instruction i]).toArray) := by
  rw [drainInto_congr (next_of_read running empty inside read)]
  refine drainInto_of_queue ?_ elements
  intro fault failing
  rw [running] at failing
  cases failing

/-- The next step of a traversal that cannot read an instruction is the fault. -/
theorem next_of_read_error {fault : Fault} {cursor : Cursor} (running : walk.status = .running)
    (empty : walk.queue = []) (inside : walk.cursor.position < walk.code.size)
    (read : Instruction.read walk.resolver walk.code walk.cursor = .error fault cursor) :
    walk.next = (some (.error fault), walk.stopped) := by
  have failed : walk.advance = .error fault := by
    rw [advance, if_pos inside, read]
  rw [next, running, empty, failed]

/-- An instruction that is not read ends the traversal. -/
theorem drainInto_of_read_error {fault : Fault} {cursor : Cursor} (running : walk.status = .running)
    (empty : walk.queue = []) (inside : walk.cursor.position < walk.code.size)
    (read : Instruction.read walk.resolver walk.code walk.cursor = .error fault cursor)
    (elements : Array Element) :
    walk.drainInto elements = (elements, some fault, walk.stopped) :=
  drainInto_of_next_error (next_of_read_error running empty inside read) elements

/-- A traversal from a position on succeeds exactly when the code reads as instructions from there on,
and then it gives them with their labels and line numbers. -/
theorem drainInto_eq_iff {plan : Plan} (running : walk.status = .running) (empty : walk.queue = [])
    (inside : walk.cursor.position ≤ walk.code.size) (labelled : walk.labels = plan.labels)
    (lined : walk.lines = plan.lines) {before elements : Array Element} :
    (∃ after, walk.drainInto before = (elements, none, after)) ↔
      ∃ is, Reads walk.resolver walk.code walk.cursor.position is ∧
        elements.toList = before.toList ++
          Element.layOut plan.labelAt plan.linesAt walk.cursor.position is := by
  -- The induction is on the bytes that are left.
  induction left : walk.code.size - walk.cursor.position using Nat.strongRecOn
    generalizing walk before with
  | ind count ih =>
      have label : walk.labelHere = plan.labelAt walk.cursor.position := by
        rw [labelHere, labelled, Plan.labelAt]
      have numbers : walk.linesHere = plan.linesAt walk.cursor.position := by
        rw [linesHere, lined, Plan.linesAt]
        rfl
      -- With bytes left, the walk reads one instruction or fails; without, it gives the last label.
      by_cases more : walk.cursor.position < walk.code.size
      · cases read : Instruction.read walk.resolver walk.code walk.cursor with
        | ok i cursor =>
            obtain ⟨readsAt, rfl⟩ := (Instruction.read_eq_ok_iff_readsAt inside).mp read
            have positive := i.size_pos walk.cursor.position
            have behind := readsAt.le_size
            have fewer : walk.code.size - (walk.cursor.position + i.size walk.cursor.position) < count := by
              omega
            have step := @ih _ fewer { walk with
              queue := []
              cursor := ⟨walk.cursor.position + i.size walk.cursor.position, walk.cursor.position⟩ }
              running rfl behind labelled lined
              (before ++ (walk.labelHere ++ walk.linesHere ++ [Element.instruction i]).toArray) rfl
            rw [drainInto_of_read running empty more read, step, label, numbers]
            simp only [Reads.iff_of_readsAt readsAt]
            constructor
            · rintro ⟨rest, reads, shape⟩
              refine ⟨i :: rest, ⟨rest, rfl, reads⟩, ?_⟩
              rw [shape, Element.layOut]
              simp
            · rintro ⟨_, ⟨rest, rfl, reads⟩, shape⟩
              refine ⟨rest, reads, ?_⟩
              rw [shape, Element.layOut]
              simp
        | error fault cursor =>
            rw [drainInto_of_read_error running empty more read]
            constructor
            · rintro ⟨after, failed⟩
              cases failed
            · rintro ⟨is, reads, -⟩
              exact absurd reads (Reads.not_of_read_error more read)
      · rw [drainInto_of_end running empty more, label]
        simp only [Reads.iff_of_end (Nat.le_antisymm inside (Nat.not_lt.mp more))]
        constructor
        · rintro ⟨after, same⟩
          cases same
          exact ⟨[], rfl, by simp [Element.layOut]⟩
        · rintro ⟨_, rfl, shape⟩
          refine ⟨_, Prod.ext ?_ rfl⟩
          apply Array.toList_inj.mp
          rw [shape]
          simp [Element.layOut]

end Walk

namespace CodeAttribute

variable {attr : CodeAttribute} {resolver : Resolver} {options : Options} {elements : Array Element}

/-- An attribute is decoded exactly when its traversal ends without a fault. -/
theorem decode_eq_ok_iff_drain : attr.decode resolver options = .ok elements ↔
    ∃ after, (Walk.start attr resolver options).drainInto #[] = (elements, none, after) := by
  have drained : (Walk.start attr resolver options).drain =
      (Walk.start attr resolver options).drainInto #[] := rfl
  unfold decode
  rw [drained]
  obtain ⟨given, _ | fault, after⟩ := (Walk.start attr resolver options).drainInto #[]
  · simp
  · simp

/-- A traversal behind the markers of its plan. -/
def walkOf (attr : CodeAttribute) (resolver : Resolver) (plan : Plan) : Walk where
  code := attr.code
  resolver := resolver
  labels := plan.labels
  lines := plan.lines
  queue := []
  cursor := Cursor.start
  status := .running

/-- An attribute is decoded exactly when it has a plan and its code reads as instructions. -/
theorem decode_eq_ok_iff_plan : attr.decode resolver options = .ok elements ↔
    ∃ plan is, Plan.make attr resolver options = .ok plan ∧ Reads resolver attr.code 0 is ∧
      elements.toList = plan.markers ++ Element.layOut plan.labelAt plan.linesAt 0 is := by
  have drained : ∀ plan : Plan,
      (∃ after, (walkOf attr resolver plan).drainInto plan.markers.toArray = (elements, none, after)) ↔
        ∃ is, Reads resolver attr.code 0 is ∧
          elements.toList = plan.markers ++ Element.layOut plan.labelAt plan.linesAt 0 is :=
    fun plan => Walk.drainInto_eq_iff rfl rfl (Nat.zero_le _) rfl rfl
  rw [decode_eq_ok_iff_drain, Walk.start]
  -- Without a plan the first step fails; with one the markers come first.
  cases Plan.make attr resolver options with
  | error fault =>
      simp only [reduceCtorEq, false_and, exists_false, iff_false]
      rintro ⟨after, failed⟩
      rw [Walk.drainInto_of_next_error rfl] at failed
      cases failed
  | ok plan =>
      simp only [Except.ok.injEq, exists_and_left, exists_eq_left', ← drained]
      rw [Walk.drainInto_of_queue fun fault failing => by cases failing]
      simp only [Array.empty_append, walkOf]

/-- An attribute is decoded exactly into the elements of a listing. -/
theorem decode_eq_ok_iff : attr.decode resolver options = .ok elements ↔
    ∃ listing : Listing attr resolver options, elements.toList = listing.elements := by
  rw [decode_eq_ok_iff_plan]
  constructor
  · rintro ⟨plan, is, made, reads, shape⟩
    obtain ⟨listing, rfl, rfl⟩ := (Plan.make_eq_ok_iff reads).mp made
    rw [Plan.labelAt_eq, Plan.linesAt_eq] at shape
    exact ⟨listing, shape⟩
  · rintro ⟨listing, shape⟩
    refine ⟨listing.plan, listing.instructions,
      (Plan.make_eq_ok_iff listing.reads).mpr ⟨listing, rfl, rfl⟩, listing.reads, ?_⟩
    rw [Plan.labelAt_eq, Plan.linesAt_eq]
    exact shape

end CodeAttribute

end JvmCode
