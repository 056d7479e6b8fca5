import JvmCode.Proofs.Assembler.Accepting
import JvmCode.Proofs.Attribute.ReadBack
import Mathlib.Data.List.ReduceOption

/-! # The tables of a finished session

Every marker whose labels were placed becomes one row, in the order in which the markers were taken, and every
line number becomes a row of the next instruction if there is one. The rows pass the checks that are made of
the tables of any attribute.

* **`ExceptionRow.LaysOut`** and **`LocalRow.LaysOut`** relate a marker to its row.
* **`Element.startedLines`** are the line numbers that an instruction follows.
* **`Built.LaysOut`** is what the tables are; `Session.finish_lays_out` proves it.
* `Session.withDeadLabels`: a session goes on in the same way whatever happens to labels that are never
  placed, up to its end. -/

namespace JvmCode

/-! ## Rows and markers -/

/-- Whether all labels of a range have places. -/
def allPlaced (place : Label → Option Nat) (labels : List Label) : Bool :=
  labels.all fun label => (place label).isSome

/-- A row holds the positions of the labels of an exception handler, and the index of what it catches. -/
structure ExceptionRow.LaysOut (place : Label → Option Nat) (marker : CatchMarker) (row : ExceptionRow) :
    Prop where
  /-- The range starts where its first label is placed. -/
  start : place marker.start = some row.startPc.toNat
  /-- The range ends where its last label is placed. -/
  stop : place marker.stop = some row.endPc.toNat
  /-- The handler starts where its label is placed. -/
  handler : place marker.handler = some row.handlerPc.toNat
  /-- What is caught is the class of the handler, or everything. -/
  caught : row.catchType = (marker.caught.map ClassRef.index).getD 0

/-- A row holds the range of a local variable, its slot, and indexes at which its texts are found. -/
structure LocalRow.LaysOut (resolver : Resolver) (place : Label → Option Nat) (marker : LocalMarker)
    (row : LocalRow) : Prop where
  /-- The range starts where its first label is placed. -/
  start : place marker.start = some row.startPc.toNat
  /-- The range ends where its last label is placed. -/
  stop : place marker.stop = some row.endPc
  /-- The local variable is that of the marker. -/
  slot : row.slot = marker.slot
  /-- The name is at its index. -/
  name : resolver.text row.nameIndex = .ok marker.name
  /-- The descriptor or signature is at its index. -/
  type : resolver.text row.typeIndex = .ok marker.type

namespace Element

/-- The line numbers that an instruction follows, each with the position of the next instruction, if the
first element stands at `bci`. -/
def startedLinesFrom : Nat → List Element → List (Nat × UInt16)
  | _, [] => []
  | bci, .instruction i :: rest => startedLinesFrom (bci + i.size bci) rest
  | bci, .line number :: rest =>
      match (Instruction.located bci (instructions rest)).head? with
      | some (start, _) => (start, number) :: startedLinesFrom bci rest
      | none => startedLinesFrom bci rest
  | bci, _ :: rest => startedLinesFrom bci rest

/-- The line numbers that an instruction follows, each with the position of the next instruction. -/
def startedLines : List Element → List (Nat × UInt16) := startedLinesFrom 0

/-- An instruction follows the line numbers that stand in front of the end. -/
theorem startedLinesFrom_eq_filter (bci : Nat) (elements : List Element) :
    startedLinesFrom bci elements =
      (lineMarksFrom bci elements).filter fun mark =>
        mark.1 < Instruction.endOf bci (instructions elements) := by
  induction elements generalizing bci with
  | nil => rfl
  | cons element rest ih =>
      cases element with
      | instruction i => exact ih _
      | line number =>
          have same : instructions (.line number :: rest) = instructions rest := rfl
          rw [startedLinesFrom, lineMarksFrom, same, List.filter_cons, ih]
          cases instructions rest with
          | nil => simp [Instruction.located]
          | cons i others =>
              have behind : bci < Instruction.endOf bci (i :: others) :=
                Nat.lt_of_lt_of_le (Nat.lt_add_of_pos_right (i.size_pos bci)) (Instruction.le_endOf _ others)
              simp [Instruction.located, behind]
      | _ => exact ih _

end Element

/-- What the tables of a finished session are, in terms of the elements that it took. -/
structure Built.LaysOut (resolver : Resolver) (options : Options) (taken : List Element) (built : Built) :
    Prop where
  /-- Every handler whose labels were placed has one row, in order. -/
  exceptions : List.Forall₂ (ExceptionRow.LaysOut (Element.places taken))
    ((Element.catches taken).filter fun marker => allPlaced (Element.places taken) marker.labels)
    built.exceptions.toList
  /-- Every local variable that is kept and whose labels were placed has one row, in order. -/
  locals : List.Forall₂ (LocalRow.LaysOut resolver (Element.places taken))
    ((options.kept (Element.locals taken)).filter fun marker =>
      allPlaced (Element.places taken) marker.labels)
    built.locals.toList
  /-- Every local variable with signature that is kept and whose labels were placed has one row, in
  order. -/
  localTypes : List.Forall₂ (LocalRow.LaysOut resolver (Element.places taken))
    ((options.kept (Element.localTypes taken)).filter fun marker =>
      allPlaced (Element.places taken) marker.labels)
    built.localTypes.toList
  /-- Every line number that is kept and that an instruction follows has one row, in order. -/
  lines : built.lines.toList.map (fun row => (row.startPc.toNat, row.line)) =
    if options.lineNumbers = .pass then Element.startedLines taken else []
  /-- Unless ranges may be left out, all labels were placed. -/
  complete : options.deadLabels = .fail →
    (∀ marker ∈ Element.catches taken, allPlaced (Element.places taken) marker.labels = true) ∧
    (∀ marker ∈ options.kept (Element.locals taken),
      allPlaced (Element.places taken) marker.labels = true) ∧
    ∀ marker ∈ options.kept (Element.localTypes taken),
      allPlaced (Element.places taken) marker.labels = true

namespace Outcome

/-- Rows that are made of records, with some left out, are related to the items that were kept. -/
theorem forall₂_filter_reduceOption {α β γ : Type} {recorded : α → γ → Prop} {made : γ → Option β → Prop}
    {keep : α → Bool} {related : α → β → Prop} {items : List α} {records : List γ}
    {results : List (Option β)} (first : List.Forall₂ recorded items records)
    (second : List.Forall₂ made records results)
    (kept : ∀ item record result, recorded item record → made record (some result) →
      keep item = true ∧ related item result)
    (dropped : ∀ item record, recorded item record → made record none → keep item = false) :
    List.Forall₂ related (items.filter keep) results.reduceOption := by
  induction first generalizing results with
  | nil =>
      cases second
      exact .nil
  | @cons item record _ _ held _ ih =>
      obtain ⟨result, results, makes, others, rfl⟩ := List.forall₂_cons_left_iff.mp second
      cases result with
      | none =>
          rw [List.filter_cons_of_neg (by simp [dropped item record held makes]),
            List.reduceOption_cons_of_none]
          exact ih others
      | some row =>
          obtain ⟨keeps, relates⟩ := kept item record row held makes
          rw [List.filter_cons_of_pos keeps, List.reduceOption_cons_of_some]
          exact .cons relates (ih others)

end Outcome

namespace Assembler

/-! ## Records that are left out -/

section

variable {session : Assembler} {length : Nat}

/-- A range that is left out has a label that was never placed, or is left out later. -/
theorem of_bind_rangePosition_none {α : Type} {label : Label} {next : Option UInt16 → Except Fault (Option α)}
    (made : (session.rangePosition label >>= next) = .ok none) :
    (session.options.deadLabels = .drop ∧ session.place label = none) ∨
      ∃ pc, next (some pc) = .ok none := by
  obtain ⟨found, ranged, made⟩ := Outcome.bind_eq_ok_iff.mp made
  cases found with
  | some pc => exact .inr ⟨pc, made⟩
  | none =>
      unfold rangePosition at ranged
      split at ranged
      · cases ranged
      · rename_i unplaced
        split at ranged
        · rename_i drops
          exact .inl ⟨drops, unplaced⟩
        · cases ranged

/-- A range whose labels are placed is not left out. -/
theorem checked_ne_ok_none {α : Type} {bad : Prop} [Decidable bad] {fault : Fault} {pc : UInt16}
    {made : α} :
    (do
      if bad then throw fault
      checkInside length pc
      return some made : Except Fault (Option α)) ≠ .ok none := by
  by_cases refused : bad
  · simp [refused, throw, throwThe, MonadExceptOf.throw, bind, Except.bind]
  · simp only [refused, if_false, checkInside]
    split <;> simp [bind, Except.bind, pure, Except.pure]

/-- A handler is left out only where that is allowed, and for a label that was never placed. -/
theorem of_exceptionRow?_none {marker : CatchMarker}
    (made : session.exceptionRow? length (pendingCatch marker) = .ok none) :
    session.options.deadLabels = .drop ∧ allPlaced session.place marker.labels = false := by
  unfold allPlaced CatchMarker.labels
  obtain ⟨drops, unplaced⟩ | ⟨start, made⟩ := of_bind_rangePosition_none made
  · exact ⟨drops, by simp [show session.place marker.start = none from unplaced]⟩
  obtain ⟨drops, unplaced⟩ | ⟨stop, made⟩ := of_bind_rangePosition_none made
  · exact ⟨drops, by simp [show session.place marker.stop = none from unplaced]⟩
  obtain ⟨drops, unplaced⟩ | ⟨handler, made⟩ := of_bind_rangePosition_none made
  · exact ⟨drops, by simp [show session.place marker.handler = none from unplaced]⟩
  exact absurd made checked_ne_ok_none

/-- A local variable is left out only where that is allowed, and for a label that was never placed. -/
theorem of_localRow?_none {pending : PendingLocal} (made : session.localRow? length pending = .ok none) :
    session.options.deadLabels = .drop ∧ allPlaced session.place [pending.start, pending.stop] = false := by
  unfold allPlaced
  obtain ⟨drops, unplaced⟩ | ⟨start, made⟩ := of_bind_rangePosition_none made
  · exact ⟨drops, by simp [unplaced]⟩
  obtain ⟨drops, unplaced⟩ | ⟨stop, made⟩ := of_bind_rangePosition_none made
  · exact ⟨drops, by simp [unplaced]⟩
  exact absurd made checked_ne_ok_none

end

/-! ## Tables -/

/-- A session over a pool that pool operations give, with instructions that fit, that was finished. -/
structure Finished (pool : Pool) (options : Options) (taken : List Element) (session : Assembler)
    (built : Built) : Prop where
  /-- The pool is one that pool operations give. -/
  reachable : pool.Reachable
  /-- The session took the elements. -/
  run : Session pool options taken session
  /-- The instructions fit. -/
  fits : ∀ i ∈ Element.instructions taken, i.Fits
  /-- The session was finished. -/
  finished : session.finish = .ok built

namespace Finished

variable {pool : Pool} {options : Options} {taken : List Element} {session : Assembler} {built : Built}
  {label : Label} {position : Nat}

/-- Labels are placed where the elements place them. -/
theorem place_eq (h : Finished pool options taken session built) : session.place = Element.places taken :=
  (h.run.codeTracks h.fits).place_eq

/-- The tables in waiting are those of the elements. -/
theorem tables (h : Finished pool options taken session built) : TableTracks pool options taken session :=
  h.run.tableTracks h.reachable.sound h.fits

/-- The code is neither empty nor too long. -/
theorem sized (h : Finished pool options taken session built) :
    0 < built.code.size ∧ built.code.size ≤ maxCodeLength :=
  (finish_eq_ok_iff.mp h.finished).2.1

/-- Filling in the offsets keeps the length of the code. -/
theorem size_eq (h : Finished pool options taken session built) : built.code.size = session.code.size :=
  (finish_eq_ok_iff.mp h.finished).1.size_eq

/-- The instructions end where the code ends. -/
theorem endOf_eq (h : Finished pool options taken session built) :
    Instruction.endOf 0 (Element.instructions taken) = built.code.size := by
  rw [h.size_eq, (h.run.codeTracks h.fits).size_eq]

/-- Labels are placed no further than the end of the code. -/
theorem place_le (h : Finished pool options taken session built)
    (placed : session.place label = some position) : position ≤ built.code.size := by
  rw [h.size_eq]
  exact (h.run.codeTracks h.fits).place_le placed

/-- Two bytes hold the positions of all labels. -/
theorem narrow (h : Finished pool options taken session built) : session.Narrow :=
  (h.run.codeTracks h.fits).narrow (h.size_eq ▸ h.sized.2)

/-- A position of the code is kept in two bytes. -/
theorem toNat_position (h : Finished pool options taken session built)
    (small : position ≤ built.code.size) : (UInt16.ofNat position).toNat = position :=
  UInt16.toNat_ofNat_of_lt' (Nat.lt_succ_of_le (Nat.le_trans small h.sized.2))

/-- A row of a handler holds its positions, and passes its check. -/
theorem exceptionRow_laysOut (h : Finished pool options taken session built) {marker : CatchMarker}
    {row : ExceptionRow}
    (made : session.exceptionRow? built.code.size (pendingCatch marker) = .ok (some row)) :
    allPlaced (Element.places taken) marker.labels = true ∧
      row.LaysOut (Element.places taken) marker ∧ row.check built.code.size = .ok () := by
  obtain ⟨start, stop, handler, starts, stops, handles, ordered, inside, rfl⟩ :=
    h.narrow.exceptionRow?_eq_ok_some_iff.mp made
  have upper := h.place_le stops
  have startPc := h.narrow.toNat_position starts
  have endPc := h.narrow.toNat_position stops
  have handlerPc := h.narrow.toNat_position handles
  rw [h.place_eq] at starts stops handles
  change Element.places taken marker.start = _ at starts
  change Element.places taken marker.stop = _ at stops
  change Element.places taken marker.handler = _ at handles
  refine ⟨by simp [allPlaced, CatchMarker.labels, starts, stops, handles], ?_, ?_⟩
  · constructor
    · rw [starts, startPc]
    · rw [stops, endPc]
    · rw [handles, handlerPc]
    · rfl
  · unfold ExceptionRow.check
    simp only [UInt16.le_iff_toNat_le, startPc, endPc, handlerPc]
    rw [if_neg (by omega), if_neg (by omega), if_neg (by omega)]

/-- A row of a local variable holds its range and its texts, and passes its check. -/
theorem localRow_laysOut (h : Finished pool options taken session built) {marker : LocalMarker}
    {pending : PendingLocal} (records : Records session.pool.resolver marker pending) {row : LocalRow}
    (made : session.localRow? built.code.size pending = .ok (some row)) :
    allPlaced (Element.places taken) marker.labels = true ∧
      row.LaysOut session.pool.resolver (Element.places taken) marker ∧
      row.check built.code.size = .ok () := by
  obtain ⟨start, stop, starts, stops, ordered, inside, rfl⟩ := h.narrow.localRow?_eq_ok_some_iff.mp made
  have upper := h.place_le stops
  have startPc := h.narrow.toNat_position starts
  have endPc := h.narrow.endPc_eq starts stops ordered
  rw [h.place_eq, records.start] at starts
  rw [h.place_eq, records.stop] at stops
  refine ⟨by simp [allPlaced, LocalMarker.labels, starts, stops], ?_, ?_⟩
  · constructor
    · rw [starts, startPc]
    · rw [stops, endPc]
    · exact records.slot
    · exact records.name
    · exact records.type
  · unfold LocalRow.check
    rw [endPc]
    simp only [startPc]
    rw [if_neg (by omega), if_neg (by omega)]

/-- The rows of a table of local variables are those of its markers, and pass their checks. -/
theorem localRows_laysOut (h : Finished pool options taken session built) {markers : List LocalMarker}
    {pendings : List PendingLocal} {rows : List (Option LocalRow)}
    (recorded : List.Forall₂ (Records session.pool.resolver) markers pendings)
    (made : List.Forall₂ (fun pending row => session.localRow? built.code.size pending = .ok row)
      pendings rows) :
    List.Forall₂ (fun marker row => row.LaysOut session.pool.resolver (Element.places taken) marker ∧
        row.check built.code.size = .ok ())
      (markers.filter fun marker => allPlaced (Element.places taken) marker.labels) rows.reduceOption := by
  refine Outcome.forall₂_filter_reduceOption recorded made ?_ ?_
  · intro marker pending row records makes
    exact h.localRow_laysOut records makes
  · intro marker pending records makes
    have left := (of_localRow?_none makes).2
    rw [h.place_eq, records.start, records.stop] at left
    exact left

/-- The rows of the exception table are those of the handlers, and pass their checks. -/
theorem exceptionRows_laysOut (h : Finished pool options taken session built) :
    List.Forall₂ (fun marker row => ExceptionRow.LaysOut (Element.places taken) marker row ∧
        row.check built.code.size = .ok ())
      ((Element.catches taken).filter fun marker => allPlaced (Element.places taken) marker.labels)
      built.exceptions.toList := by
  obtain ⟨rows, made, kept⟩ := (finish_eq_ok_iff.mp h.finished).2.2.1
  rw [h.tables.catches_eq] at made
  have recorded : List.Forall₂ (fun marker pending => pending = pendingCatch marker)
      (Element.catches taken) ((Element.catches taken).map pendingCatch) :=
    List.forall₂_map_right_iff.mpr (List.forall₂_same.mpr fun _ _ => rfl)
  rw [kept]
  refine Outcome.forall₂_filter_reduceOption recorded made ?_ ?_
  · rintro marker _ row rfl makes
    exact h.exceptionRow_laysOut makes
  · rintro marker _ rfl makes
    have left := (of_exceptionRow?_none makes).2
    rw [h.place_eq] at left
    exact left

/-- The lines in waiting that an instruction follows. -/
theorem filter_lines (h : Finished pool options taken session built) :
    (session.lines.toList.filter fun mark => mark.1 < built.code.size) =
      if options.lineNumbers = .pass then Element.startedLines taken else [] := by
  rw [h.tables.lines_eq, ← h.endOf_eq]
  split
  · exact (Element.startedLinesFrom_eq_filter 0 taken).symm
  · rfl

/-- The line rows are those of the lines that an instruction follows. -/
theorem lines_eq (h : Finished pool options taken session built) :
    built.lines.toList.map (fun row => (row.startPc.toNat, row.line)) =
      if options.lineNumbers = .pass then Element.startedLines taken else [] := by
  rw [← h.filter_lines, (finish_eq_ok_iff.mp h.finished).2.2.2.2.2, lineRows, Array.toList_map,
    Array.toList_filter, List.map_map]
  refine List.map_congr_left (fun mark mem => ?_) |>.trans (List.map_id _)
  have inside := of_decide_eq_true (List.mem_filter.mp mem).2
  exact Prod.ext (h.toNat_position (Nat.le_of_lt inside)) rfl

/-- The tables are those of the elements. -/
theorem laysOut (h : Finished pool options taken session built) :
    built.LaysOut session.pool.resolver options taken := by
  obtain ⟨-, -, -, ⟨rows, made, kept⟩, ⟨typeRows, madeTypes, keptTypes⟩, -⟩ :=
    finish_eq_ok_iff.mp h.finished
  have accepted : Element.Acceptable options taken := by
    rw [← Element.firstFault?_eq_none_iff, ← h.run.fault?_finish h.reachable h.fits, h.finished]
    rfl
  have placed : ∀ {labels : List Label}, (∀ label ∈ labels, ∃ position,
      Element.places taken label = some position) → allPlaced (Element.places taken) labels = true :=
    fun all => List.all_eq_true.mpr fun label mem => Option.isSome_iff_exists.mpr (all label mem)
  constructor
  · exact h.exceptionRows_laysOut.imp fun _ _ both => both.1
  · rw [kept]
    exact (h.localRows_laysOut h.tables.locals made).imp fun _ _ both => both.1
  · rw [keptTypes]
    exact (h.localRows_laysOut h.tables.localTypes madeTypes).imp fun _ _ both => both.1
  · exact h.lines_eq
  · intro fails
    refine ⟨?_, ?_, ?_⟩
    · exact fun marker mem => placed ((accepted.catches marker mem).1 fails)
    · exact fun marker mem => placed ((accepted.locals marker mem).1 fails)
    · exact fun marker mem => placed ((accepted.localTypes marker mem).1 fails)

/-- The tables pass the checks that are made of the tables of any attribute. -/
theorem checkTables (h : Finished pool options taken session built) (maxStack maxLocals : UInt16) :
    (built.toAttribute maxStack maxLocals).checkTables = .ok () := by
  obtain ⟨-, -, -, ⟨rows, made, kept⟩, ⟨typeRows, madeTypes, keptTypes⟩, lines⟩ :=
    finish_eq_ok_iff.mp h.finished
  refine CodeAttribute.checkTables_eq_ok_iff.mpr ⟨?_, ?_, ?_, ?_⟩
  · intro row mem
    obtain ⟨marker, -, -, checked⟩ :=
      Outcome.exists_of_forall₂_of_mem h.exceptionRows_laysOut (Array.mem_toList_iff.mpr mem)
    exact checked
  · intro row mem
    change row ∈ built.lines at mem
    rw [lines, lineRows, Array.mem_map] at mem
    obtain ⟨mark, recorded, rfl⟩ := mem
    have inside := of_decide_eq_true (Array.mem_filter.mp recorded).2
    refine if_neg (Nat.not_le.mpr ?_)
    rw [h.toNat_position (Nat.le_of_lt inside)]
    exact inside
  · intro row mem
    have mem := Array.mem_toList_iff.mpr mem
    change row ∈ built.locals.toList at mem
    rw [kept] at mem
    obtain ⟨marker, -, -, checked⟩ :=
      Outcome.exists_of_forall₂_of_mem (h.localRows_laysOut h.tables.locals made) mem
    exact checked
  · intro row mem
    have mem := Array.mem_toList_iff.mpr mem
    change row ∈ built.localTypes.toList at mem
    rw [keptTypes] at mem
    obtain ⟨marker, -, -, checked⟩ :=
      Outcome.exists_of_forall₂_of_mem (h.localRows_laysOut h.tables.localTypes madeTypes) mem
    exact checked

end Finished

/-! ## Labels that are never placed -/

/-- The session with another choice of what happens to labels that are never placed. -/
def withDeadLabels (dead : DeadLabels) (session : Assembler) : Assembler :=
  { session with options := { session.options with deadLabels := dead } }

variable {pool : Pool} {options : Options} {taken more : List Element} {session after : Assembler}
  {built : Built} {length : Nat}

/-- A session goes on in the same way, whatever happens to labels that are never placed. -/
theorem Step.withDeadLabels (step : Step session more after) (dead : DeadLabels) :
    Step (session.withDeadLabels dead) more (after.withDeadLabels dead) := by
  cases step with
  | took h =>
      refine .took (add_of_taken ?_)
      cases taken_of_add h with
      | instruction emitted => exact .instruction emitted
      | label fresh => exact .label fresh
      | line number passes => exact .line number passes
      | localVariable passes entered => exact .localVariable passes entered
      | localVariableType passes entered => exact .localVariableType passes entered
      | exceptionCatch marker => exact .exceptionCatch marker
      | droppedLine number drops => exact .droppedLine number drops
      | droppedLocal marker drops => exact .droppedLocal marker drops
      | droppedLocalType marker drops => exact .droppedLocalType marker drops
  | @refused element fault _ h =>
      refine @Step.refused _ element fault _ (add_eq_error_iff.mpr ?_)
      cases add_eq_error_iff.mp h with
      | instruction failed => exact .instruction failed
      | label placed => exact .label placed
      | localVariable passes failed => exact .localVariable passes failed
      | localVariableType passes failed => exact .localVariableType passes failed
  | minted h =>
      cases h
      exact .minted rfl
  | grown h => exact .grown h

/-- The same steps lead to the same session, whatever happens to labels that are never placed. -/
theorem Session.withDeadLabels (run : Session pool options taken session) (dead : DeadLabels) :
    Session pool { options with deadLabels := dead } taken (session.withDeadLabels dead) := by
  induction run with
  | start => exact .start
  | step _ step ih => exact .step ih (step.withDeadLabels dead)

/-- A handler that is not left out because it would have to be refused becomes the same row. -/
theorem exceptionRow?_withDeadLabels (fails : session.options.deadLabels = .fail) (dead : DeadLabels)
    {marker : CatchMarker} {row : Option ExceptionRow}
    (made : session.exceptionRow? length (pendingCatch marker) = .ok row) :
    (session.withDeadLabels dead).exceptionRow? length (pendingCatch marker) = .ok row := by
  cases row with
  | none =>
      have drops := (of_exceptionRow?_none made).1
      rw [fails] at drops
      cases drops
  | some row =>
      have placed := exceptionRow?_eq_ok_some_iff.mp made
      exact exceptionRow?_eq_ok_some_iff.mpr placed

/-- A local variable that is not left out because it would have to be refused becomes the same row. -/
theorem localRow?_withDeadLabels (fails : session.options.deadLabels = .fail) (dead : DeadLabels)
    {pending : PendingLocal} {row : Option LocalRow}
    (made : session.localRow? length pending = .ok row) :
    (session.withDeadLabels dead).localRow? length pending = .ok row := by
  cases row with
  | none =>
      have drops := (of_localRow?_none made).1
      rw [fails] at drops
      cases drops
  | some row =>
      have placed := localRow?_eq_ok_some_iff.mp made
      exact localRow?_eq_ok_some_iff.mpr placed

/-- A session that is finished although labels that are never placed are refused is finished with the same
result if they are left out. -/
theorem Finished.withDeadLabels (h : Finished pool options taken session built)
    (fails : options.deadLabels = .fail) (dead : DeadLabels) :
    (session.withDeadLabels dead).finish = .ok built := by
  rw [← h.tables.options_eq] at fails
  obtain ⟨resolved, sized, ⟨exceptions, madeExceptions, keptExceptions⟩, ⟨rows, made, kept⟩,
    ⟨typeRows, madeTypes, keptTypes⟩, lines⟩ := finish_eq_ok_iff.mp h.finished
  refine finish_eq_ok_iff.mpr ⟨resolved, sized, ⟨exceptions, ?_, keptExceptions⟩, ⟨rows, ?_, kept⟩,
    ⟨typeRows, ?_, keptTypes⟩, lines⟩
  · change List.Forall₂ _ session.catches.toList _
    rw [h.tables.catches_eq, List.forall₂_map_left_iff] at madeExceptions ⊢
    exact madeExceptions.imp fun _ _ makes => exceptionRow?_withDeadLabels fails dead makes
  · exact made.imp fun _ _ makes => localRow?_withDeadLabels fails dead makes
  · exact madeTypes.imp fun _ _ makes => localRow?_withDeadLabels fails dead makes

/-! ## The result -/

/-- The tables that `finish` gives. For `Produced` instructions, `built.LaysOut` holds for `taken`: there is a
row for each marker whose labels are placed, in order, and one for each line number that an instruction follows.
The attribute passes `checkTables` and has between 1 and 65535 bytes of code. A session that is finished with
`deadLabels = .fail` is finished with the same result with `deadLabels = .drop`. -/
theorem Session.finish_lays_out (reachable : pool.Reachable) (run : Session pool options taken session)
    (produced : ∀ i ∈ Element.instructions taken, i.Produced) (finished : session.finish = .ok built) :
    built.LaysOut session.pool.resolver options taken ∧
    (∀ maxStack maxLocals, (built.toAttribute maxStack maxLocals).checkTables = .ok ()) ∧
    (1 ≤ built.code.size ∧ built.code.size ≤ 65535) ∧
    (options.deadLabels = .fail →
      Session pool { options with deadLabels := .drop } taken (session.withDeadLabels .drop) ∧
      (session.withDeadLabels .drop).finish = .ok built) := by
  have h : Finished pool options taken session built :=
    ⟨reachable, run, fun i mem => (produced i mem).fits, finished⟩
  exact ⟨h.laysOut, h.checkTables, h.sized, fun fails =>
    ⟨run.withDeadLabels .drop, h.withDeadLabels fails .drop⟩⟩

/-- A return on a line of its own, with a handler around it that is the return itself. -/
def guardedReturn : List Element :=
  [.line 7, .label (.fresh 0), .instruction ⟨.returnVoid, .none⟩, .label (.fresh 1),
    .exceptionCatch ⟨.fresh 0, .fresh 1, .fresh 0, none⟩]

/-- The session that has taken the guarded return. -/
def guarded : Assembler :=
  { start Pool.empty {} with
    code := #[0xb1]
    placed := ((∅ : Std.HashMap Label Nat).insert (.fresh 0) 0).insert (.fresh 1) 1
    lines := #[(0, 7)]
    catches := #[⟨.fresh 0, .fresh 1, .fresh 0, 0⟩] }

/-- The guarded return is taken element by element. -/
theorem session_guardedReturn : Session Pool.empty {} guardedReturn guarded := by
  refine @Session.addAll _ _ [] guardedReturn _ _ .start ?_
  refine addAll_cons_eq_ok_iff.mpr ⟨_, .line 7 rfl, ?_⟩
  refine addAll_cons_eq_ok_iff.mpr ⟨_, .label Std.HashMap.getElem?_empty, ?_⟩
  refine addAll_cons_eq_ok_iff.mpr ⟨_, @Taken.instruction _ _ ⟨#[0xb1], #[]⟩ rfl, ?_⟩
  refine addAll_cons_eq_ok_iff.mpr ⟨_, .label ?_, ?_⟩
  · simp [place, start]
  refine addAll_cons_eq_ok_iff.mpr ⟨_, .exceptionCatch _, ?_⟩
  exact addAll_nil _

/-- The guarded return has one handler and one line. -/
theorem finish_guarded :
    guarded.finish = .ok ⟨#[0xb1], #[⟨0, 7⟩], #[], #[], #[⟨0, 1, 0, 0⟩]⟩ := by
  have first : guarded.place (.fresh 0) = some 0 := by
    simp [place, guarded, Std.HashMap.getElem_insert]
  have last : guarded.place (.fresh 1) = some 1 := by
    simp [place, guarded]
  have row : guarded.exceptionRow? 1 ⟨.fresh 0, .fresh 1, .fresh 0, 0⟩ = .ok (some ⟨0, 1, 0, 0⟩) :=
    exceptionRow?_eq_ok_some_iff.mpr ⟨0, 1, 0, first, last, first, by decide, by decide, rfl⟩
  exact finish_eq_ok_iff.mpr ⟨resolves_nil_iff.mpr rfl, by decide,
    ⟨[some ⟨0, 1, 0, 0⟩], .cons row .nil, rfl⟩, ⟨[], .nil, rfl⟩, ⟨[], .nil, rfl⟩,
    by simp [lineRows, guarded]⟩

/-- The tables of the guarded return. -/
theorem finish_lays_out_guardedReturn :
    Built.LaysOut Pool.empty.resolver {} guardedReturn
      ⟨#[0xb1], #[⟨0, 7⟩], #[], #[], #[⟨0, 1, 0, 0⟩]⟩ := by
  refine (Session.finish_lays_out .empty session_guardedReturn ?_ finish_guarded).1
  intro i mem
  obtain rfl := List.mem_singleton.mp mem
  exact .constructed (@Instruction.Constructed.returnOf Pool.empty.resolver .void)

end Assembler

end JvmCode
