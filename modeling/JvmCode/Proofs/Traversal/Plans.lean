import JvmCode.Proofs.Traversal.Reads
import JvmCode.Traversal.Walk

/-! # What a plan holds

The plan of a traversal in terms of the instructions that the code reads as: a table row is accepted
when the positions it names are starts of instructions, and each position has the label and the line
numbers that the tables and the jumps give it.

* **`ExceptionRow.MarkedBy`** and **`LocalRow.MarkedBy`** relate table rows to the markers they become.
* **`Listing`** is all that decoding an attribute gives, with the proof that it is given.
* `Plan.make_eq_ok_iff`: a plan is made exactly of a listing. -/

namespace JvmCode

/-! ## Rows and markers -/

/-- The markers that an exception row becomes, in code that reads as given instructions. -/
structure ExceptionRow.MarkedBy (resolver : Resolver) (is : List Instruction) (row : ExceptionRow)
    (marker : CatchMarker) : Prop where
  /-- The range starts with an instruction. -/
  starts : Instruction.Starts is row.startPc.toNat
  /-- The range ends with an instruction or with the code. -/
  stops : Instruction.Starts is row.endPc.toNat ∨ row.endPc.toNat = Instruction.endOf 0 is
  /-- The handler starts with an instruction. -/
  handles : Instruction.Starts is row.handlerPc.toNat
  /-- The marker starts with the row. -/
  start_eq : marker.start = .decoded row.startPc
  /-- The marker ends with the row. -/
  stop_eq : marker.stop = .decoded row.endPc
  /-- The handler of the marker is that of the row. -/
  handler_eq : marker.handler = .decoded row.handlerPc
  /-- What is caught is the class of the row, if it has one. -/
  caught : if row.catchType = 0 then marker.caught = none else
    ∃ ref, resolver.classRef row.catchType = .ok ref ∧ marker.caught = some ref

/-- The markers that a local variable row becomes, in code that reads as given instructions. -/
structure LocalRow.MarkedBy (resolver : Resolver) (is : List Instruction) (row : LocalRow)
    (marker : LocalMarker) : Prop where
  /-- The range starts with an instruction. -/
  starts : Instruction.Starts is row.startPc.toNat
  /-- The range ends with an instruction or with the code. -/
  stops : Instruction.Starts is row.endPc ∨ row.endPc = Instruction.endOf 0 is
  /-- The marker starts with the row. -/
  start_eq : marker.start = .decoded row.startPc
  /-- The marker ends with the row. -/
  stop_eq : marker.stop.named? = some row.endPc
  /-- The name is the text at its index. -/
  name : resolver.text row.nameIndex = .ok marker.name
  /-- The descriptor or signature is the text at its index. -/
  type : resolver.text row.typeIndex = .ok marker.type
  /-- The local variable is that of the row. -/
  slot : marker.slot = row.slot

namespace Scan

variable {is : List Instruction} {label : Label} {pc : Nat}

/-- A table may name the start of an instruction and, as an end, the end of the code. -/
theorem tableLabel_eq_ok_iff {scan : Scan} {length : Nat} {isEnd : Bool} :
    scan.tableLabel length isEnd pc = .ok label ↔
      label.named? = some pc ∧ (scan.isStart pc = true ∨ isEnd = true ∧ pc = length) := by
  rw [tableLabel, Label.named?_eq_some_iff]
  split
  · rename_i h
    rw [Except.ok.injEq, eq_comm]
    exact ⟨fun same => ⟨⟨h.1, same⟩, h.2⟩, fun h => h.1.2⟩
  · rename_i h
    exact ⟨fun failed => (nomatch failed), fun given => absurd ⟨given.1.1, given.2⟩ h⟩

/-- The label of a position that a table names as a start names the start of an instruction. -/
theorem tableLabel_start_eq_ok_iff {length : Nat} :
    (empty.noteAll (Instruction.located 0 is)).tableLabel length false pc = .ok label ↔
      label.named? = some pc ∧ Instruction.Starts is pc := by
  rw [tableLabel_eq_ok_iff, isStart_located]
  simp only [Bool.false_eq_true, false_and, or_false]

/-- The label of a position that a table names as an end names the start of an instruction or the end
of the code. -/
theorem tableLabel_end_eq_ok_iff :
    (empty.noteAll (Instruction.located 0 is)).tableLabel (Instruction.endOf 0 is) true pc = .ok label ↔
      label.named? = some pc ∧ (Instruction.Starts is pc ∨ pc = Instruction.endOf 0 is) := by
  rw [tableLabel_eq_ok_iff, isStart_located]
  simp only [true_and]

end Scan

/-- A label that names a 16-bit position is the decoded label of it. -/
theorem Label.named?_eq_some_toNat_iff {label : Label} {bci : UInt16} :
    label.named? = some bci.toNat ↔ label = .decoded bci := by
  rw [named?_eq_some_iff, UInt16.ofNat_toNat]
  exact and_iff_right bci.toNat_lt

namespace Plan

variable {resolver : Resolver} {is : List Instruction}

/-- An exception row is accepted exactly when it becomes a marker. -/
theorem catchMarker_eq_ok_iff {row : ExceptionRow} {element : Element} :
    catchMarker (Scan.empty.noteAll (Instruction.located 0 is)) resolver (Instruction.endOf 0 is) row
        = .ok element ↔
      ∃ marker, row.MarkedBy resolver is marker ∧ element = .exceptionCatch marker := by
  simp only [catchMarker, Outcome.bind_eq_ok_iff, Scan.tableLabel_start_eq_ok_iff,
    Scan.tableLabel_end_eq_ok_iff, Label.named?_eq_some_toNat_iff]
  constructor
  · rintro ⟨start, ⟨rfl, starts⟩, stop, ⟨rfl, stops⟩, handler, ⟨rfl, handles⟩, h⟩
    -- Type 0 catches everything; any other type is looked up.
    split at h
    · rename_i zero
      obtain rfl := Outcome.pure_eq_ok_iff.mp h
      exact ⟨_, ⟨starts, stops, handles, rfl, rfl, rfl, by rw [if_pos zero]⟩, rfl⟩
    · rename_i nonzero
      split at h
      · rename_i ref found
        obtain rfl := Outcome.pure_eq_ok_iff.mp h
        refine ⟨_, ⟨starts, stops, handles, rfl, rfl, rfl, ?_⟩, rfl⟩
        rw [if_neg nonzero]
        exact ⟨ref, found, rfl⟩
      · cases h
  · rintro ⟨⟨start, stop, handler, caught⟩, marked, rfl⟩
    obtain ⟨starts, stops, handles, rfl, rfl, rfl, catches⟩ := marked
    refine ⟨_, ⟨rfl, starts⟩, _, ⟨rfl, stops⟩, _, ⟨rfl, handles⟩, ?_⟩
    by_cases zero : row.catchType = 0
    · rw [if_pos zero] at catches ⊢
      cases catches
      rfl
    · rw [if_neg zero] at catches ⊢
      obtain ⟨ref, found, same⟩ := catches
      cases same
      rw [found]
      rfl

/-- A local variable row is accepted exactly when it becomes a marker. -/
theorem localMarker_eq_ok_iff {row : LocalRow} {marker : LocalMarker} :
    localMarker (Scan.empty.noteAll (Instruction.located 0 is)) resolver (Instruction.endOf 0 is) row
        = .ok marker ↔ row.MarkedBy resolver is marker := by
  simp only [localMarker, Outcome.bind_eq_ok_iff, Scan.tableLabel_start_eq_ok_iff,
    Scan.tableLabel_end_eq_ok_iff, Label.named?_eq_some_toNat_iff, Outcome.mapError_eq_ok_iff,
    Outcome.pure_eq_ok_iff]
  constructor
  · rintro ⟨start, ⟨rfl, starts⟩, stop, ⟨named, stops⟩, name, foundName, type, foundType, rfl⟩
    exact ⟨starts, stops, rfl, named, foundName, foundType, rfl⟩
  · obtain ⟨slot, name, type, start, stop⟩ := marker
    rintro ⟨starts, stops, rfl, named, foundName, foundType, rfl⟩
    exact ⟨_, ⟨rfl, starts⟩, _, ⟨named, stops⟩, _, foundName, _, foundType, rfl⟩

end Plan

/-! ## Listings -/

/-- The local variable rows that are passed on. -/
def Options.passedLocals (options : Options) (rows : Array LocalRow) : List LocalRow :=
  if options.debugElements = .pass then rows.toList else []

/-- The line rows that are passed on. -/
def Options.passedLines (options : Options) (rows : Array LineRow) : List LineRow :=
  if options.lineNumbers = .pass then rows.toList else []

namespace Element

/-- The label of a position, if one of `labels` names it. -/
def labelAt (labels : List Label) (position : Nat) : List Element :=
  if labels.any fun label => label.named? == some position then
    [.label (.decoded (UInt16.ofNat position))]
  else []

/-- The line numbers of a position, in table order. -/
def linesAt (rows : List LineRow) (position : Nat) : List Element :=
  (rows.filter fun row => row.startPc.toNat == position).map fun row => .line row.line

/-- Instructions from `bci` on, each behind the label and the line numbers of its position, and the
label of the end. -/
def layOut (label lines : Nat → List Element) : Nat → List Instruction → List Element
  | bci, [] => label bci
  | bci, i :: rest =>
      label bci ++ lines bci ++ .instruction i :: layOut label lines (bci + i.size bci) rest

end Element

/-- All that decoding an attribute gives: instructions and markers, with the proofs that the code reads
as these instructions, that every jump lands, and that every row of a table becomes a marker. -/
structure Listing (attr : CodeAttribute) (resolver : Resolver) (options : Options) where
  /-- The instructions. -/
  instructions : List Instruction
  /-- The exception handlers. -/
  catches : List CatchMarker
  /-- The local variables with descriptors. -/
  locals : List LocalMarker
  /-- The local variables with signatures. -/
  localTypes : List LocalMarker
  /-- The code reads as the instructions. -/
  reads : Reads resolver attr.code 0 instructions
  /-- Every jump lands on an instruction. -/
  lands : ∀ i ∈ instructions, ∀ target ∈ i.targets, target.Lands instructions
  /-- The exception handlers are those of the table. -/
  markCatches : List.Forall₂ (ExceptionRow.MarkedBy resolver instructions) attr.exceptions.toList catches
  /-- The local variables are those of the table. -/
  markLocals : List.Forall₂ (LocalRow.MarkedBy resolver instructions)
    (options.passedLocals attr.locals) locals
  /-- The local variables with signatures are those of the table. -/
  markLocalTypes : List.Forall₂ (LocalRow.MarkedBy resolver instructions)
    (options.passedLocals attr.localTypes) localTypes
  /-- Every line starts with an instruction. -/
  linesStart : ∀ row ∈ options.passedLines attr.lines,
    Instruction.Starts instructions row.startPc.toNat

namespace Listing

variable {attr : CodeAttribute} {resolver : Resolver} {options : Options}

/-- The elements that come first. -/
def markers (listing : Listing attr resolver options) : List Element :=
  listing.catches.map .exceptionCatch ++ listing.locals.map .localVariable ++
    listing.localTypes.map .localVariableType

/-- The labels that something refers to. -/
def labels (listing : Listing attr resolver options) : List Label :=
  listing.instructions.flatMap Instruction.targets ++ listing.markers.flatMap Element.references

/-- All elements in order. -/
def elements (listing : Listing attr resolver options) : List Element :=
  listing.markers ++ Element.layOut (Element.labelAt listing.labels)
    (Element.linesAt (options.passedLines attr.lines)) 0 listing.instructions

/-- What is known before the first instruction is decoded. -/
def plan (listing : Listing attr resolver options) : Plan where
  markers := listing.markers
  labels := listing.labels.foldl Plan.refer ∅
  lines := (options.passedLines attr.lines).foldl Plan.groupLine ∅

end Listing

namespace Plan

/-- The positions that are referred to are those that the labels name. -/
theorem contains_foldl_refer (labels : List Label) (positions : Std.HashSet Nat) (position : Nat) :
    (labels.foldl refer positions).contains position =
      (positions.contains position || labels.any fun label => label.named? == some position) := by
  induction labels generalizing positions with
  | nil => simp
  | cons label rest ih =>
      rw [List.foldl_cons, ih, List.any_cons, ← Bool.or_assoc]
      cases label with
      | decoded bci =>
          rw [refer, Std.HashSet.contains_insert, Label.named?, Option.some_beq_some, Bool.or_comm _ (bci.toNat == _)]
      | fresh serial => simp [refer, Label.named?]

/-- The line numbers of a position are those of its rows, behind those already there. -/
theorem lines_foldl_groupLine (rows : List LineRow) (lines : Std.HashMap Nat (Array UInt16))
    (position : Nat) :
    ((rows.foldl groupLine lines)[position]?.getD #[]).toList =
      (lines[position]?.getD #[]).toList ++
        (rows.filter fun row => row.startPc.toNat == position).map LineRow.line := by
  induction rows generalizing lines with
  | nil => simp
  | cons row rest ih =>
      rw [List.foldl_cons, ih, groupLine, Std.HashMap.getElem?_alter, List.filter_cons]
      -- A row goes behind the rows of its own position and leaves all others alone.
      by_cases same : row.startPc.toNat = position
      · simp [same]
        rfl
      · simp [same]

/-- The label of a position in a plan. -/
def labelAt (plan : Plan) (position : Nat) : List Element :=
  if plan.labels.contains position then [.label (.decoded (UInt16.ofNat position))] else []

/-- The line numbers of a position in a plan. -/
def linesAt (plan : Plan) (position : Nat) : List Element :=
  (plan.lines[position]?.getD #[]).toList.map .line

variable {attr : CodeAttribute} {resolver : Resolver} {options : Options} {is : List Instruction}

/-- A plan has the labels that its listing refers to. -/
theorem labelAt_eq (listing : Listing attr resolver options) :
    listing.plan.labelAt = Element.labelAt listing.labels := by
  funext position
  rw [labelAt, Listing.plan, contains_foldl_refer, Std.HashSet.contains_empty, Bool.false_or]
  rfl

/-- A plan has the line numbers of the rows that are passed on. -/
theorem linesAt_eq (listing : Listing attr resolver options) :
    listing.plan.linesAt = Element.linesAt (options.passedLines attr.lines) := by
  funext position
  have numbers := lines_foldl_groupLine (options.passedLines attr.lines) ∅ position
  rw [Std.HashMap.getElem?_empty] at numbers
  exact (congrArg (List.map Element.line) numbers).trans (List.map_map ..)

/-- Local variable rows are accepted exactly when those passed on become markers. -/
theorem localMarkers_eq_ok_iff {rows : Array LocalRow} {markers : Array LocalMarker} :
    localMarkers (Scan.empty.noteAll (Instruction.located 0 is)) resolver (Instruction.endOf 0 is)
        options rows = .ok markers ↔
      List.Forall₂ (LocalRow.MarkedBy resolver is) (options.passedLocals rows) markers.toList := by
  simp only [localMarkers, Options.passesDebug_iff, Options.passedLocals]
  split
  · simp only [Outcome.arrayMapM_eq_ok_iff, localMarker_eq_ok_iff]
  · rw [List.forall₂_nil_left_iff, Array.toList_eq_nil_iff, Except.ok.injEq, eq_comm]
    rfl

/-- Line rows are accepted exactly when those passed on start with an instruction. -/
theorem lineRows_eq_ok_iff {length : Nat} {rows passed : Array LineRow} :
    lineRows (Scan.empty.noteAll (Instruction.located 0 is)) length options rows = .ok passed ↔
      (∀ row ∈ options.passedLines rows, Instruction.Starts is row.startPc.toNat) ∧
        passed.toList = options.passedLines rows := by
  -- All rows are checked before any is passed on, and only if they are passed on.
  have checked : rows.forM (fun row => discard ((Scan.empty.noteAll
      (Instruction.located 0 is)).tableLabel length false row.startPc.toNat)) = .ok () ↔
        ∀ row ∈ rows.toList, Instruction.Starts is row.startPc.toNat := by
    simp only [Outcome.arrayForM_eq_ok_iff, Outcome.discard_eq_ok_iff,
      Scan.tableLabel_start_eq_ok_iff, Label.named?_eq_some_toNat_iff, exists_eq_left,
      Array.mem_toList_iff]
  simp only [lineRows, Options.passesLines_iff, Options.passedLines]
  split
  · rw [Outcome.bind_eq_ok_iff, ← checked, Array.toList_inj]
    constructor
    · rintro ⟨⟨⟩, start, same⟩
      exact ⟨start, (Outcome.pure_eq_ok_iff.mp same).symm⟩
    · rintro ⟨start, rfl⟩
      exact ⟨(), start, rfl⟩
  · rw [Outcome.pure_eq_ok_iff, Array.toList_eq_nil_iff, eq_comm]
    simp only [List.not_mem_nil, false_implies, implies_true, true_and]
    rfl

/-- The positions that jumps and markers refer to, in one pass over all labels. -/
theorem labels_eq (bci : Nat) (is : List Instruction) (markers : Array Element) :
    markers.foldl (fun labels marker => marker.references.foldl refer labels)
        ((Scan.empty.noteAll (Instruction.located bci is)).jumps.foldl
          (fun labels jump => refer labels jump.target) ∅) =
      (is.flatMap Instruction.targets ++ markers.toList.flatMap Element.references).foldl refer ∅ := by
  rw [List.foldl_append, List.foldl_flatMap, ← Scan.map_target_jumps bci is, List.foldl_map,
    Array.foldl_toList, Array.foldl_toList]

/-- A plan is made exactly of a listing. -/
theorem make_eq_ok_iff (reads : Reads resolver attr.code 0 is) {plan : Plan} :
    make attr resolver options = .ok plan ↔
      ∃ listing : Listing attr resolver options, listing.instructions = is ∧ plan = listing.plan := by
  simp only [make, Outcome.bind_eq_ok_iff, Outcome.pure_eq_ok_iff, Scan.run_eq_ok_iff reads]
  rw [← reads.endOf_eq]
  -- Every stage of the plan is one field of the listing.
  constructor
  · rintro ⟨_, ⟨lands, rfl⟩, catches, madeCatches, locals, madeLocals, localTypes, madeLocalTypes, lines,
      madeLines, rfl⟩
    obtain ⟨linesStart, passed⟩ := lineRows_eq_ok_iff.mp madeLines
    simp only [Outcome.arrayMapM_eq_ok_iff, catchMarker_eq_ok_iff] at madeCatches
    obtain ⟨markers, markCatches, shape⟩ := Outcome.forall₂_exists_map madeCatches
    refine ⟨⟨is, markers, locals.toList, localTypes.toList, reads, lands, markCatches,
      localMarkers_eq_ok_iff.mp madeLocals, localMarkers_eq_ok_iff.mp madeLocalTypes, linesStart⟩, rfl, ?_⟩
    simp only [Listing.plan, Listing.markers, Listing.labels, ← passed, ← shape, ← Array.toList_map,
      ← Array.toList_append, labels_eq, Array.foldl_toList]
  · rintro ⟨listing, rfl, rfl⟩
    refine ⟨_, ⟨listing.lands, rfl⟩, (listing.catches.map Element.exceptionCatch).toArray, ?_,
      listing.locals.toArray, localMarkers_eq_ok_iff.mpr listing.markLocals, listing.localTypes.toArray,
      localMarkers_eq_ok_iff.mpr listing.markLocalTypes, (options.passedLines attr.lines).toArray,
      lineRows_eq_ok_iff.mpr ⟨listing.linesStart, rfl⟩, ?_⟩
    · simp only [Outcome.arrayMapM_eq_ok_iff, catchMarker_eq_ok_iff, List.forall₂_map_right_iff]
      exact listing.markCatches.imp fun row marker marked => ⟨marker, marked, rfl⟩
    · simp only [labels_eq, List.map_toArray, List.append_toArray]
      rw [List.foldl_toArray]
      rfl

end Plan

end JvmCode
