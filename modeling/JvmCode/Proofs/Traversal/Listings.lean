import JvmCode.Proofs.Elements
import JvmCode.Proofs.Traversal.Plans

/-! # What the elements of a listing say

The elements of a listing are its markers and its instructions, with labels and line numbers in between.

* `Listing.instructions_elements`, `Listing.catches_elements`, `Listing.locals_elements` and
  `Listing.localTypes_elements` find instructions and markers again.
* `Listing.places_elements`: every label that something refers to is placed where it says.
* `Listing.filter_lineMarks_elements`: every position has the line numbers of its rows. -/

namespace JvmCode

namespace Element

variable (labels : List Label) (rows : List LineRow)

/-- The label of a position is nothing else. -/
theorem filterMap_labelAt {α : Type} {pick : Element → Option α} (noLabel : ∀ label, pick (.label label) = none)
    (position : Nat) : (labelAt labels position).filterMap pick = [] := by
  unfold labelAt
  split
  · rw [List.filterMap_cons_none (noLabel _), List.filterMap_nil]
  · rfl

/-- Line numbers are nothing else. -/
theorem filterMap_linesAt {α : Type} {pick : Element → Option α} (noLine : ∀ number, pick (.line number) = none)
    (position : Nat) : (linesAt rows position).filterMap pick = [] := by
  rw [linesAt, List.filterMap_map, List.filterMap_eq_nil_iff]
  exact fun row _ => noLine row.line

/-- Between labels and line numbers stand the instructions. -/
@[simp] theorem instructions_layOut (bci : Nat) (is : List Instruction) :
    instructions (layOut (labelAt labels) (linesAt rows) bci is) = is := by
  induction is generalizing bci with
  | nil => exact filterMap_labelAt labels (fun _ => rfl) bci
  | cons i rest ih =>
      rw [layOut, instructions_append, instructions_append, instructions,
        filterMap_labelAt labels (fun _ => rfl), instructions, filterMap_linesAt rows (fun _ => rfl)]
      exact congrArg (i :: ·) (ih _)

/-- Between labels and line numbers stand only instructions. -/
theorem filterMap_layOut {α : Type} {pick : Element → Option α} (noLabel : ∀ label, pick (.label label) = none)
    (noLine : ∀ number, pick (.line number) = none) (noInstruction : ∀ i, pick (.instruction i) = none)
    (bci : Nat) (is : List Instruction) :
    (layOut (labelAt labels) (linesAt rows) bci is).filterMap pick = [] := by
  induction is generalizing bci with
  | nil => exact filterMap_labelAt labels noLabel bci
  | cons i rest ih =>
      rw [layOut, List.filterMap_append, List.filterMap_append, filterMap_labelAt labels noLabel,
        filterMap_linesAt rows noLine, List.filterMap_cons_none (noInstruction i), ih]
      rfl

/-- Line numbers place no label. -/
theorem placesFrom_linesAt (bci position : Nat) (sought : Label) :
    placesFrom bci (linesAt rows position) sought = none := by
  unfold linesAt
  induction rows.filter fun row => row.startPc.toNat == position with
  | nil => rfl
  | cons row rest ih => exact ih

variable {labels}

/-- A label that something refers to is placed at its position. -/
theorem placesFrom_labelAt_of_mem {sought : Label} {position : Nat} (mem : sought ∈ labels)
    (named : sought.named? = some position) :
    placesFrom position (labelAt labels position) sought = some position := by
  obtain ⟨small, rfl⟩ := Label.named?_eq_some_iff.mp named
  have any : (labels.any fun label => label.named? == some position) = true :=
    List.any_eq_true.mpr ⟨_, mem, by rw [named, BEq.rfl]⟩
  rw [labelAt, if_pos any, placesFrom, if_pos rfl]

/-- A label is placed at no other position. -/
theorem placesFrom_labelAt_of_ne {sought : Label} {position other bci : Nat}
    (named : sought.named? = some position) (ne : position ≠ other) :
    placesFrom bci (labelAt labels other) sought = none := by
  unfold labelAt
  split
  · rename_i any
    obtain ⟨label, -, same⟩ := List.any_eq_true.mp any
    obtain ⟨small, rfl⟩ := Label.named?_eq_some_iff.mp (eq_of_beq same)
    rw [placesFrom, if_neg]
    · rfl
    · rintro rfl
      rw [eq_of_beq same] at named
      exact ne (Option.some.inj named).symm
  · rfl

/-- A label that something refers to is placed where it says, if that is a boundary. -/
theorem placesFrom_layOut {sought : Label} {position bci : Nat} {is : List Instruction}
    (mem : sought ∈ labels) (named : sought.named? = some position)
    (boundary : Instruction.Boundary bci is position) :
    placesFrom bci (layOut (labelAt labels) (linesAt rows) bci is) sought = some position := by
  induction is generalizing bci with
  | nil =>
      obtain ⟨i, mem⟩ | rfl := boundary
      · cases mem
      · exact placesFrom_labelAt_of_mem mem named
  | cons i rest ih =>
      rw [layOut, List.append_assoc, placesFrom_append]
      -- Only the label of its own position is the one looked for.
      by_cases here : position = bci
      · obtain rfl := here
        rw [placesFrom_labelAt_of_mem mem named]
        rfl
      · rw [placesFrom_labelAt_of_ne named here, placesFrom_append, placesFrom_linesAt, instructions,
          filterMap_labelAt labels (fun _ => rfl), instructions, filterMap_linesAt rows (fun _ => rfl)]
        exact ih ((Instruction.boundary_cons_iff.mp boundary).resolve_left here)

/-- The label of a position is no line number. -/
theorem lineMarksFrom_labelAt (bci position : Nat) :
    lineMarksFrom bci (labelAt labels position) = [] := by
  unfold labelAt
  split <;> rfl

/-- The line numbers of a position, standing at it. -/
theorem lineMarksFrom_linesAt (bci position : Nat) :
    lineMarksFrom bci (linesAt rows position) =
      (rows.filter fun row => row.startPc.toNat == position).map fun row => (bci, row.line) := by
  unfold linesAt
  induction rows.filter fun row => row.startPc.toNat == position with
  | nil => rfl
  | cons row rest ih => exact congrArg ((bci, row.line) :: ·) ih

/-- The line numbers among labels and instructions, those of the first position in front. -/
theorem lineMarksFrom_layOut_cons (bci : Nat) (i : Instruction) (rest : List Instruction) :
    lineMarksFrom bci (layOut (labelAt labels) (linesAt rows) bci (i :: rest)) =
      ((rows.filter fun row => row.startPc.toNat == bci).map fun row => (bci, row.line)) ++
        lineMarksFrom (bci + i.size bci)
          (layOut (labelAt labels) (linesAt rows) (bci + i.size bci) rest) := by
  rw [layOut, List.append_assoc, lineMarksFrom_append, lineMarksFrom_labelAt, instructions,
    filterMap_labelAt labels (fun _ => rfl), lineMarksFrom_append, Instruction.endOf_nil,
    lineMarksFrom_linesAt, instructions, filterMap_linesAt rows (fun _ => rfl)]
  rfl

/-- The line numbers that stand at a position are those of its rows, if every row starts with an
instruction. -/
theorem filter_lineMarksFrom_layOut {bci : Nat} {is : List Instruction}
    (starts : ∀ row ∈ rows, bci ≤ row.startPc.toNat →
      ∃ i, (row.startPc.toNat, i) ∈ Instruction.located bci is) (position : Nat) :
    ((lineMarksFrom bci (layOut (labelAt labels) (linesAt rows) bci is)).filter
        fun mark => mark.1 == position) =
      if bci ≤ position then
        (rows.filter fun row => row.startPc.toNat == position).map fun row => (position, row.line)
      else [] := by
  -- Rows may be in any order; at each position they are met in table order.
  induction is generalizing bci with
  | nil =>
      rw [layOut, lineMarksFrom_labelAt, List.filter_nil]
      split
      · rename_i behind
        have none : (rows.filter fun row => row.startPc.toNat == position) = [] := by
          refine List.filter_eq_nil_iff.mpr fun row mem here => ?_
          obtain ⟨i, located⟩ := starts row mem (by rw [eq_of_beq here]; exact behind)
          cases located
        rw [none, List.map_nil]
      · rfl
  | cons i rest ih =>
      have positive := i.size_pos bci
      -- Rows behind this position start with one of the later instructions.
      have later : ∀ row ∈ rows, bci < row.startPc.toNat →
          ∃ j, (row.startPc.toNat, j) ∈ Instruction.located (bci + i.size bci) rest := by
        intro row mem behind
        obtain ⟨j, located⟩ := starts row mem (Nat.le_of_lt behind)
        obtain same | located := List.mem_cons.mp located
        · cases same
          exact absurd behind (Nat.lt_irrefl _)
        · exact ⟨j, located⟩
      rw [lineMarksFrom_layOut_cons, List.filter_append,
        ih fun row mem behind => later row mem (by omega), List.filter_map]
      by_cases here : position = bci
      · subst here
        rw [if_neg (by omega), if_pos (Nat.le_refl _), List.append_nil]
        simp [Function.comp_def]
      · have apart : (bci == position) = false := by
          rw [beq_eq_false_iff_ne]
          exact fun same => here same.symm
        simp only [Function.comp_def, apart, List.filter_false, List.map_nil, List.nil_append]
        by_cases behind : bci + i.size bci ≤ position
        · rw [if_pos behind, if_pos (by omega)]
        · rw [if_neg behind]
          split
          · -- No row starts inside the instruction.
            have none : (rows.filter fun row => row.startPc.toNat == position) = [] := by
              refine List.filter_eq_nil_iff.mpr fun row mem same => ?_
              have same := eq_of_beq same
              obtain ⟨j, located⟩ := later row mem (by omega)
              have lower := (Instruction.bounds_of_mem_located located).1
              omega
            rw [none, List.map_nil]
          · rfl

end Element

namespace Listing

variable {attr : CodeAttribute} {resolver : Resolver} {options : Options}

variable (listing : Listing attr resolver options)

/-- What is picked from the markers of a listing, table by table. -/
theorem filterMap_markers {α : Type} (pick : Element → Option α) :
    listing.markers.filterMap pick =
      listing.catches.filterMap (pick ∘ .exceptionCatch) ++
        listing.locals.filterMap (pick ∘ .localVariable) ++
        listing.localTypes.filterMap (pick ∘ .localVariableType) := by
  simp only [markers, List.filterMap_append, List.filterMap_map]

/-- Markers are no instructions. -/
@[simp] theorem instructions_markers : Element.instructions listing.markers = [] := by
  rw [Element.instructions, filterMap_markers]
  simp [Function.comp_def, Element.instruction?]

/-- The instructions among the elements of a listing are its instructions. -/
@[simp] theorem instructions_elements :
    Element.instructions listing.elements = listing.instructions := by
  rw [elements, Element.instructions_append, instructions_markers, Element.instructions_layOut]
  rfl

/-- The exception handlers among the elements of a listing are its exception handlers. -/
theorem catches_elements : Element.catches listing.elements = listing.catches := by
  rw [elements, Element.catches_append, Element.catches, filterMap_markers, Element.catches,
    Element.filterMap_layOut _ _ (fun _ => rfl) (fun _ => rfl) (fun _ => rfl)]
  simp [Function.comp_def, Element.catch?]

/-- The local variables among the elements of a listing are its local variables. -/
theorem locals_elements : Element.locals listing.elements = listing.locals := by
  rw [elements, Element.locals_append, Element.locals, filterMap_markers, Element.locals,
    Element.filterMap_layOut _ _ (fun _ => rfl) (fun _ => rfl) (fun _ => rfl)]
  simp [Function.comp_def, Element.local?]

/-- The local variables with signatures among the elements of a listing are those of the listing. -/
theorem localTypes_elements : Element.localTypes listing.elements = listing.localTypes := by
  rw [elements, Element.localTypes_append, Element.localTypes, filterMap_markers, Element.localTypes,
    Element.filterMap_layOut _ _ (fun _ => rfl) (fun _ => rfl) (fun _ => rfl)]
  simp [Function.comp_def, Element.localType?]

/-- The markers of a listing, table by table. -/
theorem mem_markers_iff {element : Element} : element ∈ listing.markers ↔
    (∃ marker ∈ listing.catches, .exceptionCatch marker = element) ∨
      (∃ marker ∈ listing.locals, .localVariable marker = element) ∨
      ∃ marker ∈ listing.localTypes, .localVariableType marker = element := by
  simp only [markers, List.mem_append, List.mem_map, or_assoc]

/-- The labels that a marker refers to are labels of the listing. -/
theorem mem_labels_of_mem_markers {element : Element} {label : Label} (mem : element ∈ listing.markers)
    (refers : label ∈ element.references) : label ∈ listing.labels :=
  List.mem_append_right _ (List.mem_flatMap.mpr ⟨element, mem, refers⟩)

/-- A label that a local variable refers to names a boundary of the instructions. -/
theorem boundary_of_markedBy {is : List Instruction} {row : LocalRow} {marker : LocalMarker}
    (marked : row.MarkedBy resolver is marker) {label : Label} (mem : label ∈ [marker.start, marker.stop]) :
    ∃ position, label.named? = some position ∧ Instruction.Boundary 0 is position := by
  simp only [List.mem_cons, List.not_mem_nil, or_false] at mem
  obtain rfl | rfl := mem
  · exact ⟨_, Label.named?_eq_some_toNat_iff.mpr marked.start_eq, .inl marked.starts⟩
  · exact ⟨_, marked.stop_eq, marked.stops⟩

/-- A label that something refers to names a boundary of the instructions. -/
theorem boundary_of_mem_labels {label : Label} (mem : label ∈ listing.labels) :
    ∃ position, label.named? = some position ∧
      Instruction.Boundary 0 listing.instructions position := by
  rw [labels, List.mem_append, List.mem_flatMap, List.mem_flatMap] at mem
  -- Jumps land on instructions; markers may also end with the code.
  obtain ⟨i, within, target⟩ | ⟨element, marks, refers⟩ := mem
  · obtain ⟨position, named, starts⟩ := listing.lands i within label target
    exact ⟨position, named, .inl starts⟩
  · obtain ⟨marker, within, rfl⟩ | ⟨marker, within, rfl⟩ | ⟨marker, within, rfl⟩ :=
      listing.mem_markers_iff.mp marks
    · obtain ⟨row, -, marked⟩ := Outcome.exists_of_forall₂_of_mem listing.markCatches within
      simp only [Element.references, List.mem_cons, List.not_mem_nil, or_false] at refers
      obtain rfl | rfl | rfl := refers
      · exact ⟨_, Label.named?_eq_some_toNat_iff.mpr marked.start_eq, .inl marked.starts⟩
      · exact ⟨_, Label.named?_eq_some_toNat_iff.mpr marked.stop_eq, marked.stops⟩
      · exact ⟨_, Label.named?_eq_some_toNat_iff.mpr marked.handler_eq, .inl marked.handles⟩
    · obtain ⟨row, -, marked⟩ := Outcome.exists_of_forall₂_of_mem listing.markLocals within
      exact boundary_of_markedBy marked refers
    · obtain ⟨row, -, marked⟩ := Outcome.exists_of_forall₂_of_mem listing.markLocalTypes within
      exact boundary_of_markedBy marked refers

/-- Markers place no label. -/
theorem placesFrom_markers (bci : Nat) (label : Label) :
    Element.placesFrom bci listing.markers label = none := by
  refine Element.placesFrom_eq_none (fun mem => ?_) bci
  obtain ⟨_, -, h⟩ | ⟨_, -, h⟩ | ⟨_, -, h⟩ := listing.mem_markers_iff.mp mem <;> cases h

/-- Markers are no line numbers. -/
theorem lineMarksFrom_markers (bci : Nat) : Element.lineMarksFrom bci listing.markers = [] := by
  refine Element.lineMarksFrom_eq_nil (fun number mem => ?_) bci
  obtain ⟨_, -, h⟩ | ⟨_, -, h⟩ | ⟨_, -, h⟩ := listing.mem_markers_iff.mp mem <;> cases h

/-- Every label that something refers to is placed where it says. -/
theorem places_elements {label : Label} (mem : label ∈ listing.labels) :
    Element.places listing.elements label = label.named? := by
  obtain ⟨position, named, boundary⟩ := listing.boundary_of_mem_labels mem
  rw [elements, Element.places, Element.placesFrom_append, placesFrom_markers, instructions_markers, named]
  exact Element.placesFrom_layOut _ mem named boundary

/-- The line numbers that stand at a position of a listing are those of its rows. -/
theorem filter_lineMarks_elements (position : Nat) :
    (Element.lineMarks listing.elements).filter (fun mark => mark.1 == position) =
      ((options.passedLines attr.lines).filter fun row => row.startPc.toNat == position).map
        fun row => (position, row.line) := by
  rw [elements, Element.lineMarks, Element.lineMarksFrom_append, lineMarksFrom_markers,
    instructions_markers, List.nil_append]
  exact (Element.filter_lineMarksFrom_layOut _ (fun row mem _ => listing.linesStart row mem) position).trans
    (if_pos (Nat.zero_le _))

/-- Line numbers stand where instructions start. -/
theorem starts_of_mem_lineMarks {mark : Nat × UInt16} (mem : mark ∈ Element.lineMarks listing.elements) :
    Instruction.Starts listing.instructions mark.1 := by
  have here : mark ∈ (Element.lineMarks listing.elements).filter fun other => other.1 == mark.1 :=
    List.mem_filter.mpr ⟨mem, BEq.rfl⟩
  rw [filter_lineMarks_elements] at here
  obtain ⟨row, kept, -⟩ := List.mem_map.mp here
  obtain ⟨within, same⟩ := List.mem_filter.mp kept
  rw [← eq_of_beq same]
  exact listing.linesStart row within

end Listing

end JvmCode
