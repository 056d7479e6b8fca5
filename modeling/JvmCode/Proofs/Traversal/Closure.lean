import JvmCode.Proofs.Traversal.Decoding
import JvmCode.Proofs.Traversal.Listings

/-! # The order of decoded elements, and the labels among them

What decoding gives is laid out by the positions of the code: first the markers of the tables, then every
instruction behind the label and the line numbers of its position, and at last the label of the end. A
label is placed exactly where, and only where, another element refers to it.

* **`Element.referenced`** are the labels that elements refer to, and **`Element.rangeEnds`** those that a
  range ends with.
* `Listing.count_label_elements` and `Listing.mem_labels_of_label`: labels that are referred to are placed
  once, and no others are.
* `Listing.perm_lineMarks`: the line numbers are those of the rows.
* `CodeAttribute.decode_layout` puts them together. -/

namespace JvmCode

namespace Element

/-- The labels that elements refer to. -/
def referenced (elements : List Element) : List Label := elements.flatMap references

/-- The label that the range of an element ends with. -/
def rangeEnd? : Element → Option Label
  | .localVariable marker | .localVariableType marker => some marker.stop
  | .exceptionCatch marker => some marker.stop
  | .instruction _ | .label _ | .line _ => none

/-- The labels that the ranges of elements end with. -/
def rangeEnds (elements : List Element) : List Label := elements.filterMap rangeEnd?

/-- What an element ends with it refers to. -/
theorem mem_references_of_rangeEnd? {element : Element} {label : Label}
    (ends : element.rangeEnd? = some label) : label ∈ element.references := by
  cases element with
  | instruction i => simp [rangeEnd?] at ends
  | label other => simp [rangeEnd?] at ends
  | line number => simp [rangeEnd?] at ends
  | localVariable marker => simp_all [rangeEnd?, references]
  | localVariableType marker => simp_all [rangeEnd?, references]
  | exceptionCatch marker => simp_all [rangeEnd?, references]

variable {labels : List Label} {rows : List LineRow} {position : Nat}

/-- The labels of a position are those that name it. -/
theorem mem_labelAt_iff {element : Element} : element ∈ labelAt labels position ↔
    ∃ label ∈ labels, label.named? = some position ∧ element = .label label := by
  unfold labelAt
  by_cases any : (labels.any fun label => label.named? == some position) = true
  · rw [if_pos any, List.mem_singleton]
    constructor
    · rintro rfl
      obtain ⟨label, mem, named⟩ := List.any_eq_true.mp any
      have shape := (Label.named?_eq_some_iff.mp (eq_of_beq named)).2
      exact ⟨label, mem, eq_of_beq named, by rw [shape]⟩
    · rintro ⟨label, -, named, rfl⟩
      rw [(Label.named?_eq_some_iff.mp named).2]
  · rw [if_neg any]
    constructor
    · intro mem
      simp at mem
    · rintro ⟨label, mem, named, -⟩
      exact absurd (List.any_eq_true.mpr ⟨label, mem, by simp [named]⟩) any

/-- Only the labels that name a position count for it. -/
theorem labelAt_congr {others : List Label}
    (same : ∀ label, label.named? = some position → (label ∈ labels ↔ label ∈ others)) :
    labelAt labels position = labelAt others position := by
  have any : (labels.any fun label => label.named? == some position) =
      others.any fun label => label.named? == some position := by
    rw [Bool.eq_iff_iff, List.any_eq_true, List.any_eq_true]
    constructor
    · rintro ⟨label, mem, named⟩
      exact ⟨label, (same label (eq_of_beq named)).mp mem, named⟩
    · rintro ⟨label, mem, named⟩
      exact ⟨label, (same label (eq_of_beq named)).mpr mem, named⟩
  rw [labelAt, labelAt, any]

/-- Elements are laid out start by start, and the label of the end comes last. -/
theorem layOut_eq_flatMap_located (label lines : Nat → List Element) (bci : Nat)
    (is : List Instruction) :
    layOut label lines bci is =
      (Instruction.located bci is).flatMap (fun start =>
        label start.1 ++ lines start.1 ++ [.instruction start.2]) ++
        label (Instruction.endOf bci is) := by
  induction is generalizing bci with
  | nil => simp [layOut, Instruction.located]
  | cons i rest ih => simp [layOut, Instruction.located, Instruction.endOf, ih]

/-- Between labels and line numbers only instructions refer to labels. -/
theorem referenced_layOut (bci : Nat) (is : List Instruction) :
    referenced (layOut (labelAt labels) (linesAt rows) bci is) = is.flatMap Instruction.targets := by
  have placed : ∀ position, referenced (labelAt labels position) = [] := by
    intro position
    refine List.flatMap_eq_nil_iff.mpr fun element mem => ?_
    obtain ⟨label, -, -, rfl⟩ := mem_labelAt_iff.mp mem
    rfl
  have numbered : ∀ position, referenced (linesAt rows position) = [] := by
    intro position
    refine List.flatMap_eq_nil_iff.mpr fun element mem => ?_
    obtain ⟨row, -, rfl⟩ := List.mem_map.mp mem
    rfl
  induction is generalizing bci with
  | nil => exact placed bci
  | cons i rest ih =>
      have later := ih (bci + i.size bci)
      have here := placed bci
      have lines := numbered bci
      unfold referenced at *
      rw [layOut, List.flatMap_append, List.flatMap_append, here, lines, List.flatMap_cons, later]
      rfl

/-! ## Labels are placed once -/

variable {sought : Label}

/-- A label that something refers to is placed once at its position, and at no other. -/
theorem count_label_labelAt (mem : sought ∈ labels) (named : sought.named? = some position)
    (other : Nat) :
    (labelAt labels other).count (.label sought) = if other = position then 1 else 0 := by
  by_cases here : other = position
  · subst here
    have any : (labels.any fun label => label.named? == some other) = true :=
      List.any_eq_true.mpr ⟨sought, mem, by simp [named]⟩
    rw [labelAt, if_pos any, ← (Label.named?_eq_some_iff.mp named).2]
    simp
  · rw [if_neg here, List.count_eq_zero]
    intro placed
    obtain ⟨label, -, elsewhere, same⟩ := mem_labelAt_iff.mp placed
    cases same
    rw [named] at elsewhere
    exact here (Option.some.inj elsewhere).symm

/-- Line numbers place no label. -/
theorem count_label_linesAt (other : Nat) : (linesAt rows other).count (.label sought) = 0 := by
  rw [List.count_eq_zero]
  intro placed
  obtain ⟨row, -, same⟩ := List.mem_map.mp placed
  cases same

/-- The places of a label among elements, those of the first position in front. -/
theorem count_label_layOut_cons (mem : sought ∈ labels) (named : sought.named? = some position)
    (bci : Nat) (i : Instruction) (rest : List Instruction) :
    (layOut (labelAt labels) (linesAt rows) bci (i :: rest)).count (.label sought) =
      (if bci = position then 1 else 0) +
        (layOut (labelAt labels) (linesAt rows) (bci + i.size bci) rest).count (.label sought) := by
  rw [layOut, List.count_append, List.count_append, count_label_labelAt mem named, count_label_linesAt,
    List.count_cons_of_ne (by simp), Nat.add_zero]

/-- Behind its position a label is not placed any more. -/
theorem count_label_layOut_of_lt (mem : sought ∈ labels) (named : sought.named? = some position)
    {bci : Nat} (behind : position < bci) (is : List Instruction) :
    (layOut (labelAt labels) (linesAt rows) bci is).count (.label sought) = 0 := by
  induction is generalizing bci with
  | nil => rw [layOut, count_label_labelAt mem named, if_neg (by omega)]
  | cons i rest ih =>
      rw [count_label_layOut_cons mem named, if_neg (by omega), ih (by omega)]

/-- A label that something refers to is placed once, if its position is a boundary. -/
theorem count_label_layOut (mem : sought ∈ labels) (named : sought.named? = some position) {bci : Nat}
    {is : List Instruction} (boundary : Instruction.Boundary bci is position) :
    (layOut (labelAt labels) (linesAt rows) bci is).count (.label sought) = 1 := by
  induction is generalizing bci with
  | nil =>
      have here : position = bci := by
        obtain ⟨i, located⟩ | ends := boundary
        · simp [Instruction.located] at located
        · exact ends
      rw [layOut, count_label_labelAt mem named, if_pos here.symm]
  | cons i rest ih =>
      have positive := i.size_pos bci
      rw [count_label_layOut_cons mem named]
      -- Positions ascend, so a label is met at its own position and never again.
      by_cases here : position = bci
      · rw [if_pos here.symm, count_label_layOut_of_lt mem named (by omega)]
      · rw [if_neg fun same => here same.symm,
          ih ((Instruction.boundary_cons_iff.mp boundary).resolve_left here)]

end Element

namespace Listing

variable {attr : CodeAttribute} {resolver : Resolver} {options : Options}

variable (listing : Listing attr resolver options)

/-- The labels of a listing are those that its elements refer to. -/
theorem mem_labels_iff {label : Label} :
    label ∈ listing.labels ↔ label ∈ Element.referenced listing.elements := by
  have parts : Element.referenced listing.elements =
      listing.markers.flatMap Element.references ++
        listing.instructions.flatMap Instruction.targets := by
    rw [elements, Element.referenced, List.flatMap_append]
    exact congrArg _ (Element.referenced_layOut 0 _)
  rw [parts, labels, List.mem_append, List.mem_append, or_comm]

/-- Markers place no label. -/
theorem label_not_mem_markers (label : Label) : Element.label label ∉ listing.markers := by
  intro mem
  rcases listing.mem_markers_iff.mp mem with ⟨_, -, same⟩ | ⟨_, -, same⟩ | ⟨_, -, same⟩
  · cases same
  · cases same
  · cases same

/-- A label that something refers to is placed once. -/
theorem count_label_elements {label : Label} (mem : label ∈ listing.labels) :
    listing.elements.count (.label label) = 1 := by
  obtain ⟨position, named, boundary⟩ := listing.boundary_of_mem_labels mem
  have first : listing.markers.count (.label label) = 0 :=
    List.count_eq_zero.mpr (listing.label_not_mem_markers label)
  rw [elements, List.count_append, first, Element.count_label_layOut mem named boundary]

/-- A label that is placed is referred to. -/
theorem mem_labels_of_label {label : Label} (placed : .label label ∈ listing.elements) :
    label ∈ listing.labels := by
  rw [elements, List.mem_append, Element.layOut_eq_flatMap_located, List.mem_append,
    List.mem_flatMap] at placed
  rcases placed with marks | ⟨start, -, here⟩ | last
  · exact absurd marks (listing.label_not_mem_markers label)
  · rw [List.mem_append, List.mem_append] at here
    rcases here with (here | numbered) | decoded
    · obtain ⟨other, mem, -, same⟩ := Element.mem_labelAt_iff.mp here
      cases same
      exact mem
    · obtain ⟨row, -, same⟩ := List.mem_map.mp numbered
      cases same
    · simp at decoded
  · obtain ⟨other, mem, -, same⟩ := Element.mem_labelAt_iff.mp last
    cases same
    exact mem

/-- A label that an element refers to names the end of the code only if a range ends there. -/
theorem mem_rangeEnds_of_named {label : Label} (mem : label ∈ listing.labels)
    (named : label.named? = some attr.code.size) : label ∈ Element.rangeEnds listing.elements := by
  -- Starts and targets lie in front of the end of the code.
  have inside : ∀ position, Instruction.Starts listing.instructions position →
      label.named? ≠ some position := by
    intro position starts same
    have before := starts.lt_endOf
    rw [listing.reads.endOf_eq] at before
    rw [named] at same
    exact absurd (Option.some.inj same) (by omega)
  have ends : ∀ element ∈ listing.markers, element.rangeEnd? = some label →
      label ∈ Element.rangeEnds listing.elements := by
    intro element marks ends
    exact List.mem_filterMap.mpr ⟨element, List.mem_append_left _ marks, ends⟩
  rw [labels, List.mem_append, List.mem_flatMap, List.mem_flatMap] at mem
  rcases mem with ⟨i, within, target⟩ | ⟨element, marks, refers⟩
  · obtain ⟨position, lands, starts⟩ := listing.lands i within label target
    exact absurd lands (inside position starts)
  · rcases listing.mem_markers_iff.mp marks with
      ⟨marker, within, rfl⟩ | ⟨marker, within, rfl⟩ | ⟨marker, within, rfl⟩
    · obtain ⟨row, -, marked⟩ := Outcome.exists_of_forall₂_of_mem listing.markCatches within
      simp only [Element.references, List.mem_cons, List.not_mem_nil, or_false] at refers
      rcases refers with rfl | rfl | rfl
      · exact absurd (Label.named?_eq_some_toNat_iff.mpr marked.start_eq) (inside _ marked.starts)
      · exact ends _ marks rfl
      · exact absurd (Label.named?_eq_some_toNat_iff.mpr marked.handler_eq) (inside _ marked.handles)
    · obtain ⟨row, -, marked⟩ := Outcome.exists_of_forall₂_of_mem listing.markLocals within
      simp only [Element.references, List.mem_cons, List.not_mem_nil, or_false] at refers
      rcases refers with rfl | rfl
      · exact absurd (Label.named?_eq_some_toNat_iff.mpr marked.start_eq) (inside _ marked.starts)
      · exact ends _ marks rfl
    · obtain ⟨row, -, marked⟩ := Outcome.exists_of_forall₂_of_mem listing.markLocalTypes within
      simp only [Element.references, List.mem_cons, List.not_mem_nil, or_false] at refers
      rcases refers with rfl | rfl
      · exact absurd (Label.named?_eq_some_toNat_iff.mpr marked.start_eq) (inside _ marked.starts)
      · exact ends _ marks rfl

/-- The label of the end of the code is that of a range that ends there. -/
theorem labelAt_end : Element.labelAt listing.labels attr.code.size =
    Element.labelAt (Element.rangeEnds listing.elements) attr.code.size := by
  refine Element.labelAt_congr fun label named => ⟨fun mem => listing.mem_rangeEnds_of_named mem named, ?_⟩
  intro mem
  obtain ⟨element, within, ends⟩ := List.mem_filterMap.mp mem
  exact listing.mem_labels_iff.mpr
    (List.mem_flatMap.mpr ⟨element, within, Element.mem_references_of_rangeEnd? ends⟩)

/-- The line numbers of a listing, with their positions, are those of the rows that are passed on. -/
theorem perm_lineMarks : (Element.lineMarks listing.elements).Perm
    ((options.passedLines attr.lines).map fun row => (row.startPc.toNat, row.line)) := by
  rw [List.perm_iff_count]
  intro mark
  -- Both sides are counted among the marks of one position, where they are the same list.
  let here : Nat × UInt16 → Bool := fun other => other.1 == mark.1
  have stays : ∀ marks : List (Nat × UInt16), (marks.filter here).count mark = marks.count mark :=
    fun marks => List.count_filter (by simp [here])
  have rows : ((options.passedLines attr.lines).map fun row => (row.startPc.toNat, row.line)).filter here =
      (Element.lineMarks listing.elements).filter here := by
    rw [filter_lineMarks_elements, List.filter_map]
    refine List.map_congr_left fun row mem => ?_
    have starts : row.startPc.toNat = mark.1 := eq_of_beq (List.mem_filter.mp mem).2
    rw [starts]
  rw [← stays, ← rows, stays]

end Listing

namespace CodeAttribute

variable {attr : CodeAttribute} {resolver : Resolver} {options : Options} {elements : Array Element}

/-- The layout of decoded elements. `attr.decode` gives one `exceptionCatch` for each exception row, then one
local variable for each row of `options.passedLocals`, and then the instructions that `attr.code` reads as from
`0` to its end. In front of each stand `Element.labelAt` its position, if an element refers to it, and
`Element.linesAt` its position, in table order; behind the last stands the label of the end, if a range ends
there. So every label among `Element.referenced` is placed once, no other label is placed, and the
`Element.lineMarks` are the rows of `options.passedLines`. -/
theorem decode_layout (decoded : attr.decode resolver options = .ok elements) :
    ∃ (instructions : List Instruction) (catches : List CatchMarker) (locals localTypes : List LocalMarker),
      (∀ bci i, (bci, i) ∈ Instruction.located 0 instructions →
        Instruction.read resolver attr.code (Cursor.startingAt bci) = .ok i ⟨bci + i.size bci, bci⟩) ∧
      Instruction.endOf 0 instructions = attr.code.size ∧
      (Instruction.located 0 instructions).Pairwise (fun first second => first.1 < second.1) ∧
      List.Forall₂ (ExceptionRow.MarkedBy resolver instructions) attr.exceptions.toList catches ∧
      List.Forall₂ (LocalRow.MarkedBy resolver instructions)
        (options.passedLocals attr.locals) locals ∧
      List.Forall₂ (LocalRow.MarkedBy resolver instructions)
        (options.passedLocals attr.localTypes) localTypes ∧
      elements.toList =
        catches.map .exceptionCatch ++ locals.map .localVariable ++ localTypes.map .localVariableType ++
        (Instruction.located 0 instructions).flatMap (fun start =>
          Element.labelAt (Element.referenced elements.toList) start.1 ++
            Element.linesAt (options.passedLines attr.lines) start.1 ++ [.instruction start.2]) ++
        Element.labelAt (Element.rangeEnds elements.toList) attr.code.size ∧
      (∀ label ∈ Element.referenced elements.toList, elements.toList.count (.label label) = 1) ∧
      (∀ label, .label label ∈ elements.toList → label ∈ Element.referenced elements.toList) ∧
      (Element.lineMarks elements.toList).Perm
        ((options.passedLines attr.lines).map fun row => (row.startPc.toNat, row.line)) := by
  obtain ⟨listing, shape⟩ := decode_eq_ok_iff.mp decoded
  obtain ⟨ends, reads⟩ := Reads.iff_located.mp listing.reads
  have labelled : Element.labelAt listing.labels =
      Element.labelAt (Element.referenced listing.elements) := by
    funext position
    exact Element.labelAt_congr fun label _ => listing.mem_labels_iff
  refine ⟨listing.instructions, listing.catches, listing.locals, listing.localTypes, ?_, ends,
    Instruction.pairwise_located 0 _, listing.markCatches, listing.markLocals, listing.markLocalTypes, ?_⟩
  · intro bci i mem
    have readsAt := reads bci i mem
    have inside : bci ≤ attr.code.size := Nat.le_trans (Nat.le_add_right _ _) readsAt.le_size
    exact (Instruction.read_eq_ok_iff_readsAt inside).mpr ⟨readsAt, rfl⟩
  · rw [shape]
    refine ⟨?_, fun label mem => listing.count_label_elements (listing.mem_labels_iff.mpr mem),
      fun label placed => listing.mem_labels_iff.mp (listing.mem_labels_of_label placed),
      listing.perm_lineMarks⟩
    rw [← listing.labelAt_end, ← labelled, ← ends, Listing.elements, Listing.markers,
      Element.layOut_eq_flatMap_located, List.append_assoc _ (List.flatMap ..)]

/-- A jump to a return, both guarded by a handler that starts with the return, with three lines. -/
def guardedJump : CodeAttribute where
  code := #[0xa7, 0, 3, 0xb1]
  exceptions := #[⟨0, 4, 3, 0⟩]
  lines := #[⟨3, 20⟩, ⟨0, 10⟩, ⟨3, 21⟩]

/-- The guarded jump is decoded. -/
theorem exists_decode_guardedJump : ∃ elements,
    guardedJump.decode Pool.empty.resolver {} = .ok elements ∧
      .decoded 4 ∈ Element.referenced elements.toList := by
  have reads : Reads Pool.empty.resolver guardedJump.code 0
      [⟨.goto, .target (.decoded 3)⟩, ⟨.returnVoid, .none⟩] := by
    refine Reads.of_assemble ?_ ?_ rfl
    · rintro i (_ | ⟨_, _ | ⟨_, ⟨⟩⟩⟩)
      · exact .short _
      · exact .bare
    · rintro i (_ | ⟨_, _ | ⟨_, ⟨⟩⟩⟩)
      · trivial
      · trivial
  have first : Instruction.Starts [⟨.goto, .target (.decoded 3)⟩, ⟨.returnVoid, .none⟩] 0 :=
    ⟨_, List.mem_cons_self ..⟩
  have second : Instruction.Starts [⟨.goto, .target (.decoded 3)⟩, ⟨.returnVoid, .none⟩] 3 :=
    ⟨_, List.mem_cons_of_mem _ (List.mem_cons_self ..)⟩
  have lands : ∀ i ∈ [⟨.goto, .target (.decoded 3)⟩, ⟨.returnVoid, .none⟩],
      ∀ target ∈ Instruction.targets i,
        target.Lands [⟨.goto, .target (.decoded 3)⟩, ⟨.returnVoid, .none⟩] := by
    rintro i (_ | ⟨_, _ | ⟨_, ⟨⟩⟩⟩) target (_ | ⟨_, ⟨⟩⟩)
    exact ⟨3, rfl, second⟩
  let listing : Listing guardedJump Pool.empty.resolver {} :=
    ⟨_, [⟨.decoded 0, .decoded 4, .decoded 3, none⟩], [], [], reads, lands,
      .cons ⟨first, .inr rfl, second, rfl, rfl, rfl, rfl⟩ .nil, .nil, .nil, by
        rintro row (_ | ⟨_, _ | ⟨_, _ | ⟨_, ⟨⟩⟩⟩⟩)
        · exact second
        · exact first
        · exact second⟩
  refine ⟨listing.elements.toArray, decode_eq_ok_iff.mpr ⟨listing, rfl⟩, ?_⟩
  exact List.mem_flatMap.mpr ⟨_, List.mem_cons_self .., by decide⟩

/-- The label of the end of the guarded jump is placed once, and its lines are those of its rows. -/
theorem decode_layout_guardedJump : ∃ elements,
    guardedJump.decode Pool.empty.resolver {} = .ok elements ∧
      elements.toList.count (.label (.decoded 4)) = 1 ∧
      (Element.lineMarks elements.toList).Perm [(3, 20), (0, 10), (3, 21)] := by
  obtain ⟨elements, decoded, refers⟩ := exists_decode_guardedJump
  obtain ⟨_, _, _, _, -, -, -, -, -, -, -, once, -, lines⟩ := decode_layout decoded
  exact ⟨elements, decoded, once _ refers, lines⟩

end CodeAttribute

end JvmCode
