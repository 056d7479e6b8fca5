import JvmCode.Proofs.Traversal.Closure

/-! # Options filter what is decoded

Decoding with other options gives what decoding with all elements passed on gives, with some elements left
out. Leaving out local variables also leaves out the labels that only they referred to.

* **`Element.lastingReferences`** are the labels that elements other than local variables refer to.
* **`Options.selected`** is what options leave of decoded elements.
* **`Listing.under`** is the listing of the same attribute with other options; `Listing.elements_under`: its
  elements are selected from those of the listing.
* `CodeAttribute.decode_selected` is the same about decoding. -/

namespace JvmCode

namespace Element

/-- Local variables, with descriptors or with signatures. -/
def isLocal : Element → Bool
  | .localVariable _ | .localVariableType _ => true
  | .instruction _ | .label _ | .line _ | .exceptionCatch _ => false

/-- The labels that elements other than local variables refer to: those of jumps, switches and handlers. -/
def lastingReferences (elements : List Element) : List Label :=
  referenced (elements.filter fun element => !element.isLocal)

end Element

namespace Options

/-- Whether options let an element through, if `labels` are referred to by more than local variables. -/
def keeps (options : Options) (labels : List Label) : Element → Bool
  | .localVariable _ | .localVariableType _ => options.debugElements = .pass
  | .label label => options.debugElements = .pass ∨ label ∈ labels
  | .line _ => options.lineNumbers = .pass
  | .instruction _ | .exceptionCatch _ => true

/-- What options leave of decoded elements. Without local variables there are no labels but those that
something left refers to. -/
def selected (options : Options) (elements : List Element) : List Element :=
  elements.filter (options.keeps (Element.lastingReferences elements))

end Options

/-! ## Selecting from a layout -/

namespace Element

variable {options : Options} {labels lasting : List Label}

/-- Leaving out labels or line numbers leaves them out at every position. -/
theorem filter_layOut {keep : Element → Bool} (whole : ∀ i, keep (.instruction i) = true)
    (label lines : Nat → List Element) (bci : Nat) (is : List Instruction) :
    (layOut label lines bci is).filter keep =
      layOut (fun position => (label position).filter keep) (fun position => (lines position).filter keep)
        bci is := by
  induction is generalizing bci with
  | nil => rfl
  | cons i rest ih =>
      rw [layOut, layOut, List.filter_append, List.filter_append, List.filter_cons_of_pos (whole i), ih]

/-- The line numbers that are let through are those of the rows that are passed on. -/
theorem filter_linesAt (rows : Array LineRow) (position : Nat) :
    (linesAt rows.toList position).filter (options.keeps lasting) =
      linesAt (options.passedLines rows) position := by
  rw [linesAt, List.filter_map]
  by_cases passes : options.lineNumbers = .pass
  · have all : (options.keeps lasting ∘ fun row : LineRow => Element.line row.line) = fun _ => true := by
      funext row
      exact decide_eq_true passes
    rw [all, List.filter_true, Options.passedLines, if_pos passes]
    rfl
  · have none : (options.keeps lasting ∘ fun row : LineRow => Element.line row.line) = fun _ => false := by
      funext row
      exact decide_eq_false passes
    rw [none, List.filter_false, Options.passedLines, if_neg passes]
    rfl

/-- The label of a position is let through if one of the labels that are let through names it. -/
theorem filter_labelAt (position : Nat) :
    (labelAt labels position).filter (options.keeps lasting) =
      labelAt (labels.filter fun label => options.keeps lasting (.label label)) position := by
  have placed : ∀ label, label.named? = some position →
      (label ∈ labels.filter (fun label => options.keeps lasting (.label label)) ↔
        label ∈ labels ∧ options.keeps lasting (.label (.decoded (UInt16.ofNat position))) = true) := by
    intro label named
    rw [List.mem_filter, (Label.named?_eq_some_iff.mp named).2]
  cases kept : options.keeps lasting (.label (.decoded (UInt16.ofNat position))) with
  | true =>
      have same : labelAt (labels.filter fun label => options.keeps lasting (.label label)) position =
          labelAt labels position := by
        refine labelAt_congr fun label named => (placed label named).trans ?_
        simp only [kept, and_true]
      rw [same, List.filter_eq_self]
      intro element mem
      obtain ⟨label, -, named, rfl⟩ := mem_labelAt_iff.mp mem
      rw [(Label.named?_eq_some_iff.mp named).2]
      exact kept
  | false =>
      have none : labelAt (labels.filter fun label => options.keeps lasting (.label label)) position =
          labelAt [] position := by
        refine labelAt_congr fun label named => (placed label named).trans ?_
        simp only [kept, Bool.false_eq_true, and_false, List.not_mem_nil]
      rw [none]
      refine List.filter_eq_nil_iff.mpr fun element mem => ?_
      obtain ⟨label, -, named, rfl⟩ := mem_labelAt_iff.mp mem
      rw [(Label.named?_eq_some_iff.mp named).2, kept]
      exact Bool.false_ne_true

/-- Local variables are let through with other options if they are passed on. -/
theorem filter_map_local {make : LocalMarker → Element}
    (kept : ∀ marker, options.keeps lasting (make marker) = decide (options.debugElements = .pass))
    (markers : List LocalMarker) :
    (markers.map make).filter (options.keeps lasting) =
      (if options.debugElements = .pass then markers else []).map make := by
  have same : options.keeps lasting ∘ make = fun _ => decide (options.debugElements = .pass) := by
    funext marker
    exact kept marker
  rw [List.filter_map, same]
  by_cases passes : options.debugElements = .pass
  · rw [decide_eq_true passes, List.filter_true, if_pos passes]
  · rw [decide_eq_false passes, List.filter_false, if_neg passes]

end Element

/-! ## Listings under other options -/

namespace Listing

variable {attr : CodeAttribute} {resolver : Resolver}

/-- Local variable rows that all become markers do so with other options. -/
theorem forall₂_passedLocals {options : Options} {related : LocalRow → LocalMarker → Prop}
    {rows : Array LocalRow} {markers : List LocalMarker}
    (marked : List.Forall₂ related rows.toList markers) :
    List.Forall₂ related (options.passedLocals rows) (if options.debugElements = .pass then markers else []) := by
  unfold Options.passedLocals
  split
  · exact marked
  · exact .nil

/-- The listing of the same attribute with other options. -/
def under (listing : Listing attr resolver {}) (options : Options) : Listing attr resolver options where
  instructions := listing.instructions
  catches := listing.catches
  locals := if options.debugElements = .pass then listing.locals else []
  localTypes := if options.debugElements = .pass then listing.localTypes else []
  reads := listing.reads
  lands := listing.lands
  markCatches := listing.markCatches
  markLocals := forall₂_passedLocals listing.markLocals
  markLocalTypes := forall₂_passedLocals listing.markLocalTypes
  linesStart := by
    intro row mem
    unfold Options.passedLines at mem
    split at mem
    · exact listing.linesStart row mem
    · cases mem

variable (listing : Listing attr resolver {}) (options : Options)

/-- The labels that last are those of jumps and handlers. -/
theorem mem_lastingReferences_iff {label : Label} :
    label ∈ Element.lastingReferences listing.elements ↔
      label ∈ listing.instructions.flatMap Instruction.targets ∨
        label ∈ (listing.catches.map Element.exceptionCatch).flatMap Element.references := by
  simp only [Element.lastingReferences, Element.referenced, List.mem_flatMap, List.mem_filter]
  constructor
  · rintro ⟨element, ⟨mem, lasts⟩, refers⟩
    cases element with
    | instruction i =>
        have within := Element.mem_instructions_iff.mpr mem
        rw [listing.instructions_elements] at within
        exact .inl ⟨i, within, refers⟩
    | exceptionCatch marker =>
        have within : marker ∈ Element.catches listing.elements :=
          List.mem_filterMap.mpr ⟨_, mem, rfl⟩
        rw [listing.catches_elements] at within
        exact .inr ⟨_, List.mem_map.mpr ⟨marker, within, rfl⟩, refers⟩
    | label placed => cases refers
    | line number => cases refers
    | localVariable marker => cases lasts
    | localVariableType marker => cases lasts
  · rintro (⟨i, within, refers⟩ | ⟨element, mem, refers⟩)
    · rw [← listing.instructions_elements] at within
      exact ⟨_, ⟨Element.mem_instructions_iff.mp within, rfl⟩, refers⟩
    · obtain ⟨marker, within, rfl⟩ := List.mem_map.mp mem
      have marks := listing.mem_markers_iff.mpr (.inl ⟨marker, within, rfl⟩)
      exact ⟨_, ⟨List.mem_append_left _ marks, rfl⟩, refers⟩

/-- The markers under other options are selected from the markers. -/
theorem markers_under : (listing.under options).markers =
    listing.markers.filter (options.keeps (Element.lastingReferences listing.elements)) := by
  have caught : (listing.catches.map Element.exceptionCatch).filter
      (options.keeps (Element.lastingReferences listing.elements)) =
        listing.catches.map .exceptionCatch := by
    rw [List.filter_eq_self]
    intro element mem
    obtain ⟨marker, -, rfl⟩ := List.mem_map.mp mem
    rfl
  rw [markers, markers, List.filter_append, List.filter_append, caught,
    Element.filter_map_local fun _ => rfl, Element.filter_map_local fun _ => rfl]
  rfl

/-- The labels under other options are those that are let through. -/
theorem mem_labels_under_iff {label : Label} :
    label ∈ (listing.under options).labels ↔ label ∈ listing.labels ∧
      options.keeps (Element.lastingReferences listing.elements) (.label label) = true := by
  have lasting := @mem_lastingReferences_iff _ _ listing label
  by_cases passes : options.debugElements = .pass
  · -- Nothing that refers to labels is left out.
    have same : (listing.under options).labels = listing.labels := by
      simp only [labels, markers, under, passes, if_true]
    rw [same, Options.keeps, decide_eq_true_eq]
    exact (and_iff_left (.inl passes)).symm
  · have left : (listing.under options).labels =
        listing.instructions.flatMap Instruction.targets ++
          (listing.catches.map Element.exceptionCatch).flatMap Element.references := by
      simp only [labels, markers, under, passes, if_false, List.map_nil, List.append_nil]
    have keeps : options.keeps (Element.lastingReferences listing.elements) (.label label) = true ↔
        label ∈ Element.lastingReferences listing.elements := by
      rw [Options.keeps, decide_eq_true_eq, or_iff_right passes]
    rw [left, List.mem_append, keeps, lasting, labels, List.mem_append]
    constructor
    · rintro (jumps | caught)
      · exact ⟨.inl jumps, .inl jumps⟩
      · refine ⟨.inr ?_, .inr caught⟩
        rw [markers, List.flatMap_append, List.flatMap_append, List.append_assoc]
        exact List.mem_append_left _ caught
    · exact fun both => both.2

/-- The elements under other options are selected from the elements. -/
theorem elements_under : (listing.under options).elements = options.selected listing.elements := by
  have labelled : ∀ position, Element.labelAt (listing.under options).labels position =
      (Element.labelAt listing.labels position).filter
        (options.keeps (Element.lastingReferences listing.elements)) := by
    intro position
    rw [Element.filter_labelAt]
    refine Element.labelAt_congr fun label _ => ?_
    rw [mem_labels_under_iff, List.mem_filter]
  have numbered : ∀ position, Element.linesAt (options.passedLines attr.lines) position =
      (Element.linesAt attr.lines.toList position).filter
        (options.keeps (Element.lastingReferences listing.elements)) :=
    fun position => (Element.filter_linesAt attr.lines position).symm
  have parts : options.selected listing.elements =
      listing.markers.filter (options.keeps (Element.lastingReferences listing.elements)) ++
        (Element.layOut (Element.labelAt listing.labels) (Element.linesAt attr.lines.toList) 0
          listing.instructions).filter (options.keeps (Element.lastingReferences listing.elements)) :=
    List.filter_append ..
  rw [parts, Element.filter_layOut (fun _ => rfl), ← markers_under, ← funext labelled, ← funext numbered]
  rfl

end Listing

/-! ## Decoding -/

namespace CodeAttribute

/-- Options select from what is decoded. If `attr.decode resolver {}` gives `full`, then under any `options`
decoding gives `options.selected full`: local variables if `debugElements = .pass`, line numbers if `lineNumbers
= .pass`, labels that something left refers to, and all else. `deadLabels` makes no difference to decoding, also
where it fails. -/
theorem decode_selected (attr : CodeAttribute) (resolver : Resolver) :
    (∀ full options, attr.decode resolver {} = .ok full →
      attr.decode resolver options = .ok (options.selected full.toList).toArray) ∧
    ∀ options dead, attr.decode resolver { options with deadLabels := dead } =
      attr.decode resolver options := by
  constructor
  · intro full options decoded
    obtain ⟨listing, shape⟩ := decode_eq_ok_iff.mp decoded
    refine decode_eq_ok_iff.mpr ⟨listing.under options, ?_⟩
    rw [listing.elements_under, shape]
  · -- No part of a traversal looks at what happens to such labels.
    intro options dead
    rfl

/-- A pool with a name and a descriptor. -/
def namedPool : Pool := (Pool.empty.push (.text "x")).push (.text "I")

/-- A jump to a return, behind an instruction without operands. Of two local variables, one starts with the
jump and one where it lands; both end with the code. -/
def sharedTarget : CodeAttribute where
  code := #[0x00, 0xa7, 0, 3, 0xb1]
  lines := #[⟨4, 11⟩, ⟨0, 10⟩]
  locals := #[⟨1, 4, 1, 2, 0⟩, ⟨4, 1, 1, 2, 1⟩]

/-- The elements of the jump, with labels where the variables start, one of which it jumps to, and at the end. -/
def sharedElements : Array Element := #[
  .localVariable ⟨0, "x", "I", .decoded 1, .decoded 5⟩,
  .localVariable ⟨1, "x", "I", .decoded 4, .decoded 5⟩,
  .line 10, .instruction ⟨.nop, .none⟩,
  .label (.decoded 1), .instruction ⟨.goto, .target (.decoded 4)⟩,
  .label (.decoded 4), .line 11, .instruction ⟨.returnVoid, .none⟩,
  .label (.decoded 5)]

/-- The jump is decoded into its elements. -/
theorem decode_sharedTarget : sharedTarget.decode namedPool.resolver {} = .ok sharedElements := by
  have reads : Reads namedPool.resolver sharedTarget.code 0
      [⟨.nop, .none⟩, ⟨.goto, .target (.decoded 4)⟩, ⟨.returnVoid, .none⟩] := by
    refine Reads.of_assemble ?_ ?_ rfl
    · rintro i (_ | ⟨_, _ | ⟨_, _ | ⟨_, ⟨⟩⟩⟩⟩)
      · exact .bare
      · exact .short _
      · exact .bare
    · rintro i (_ | ⟨_, _ | ⟨_, _ | ⟨_, ⟨⟩⟩⟩⟩)
      · trivial
      · trivial
      · trivial
  have first : Instruction.Starts
      [⟨.nop, .none⟩, ⟨.goto, .target (.decoded 4)⟩, ⟨.returnVoid, .none⟩] 0 := ⟨_, .head _⟩
  have second : Instruction.Starts
      [⟨.nop, .none⟩, ⟨.goto, .target (.decoded 4)⟩, ⟨.returnVoid, .none⟩] 1 := ⟨_, .tail _ (.head _)⟩
  have last : Instruction.Starts
      [⟨.nop, .none⟩, ⟨.goto, .target (.decoded 4)⟩, ⟨.returnVoid, .none⟩] 4 :=
    ⟨_, .tail _ (.tail _ (.head _))⟩
  have name : namedPool.resolver.text 1 = .ok "x" := rfl
  have type : namedPool.resolver.text 2 = .ok "I" := rfl
  have lands : ∀ i ∈ [⟨.nop, .none⟩, ⟨.goto, .target (.decoded 4)⟩, ⟨.returnVoid, .none⟩],
      ∀ target ∈ Instruction.targets i, target.Lands
        [⟨.nop, .none⟩, ⟨.goto, .target (.decoded 4)⟩, ⟨.returnVoid, .none⟩] := by
    rintro i (_ | ⟨_, _ | ⟨_, _ | ⟨_, ⟨⟩⟩⟩⟩) target (_ | ⟨_, ⟨⟩⟩)
    exact ⟨4, rfl, last⟩
  let listing : Listing sharedTarget namedPool.resolver {} :=
    ⟨_, [], [⟨0, "x", "I", .decoded 1, .decoded 5⟩, ⟨1, "x", "I", .decoded 4, .decoded 5⟩], [], reads, lands,
      .nil,
      .cons ⟨second, .inr rfl, rfl, rfl, name, type, rfl⟩
        (.cons ⟨last, .inr rfl, rfl, rfl, name, type, rfl⟩ .nil), .nil, by
        rintro row (_ | ⟨_, _ | ⟨_, ⟨⟩⟩⟩)
        · exact last
        · exact first⟩
  exact decode_eq_ok_iff.mpr ⟨listing, rfl⟩

/-- Without local variables only the label that the jump goes to is left, and the lines if they are passed on. -/
theorem decode_selected_sharedTarget :
    sharedTarget.decode namedPool.resolver { debugElements := .drop } = .ok #[
      .line 10, .instruction ⟨.nop, .none⟩, .instruction ⟨.goto, .target (.decoded 4)⟩,
      .label (.decoded 4), .line 11, .instruction ⟨.returnVoid, .none⟩] ∧
    sharedTarget.decode namedPool.resolver { debugElements := .drop, lineNumbers := .drop } = .ok #[
      .instruction ⟨.nop, .none⟩, .instruction ⟨.goto, .target (.decoded 4)⟩, .label (.decoded 4),
      .instruction ⟨.returnVoid, .none⟩] := by
  obtain ⟨selects, -⟩ := decode_selected sharedTarget namedPool.resolver
  exact ⟨selects _ _ decode_sharedTarget, selects _ _ decode_sharedTarget⟩

end CodeAttribute

end JvmCode
