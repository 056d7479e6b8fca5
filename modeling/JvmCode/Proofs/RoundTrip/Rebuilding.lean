import JvmCode.Proofs.Assembler.Finishing
import JvmCode.Proofs.Instruction.Relabel
import JvmCode.Proofs.RoundTrip.Replaying
import JvmCode.Proofs.Traversal.Decoding
import Mathlib.Data.List.ReduceOption

/-! # Building what was decoded

Elements that were decoded build an attribute that decodes to the same elements.

* **`Assembler.Replayed`** is a session that took all elements of a listing.
* `Assembler.Replayed.exists_finish` finishes it, `Assembler.Replayed.exists_listing` lists what was built.
* `CodeAttribute.rebuild_decoded` puts both together, with what becomes of the code. -/

namespace JvmCode

/-- The ranges of exception rows in checked tables are not empty. -/
theorem CodeAttribute.start_lt_end {attr : CodeAttribute} (checked : attr.checkTables = .ok ())
    {row : ExceptionRow} (mem : row ∈ attr.exceptions.toList) :
    row.startPc.toNat < row.endPc.toNat := by
  obtain ⟨⟨⟩, exceptions, -⟩ := Outcome.bind_eq_ok_iff.mp checked
  have accepted := Outcome.arrayForM_eq_ok_iff.mp exceptions row (Array.mem_toList_iff.mp mem)
  unfold ExceptionRow.check at accepted
  split at accepted
  · cases accepted
  · rename_i ranges
    rw [not_or, UInt16.not_le] at ranges
    exact ranges.2

namespace Assembler

variable {session : Assembler} {length : Nat} {is : List Instruction} {resolver : Resolver}

/-- A handler that comes from a row becomes this row again. -/
theorem exceptionRow?_of_markedBy {row : ExceptionRow} {marker : CatchMarker}
    (marked : row.MarkedBy resolver is marker)
    (places : ∀ label ∈ [marker.start, marker.stop, marker.handler], session.place label = label.named?)
    (ordered : row.startPc.toNat < row.endPc.toNat) (ends : Instruction.endOf 0 is = length) :
    session.exceptionRow? length (pendingCatch marker) = .ok (some row) := by
  simp only [List.forall_mem_cons, List.not_mem_nil, false_implies, implies_true, and_true] at places
  obtain ⟨start, stop, handler⟩ := places
  rw [Label.named?_eq_some_toNat_iff.mpr marked.start_eq] at start
  rw [Label.named?_eq_some_toNat_iff.mpr marked.stop_eq] at stop
  rw [Label.named?_eq_some_toNat_iff.mpr marked.handler_eq] at handler
  refine exceptionRow?_eq_ok_some_iff.mpr ⟨_, _, _, start, stop, handler, ?_⟩
  -- Positions that come from a row are kept in two bytes.
  rw [UInt16.ofNat_toNat, UInt16.ofNat_toNat, UInt16.ofNat_toNat]
  refine ⟨ordered, ends ▸ marked.handles.lt_endOf, ?_⟩
  -- The index of the class that is caught is the one it was found at.
  have same : (pendingCatch marker).catchType = row.catchType := by
    have caught := marked.caught
    unfold pendingCatch
    split at caught
    · rename_i everything
      rw [caught, everything]
      rfl
    · obtain ⟨ref, found, same⟩ := caught
      rw [same]
      exact Resolver.index_of_classRef found
  rw [same]

/-- A local variable that comes from a row becomes a row that it comes from. -/
theorem exists_localRow?_of_markedBy {row : LocalRow} {marker : LocalMarker} {pending : PendingLocal}
    (marked : row.MarkedBy resolver is marker) (recorded : Records resolver marker pending)
    (places : ∀ label ∈ [marker.start, marker.stop], session.place label = label.named?)
    (ends : Instruction.endOf 0 is = length) :
    ∃ rebuilt, session.localRow? length pending = .ok (some rebuilt) ∧
      rebuilt.MarkedBy resolver is marker := by
  simp only [List.forall_mem_cons, List.not_mem_nil, false_implies, implies_true, and_true] at places
  obtain ⟨start, stop⟩ := places
  rw [Label.named?_eq_some_toNat_iff.mpr marked.start_eq] at start
  rw [marked.stop_eq] at stop
  have whole : (UInt16.ofNat row.endPc).toNat = row.endPc :=
    UInt16.toNat_ofNat_of_lt' (Label.named?_eq_some_iff.mp marked.stop_eq).1
  have extent : UInt16.ofNat row.endPc - row.startPc = row.length := by
    rw [LocalRow.endPc, UInt16.ofNat_add, UInt16.ofNat_toNat, UInt16.ofNat_toNat, UInt16.add_comm,
      UInt16.add_sub_cancel]
  -- Range and variable are those of the row; only the indexes of the texts may differ.
  refine ⟨⟨row.startPc, row.length, pending.nameIndex, pending.typeIndex, pending.slot⟩, ?_, ?_⟩
  · refine localRow?_eq_ok_some_iff.mpr ⟨row.startPc.toNat, row.endPc, ?_, ?_, ?_⟩
    · rw [recorded.start, start]
    · rw [recorded.stop, stop]
    · rw [UInt16.ofNat_toNat, UInt16.le_iff_toNat_le, whole, extent]
      exact ⟨Nat.le_add_right .., ends ▸ marked.starts.lt_endOf, rfl⟩
  · exact ⟨marked.starts, marked.stops, marked.start_eq, marked.stop_eq, recorded.name, recorded.type,
      recorded.slot.symm⟩

/-- Local variables that come from rows become rows that they come from. -/
theorem exists_localRows {rows : List LocalRow} {markers : List LocalMarker}
    {pendings : List PendingLocal} (marked : List.Forall₂ (LocalRow.MarkedBy resolver is) rows markers)
    (recorded : List.Forall₂ (Records resolver) markers pendings)
    (places : ∀ marker ∈ markers, ∀ label ∈ [marker.start, marker.stop],
      session.place label = label.named?) (ends : Instruction.endOf 0 is = length) :
    ∃ rebuilt, List.Forall₂ (fun pending row => session.localRow? length pending = .ok (some row))
        pendings rebuilt ∧ List.Forall₂ (LocalRow.MarkedBy resolver is) rebuilt markers := by
  induction marked generalizing pendings with
  | nil =>
      cases recorded
      exact ⟨[], .nil, .nil⟩
  | cons first _ ih =>
      obtain _ | ⟨kept, others⟩ := recorded
      obtain ⟨row, made, again⟩ := exists_localRow?_of_markedBy first kept
        (places _ (List.mem_cons_self ..)) ends
      obtain ⟨rebuilt, more, marks⟩ := ih others fun marker mem => places marker (List.mem_cons_of_mem _ mem)
      exact ⟨row :: rebuilt, .cons made more, .cons again marks⟩

/-! ## Replayed sessions -/

/-- A session that took all elements of a listing. -/
structure Replayed {pool : Pool} {attr : CodeAttribute} (listing : Listing attr pool.resolver {})
    (session : Assembler) : Prop where
  /-- The pool shares its entries. -/
  sound : pool.Sound
  /-- The session took the elements. -/
  run : Session pool {} listing.elements session
  /-- The pool has not changed. -/
  pool_eq : session.pool = pool

namespace Replayed

variable {pool : Pool} {attr : CodeAttribute} {listing : Listing attr pool.resolver {}}
  {session : Assembler}

/-- The instructions of a replayed session fit. -/
theorem fits (_ : Replayed listing session) : ∀ i ∈ Element.instructions listing.elements, i.Fits := by
  rw [listing.instructions_elements]
  exact listing.reads.fits

/-- The tables of a replayed session are those of the listing. -/
theorem tables (h : Replayed listing session) : TableTracks pool {} listing.elements session :=
  h.run.tableTracks h.sound h.fits

/-- Every label that something refers to is placed where it says. -/
theorem place_eq (h : Replayed listing session) {label : Label} (mem : label ∈ listing.labels) :
    session.place label = label.named? := by
  rw [(h.run.codeTracks h.fits).place_eq, listing.places_elements mem]

/-- The labels of a marker are placed where they say. -/
theorem place_reference (h : Replayed listing session) {element : Element}
    (mem : element ∈ listing.markers) : ∀ label ∈ element.references, session.place label = label.named? :=
  fun _ refers => h.place_eq (listing.mem_labels_of_mem_markers mem refers)

/-- The code of a replayed session is what the instructions assemble to. -/
theorem resolves (h : Replayed listing session) {code : Array UInt8}
    (assembled : assemble Label.named? 0 listing.instructions = .ok code.toList) :
    Resolves session.place session.patches.toList session.code code := by
  refine ((h.run.codeTracks h.fits).resolves session.place (fun _ _ placed => placed) code).mpr ?_
  rw [listing.instructions_elements]
  refine assemble_of_agree assembled fun i mem label jumps => h.place_eq ?_
  exact List.mem_append_left _ (List.mem_flatMap.mpr ⟨i, mem, jumps⟩)

/-- The exception handlers of a replayed session become the rows that they come from. -/
theorem exceptionRows (h : Replayed listing session) (checked : attr.checkTables = .ok ()) :
    List.Forall₂ (fun pending row => session.exceptionRow? attr.code.size pending = .ok (some row))
      session.catches.toList attr.exceptions.toList := by
  rw [h.tables.catches_eq, listing.catches_elements, List.forall₂_map_left_iff]
  refine List.Forall₂.flip (List.Forall₂.imp ?_ (Outcome.forall₂_mem listing.markCatches))
  rintro row marker ⟨within, mem, marked⟩
  exact exceptionRow?_of_markedBy marked
    (h.place_reference (listing.mem_markers_iff.mpr (.inl ⟨marker, mem, rfl⟩)))
    (CodeAttribute.start_lt_end checked within) listing.reads.endOf_eq

/-- The line numbers of a listing stand inside the code. -/
theorem lineMarks_inside (_ : Replayed listing session) :
    ∀ mark ∈ Element.lineMarks listing.elements, mark.1 < attr.code.size := by
  intro mark mem
  rw [← listing.reads.endOf_eq]
  exact (listing.starts_of_mem_lineMarks mem).lt_endOf

/-- The line rows of a replayed session are its line numbers, all of them. -/
theorem lineRows_eq (h : Replayed listing session) : (session.lineRows attr.code.size).toList =
    (Element.lineMarks listing.elements).map fun mark => ⟨UInt16.ofNat mark.1, mark.2⟩ := by
  have recorded : session.lines.toList = Element.lineMarks listing.elements := h.tables.lines_eq
  rw [lineRows, Array.toList_map, Array.toList_filter, recorded]
  exact congrArg _ (List.filter_eq_self.mpr fun mark mem => decide_eq_true (h.lineMarks_inside mark mem))

/-- A position of a line number is kept in two bytes. -/
theorem toNat_lineMark (h : Replayed listing session) (small : attr.code.size < 65536)
    {mark : Nat × UInt16} (mem : mark ∈ Element.lineMarks listing.elements) :
    (UInt16.ofNat mark.1).toNat = mark.1 :=
  UInt16.toNat_ofNat_of_lt' (Nat.lt_trans (h.lineMarks_inside mark mem) small)

/-- The line rows of a replayed session are those of the attribute, position by position. -/
theorem filter_lineRows (h : Replayed listing session) (small : attr.code.size < 65536) (position : Nat) :
    ((session.lineRows attr.code.size).toList.filter fun row => row.startPc.toNat == position) =
      attr.lines.toList.filter fun row => row.startPc.toNat == position := by
  have here : (Element.lineMarks listing.elements).filter
        (fun mark => (UInt16.ofNat mark.1).toNat == position) =
      (Element.lineMarks listing.elements).filter fun mark => mark.1 == position :=
    List.filter_congr fun mark mem => by rw [h.toNat_lineMark small mem]
  rw [h.lineRows_eq, List.filter_map]
  refine (congrArg (List.map _) here).trans ?_
  rw [listing.filter_lineMarks_elements, List.map_map]
  -- A row at this position is made of the position and its number.
  refine (List.map_congr_left fun row mem => ?_).trans (List.map_id _)
  have starts : row.startPc.toNat = position := eq_of_beq (List.mem_filter.mp mem).2
  show (⟨UInt16.ofNat position, row.line⟩ : LineRow) = row
  rw [← starts, UInt16.ofNat_toNat]

/-- The line numbers of a replayed session are those of the rows, position by position. -/
theorem linesAt_lineRows (h : Replayed listing session) (small : attr.code.size < 65536) :
    Element.linesAt (session.lineRows attr.code.size).toList = Element.linesAt attr.lines.toList := by
  funext position
  rw [Element.linesAt, Element.linesAt, h.filter_lineRows small]

/-- A replayed session is finished. -/
theorem exists_finish (h : Replayed listing session) (checked : attr.checkTables = .ok ())
    (sized : 0 < attr.code.size ∧ attr.code.size ≤ maxCodeLength) :
    ∃ built : Built, session.finish = .ok built ∧
      assemble Label.named? 0 listing.instructions = .ok built.code.toList ∧
      built.lines = session.lineRows attr.code.size ∧ built.exceptions = attr.exceptions ∧
      List.Forall₂ (LocalRow.MarkedBy pool.resolver listing.instructions) built.locals.toList
        listing.locals ∧
      List.Forall₂ (LocalRow.MarkedBy pool.resolver listing.instructions) built.localTypes.toList
        listing.localTypes := by
  obtain ⟨content, assembled⟩ := listing.reads.exists_assemble
  have recorded := h.tables.locals
  have recordedTypes := h.tables.localTypes
  rw [h.pool_eq] at recorded recordedTypes
  change List.Forall₂ _ (Element.locals listing.elements) _ at recorded
  change List.Forall₂ _ (Element.localTypes listing.elements) _ at recordedTypes
  rw [listing.locals_elements] at recorded
  rw [listing.localTypes_elements] at recordedTypes
  obtain ⟨locals, made, marked⟩ := exists_localRows listing.markLocals recorded
    (fun marker mem => h.place_reference (listing.mem_markers_iff.mpr (.inr (.inl ⟨marker, mem, rfl⟩))))
    listing.reads.endOf_eq
  obtain ⟨localTypes, madeTypes, markedTypes⟩ := exists_localRows listing.markLocalTypes recordedTypes
    (fun marker mem => h.place_reference (listing.mem_markers_iff.mpr (.inr (.inr ⟨marker, mem, rfl⟩))))
    listing.reads.endOf_eq
  -- Finishing measures the new code, which is as long as the old.
  have size : content.toArray.size = attr.code.size := listing.reads.size_assemble assembled
  refine ⟨⟨content.toArray, session.lineRows attr.code.size, locals.toArray, localTypes.toArray,
    attr.exceptions⟩, ?_, assembled, rfl, rfl, marked, markedTypes⟩
  refine finish_eq_ok_iff.mpr ⟨h.resolves assembled, ?_⟩
  rw [size]
  exact ⟨sized, Outcome.exists_reduceOption (h.exceptionRows checked), Outcome.exists_reduceOption made,
    Outcome.exists_reduceOption madeTypes, rfl⟩

/-- What a replayed session builds has a listing with the same elements. -/
theorem exists_listing (h : Replayed listing session) (small : attr.code.size < 65536) {built : Built}
    (assembled : assemble Label.named? 0 listing.instructions = .ok built.code.toList)
    (lines : built.lines = session.lineRows attr.code.size) (exceptions : built.exceptions = attr.exceptions)
    (markLocals : List.Forall₂ (LocalRow.MarkedBy pool.resolver listing.instructions)
      built.locals.toList listing.locals)
    (markLocalTypes : List.Forall₂ (LocalRow.MarkedBy pool.resolver listing.instructions)
      built.localTypes.toList listing.localTypes) (maxStack maxLocals : UInt16) :
    ∃ again : Listing (built.toAttribute maxStack maxLocals) pool.resolver {},
      again.elements = listing.elements := by
  have linesStart : ∀ row ∈ built.lines.toList,
      Instruction.Starts listing.instructions row.startPc.toNat := by
    intro row mem
    rw [lines, h.lineRows_eq] at mem
    obtain ⟨mark, within, rfl⟩ := List.mem_map.mp mem
    change Instruction.Starts _ (UInt16.ofNat mark.1).toNat
    rw [h.toNat_lineMark small within]
    exact listing.starts_of_mem_lineMarks within
  -- Same instructions and markers; code, local variables and lines have new proofs.
  refine ⟨⟨listing.instructions, listing.catches, listing.locals, listing.localTypes,
    Reads.of_assemble listing.reads.fits listing.reads.found assembled, listing.lands, ?_, markLocals,
    markLocalTypes, linesStart⟩, ?_⟩
  · change List.Forall₂ _ built.exceptions.toList _
    rw [exceptions]
    exact listing.markCatches
  · have same := h.linesAt_lineRows small
    rw [← lines] at same
    exact congrArg (fun numbers => listing.markers ++
      Element.layOut (Element.labelAt listing.labels) numbers 0 listing.instructions) same

end Replayed

end Assembler

namespace CodeAttribute

variable {pool : Pool} {attr : CodeAttribute} {elements : Array Element}

/-- What was decoded can be built again. If `attr.decode` gives `elements`, a session of `Assembler.start` over
the same pool takes them all with `addAll`, and `finish` gives code of the same length. A byte at a position that
`Instruction.Pads` the operands of a switch is `0`, every other byte is that of `attr.code`; so `built.code =
attr.code` exactly when the padding of `attr.code` is `0` throughout. Decoding `built` gives `elements` again. -/
theorem rebuild_decoded (reachable : pool.Reachable)
    (sized : 1 ≤ attr.code.size ∧ attr.code.size ≤ 65535) (checked : attr.checkTables = .ok ())
    (decoded : attr.decode pool.resolver {} = .ok elements) :
    ∃ session built, Assembler.addAll elements.toList (Assembler.start pool {}) = .ok () session ∧
      session.finish = .ok built ∧
      built.code.size = attr.code.size ∧
      (∀ position,
        (Instruction.Pads (Element.instructions elements.toList) position →
          built.code[position]? = some 0) ∧
        (¬ Instruction.Pads (Element.instructions elements.toList) position →
          built.code[position]? = attr.code[position]?)) ∧
      (built.code = attr.code ↔ ∀ position,
        Instruction.Pads (Element.instructions elements.toList) position →
          attr.code[position]? = some 0) ∧
      ∀ maxStack maxLocals,
        (built.toAttribute maxStack maxLocals).decode session.pool.resolver {} = .ok elements := by
  obtain ⟨listing, listed⟩ := decode_eq_ok_iff.mp decoded
  obtain ⟨session, took, pool_eq⟩ := Assembler.exists_addAll_elements reachable.sound listing
  have replayed : Assembler.Replayed listing session :=
    ⟨reachable.sound, Assembler.Session.start.addAll took, pool_eq⟩
  obtain ⟨built, finished, assembled, lines, exceptions, markLocals, markLocalTypes⟩ :=
    replayed.exists_finish checked sized
  -- Both codes are made of the same instructions, so they differ in alignment only.
  have bytes := listing.reads.getElem?_assemble assembled
  rw [← listing.instructions_elements, ← listed] at bytes
  refine ⟨session, built, listed ▸ took, finished, listing.reads.size_assemble assembled, bytes, ?_, ?_⟩
  · constructor
    · intro same position pads
      rw [← same]
      exact (bytes position).1 pads
    · intro zero
      refine Array.ext_getElem? fun position => ?_
      by_cases pads : Instruction.Pads (Element.instructions elements.toList) position
      · rw [(bytes position).1 pads, zero position pads]
      · exact (bytes position).2 pads
  · intro maxStack maxLocals
    obtain ⟨again, same⟩ := replayed.exists_listing (Nat.lt_succ_of_le sized.2) assembled lines exceptions
      markLocals markLocalTypes maxStack maxLocals
    rw [pool_eq]
    exact decode_eq_ok_iff.mpr ⟨again, listed.trans same.symm⟩

/-- A switch whose alignment is not 0, in front of what it leads to. -/
def oddSwitch : CodeAttribute where
  code := #[0xab, 1, 2, 3, 0, 0, 0, 12, 0, 0, 0, 0, 0xb1]

/-- The switch is decoded. -/
theorem exists_decode_oddSwitch :
    ∃ elements, oddSwitch.decode Pool.empty.resolver {} = .ok elements ∧
      Element.instructions elements.toList =
        [⟨.lookupswitch, .lookup (.decoded 12) []⟩, ⟨.returnVoid, .none⟩] := by
  -- The three bytes behind the opcode align the operands and are not looked at.
  have reads : Reads Pool.empty.resolver oddSwitch.code 0
      [⟨.lookupswitch, .lookup (.decoded 12) []⟩, ⟨.returnVoid, .none⟩] := by
    refine ⟨⟨.lookup rfl (by decide), trivial, _, ⟨_, ⟨[1, 2, 3], _, rfl, rfl, rfl⟩, rfl⟩, ?_⟩,
      ⟨.bare, trivial, _, ⟨_, ⟨[], _, rfl, rfl, rfl⟩, rfl⟩, ?_⟩, rfl⟩
    · decide +kernel
    · decide +kernel
  have lands : Label.Lands [⟨.lookupswitch, .lookup (.decoded 12) []⟩, ⟨.returnVoid, .none⟩]
      (.decoded 12) :=
    ⟨12, rfl, ⟨.returnVoid, .none⟩, List.mem_cons_of_mem _ (List.mem_cons_self ..)⟩
  let listing : Listing oddSwitch Pool.empty.resolver {} :=
    ⟨_, [], [], [], reads, by
      rintro i (_ | ⟨_, _ | ⟨_, ⟨⟩⟩⟩) target (_ | ⟨_, ⟨⟩⟩)
      exact lands, .nil, .nil, .nil, fun _ mem => nomatch mem⟩
  refine ⟨listing.elements.toArray, decode_eq_ok_iff.mpr ⟨listing, rfl⟩, ?_⟩
  exact listing.instructions_elements

/-- Rebuilding the switch clears its alignment. -/
theorem rebuild_decoded_oddSwitch : ∃ elements session built,
    oddSwitch.decode Pool.empty.resolver {} = .ok elements ∧
      Assembler.addAll elements.toList (Assembler.start Pool.empty {}) = .ok () session ∧
      session.finish = .ok built ∧ built.code[1]? = some 0 ∧ oddSwitch.code[1]? = some 1 := by
  obtain ⟨elements, decoded, instructions⟩ := exists_decode_oddSwitch
  obtain ⟨session, built, took, finished, -, bytes, -⟩ :=
    rebuild_decoded .empty (by decide) rfl decoded
  refine ⟨elements, session, built, decoded, took, finished, (bytes 1).1 ?_, rfl⟩
  rw [instructions]
  exact ⟨0, _, List.mem_cons_self .., by decide, by decide⟩

end CodeAttribute

end JvmCode
