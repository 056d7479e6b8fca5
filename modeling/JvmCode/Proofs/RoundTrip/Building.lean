import JvmCode.Proofs.Assembler.TableRows
import JvmCode.Proofs.Instruction.Relabel
import JvmCode.Proofs.Traversal.Decoding
import JvmCode.Proofs.Traversal.Listings

/-! # Decoding what was built

A session that took constructed instructions and was finished gives an attribute. Its code reads as the
instructions that the session took, with labels that name positions.

* **`Assembler.Completed`** is such a session, with the pool it started from and what it built.
* **`Element.settled`** are the instructions of elements with every label replaced by that of its place.
* `Assembler.Completed.decode_built` gives the instructions back, if every jump stays in front of the
  end of the code.
* `Assembler.Completed.decode_built_iff`: if one does not, the attribute is refused. -/

namespace JvmCode

/-- The instructions among elements, with labels that name the positions where labels are placed. -/
def Element.settled (elements : List Element) : List Instruction :=
  (instructions elements).map (Instruction.relabel (Label.settled (places elements)))

/-- Labels are placed at boundaries of the settled instructions. -/
theorem Element.boundary_settled {elements : List Element} {label : Label} {position : Nat}
    (placed : places elements label = some position) :
    Instruction.Boundary 0 (settled elements) position := by
  rw [settled, Instruction.boundary_map_relabel_iff]
  exact boundary_of_placesFrom placed

namespace Assembler

/-- A session over a pool that took constructed instructions and handlers of classes of its pool, and
that was finished. -/
structure Completed (pool : Pool) (options : Options) (taken : List Element) (session : Assembler)
    (built : Built) : Prop where
  /-- The pool is one that pool operations give. -/
  reachable : pool.Reachable
  /-- The session took the elements. -/
  run : Session pool options taken session
  /-- The instructions were constructed. -/
  constructed : ∀ i ∈ Element.instructions taken, i.Constructed session.pool.resolver
  /-- The classes that are caught are classes of the pool. -/
  caught : ∀ marker ∈ Element.catches taken, ∀ ref, marker.caught = some ref →
    session.pool.resolver.classRef ref.index = .ok ref
  /-- The session was finished. -/
  finished : session.finish = .ok built

/-- Every jump among the elements goes to a place in front of the end of the code. -/
def TargetsInside (taken : List Element) (built : Built) : Prop :=
  ∀ i ∈ Element.instructions taken, ∀ target ∈ i.targets,
    ∃ position, Element.places taken target = some position ∧ position < built.code.size

namespace Completed

variable {pool : Pool} {options : Options} {taken : List Element} {session : Assembler} {built : Built}
  {label : Label} {position : Nat}

/-- The instructions of a completed session fit. -/
theorem fits (h : Completed pool options taken session built) :
    ∀ i ∈ Element.instructions taken, i.Fits :=
  fun i mem => (h.constructed i mem).readable.1

/-- A completed session was finished. -/
theorem toFinished (h : Completed pool options taken session built) :
    Finished pool options taken session built :=
  ⟨h.reachable, h.run, h.fits, h.finished⟩

/-- The tables of a completed session are those of its elements. -/
theorem tables (h : Completed pool options taken session built) :
    TableTracks pool options taken session :=
  h.toFinished.tables

/-- Labels are placed where the elements place them. -/
theorem place_eq (h : Completed pool options taken session built) :
    session.place = Element.places taken :=
  h.toFinished.place_eq

/-- Built code is never longer than labels reach. -/
theorem size_lt (h : Completed pool options taken session built) : built.code.size < 65536 :=
  Nat.lt_succ_of_le h.toFinished.sized.2

/-- The code is what the instructions assemble to. -/
theorem assembled (h : Completed pool options taken session built) :
    assemble (Element.places taken) 0 (Element.instructions taken) = .ok built.code.toList :=
  assemble_of_finish h.run h.fits h.finished

/-- The settled instructions end where the code ends. -/
theorem endOf_settled (h : Completed pool options taken session built) :
    Instruction.endOf 0 (Element.settled taken) = built.code.size := by
  rw [Element.settled, Instruction.endOf_map_relabel, h.toFinished.endOf_eq]

/-- Labels are placed no further than the end of the code. -/
theorem place_le (h : Completed pool options taken session built)
    (placed : Element.places taken label = some position) : position ≤ built.code.size :=
  h.toFinished.place_le (h.place_eq ▸ placed)

/-- A label in front of the end of the code is placed where an instruction starts. -/
theorem starts (h : Completed pool options taken session built)
    (placed : Element.places taken label = some position) (inside : position < built.code.size) :
    Instruction.Starts (Element.settled taken) position := by
  refine (Element.boundary_settled placed).starts ?_
  rw [h.endOf_settled]
  exact inside

/-- The code reads as the settled instructions. -/
theorem reads (h : Completed pool options taken session built) :
    Reads session.pool.resolver built.code 0 (Element.settled taken) := by
  refine Reads.of_assemble ?_ ?_ (assemble_relabel h.assembled fun _ _ _ _ _ placed =>
    Label.named?_settled placed (Nat.lt_of_le_of_lt (h.place_le placed) h.size_lt))
  · intro i mem
    obtain ⟨j, within, rfl⟩ := List.mem_map.mp mem
    exact (h.fits j within).relabel _
  · intro i mem
    obtain ⟨j, within, rfl⟩ := List.mem_map.mp mem
    exact (h.constructed j within).readable.2.relabel _

/-! ## Tables -/

/-- A position of built code is kept in two bytes. -/
theorem toNat_position (h : Completed pool options taken session built)
    (small : position ≤ built.code.size) : (UInt16.ofNat position).toNat = position :=
  h.toFinished.toNat_position small

/-- A label in front of the end is the start of an instruction, also as it is kept in a table. -/
theorem starts_toNat (h : Completed pool options taken session built)
    (placed : Element.places taken label = some position) (inside : position < built.code.size) :
    Instruction.Starts (Element.settled taken) (UInt16.ofNat position).toNat := by
  rw [h.toNat_position (Nat.le_of_lt inside)]
  exact h.starts placed inside

/-- What a recorded handler catches is found again by its index; index 0 is left for catching
everything. -/
theorem caught_pendingCatch {marker : CatchMarker} (found : ∀ ref, marker.caught = some ref →
      pool.resolver.classRef ref.index = .ok ref) :
    if (pendingCatch marker).catchType = 0 then marker.caught = none else
      ∃ ref, pool.resolver.classRef (pendingCatch marker).catchType = .ok ref ∧
        marker.caught = some ref := by
  unfold pendingCatch
  cases caught : marker.caught with
  | none =>
      simp only [Option.map_none, Option.getD_none, if_true]
  | some ref =>
      simp only [Option.map_some, Option.getD_some]
      rw [if_neg (Pool.index_ne_zero_of_classRef (found ref caught))]
      exact ⟨ref, found ref caught, rfl⟩

/-- Every exception row of a completed session becomes a marker. -/
theorem exists_catchMarker (h : Completed pool options taken session built) {row : ExceptionRow}
    (mem : row ∈ built.exceptions.toList) :
    ∃ marker, row.MarkedBy session.pool.resolver (Element.settled taken) marker := by
  obtain ⟨rows, made, same⟩ := (finish_eq_ok_iff.mp h.finished).2.2.1
  rw [same, List.reduceOption_mem_iff] at mem
  obtain ⟨pending, recorded, made⟩ := Outcome.exists_of_forall₂_of_mem made mem
  rw [h.tables.catches_eq] at recorded
  obtain ⟨marker, took, rfl⟩ := List.mem_map.mp recorded
  obtain ⟨start, stop, handler, starts, stops, handles, ordered, inside, rfl⟩ :=
    h.toFinished.narrow.exceptionRow?_eq_ok_some_iff.mp made
  rw [h.place_eq] at starts stops handles
  have upper := h.place_le stops
  -- Start and handler are in front of the end, so an instruction starts there; the stop may be the end.
  refine ⟨⟨.decoded (UInt16.ofNat start), .decoded (UInt16.ofNat stop), .decoded (UInt16.ofNat handler),
    marker.caught⟩, ?_⟩
  refine ⟨h.starts_toNat starts (by omega), ?_, h.starts_toNat handles inside, rfl, rfl, rfl, ?_⟩
  · rw [h.toNat_position upper]
    exact Element.boundary_settled stops
  · exact caught_pendingCatch (h.caught marker took)

/-- Every local variable row of a completed session becomes a marker. -/
theorem exists_localMarker (h : Completed pool options taken session built)
    {marker : LocalMarker} {pending : PendingLocal} {row : LocalRow}
    (recorded : Records session.pool.resolver marker pending)
    (made : session.localRow? built.code.size pending = .ok (some row)) :
    ∃ marker, row.MarkedBy session.pool.resolver (Element.settled taken) marker := by
  have narrow := h.toFinished.narrow
  obtain ⟨start, stop, starts, stops, ordered, inside, rfl⟩ := narrow.localRow?_eq_ok_some_iff.mp made
  have whole := narrow.toNat_position stops
  have ends := narrow.endPc_eq starts stops ordered
  rw [h.place_eq] at starts stops
  refine ⟨⟨pending.slot, marker.name, marker.type, .decoded (UInt16.ofNat start),
    .decoded (UInt16.ofNat stop)⟩, h.starts_toNat starts inside, ?_, rfl, ?_, recorded.name, recorded.type,
    rfl⟩
  · rw [ends]
    exact Element.boundary_settled stops
  · rw [ends]
    exact congrArg some whole

/-- Every line of a completed session starts with an instruction. -/
theorem line_starts (h : Completed pool options taken session built) {row : LineRow}
    (mem : row ∈ built.lines.toList) :
    Instruction.Starts (Element.settled taken) row.startPc.toNat := by
  rw [(finish_eq_ok_iff.mp h.finished).2.2.2.2.2, lineRows, Array.toList_map, Array.toList_filter] at mem
  obtain ⟨⟨position, line⟩, kept, rfl⟩ := List.mem_map.mp mem
  obtain ⟨recorded, inside⟩ := List.mem_filter.mp kept
  have inside := of_decide_eq_true inside
  rw [h.tables.lines_eq] at recorded
  -- Lines behind the last instruction have been left out.
  split at recorded
  · change Instruction.Starts _ (UInt16.ofNat position).toNat
    rw [h.toNat_position (Nat.le_of_lt inside)]
    have boundary := Element.boundary_of_lineMarksFrom recorded
    rw [← Instruction.boundary_map_relabel_iff (Label.settled (Element.places taken))] at boundary
    refine Instruction.Boundary.starts boundary ?_
    rw [h.endOf_settled]
    exact inside
  · cases recorded

/-! ## Listings -/

/-- The local variable rows that are passed on are among all. -/
theorem mem_of_mem_passedLocals {rows : Array LocalRow} {row : LocalRow} {decodeOptions : Options}
    (mem : row ∈ decodeOptions.passedLocals rows) : row ∈ rows.toList := by
  unfold Options.passedLocals at mem
  split at mem
  · exact mem
  · cases mem

/-- The line rows that are passed on are among all. -/
theorem mem_of_mem_passedLines {rows : Array LineRow} {row : LineRow} {decodeOptions : Options}
    (mem : row ∈ decodeOptions.passedLines rows) : row ∈ rows.toList := by
  unfold Options.passedLines at mem
  split at mem
  · exact mem
  · cases mem

/-- The rows of a table of local variables become markers. -/
theorem exists_localMarkers (h : Completed pool options taken session built) {markers : List LocalMarker}
    {pendings : List PendingLocal} {rows : List (Option LocalRow)} {table : Array LocalRow}
    (recorded : List.Forall₂ (Records session.pool.resolver) markers pendings)
    (made : List.Forall₂ (fun pending row => session.localRow? built.code.size pending = .ok row)
      pendings rows) (kept : table.toList = rows.reduceOption) (decodeOptions : Options) :
    ∃ passed, List.Forall₂ (LocalRow.MarkedBy session.pool.resolver (Element.settled taken))
      (decodeOptions.passedLocals table) passed := by
  refine Outcome.exists_forall₂ fun row mem => ?_
  have mem := mem_of_mem_passedLocals mem
  rw [kept, List.reduceOption_mem_iff] at mem
  obtain ⟨pending, within, made⟩ := Outcome.exists_of_forall₂_of_mem made mem
  obtain ⟨marker, -, recorded⟩ := Outcome.exists_of_forall₂_of_mem recorded within
  exact h.exists_localMarker recorded made

/-- If every jump stays in front of the end, what was built has a listing of the settled
instructions. -/
theorem exists_listing (h : Completed pool options taken session built)
    (inside : TargetsInside taken built) (maxStack maxLocals : UInt16) (decodeOptions : Options) :
    ∃ listing : Listing (built.toAttribute maxStack maxLocals) session.pool.resolver decodeOptions,
      listing.instructions = Element.settled taken := by
  obtain ⟨-, -, -, ⟨rows, made, kept⟩, ⟨typeRows, madeTypes, keptTypes⟩, -⟩ :=
    finish_eq_ok_iff.mp h.finished
  obtain ⟨catches, markCatches⟩ := Outcome.exists_forall₂ fun row => h.exists_catchMarker
  obtain ⟨locals, markLocals⟩ := h.exists_localMarkers h.tables.locals made kept decodeOptions
  obtain ⟨localTypes, markTypes⟩ :=
    h.exists_localMarkers h.tables.localTypes madeTypes keptTypes decodeOptions
  refine ⟨⟨Element.settled taken, catches, locals, localTypes, h.reads, ?_, markCatches, markLocals,
    markTypes, fun row mem => h.line_starts (mem_of_mem_passedLines mem)⟩, rfl⟩
  -- Every target of a settled instruction is the label of the place of some original target.
  intro i mem target jumps
  obtain ⟨j, within, rfl⟩ := List.mem_map.mp mem
  rw [Instruction.targets_relabel] at jumps
  obtain ⟨original, targeted, rfl⟩ := List.mem_map.mp jumps
  obtain ⟨position, placed, before⟩ := inside j within original targeted
  exact ⟨position, Label.named?_settled placed (Nat.lt_trans before h.size_lt), h.starts placed before⟩

/-- If what was built is decoded, every jump stays in front of the end. -/
theorem targetsInside_of_decode (h : Completed pool options taken session built)
    {maxStack maxLocals : UInt16} {decodeOptions : Options} {elements : Array Element}
    (decoded : (built.toAttribute maxStack maxLocals).decode session.pool.resolver decodeOptions =
      .ok elements) : TargetsInside taken built := by
  obtain ⟨listing, -⟩ := CodeAttribute.decode_eq_ok_iff.mp decoded
  -- Code reads in one way only, so decoding has found the settled instructions.
  have same : listing.instructions = Element.settled taken := listing.reads.unique h.reads
  intro i mem target jumps
  obtain ⟨position, placed⟩ := placed_of_assemble h.assembled mem jumps
  have settled : i.relabel (Label.settled (Element.places taken)) ∈ listing.instructions := by
    rw [same]
    exact List.mem_map_of_mem mem
  obtain ⟨landing, named, starts⟩ := listing.lands _ settled (target.settled (Element.places taken)) (by
    rw [Instruction.targets_relabel]
    exact List.mem_map_of_mem jumps)
  rw [Label.named?_settled placed (Nat.lt_of_le_of_lt (h.place_le placed) h.size_lt)] at named
  cases named
  refine ⟨position, placed, ?_⟩
  rw [← h.endOf_settled, ← same]
  exact starts.lt_endOf

/-- Decoding what was built. For a `Completed` session with `TargetsInside taken built`, decoding `built`
succeeds under all options, and the instructions it gives are `Element.settled taken`: those that the session
took, with every label replaced by that of its place. -/
theorem decode_built (h : Completed pool options taken session built)
    (inside : TargetsInside taken built) (maxStack maxLocals : UInt16) (decodeOptions : Options) :
    ∃ elements, (built.toAttribute maxStack maxLocals).decode session.pool.resolver decodeOptions =
        .ok elements ∧ Element.instructions elements.toList = Element.settled taken := by
  obtain ⟨listing, same⟩ := h.exists_listing inside maxStack maxLocals decodeOptions
  refine ⟨listing.elements.toArray, CodeAttribute.decode_eq_ok_iff.mpr ⟨listing, rfl⟩, ?_⟩
  rw [List.toList_toArray, listing.instructions_elements, same]

end Completed

/-- A session that jumps to its last instruction, with what it built. -/
theorem completed_jumpAndReturn : Completed Pool.empty {} jumpAndReturn
    (jumped #[0xa7, 0, 0, 0xb1] jumpedTo) ⟨#[0xa7, 0, 3, 0xb1], #[], #[], #[], #[]⟩ where
  reachable := .empty
  run := session_jumpAndReturn
  constructed := constructed_jumpAndReturn
  caught := fun _ mem => nomatch mem
  finished := finish_jumped (by decide) rfl

/-- The jump is decoded with the position of its label. -/
theorem decode_built_jumpAndReturn : ∃ elements,
    (Built.toAttribute ⟨#[0xa7, 0, 3, 0xb1], #[], #[], #[], #[]⟩ 0 0).decode Pool.empty.resolver {} =
        .ok elements ∧
      Element.instructions elements.toList =
        [⟨.goto, .target (.decoded 3)⟩, ⟨.returnVoid, .none⟩] := by
  refine completed_jumpAndReturn.decode_built ?_ 0 0 {}
  rintro i (_ | ⟨_, _ | ⟨_, ⟨⟩⟩⟩) target (_ | ⟨_, ⟨⟩⟩)
  exact ⟨3, rfl, by decide⟩

/-- Where `TargetsInside` holds, and only there, what was built can be decoded: `(built.toAttribute maxStack
maxLocals).decode` gives elements exactly when every target of an instruction in `taken` is placed in front of
the end of `built.code`; a jump to the end itself is built and then refused. -/
theorem Completed.decode_built_iff {pool : Pool} {options : Options} {taken : List Element}
    {session : Assembler} {built : Built} (h : Completed pool options taken session built)
    (maxStack maxLocals : UInt16) (decodeOptions : Options) :
    (∃ elements, (built.toAttribute maxStack maxLocals).decode session.pool.resolver decodeOptions =
      .ok elements) ↔ TargetsInside taken built := by
  constructor
  · rintro ⟨elements, decoded⟩
    exact h.targetsInside_of_decode decoded
  · intro inside
    obtain ⟨listing, -⟩ := h.exists_listing inside maxStack maxLocals decodeOptions
    exact ⟨listing.elements.toArray, CodeAttribute.decode_eq_ok_iff.mpr ⟨listing, rfl⟩⟩

/-- A session whose only jump goes to the end of its code. -/
theorem completed_jumpAhead : Completed Pool.empty {} jumpAhead
    (jumped #[0xa7, 0, 0] jumpedTo) ⟨#[0xa7, 0, 3], #[], #[], #[], #[]⟩ where
  reachable := .empty
  run := session_jumpAhead
  constructed := fun i mem => constructed_jumpAndReturn i (by
    rw [jumpAndReturn, Element.instructions_append]
    exact List.mem_append_left _ mem)
  caught := fun _ mem => nomatch mem
  finished := finish_jumped (by decide) rfl

/-- A jump to the end of the code does not stay in front of it. -/
theorem not_targetsInside_jumpAhead :
    ¬ TargetsInside jumpAhead ⟨#[0xa7, 0, 3], #[], #[], #[], #[]⟩ := by
  intro inside
  obtain ⟨position, placed, before⟩ :=
    inside ⟨.goto, .target (.fresh 0)⟩ (List.mem_cons_self ..) (.fresh 0) (List.mem_cons_self ..)
  have placed : (3 : Nat) = position := Option.some.inj placed
  change position < 3 at before
  omega

/-- With a jump to the end of the code, the attribute is refused. -/
theorem decode_built_iff_jumpAhead : ¬ ∃ elements,
    (Built.toAttribute ⟨#[0xa7, 0, 3], #[], #[], #[], #[]⟩ 0 0).decode Pool.empty.resolver {} =
      .ok elements :=
  fun decoded => not_targetsInside_jumpAhead ((completed_jumpAhead.decode_built_iff 0 0 {}).mp decoded)

/-- A session can be finished that builds what is refused by decoding: finishing accepts a jump to the
end of the code. -/
theorem exists_completed_refused : ∃ taken session built,
    Completed Pool.empty {} taken session built ∧ ∀ maxStack maxLocals elements,
      (built.toAttribute maxStack maxLocals).decode session.pool.resolver {} ≠ .ok elements :=
  ⟨_, _, _, completed_jumpAhead, fun _ _ _ decoded =>
    not_targetsInside_jumpAhead (completed_jumpAhead.targetsInside_of_decode decoded)⟩

end Assembler

end JvmCode
