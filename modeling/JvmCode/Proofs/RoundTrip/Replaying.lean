import JvmCode.Proofs.Assembler.Recording
import JvmCode.Proofs.RoundTrip.Alignment
import JvmCode.Proofs.Traversal.Listings

/-! # Taking the elements of a listing

A session over the pool that code was decoded with takes every element of its listing, and its pool
stays as it was.

* **`Assembler.Follows`** is a session that follows a listing: every label that it placed names its place.
* `Assembler.Follows.takesMarks`, `Assembler.Follows.takesLabel` and `Assembler.Follows.takesInstruction`
  are the steps, `Assembler.Follows.takesLayOut` all of them.
* `Assembler.exists_addAll_elements`: a fresh session takes all elements. -/

namespace JvmCode

/-- Lines, handlers, and local variables whose texts the pool has. -/
def Element.MarksIn (pool : Pool) : Element → Prop
  | .line _ | .exceptionCatch _ => True
  | .localVariable marker | .localVariableType marker =>
      (∃ index, pool.resolver.text index = .ok marker.name) ∧
        ∃ index, pool.resolver.text index = .ok marker.type
  | .instruction _ | .label _ => False

namespace Assembler

/-- Texts that the pool has are entered without a change to it. -/
theorem exists_pendingLocal {pool : Pool} (sound : pool.Sound) {marker : LocalMarker}
    {name type : UInt16} (named : pool.resolver.text name = .ok marker.name)
    (typed : pool.resolver.text type = .ok marker.type) :
    ∃ pending, pendingLocal marker pool = .ok pending pool := by
  obtain ⟨nameIndex, entered, -⟩ := sound.intern_of_get? (Pool.text_eq_ok_iff.mp named)
  obtain ⟨typeIndex, entered', -⟩ := sound.intern_of_get? (Pool.text_eq_ok_iff.mp typed)
  refine ⟨⟨marker.slot, nameIndex, typeIndex, marker.start, marker.stop⟩, ?_⟩
  refine Interning.bind_eq_ok_iff.mpr ⟨nameIndex, pool, entered, ?_⟩
  exact Interning.bind_eq_ok_iff.mpr ⟨typeIndex, pool, entered', rfl⟩

/-- A session over a pool that has come to `bci` and placed labels in front of `bound` only, each where
it says. -/
structure Follows (pool : Pool) (bci bound : Nat) (session : Assembler) : Prop where
  /-- Everything is passed on. -/
  options_eq : session.options = {}
  /-- The pool has not changed. -/
  pool_eq : session.pool = pool
  /-- The code ends at `bci`. -/
  size_eq : session.code.size = bci
  /-- Labels are placed where they say, in front of `bound`. -/
  named : ∀ label position, session.place label = some position →
    label.named? = some position ∧ position < bound

namespace Follows

variable {pool : Pool} {bci bound : Nat} {session : Assembler}

/-- A fresh session has come nowhere. -/
theorem start (pool : Pool) : Follows pool 0 0 (start pool {}) := by
  refine ⟨rfl, rfl, rfl, fun label position placed => ?_⟩
  rw [place, Assembler.start, Std.HashMap.getElem?_empty] at placed
  cases placed

/-- A session takes lines, handlers and local variables. -/
theorem takesMarks (h : Follows pool bci bound session) (sound : pool.Sound) {elements : List Element}
    (marks : ∀ element ∈ elements, element.MarksIn pool) :
    ∃ after, addAll elements session = .ok () after ∧ Follows pool bci bound after := by
  induction elements generalizing session with
  | nil => exact ⟨session, addAll_nil session, h⟩
  | cons element rest ih =>
      -- None of these elements places a label or moves the position on.
      have one : ∃ middle, Taken session element middle ∧ Follows pool bci bound middle := by
        obtain ⟨options_eq, pool_eq, size_eq, named⟩ := h
        have debug : session.options.debugElements = .pass := by rw [options_eq]
        have lines : session.options.lineNumbers = .pass := by rw [options_eq]
        have first := marks element (List.mem_cons_self ..)
        cases element with
        | line number => exact ⟨_, .line number lines, options_eq, pool_eq, size_eq, named⟩
        | exceptionCatch marker => exact ⟨_, .exceptionCatch marker, options_eq, pool_eq, size_eq, named⟩
        | localVariable marker =>
            obtain ⟨⟨_, name⟩, ⟨_, type⟩⟩ := first
            obtain ⟨pending, entered⟩ := exists_pendingLocal sound name type
            rw [← pool_eq] at entered
            exact ⟨_, .localVariable debug entered, options_eq, pool_eq, size_eq, named⟩
        | localVariableType marker =>
            obtain ⟨⟨_, name⟩, ⟨_, type⟩⟩ := first
            obtain ⟨pending, entered⟩ := exists_pendingLocal sound name type
            rw [← pool_eq] at entered
            exact ⟨_, .localVariableType debug entered, options_eq, pool_eq, size_eq, named⟩
        | instruction i => exact first.elim
        | label label => exact first.elim
      obtain ⟨middle, took, follows⟩ := one
      obtain ⟨after, more, follows⟩ := ih follows fun other mem => marks other (List.mem_cons_of_mem _ mem)
      exact ⟨after, addAll_cons_eq_ok_iff.mpr ⟨middle, took, more⟩, follows⟩

/-- A session takes the label of its position. -/
theorem takesLabel (h : Follows pool bci bci session) (labels : List Label) :
    ∃ after, addAll (Element.labelAt labels bci) session = .ok () after ∧
      Follows pool bci (bci + 1) after := by
  obtain ⟨options_eq, pool_eq, size_eq, named⟩ := h
  unfold Element.labelAt
  split
  · rename_i any
    obtain ⟨label, -, same⟩ := List.any_eq_true.mp any
    have here := eq_of_beq same
    obtain ⟨small, rfl⟩ := Label.named?_eq_some_iff.mp here
    -- All labels placed so far name positions further in front.
    have fresh : session.place (.decoded (UInt16.ofNat bci)) = none := by
      cases placed : session.place (.decoded (UInt16.ofNat bci)) with
      | none => rfl
      | some position =>
          obtain ⟨names, before⟩ := named _ position placed
          rw [here] at names
          cases names
          exact absurd before (Nat.lt_irrefl _)
    refine ⟨_, addAll_cons_eq_ok_iff.mpr ⟨_, .label fresh, addAll_nil _⟩, options_eq, pool_eq, size_eq, ?_⟩
    intro other position placed
    rw [place_insert] at placed
    split at placed
    · rename_i found
      cases placed
      rw [← found, size_eq]
      exact ⟨here, Nat.lt_succ_self _⟩
    · obtain ⟨names, before⟩ := named other position placed
      exact ⟨names, Nat.lt_succ_of_lt before⟩
  · exact ⟨session, addAll_nil session, options_eq, pool_eq, size_eq, fun label position placed =>
      (named label position placed).imp_right Nat.lt_succ_of_lt⟩

/-- A session takes an instruction that was read at its position. -/
theorem takesInstruction (h : Follows pool bci (bci + 1) session) {resolver : Resolver}
    {code : Array UInt8} {i : Instruction} (reads : i.ReadsAt resolver code bci) :
    ∃ after, Taken session (.instruction i) after ∧
      Follows pool (bci + i.size bci) (bci + i.size bci) after := by
  obtain ⟨options_eq, pool_eq, size_eq, named⟩ := h
  obtain ⟨_, _, -, -, encoded⟩ := reads.exists_encode
  -- Labels that are placed already have their final places.
  have finer : Refines Label.named? session.place := fun label position placed =>
    (named label position placed).1
  obtain ⟨emission, emitted⟩ := emit_of_encode finer encoded
  have size := size_of_emit reads.1 emitted
  rw [← size_eq] at emitted
  refine ⟨_, .instruction emitted, options_eq, pool_eq, ?_, fun label position placed => ?_⟩
  · change (session.code ++ emission.bytes).size = _
    rw [Array.size_append, size_eq, size]
  · obtain ⟨names, before⟩ := named label position placed
    have positive := i.size_pos bci
    exact ⟨names, by omega⟩

/-- A session takes everything that stands between labels. -/
theorem takesLayOut (h : Follows pool bci bci session) (sound : pool.Sound) (labels : List Label)
    (rows : List LineRow) {resolver : Resolver} {code : Array UInt8} {is : List Instruction}
    (reads : Reads resolver code bci is) :
    ∃ after, addAll (Element.layOut (Element.labelAt labels) (Element.linesAt rows) bci is) session =
        .ok () after ∧ after.pool = pool := by
  induction is generalizing bci session with
  | nil =>
      obtain ⟨after, took, follows⟩ := h.takesLabel labels
      exact ⟨after, took, follows.pool_eq⟩
  | cons i rest ih =>
      have numbers : ∀ element ∈ Element.linesAt rows bci, element.MarksIn pool := by
        intro element mem
        obtain ⟨row, -, rfl⟩ := List.mem_map.mp mem
        trivial
      -- One position after the other: its label, its lines, its instruction.
      obtain ⟨labelled, tookLabel, follows⟩ := h.takesLabel labels
      obtain ⟨lined, tookLines, follows⟩ := follows.takesMarks sound numbers
      obtain ⟨emitted, tookInstruction, follows⟩ := follows.takesInstruction reads.1
      obtain ⟨after, tookRest, pool_eq⟩ := ih follows reads.2
      refine ⟨after, ?_, pool_eq⟩
      rw [Element.layOut]
      exact addAll_append (addAll_append tookLabel tookLines)
        (addAll_cons_eq_ok_iff.mpr ⟨emitted, tookInstruction, tookRest⟩)

end Follows

variable {pool : Pool} {attr : CodeAttribute} {options : Options}

/-- The texts of the markers of a listing are texts of the pool. -/
theorem marksIn_markers (listing : Listing attr pool.resolver options) :
    ∀ element ∈ listing.markers, element.MarksIn pool := by
  intro element mem
  obtain ⟨marker, within, rfl⟩ | ⟨marker, within, rfl⟩ | ⟨marker, within, rfl⟩ :=
    listing.mem_markers_iff.mp mem
  · trivial
  · obtain ⟨row, -, marked⟩ := Outcome.exists_of_forall₂_of_mem listing.markLocals within
    exact ⟨⟨_, marked.name⟩, ⟨_, marked.type⟩⟩
  · obtain ⟨row, -, marked⟩ := Outcome.exists_of_forall₂_of_mem listing.markLocalTypes within
    exact ⟨⟨_, marked.name⟩, ⟨_, marked.type⟩⟩

/-- A fresh session over the pool that code was decoded with takes all elements of its listing. -/
theorem exists_addAll_elements (sound : pool.Sound) (listing : Listing attr pool.resolver options) :
    ∃ session, addAll listing.elements (start pool {}) = .ok () session ∧ session.pool = pool := by
  obtain ⟨marked, tookMarkers, follows⟩ :=
    (Follows.start pool).takesMarks sound (marksIn_markers listing)
  obtain ⟨session, tookRest, pool_eq⟩ := follows.takesLayOut sound listing.labels
    (options.passedLines attr.lines) listing.reads
  exact ⟨session, addAll_append tookMarkers tookRest, pool_eq⟩

end Assembler

end JvmCode
