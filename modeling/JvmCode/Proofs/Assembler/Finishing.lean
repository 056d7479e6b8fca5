import JvmCode.Proofs.Assembler.Session

/-! # What finishing gives

* `finish_eq_ok_iff` takes finishing apart: the patched code, its length, and one table after the other.
* `exceptionRow?_eq_ok_some_iff` and `localRow?_eq_ok_some_iff` say which row each record becomes.
* **`Assembler.Narrow`** says that two bytes hold every position, and `Narrow.exceptionRow?_eq_ok_some_iff` and
  `Narrow.localRow?_eq_ok_some_iff` which rows there are then. -/

namespace JvmCode.Assembler

variable {session : Assembler}

/-- Code is accepted exactly when it is neither empty nor too long. -/
theorem checkLength_eq_ok_iff {length : Nat} :
    checkLength length = .ok () ↔ 0 < length ∧ length ≤ maxCodeLength := by
  unfold checkLength
  split
  · rename_i empty
    simp [empty]
  · split
    · simp only [reduceCtorEq, false_iff]
      omega
    · simp only [true_iff]
      omega

/-- A position is accepted exactly when it is inside the code. -/
theorem checkInside_eq_ok_iff {length : Nat} {pc : UInt16} :
    checkInside length pc = .ok () ↔ pc.toNat < length := by
  unfold checkInside
  split <;> simp_all

/-- A session is finished exactly when its offsets can be filled in, its code is neither empty nor too
long, and every record becomes a row or is left out. -/
theorem finish_eq_ok_iff {built : Built} : session.finish = .ok built ↔
    Resolves session.place session.patches.toList session.code built.code ∧
    (0 < built.code.size ∧ built.code.size ≤ maxCodeLength) ∧
    (∃ rows, List.Forall₂ (fun pending row => session.exceptionRow? built.code.size pending = .ok row)
      session.catches.toList rows ∧ built.exceptions.toList = rows.reduceOption) ∧
    (∃ rows, List.Forall₂ (fun pending row => session.localRow? built.code.size pending = .ok row)
      session.locals.toList rows ∧ built.locals.toList = rows.reduceOption) ∧
    (∃ rows, List.Forall₂ (fun pending row => session.localRow? built.code.size pending = .ok row)
      session.localTypes.toList rows ∧ built.localTypes.toList = rows.reduceOption) ∧
    built.lines = session.lineRows built.code.size := by
  -- The model folds over an array; the statements about patches are about its list.
  have patched : ∀ code, session.patchedCode = .ok code ↔
      Resolves session.place session.patches.toList session.code code := by
    intro code
    rw [patchedCode, Resolves, Array.foldlM_toList]
  rw [finish]
  simp only [Outcome.bind_eq_ok_iff, Outcome.pure_eq_ok_iff, patched]
  constructor
  · rintro ⟨code, resolved, ⟨⟩, sized, exceptions, madeExceptions, locals, madeLocals, localTypes,
      madeTypes, rfl⟩
    exact ⟨resolved, checkLength_eq_ok_iff.mp sized, Outcome.arrayFilterMapM_eq_ok_iff.mp madeExceptions,
      Outcome.arrayFilterMapM_eq_ok_iff.mp madeLocals, Outcome.arrayFilterMapM_eq_ok_iff.mp madeTypes, rfl⟩
  · rintro ⟨resolved, sized, madeExceptions, madeLocals, madeTypes, lines⟩
    refine ⟨built.code, resolved, (), checkLength_eq_ok_iff.mpr sized, built.exceptions,
      Outcome.arrayFilterMapM_eq_ok_iff.mpr madeExceptions, built.locals,
      Outcome.arrayFilterMapM_eq_ok_iff.mpr madeLocals, built.localTypes,
      Outcome.arrayFilterMapM_eq_ok_iff.mpr madeTypes, ?_⟩
    rw [← lines]

/-! ## Rows -/

/-- A range goes on exactly when its label is placed, with the position in two bytes. -/
theorem rangePosition_eq_ok_some_iff {label : Label} {pc : UInt16} :
    session.rangePosition label = .ok (some pc) ↔
      ∃ position, session.place label = some position ∧ pc = UInt16.ofNat position := by
  unfold rangePosition
  cases session.place label with
  | some other => simp [eq_comm]
  | none => cases session.options.deadLabels <;> simp

/-- A range of a placed label goes on from its position. -/
theorem bind_rangePosition_of_place {α : Type} {label : Label} {position : Nat}
    (next : Option UInt16 → Except Fault (Option α)) (placed : session.place label = some position) :
    (session.rangePosition label >>= next) = next (some (UInt16.ofNat position)) := by
  rw [rangePosition_eq_ok_some_iff.mpr ⟨position, placed, rfl⟩]
  rfl

/-- A range that is not left out has a placed label. -/
theorem place_of_bind_rangePosition {α : Type} {label : Label} {row : α}
    {next : Option UInt16 → Except Fault (Option α)}
    (made : (session.rangePosition label >>= next) = .ok (some row)) (leftOut : next none = .ok none) :
    ∃ position, session.place label = some position ∧ next (some (UInt16.ofNat position)) = .ok (some row) := by
  obtain ⟨_ | pc, found, made⟩ := Outcome.bind_eq_ok_iff.mp made
  · rw [leftOut] at made
    cases made
  · obtain ⟨position, placed, rfl⟩ := rangePosition_eq_ok_some_iff.mp found
    exact ⟨position, placed, made⟩

/-- A row that is made once its range is accepted and a position of it lies inside the code. -/
theorem checked_eq_ok_some_iff {α : Type} {bad : Prop} [Decidable bad] {fault : Fault}
    {length : Nat} {pc : UInt16} {made row : α} :
    (do
      if bad then throw fault
      checkInside length pc
      return some made : Except Fault (Option α)) = .ok (some row) ↔
        ¬ bad ∧ pc.toNat < length ∧ row = made := by
  by_cases refused : bad
  · simp [refused, throw, throwThe, MonadExceptOf.throw, bind, Except.bind]
  · simp only [refused, if_false, Outcome.bind_eq_ok_iff, Outcome.pure_eq_ok_iff, not_false_eq_true,
      true_and, Option.some.injEq, eq_comm (a := made)]
    constructor
    · rintro ⟨⟨⟩, inside, rfl⟩
      exact ⟨checkInside_eq_ok_iff.mp inside, rfl⟩
    · rintro ⟨inside, rfl⟩
      exact ⟨(), checkInside_eq_ok_iff.mpr inside, rfl⟩

/-- An exception handler becomes a row exactly when its labels are placed and, in two bytes, its range is not
empty and its handler lies inside the code. -/
theorem exceptionRow?_eq_ok_some_iff {length : Nat} {pending : PendingCatch} {row : ExceptionRow} :
    session.exceptionRow? length pending = .ok (some row) ↔
      ∃ start stop handler, session.place pending.start = some start ∧
        session.place pending.stop = some stop ∧ session.place pending.handler = some handler ∧
        UInt16.ofNat start < UInt16.ofNat stop ∧ (UInt16.ofNat handler).toNat < length ∧
        row = ⟨UInt16.ofNat start, UInt16.ofNat stop, UInt16.ofNat handler, pending.catchType⟩ := by
  unfold exceptionRow?
  constructor
  · intro made
    obtain ⟨start, starts, made⟩ := place_of_bind_rangePosition made rfl
    obtain ⟨stop, stops, made⟩ := place_of_bind_rangePosition made rfl
    obtain ⟨handler, handles, made⟩ := place_of_bind_rangePosition made rfl
    obtain ⟨ordered, inside, made⟩ := checked_eq_ok_some_iff.mp made
    exact ⟨start, stop, handler, starts, stops, handles, UInt16.not_le.mp ordered, inside, made⟩
  · rintro ⟨start, stop, handler, starts, stops, handles, ordered, inside, made⟩
    refine (bind_rangePosition_of_place _ starts).trans ?_
    refine (bind_rangePosition_of_place _ stops).trans ?_
    refine (bind_rangePosition_of_place _ handles).trans ?_
    exact checked_eq_ok_some_iff.mpr ⟨UInt16.not_le.mpr ordered, inside, made⟩

/-- A variable becomes a row exactly when its labels are placed and, in two bytes, its range does not end
before it starts and it starts inside the code. -/
theorem localRow?_eq_ok_some_iff {length : Nat} {pending : PendingLocal} {row : LocalRow} :
    session.localRow? length pending = .ok (some row) ↔
      ∃ start stop, session.place pending.start = some start ∧ session.place pending.stop = some stop ∧
        UInt16.ofNat start ≤ UInt16.ofNat stop ∧ (UInt16.ofNat start).toNat < length ∧
        row = ⟨UInt16.ofNat start, UInt16.ofNat stop - UInt16.ofNat start, pending.nameIndex,
          pending.typeIndex, pending.slot⟩ := by
  unfold localRow?
  constructor
  · intro made
    obtain ⟨start, starts, made⟩ := place_of_bind_rangePosition made rfl
    obtain ⟨stop, stops, made⟩ := place_of_bind_rangePosition made rfl
    obtain ⟨ordered, inside, made⟩ := checked_eq_ok_some_iff.mp made
    exact ⟨start, stop, starts, stops, UInt16.not_lt.mp ordered, inside, made⟩
  · rintro ⟨start, stop, starts, stops, ordered, inside, made⟩
    refine (bind_rangePosition_of_place _ starts).trans ?_
    refine (bind_rangePosition_of_place _ stops).trans ?_
    exact checked_eq_ok_some_iff.mpr ⟨UInt16.not_lt.mpr ordered, inside, made⟩

/-! ## Positions in two bytes -/

/-- Labels are placed where instructions start or end, which is nowhere behind the end of the code. -/
theorem CodeTracks.place_le {taken : List Element} (tracks : CodeTracks taken session) {label : Label}
    {position : Nat} (placed : session.place label = some position) : position ≤ session.code.size := by
  rw [tracks.place_eq] at placed
  rw [tracks.size_eq]
  exact (Element.boundary_of_placesFrom placed).bounds.2

/-- Two bytes hold the positions of all labels. -/
def Narrow (session : Assembler) : Prop :=
  ∀ label position, session.place label = some position → position ≤ maxCodeLength

/-- Two bytes hold the positions of all labels in code that is not too long. -/
theorem CodeTracks.narrow {taken : List Element} (tracks : CodeTracks taken session)
    (short : session.code.size ≤ maxCodeLength) : session.Narrow :=
  fun _ _ placed => Nat.le_trans (tracks.place_le placed) short

namespace Narrow

variable {label other : Label} {position second length : Nat}

/-- The position of a label is exact in two bytes. -/
theorem toNat_position (narrow : session.Narrow) (placed : session.place label = some position) :
    (UInt16.ofNat position).toNat = position :=
  UInt16.toNat_ofNat_of_lt' (Nat.lt_succ_of_le (narrow label position placed))

/-- In two bytes, labels come in the order of their positions. -/
theorem ofNat_lt_iff (narrow : session.Narrow) (placed : session.place label = some position)
    (behind : session.place other = some second) :
    UInt16.ofNat position < UInt16.ofNat second ↔ position < second := by
  rw [UInt16.lt_iff_toNat_lt, narrow.toNat_position placed, narrow.toNat_position behind]

/-- In two bytes, labels come in the order of their positions or together. -/
theorem ofNat_le_iff (narrow : session.Narrow) (placed : session.place label = some position)
    (behind : session.place other = some second) :
    UInt16.ofNat position ≤ UInt16.ofNat second ↔ position ≤ second := by
  rw [UInt16.le_iff_toNat_le, narrow.toNat_position placed, narrow.toNat_position behind]

/-- A row that keeps the start of a range and its length ends where the range stops. -/
theorem endPc_eq (narrow : session.Narrow) (placed : session.place label = some position)
    (behind : session.place other = some second) (ordered : position ≤ second)
    (nameIndex typeIndex slot : UInt16) :
    LocalRow.endPc ⟨UInt16.ofNat position, UInt16.ofNat (second - position), nameIndex, typeIndex, slot⟩ =
      second := by
  have small := narrow other second behind
  have extent : (UInt16.ofNat (second - position)).toNat = second - position :=
    UInt16.toNat_ofNat_of_lt' (Nat.lt_succ_of_le (Nat.le_trans (Nat.sub_le ..) small))
  rw [LocalRow.endPc, narrow.toNat_position placed, extent, Nat.add_sub_cancel' ordered]

/-- A handler becomes a row exactly when its labels are placed, its range is not empty and it lies inside the
code. -/
theorem exceptionRow?_eq_ok_some_iff (narrow : session.Narrow) {pending : PendingCatch} {row : ExceptionRow} :
    session.exceptionRow? length pending = .ok (some row) ↔
      ∃ start stop handler, session.place pending.start = some start ∧
        session.place pending.stop = some stop ∧ session.place pending.handler = some handler ∧
        start < stop ∧ handler < length ∧
        row = ⟨UInt16.ofNat start, UInt16.ofNat stop, UInt16.ofNat handler, pending.catchType⟩ := by
  rw [Assembler.exceptionRow?_eq_ok_some_iff]
  refine exists_congr fun start => exists_congr fun stop => exists_congr fun handler => ?_
  refine and_congr_right fun starts => and_congr_right fun stops => and_congr_right fun handles => ?_
  rw [narrow.ofNat_lt_iff starts stops, narrow.toNat_position handles]

/-- A variable becomes a row exactly when its labels are placed, its range does not end before it starts and it
starts inside the code. -/
theorem localRow?_eq_ok_some_iff (narrow : session.Narrow) {pending : PendingLocal} {row : LocalRow} :
    session.localRow? length pending = .ok (some row) ↔
      ∃ start stop, session.place pending.start = some start ∧ session.place pending.stop = some stop ∧
        start ≤ stop ∧ start < length ∧
        row = ⟨UInt16.ofNat start, UInt16.ofNat (stop - start), pending.nameIndex, pending.typeIndex,
          pending.slot⟩ := by
  rw [Assembler.localRow?_eq_ok_some_iff]
  refine exists_congr fun start => exists_congr fun stop => ?_
  refine and_congr_right fun starts => and_congr_right fun stops => ?_
  rw [narrow.ofNat_le_iff starts stops, narrow.toNat_position starts]
  refine and_congr_right fun ordered => ?_
  rw [UInt16.ofNat_sub ordered]

end Narrow

/-! ## A jump to the next instruction -/

/-- A jump forward, over nothing. -/
def jumpAhead : List Element := [.instruction ⟨.goto, .target (.fresh 0)⟩, .label (.fresh 0)]

/-- A jump forward, over nothing, and something to land on. -/
def jumpAndReturn : List Element := jumpAhead ++ [.instruction ⟨.returnVoid, .none⟩]

/-- A session that has taken the jump, with its code and the places of its labels. -/
def jumped (code : Array UInt8) (placed : Std.HashMap Label Nat) : Assembler :=
  { start Pool.empty {} with code, placed, patches := #[⟨.fresh 0, 0, 1, false⟩], minted := 1 }

/-- The label after the jump. -/
def jumpedTo : Std.HashMap Label Nat := (∅ : Std.HashMap Label Nat).insert (.fresh 0) 3

/-- The label is placed after the jump. -/
theorem jumpedTo_fresh : jumpedTo[Label.fresh 0]? = some 3 := by
  simp [jumpedTo]

/-- A session mints a label, jumps to it and places it. -/
theorem session_jumpAhead : Session Pool.empty {} jumpAhead (jumped #[0xa7, 0, 0] jumpedTo) := by
  have minted : Session Pool.empty {} [] { start Pool.empty {} with minted := 1 } :=
    .step .start (.minted rfl)
  have took : Taken { start Pool.empty {} with minted := 1 }
      (.instruction ⟨.goto, .target (.fresh 0)⟩) (jumped #[0xa7, 0, 0] ∅) := by
    refine @Taken.instruction _ _ ⟨#[0xa7, 0, 0], #[⟨.fresh 0, 0, 1, false⟩]⟩ ?_
    -- The opcode and one near offset, whose label has no place yet.
    have template : Instruction.template ⟨.goto, .target (.fresh 0)⟩ 0 =
        [.bytes [0xa7], .offset false (.fresh 0)] := by
      decide +kernel
    have unplaced : Assembler.place { start Pool.empty {} with minted := 1 } (.fresh 0) = none :=
      Std.HashMap.getElem?_empty
    change (Instruction.template _ 0).foldlM _ _ = _
    rw [template]
    simp only [List.foldlM, emitChunk, unplaced]
    rfl
  have placed : Taken (jumped #[0xa7, 0, 0] ∅) (.label (.fresh 0)) (jumped #[0xa7, 0, 0] jumpedTo) :=
    Taken.label Std.HashMap.getElem?_empty
  exact .step (.step minted (.took (add_of_taken took))) (.took (add_of_taken placed))

/-- The session goes on: it is refused to place the label again, and returns. -/
theorem session_jumpAndReturn :
    Session Pool.empty {} jumpAndReturn (jumped #[0xa7, 0, 0, 0xb1] jumpedTo) := by
  have refused : add (.label (.fresh 0)) (jumped #[0xa7, 0, 0] jumpedTo) =
      .error (.labelAlreadyPlaced (.fresh 0)) _ :=
    if_pos (by simp [jumped, jumpedTo])
  have took : Taken (jumped #[0xa7, 0, 0] jumpedTo) (.instruction ⟨.returnVoid, .none⟩)
      (jumped #[0xa7, 0, 0, 0xb1] jumpedTo) :=
    @Taken.instruction _ _ ⟨#[0xb1], #[]⟩ rfl
  exact .step (.step session_jumpAhead (.refused refused)) (.took (add_of_taken took))

/-- Such a session is finished by filling in the jump. -/
theorem finish_jumped {code result : Array UInt8} (sized : 0 < result.size ∧ result.size ≤ maxCodeLength)
    (written : Buffer.overwrite code 1 [0, 3] = result) :
    (jumped code jumpedTo).finish = .ok ⟨result, #[], #[], #[], #[]⟩ := by
  have resolved : Resolves (jumped code jumpedTo).place [⟨.fresh 0, 0, 1, false⟩] code result := by
    refine resolves_cons_iff.mpr ⟨[0, 3], ?_, resolves_nil_iff.mpr written.symm⟩
    exact Chunk.fill_offset_eq_ok_iff.mpr ⟨3, jumpedTo_fresh, by decide, by decide⟩
  refine finish_eq_ok_iff.mpr ⟨resolved, sized, ⟨[], .nil, rfl⟩, ⟨[], .nil, rfl⟩, ⟨[], .nil, rfl⟩, ?_⟩
  change #[] = Array.map _ (Array.filter _ (#[] : Array (Nat × UInt16)))
  rw [Array.filter_empty, Array.map_empty]

end JvmCode.Assembler
