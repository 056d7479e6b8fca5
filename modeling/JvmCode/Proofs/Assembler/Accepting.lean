import JvmCode.Proofs.Assembler.Refusing

/-! # What finishing accepts

Whether a session can be finished, and with which fault it is refused, in terms of the elements that it took.
Every check looks at one operand, one length or one marker, and the first that fails decides.

* **`Element.waiting`** are the offset operands whose labels had no place when they were emitted;
  `Session.patches_eq`: they are the patches of the session, in order.
* **`Patch.fault?`**, **`CatchMarker.fault?`** and **`LocalMarker.fault?`** are the faults of one item each.
* **`Element.firstFault?`** is the first of all faults, and **`Element.Acceptable`** says that there is none.
* `Session.finish_accepts`: these decide whether the session is finished. -/

namespace JvmCode

/-! ## Operands that wait -/

namespace Element

/-- The offset operands of an element behind others, of those to labels that the others have not placed. -/
def waits (before : List Element) : Element → List Patch
  | .instruction i =>
      (i.offsets (Instruction.endOf 0 (instructions before))).filter fun operand =>
        (places before operand.target).isNone
  | _ => []

/-- The offset operands of elements behind others that wait for their labels. -/
def waitingAfter : List Element → List Element → List Patch
  | _, [] => []
  | before, element :: rest => element.waits before ++ waitingAfter (before ++ [element]) rest

/-- The offset operands whose labels have no place when they are emitted, in order. -/
def waiting : List Element → List Patch := waitingAfter []

/-- The operands that wait among two sequences. -/
theorem waitingAfter_append (before first second : List Element) :
    waitingAfter before (first ++ second) =
      waitingAfter before first ++ waitingAfter (before ++ first) second := by
  induction first generalizing before with
  | nil => rw [List.append_nil]; rfl
  | cons element rest ih =>
      rw [List.cons_append, waitingAfter, waitingAfter, ih, List.append_assoc, List.append_assoc]
      rfl

/-- The operands that wait with one more element. -/
theorem waiting_concat (before : List Element) (element : Element) :
    waiting (before ++ [element]) = waiting before ++ element.waits before := by
  rw [waiting, waitingAfter_append, waitingAfter, waitingAfter, List.append_nil]
  rfl

end Element

namespace Assembler

variable {place : Label → Option Nat} {bci : Nat} {emission after : Emission}

/-- Emitted chunks leave patches for the offsets to labels without a place. -/
theorem patches_of_emitChunks {chunks : List Chunk}
    (h : chunks.foldlM (emitChunk place bci) emission = .ok after) :
    after.patches.toList = emission.patches.toList ++
      (Chunk.holes bci (bci + emission.bytes.size) chunks).filter fun operand =>
        (place operand.target).isNone := by
  induction chunks generalizing emission with
  | nil =>
      obtain rfl := Outcome.pure_eq_ok_iff.mp h
      exact (List.append_nil _).symm
  | cons chunk rest ih =>
      rw [List.foldlM_cons] at h
      obtain ⟨middle, first, others⟩ := Outcome.bind_eq_ok_iff.mp h
      rw [ih others]
      obtain ⟨content, filled, rfl⟩ | ⟨far, target, rfl, unplaced, rfl⟩ := emitChunk_cases first
      · have wide := Chunk.length_of_fill filled
        simp only [Array.size_append, List.size_toArray, wide, ← Nat.add_assoc]
        cases chunk with
        | bytes fixed => rfl
        | offset far target =>
            obtain ⟨position, placed, -⟩ := Chunk.fill_offset_eq_ok_iff.mp filled
            rw [Chunk.holes, List.filter_cons_of_neg (by simp [placed])]
            rfl
      · rw [Chunk.holes, List.filter_cons_of_pos (by simp [unplaced])]
        simp only [Array.toList_push, Array.size_append, Array.size_replicate, ← Nat.add_assoc,
          List.append_assoc, List.singleton_append]

/-- An emitted instruction leaves patches for its offsets to labels without a place. -/
theorem patches_of_emit {i : Instruction} (h : i.emit place bci = .ok emission) :
    emission.patches.toList = (i.offsets bci).filter fun operand => (place operand.target).isNone :=
  patches_of_emitChunks h

variable {session after : Assembler} {element : Element} {pool : Pool} {options : Options}
  {taken more : List Element}

/-- Taking an element adds the operands of it that wait. -/
theorem CodeTracks.waiting_took (tracks : CodeTracks taken session) (took : Taken session element after)
    (patches : session.patches.toList = Element.waiting taken) :
    after.patches.toList = Element.waiting (taken ++ [element]) := by
  rw [Element.waiting_concat, ← patches]
  cases took with
  | instruction emitted =>
      rw [Array.toList_append, patches_of_emit emitted, tracks.place_eq, tracks.size_eq]
      rfl
  | _ => exact (List.append_nil _).symm

/-- A step adds the operands that wait of what it takes. -/
theorem CodeTracks.waiting_step (tracks : CodeTracks taken session) (step : Step session more after)
    (patches : session.patches.toList = Element.waiting taken) :
    after.patches.toList = Element.waiting (taken ++ more) := by
  cases step with
  | took h => exact tracks.waiting_took (taken_of_add h) patches
  | refused h =>
      obtain ⟨larger, -, rfl⟩ := grows_of_add_error h
      rwa [List.append_nil]
  | minted h =>
      cases h
      rwa [List.append_nil]
  | grown h => rwa [List.append_nil]

/-- The patches of a session are for the operands that wait, in order. -/
theorem Session.patches_eq (run : Session pool options taken session)
    (fits : ∀ i ∈ Element.instructions taken, i.Fits) :
    session.patches.toList = Element.waiting taken := by
  induction run with
  | start => rfl
  | step before step ih =>
      rw [Element.instructions_append] at fits
      have earlier := fun i mem => fits i (List.mem_append_left _ mem)
      exact (before.codeTracks earlier).waiting_step step (ih earlier)

end Assembler

/-! ## Faults of single items -/

/-- The fault of an operand that waited: its label was never placed, or is out of reach. -/
def Patch.fault? (place : Label → Option Nat) (operand : Patch) : Option Fault :=
  match place operand.target with
  | none => some (.unresolvedLabel operand.target)
  | some position => offsetFault? operand.bci position operand.far

/-- The fault of code of a given length: it is empty or too long. -/
def lengthFault? (length : Nat) : Option Fault :=
  if length = 0 then some (.malformed 0 .emptyCode)
  else if maxCodeLength < length then some (.malformed 0 (.codeTooLarge length))
  else none

/-- The fault of a range with labels that were never placed: the first of them, unless such ranges are
left out. -/
def deadFault? (dead : DeadLabels) (place : Label → Option Nat) (labels : List Label) : Option Fault :=
  match dead with
  | .drop => none
  | .fail => (labels.find? fun label => (place label).isNone).map .unresolvedLabel

section

variable {dead : DeadLabels} {place : Label → Option Nat} {label : Label}

/-- A label without a place is the first such label of a range that starts with it. -/
theorem deadFault?_cons_of_unplaced (unplaced : place label = none) (rest : List Label) :
    deadFault? dead place (label :: rest) = deadFault? dead place [label] := by
  cases dead <;> simp [deadFault?, unplaced]

/-- A label with a place is passed over. -/
theorem deadFault?_cons_of_placed {position : Nat} (placed : place label = some position)
    (rest : List Label) : deadFault? dead place (label :: rest) = deadFault? dead place rest := by
  cases dead <;> simp [deadFault?, placed]

/-- A range has no such fault exactly when it may be left out or all its labels are placed. -/
theorem deadFault?_eq_none_iff {labels : List Label} :
    deadFault? dead place labels = none ↔
      (dead = .fail → ∀ label ∈ labels, ∃ position, place label = some position) := by
  cases dead <;> simp [deadFault?, Option.ne_none_iff_exists']

end

/-- The fault of a range in code of a given length: the range is bad, or a position of it is not inside the
code. -/
def rangeFault? (bad : Prop) [Decidable bad] (fault : Fault) (length position : Nat) : Option Fault :=
  if bad then some fault else if position < length then none else some (badTablePc position)

/-- A range has no fault exactly when it is not bad and the position is inside the code. -/
theorem rangeFault?_eq_none_iff {bad : Prop} [Decidable bad] {fault : Fault} {length position : Nat} :
    rangeFault? bad fault length position = none ↔ ¬ bad ∧ position < length := by
  unfold rangeFault?
  split <;> simp_all

/-- Only whether a range is bad decides about its fault. -/
theorem rangeFault?_congr {bad other : Prop} [Decidable bad] [Decidable other] (same : bad ↔ other)
    (fault : Fault) (length position : Nat) :
    rangeFault? bad fault length position = rangeFault? other fault length position := by
  simp only [rangeFault?, same]

/-- The labels of an exception handler. -/
def CatchMarker.labels (marker : CatchMarker) : List Label := [marker.start, marker.stop, marker.handler]

/-- The labels of a local variable. -/
def LocalMarker.labels (marker : LocalMarker) : List Label := [marker.start, marker.stop]

/-- The fault of an exception handler in code of a given length: its range is empty, or it is not inside
the code. -/
def CatchMarker.fault? (dead : DeadLabels) (place : Label → Option Nat) (length : Nat)
    (marker : CatchMarker) : Option Fault :=
  match place marker.start, place marker.stop, place marker.handler with
  | some start, some stop, some handler =>
      rangeFault? (stop ≤ start) (.badLabelRange marker.start marker.stop) length handler
  | _, _, _ => deadFault? dead place marker.labels

/-- The fault of a local variable in code of a given length: its range ends before it starts, or does not
start inside the code. -/
def LocalMarker.fault? (dead : DeadLabels) (place : Label → Option Nat) (length : Nat)
    (marker : LocalMarker) : Option Fault :=
  match place marker.start, place marker.stop with
  | some start, some stop =>
      rangeFault? (stop < start) (.badLabelRange marker.start marker.stop) length start
  | _, _ => deadFault? dead place marker.labels

section

variable (dead : DeadLabels) (place : Label → Option Nat) (length : Nat)

/-- A handler can become a row of code of a given length, or be left out. -/
def CatchMarker.Acceptable (marker : CatchMarker) : Prop :=
  (dead = .fail → ∀ label ∈ marker.labels, ∃ position, place label = some position) ∧
  ∀ start stop handler, place marker.start = some start → place marker.stop = some stop →
    place marker.handler = some handler → start < stop ∧ handler < length

/-- A local variable can become a row of code of a given length, or be left out. -/
def LocalMarker.Acceptable (marker : LocalMarker) : Prop :=
  (dead = .fail → ∀ label ∈ marker.labels, ∃ position, place label = some position) ∧
  ∀ start stop, place marker.start = some start → place marker.stop = some stop →
    start ≤ stop ∧ start < length

end

section

variable {dead : DeadLabels} {place : Label → Option Nat} {length : Nat}

/-- An operand has no fault exactly when its label has a place in reach. -/
theorem Patch.fault?_eq_none_iff {operand : Patch} : operand.fault? place = none ↔
    ∃ position : Nat, place operand.target = some position ∧
      reaches operand.far ((position : Int) - operand.bci) = true := by
  unfold Patch.fault?
  split
  · simp_all
  · rw [← Option.isNone_iff_eq_none, ← Option.not_isSome, isSome_offsetFault?, Bool.not_not]
    simp_all

/-- Code has no fault for its length exactly when it is neither empty nor too long. -/
theorem lengthFault?_eq_none_iff : lengthFault? length = none ↔ 1 ≤ length ∧ length ≤ 65535 := by
  unfold lengthFault? maxCodeLength
  split
  · simp_all
  · split
    · simp only [reduceCtorEq, false_iff]
      omega
    · simp only [true_iff]
      omega

/-- A handler has no fault exactly when it can become a row or be left out. -/
theorem CatchMarker.fault?_eq_none_iff {marker : CatchMarker} :
    marker.fault? dead place length = none ↔ marker.Acceptable dead place length := by
  unfold CatchMarker.fault? CatchMarker.Acceptable
  split
  · rename_i starts stops handles
    simp [labels, starts, stops, handles, rangeFault?_eq_none_iff]
  · rename_i unplaced
    rw [deadFault?_eq_none_iff, and_iff_left]
    intro start stop handler starts stops handles
    exact absurd handles (unplaced start stop handler starts stops)

/-- A local variable has no fault exactly when it can become a row or be left out. -/
theorem LocalMarker.fault?_eq_none_iff {marker : LocalMarker} :
    marker.fault? dead place length = none ↔ marker.Acceptable dead place length := by
  unfold LocalMarker.fault? LocalMarker.Acceptable
  split
  · rename_i starts stops
    simp [labels, starts, stops, rangeFault?_eq_none_iff]
  · rename_i unplaced
    rw [deadFault?_eq_none_iff, and_iff_left]
    intro start stop starts stops
    exact absurd stops (unplaced start stop starts)

end

namespace Assembler

variable {session : Assembler}

/-- An operand is filled in unless it has a fault. -/
theorem fault?_applyPatch (place : Label → Option Nat) (code : Array UInt8) (operand : Patch) :
    Outcome.fault? (applyPatch place code operand) = operand.fault? place := by
  rw [applyPatch, Patch.fault?]
  cases place operand.target with
  | none => rfl
  | some position =>
      refine (@Outcome.fault?_bind _ _ _ _ _ none fun _ _ => rfl).trans ?_
      rw [fault?_branchOffset, Option.or_none]

/-- Code is patched unless an operand has a fault; the first one decides. -/
theorem fault?_patchedCode (session : Assembler) :
    Outcome.fault? session.patchedCode =
      session.patches.toList.findSome? (Patch.fault? session.place) := by
  rw [patchedCode, ← Array.foldlM_toList]
  exact Outcome.fault?_foldlM (fault?_applyPatch session.place) _ _

/-- Code is refused for its length exactly with the fault of its length. -/
theorem fault?_checkLength (length : Nat) : Outcome.fault? (checkLength length) = lengthFault? length := by
  unfold checkLength lengthFault?
  split
  · rfl
  · split <;> rfl

/-- A range goes on from the position of its label, or has the fault of a label without a place. -/
theorem fault?_bind_rangePosition {α : Type} (label : Label) {next : Option UInt16 → Except Fault (Option α)}
    (leftOut : next none = .ok none) :
    Outcome.fault? (session.rangePosition label >>= next) =
      match session.place label with
      | some position => Outcome.fault? (next (some (UInt16.ofNat position)))
      | none => deadFault? session.options.deadLabels session.place [label] := by
  unfold rangePosition
  cases placed : session.place label with
  | some position => rfl
  | none =>
      cases session.options.deadLabels with
      | fail => simp [deadFault?, placed, bind, Except.bind, Outcome.fault?]
      | drop =>
          change Outcome.fault? (next none) = _
          rw [leftOut]
          rfl

/-- A row is made unless its range is refused or the position is not inside the code. -/
theorem fault?_checked {α : Type} {bad : Prop} [Decidable bad] {fault : Fault} {length : Nat} {pc : UInt16}
    {made : α} :
    Outcome.fault? (do
      if bad then throw fault
      checkInside length pc
      return some made : Except Fault (Option α)) = rangeFault? bad fault length pc.toNat := by
  unfold rangeFault?
  by_cases refused : bad
  · simp only [refused, if_true]
    rfl
  · simp only [refused, if_false, checkInside]
    split <;> rfl

/-- A handler is refused exactly with its fault. -/
theorem fault?_exceptionRow? (narrow : session.Narrow) (length : Nat) (marker : CatchMarker) :
    Outcome.fault? (session.exceptionRow? length (pendingCatch marker)) =
      marker.fault? session.options.deadLabels session.place length := by
  rw [CatchMarker.fault?]
  refine (fault?_bind_rangePosition marker.start (by rfl)).trans ?_
  cases starts : session.place marker.start with
  | none => exact (deadFault?_cons_of_unplaced starts _).symm
  | some start =>
      refine (fault?_bind_rangePosition marker.stop (by rfl)).trans ?_
      rw [CatchMarker.labels, deadFault?_cons_of_placed starts]
      cases stops : session.place marker.stop with
      | none => exact (deadFault?_cons_of_unplaced stops _).symm
      | some stop =>
          refine (fault?_bind_rangePosition marker.handler (by rfl)).trans ?_
          rw [deadFault?_cons_of_placed stops]
          cases handles : session.place marker.handler with
          | none => rfl
          | some handler =>
              refine fault?_checked.trans ?_
              rw [narrow.toNat_position handles]
              exact rangeFault?_congr (narrow.ofNat_le_iff stops starts) ..

/-- A local variable is refused exactly with its fault. -/
theorem fault?_localRow? (narrow : session.Narrow) (length : Nat) {resolver : Resolver}
    {marker : LocalMarker} {pending : PendingLocal} (records : Records resolver marker pending) :
    Outcome.fault? (session.localRow? length pending) =
      marker.fault? session.options.deadLabels session.place length := by
  rw [LocalMarker.fault?, LocalMarker.labels, ← records.start, ← records.stop]
  refine (fault?_bind_rangePosition pending.start (by rfl)).trans ?_
  cases starts : session.place pending.start with
  | none => exact (deadFault?_cons_of_unplaced starts _).symm
  | some start =>
      refine (fault?_bind_rangePosition pending.stop (by rfl)).trans ?_
      rw [deadFault?_cons_of_placed starts]
      cases stops : session.place pending.stop with
      | none => rfl
      | some stop =>
          refine fault?_checked.trans ?_
          rw [narrow.toNat_position starts]
          exact rangeFault?_congr (narrow.ofNat_lt_iff stops starts) ..

/-- A table of local variables is refused exactly with the fault of the first variable that has one. -/
theorem fault?_localRows (narrow : session.Narrow) (length : Nat) {resolver : Resolver}
    {markers : List LocalMarker} {pendings : Array PendingLocal}
    (recorded : List.Forall₂ (Records resolver) markers pendings.toList) :
    Outcome.fault? (pendings.filterMapM (session.localRow? length)) =
      markers.findSome? (LocalMarker.fault? session.options.deadLabels session.place length) := by
  rw [Outcome.fault?_arrayFilterMapM]
  generalize pendings.toList = records at recorded ⊢
  induction recorded with
  | nil => rfl
  | cons first _ ih => rw [List.findSome?_cons, List.findSome?_cons, fault?_localRow? narrow length first, ih]

end Assembler

/-! ## The first fault -/

/-- The local variables that are kept at all. -/
def Options.kept (options : Options) (markers : List LocalMarker) : List LocalMarker :=
  if options.debugElements = .pass then markers else []

namespace Element

variable {options : Options} {taken : List Element}

/-- The fault with which a session that took elements is refused: that of the first operand that waited,
or else of the length of the code, or else of the first handler, local variable or local variable with
signature. -/
def firstFault? (options : Options) (taken : List Element) : Option Fault :=
  let place := places taken
  let length := Instruction.endOf 0 (instructions taken)
  ((waiting taken).findSome? (Patch.fault? place)).or <|
  (lengthFault? length).or <|
  ((catches taken).findSome? (CatchMarker.fault? options.deadLabels place length)).or <|
  ((options.kept (locals taken)).findSome? (LocalMarker.fault? options.deadLabels place length)).or <|
  (options.kept (localTypes taken)).findSome? (LocalMarker.fault? options.deadLabels place length)

/-- A session that took elements can be finished. -/
structure Acceptable (options : Options) (taken : List Element) : Prop where
  /-- Every operand whose label had no place when it was emitted has a label that was placed in reach. -/
  operands : ∀ operand ∈ waiting taken, ∃ position : Nat, places taken operand.target = some position ∧
    reaches operand.far ((position : Int) - operand.bci) = true
  /-- The code is neither empty nor too long. -/
  length : 1 ≤ Instruction.endOf 0 (instructions taken) ∧ Instruction.endOf 0 (instructions taken) ≤ 65535
  /-- Every exception handler can become a row or be left out. -/
  catches : ∀ marker ∈ catches taken,
    marker.Acceptable options.deadLabels (places taken) (Instruction.endOf 0 (instructions taken))
  /-- Every local variable that is kept can become a row or be left out. -/
  locals : ∀ marker ∈ options.kept (locals taken),
    marker.Acceptable options.deadLabels (places taken) (Instruction.endOf 0 (instructions taken))
  /-- Every local variable with signature that is kept can become a row or be left out. -/
  localTypes : ∀ marker ∈ options.kept (localTypes taken),
    marker.Acceptable options.deadLabels (places taken) (Instruction.endOf 0 (instructions taken))

/-- There is no fault exactly when the session can be finished. -/
theorem firstFault?_eq_none_iff : firstFault? options taken = none ↔ Acceptable options taken := by
  simp only [firstFault?, Option.or_eq_none_iff, List.findSome?_eq_none_iff, Patch.fault?_eq_none_iff,
    lengthFault?_eq_none_iff, CatchMarker.fault?_eq_none_iff, LocalMarker.fault?_eq_none_iff]
  constructor
  · rintro ⟨operands, length, catches, locals, localTypes⟩
    exact ⟨operands, length, catches, locals, localTypes⟩
  · rintro ⟨operands, length, catches, locals, localTypes⟩
    exact ⟨operands, length, catches, locals, localTypes⟩

end Element

namespace Assembler

variable {pool : Pool} {options : Options} {taken : List Element} {session : Assembler}

/-- A session is finished unless there is a fault, and the first fault is reported. -/
theorem Session.fault?_finish (reachable : pool.Reachable) (run : Session pool options taken session)
    (fits : ∀ i ∈ Element.instructions taken, i.Fits) :
    Outcome.fault? session.finish = Element.firstFault? options taken := by
  have code := run.codeTracks fits
  have tables := run.tableTracks reachable.sound fits
  rw [Element.firstFault?, ← code.place_eq, ← code.size_eq, ← run.patches_eq fits, ← tables.options_eq]
  -- The checks are made in the order of the faults. Patching does not change the length.
  refine Outcome.fault?_bind_of (fault?_patchedCode session) fun patched resolved => ?_
  have size : patched.size = session.code.size := by
    rw [patchedCode, ← Array.foldlM_toList] at resolved
    exact Resolves.size_eq resolved
  dsimp only
  rw [size]
  refine Outcome.fault?_bind_of (fault?_checkLength _) fun _ sized => ?_
  have narrow := code.narrow (checkLength_eq_ok_iff.mp sized).2
  refine Outcome.fault?_bind_of ?_ fun _ _ => Outcome.fault?_bind_of ?_ fun _ _ => ?_
  · rw [Outcome.fault?_arrayFilterMapM, tables.catches_eq, List.findSome?_map]
    simp only [Function.comp_def, fault?_exceptionRow? narrow]
  · exact fault?_localRows narrow _ (tables.options_eq ▸ tables.locals)
  · refine (@Outcome.fault?_bind_of _ _ _ _ _ _ none ?_ fun _ _ => rfl).trans Option.or_none
    exact fault?_localRows narrow _ (tables.options_eq ▸ tables.localTypes)

/-- What `finish` accepts. For `Produced` instructions, `session.finish` succeeds exactly when
`Element.Acceptable options taken`: every operand that is `waiting` has a label placed in reach, the code has
between 1 and 65535 bytes, and every handler and local variable that is kept can become a row or be left out. It
fails with `fault` exactly when `Element.firstFault? options taken = some fault`, the fault of the first of these
checks that fails, in this order. -/
theorem Session.finish_accepts (reachable : pool.Reachable) (run : Session pool options taken session)
    (produced : ∀ i ∈ Element.instructions taken, i.Produced) :
    ((∃ built, session.finish = .ok built) ↔ Element.Acceptable options taken) ∧
    ∀ fault, session.finish = .error fault ↔ Element.firstFault? options taken = some fault := by
  have first := run.fault?_finish reachable fun i mem => (produced i mem).fits
  refine ⟨?_, fun fault => ?_⟩
  · rw [← Outcome.fault?_eq_none_iff, first, Element.firstFault?_eq_none_iff]
  · rw [← Outcome.fault?_eq_some_iff, first]

/-- A jump whose label is placed after it can be finished, and a session that took nothing cannot. -/
theorem finish_accepts_jumpAndReturn :
    Element.Acceptable {} jumpAndReturn ∧
      (start Pool.empty {}).finish = .error (.malformed 0 .emptyCode) := by
  constructor
  · exact (Session.finish_accepts .empty session_jumpAndReturn fun i mem =>
      .constructed (constructed_jumpAndReturn i mem)).1.mp ⟨_, finish_jumped (by decide) rfl⟩
  · exact ((Session.finish_accepts .empty (.start) (fun _ mem => nomatch mem)).2 _).mpr rfl

end Assembler

end JvmCode
