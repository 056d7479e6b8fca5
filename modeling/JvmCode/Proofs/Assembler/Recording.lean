import JvmCode.Proofs.Assembler.Session
import JvmCode.Proofs.Pool.Resolving

/-! # What a session records

The tables in waiting and the pool of a session, in terms of the elements that it took.

* **`Assembler.Records`** relates a local variable to what is recorded of it.
* **`Assembler.TableTracks`** is what tables and pool are; `Session.tableTracks` proves it by one step
  at a time. -/

namespace JvmCode.Assembler

variable {session after : Assembler} {element : Element} {pool : Pool} {options : Options}
  {taken : List Element}

/-- What is recorded of a local variable is its marker, with texts that the pool has. -/
structure Records (resolver : Resolver) (marker : LocalMarker) (pending : PendingLocal) : Prop where
  /-- The name is at its index. -/
  name : resolver.text pending.nameIndex = .ok marker.name
  /-- The descriptor or signature is at its index. -/
  type : resolver.text pending.typeIndex = .ok marker.type
  /-- The local variable is that of the marker. -/
  slot : pending.slot = marker.slot
  /-- The range starts with the marker. -/
  start : pending.start = marker.start
  /-- The range ends with the marker. -/
  stop : pending.stop = marker.stop

/-- What is recorded stays so while the pool grows. -/
theorem Records.mono {smaller larger : Resolver} {marker : LocalMarker} {pending : PendingLocal}
    (h : Records smaller marker pending) (grown : larger.Extends smaller) :
    Records larger marker pending :=
  ⟨grown.text h.name, grown.text h.type, h.slot, h.start, h.stop⟩

/-- A local variable whose texts were entered is recorded. -/
theorem Records.of_pendingLocal {before after : Pool} {marker : LocalMarker} {pending : PendingLocal}
    (sound : before.Sound) (h : pendingLocal marker before = .ok pending after) :
    Records after.resolver marker pending := by
  obtain ⟨nameIndex, middle, named, h⟩ := Interning.bind_eq_ok_iff.mp h
  obtain ⟨typeIndex, last, typed, h⟩ := Interning.bind_eq_ok_iff.mp h
  obtain ⟨rfl, rfl⟩ := Interning.pure_eq_ok_iff.mp h
  have grown := (Interning.Grows.intern _).of_ok named
  have grown' := (Interning.Grows.intern _).of_ok typed
  exact ⟨grown'.extends.text (sound.text_of_internText named),
    (grown.sound sound).text_of_internText typed, rfl, rfl, rfl⟩

/-- What the tables and the pool of a session are, in terms of the elements that it took. -/
structure TableTracks (pool : Pool) (options : Options) (taken : List Element) (session : Assembler) :
    Prop where
  /-- The options stay. -/
  options_eq : session.options = options
  /-- The pool has only grown. -/
  grows : pool.Grows session.pool
  /-- The line numbers are recorded with their positions. -/
  lines_eq : session.lines.toList = if options.lineNumbers = .pass then Element.lineMarks taken else []
  /-- The exception handlers are recorded. -/
  catches_eq : session.catches.toList = (Element.catches taken).map pendingCatch
  /-- The local variables are recorded. -/
  locals : List.Forall₂ (Records session.pool.resolver)
    (if options.debugElements = .pass then Element.locals taken else []) session.locals.toList
  /-- The local variables with signatures are recorded. -/
  localTypes : List.Forall₂ (Records session.pool.resolver)
    (if options.debugElements = .pass then Element.localTypes taken else []) session.localTypes.toList

namespace TableTracks

/-- While the pool grows, the tables stay. -/
theorem grown (tracks : TableTracks pool options taken session) {larger : Pool}
    (h : session.pool.Grows larger) :
    TableTracks pool options taken { session with pool := larger } where
  options_eq := tracks.options_eq
  grows := tracks.grows.trans h
  lines_eq := tracks.lines_eq
  catches_eq := tracks.catches_eq
  locals := tracks.locals.imp fun _ _ records => records.mono h.extends
  localTypes := tracks.localTypes.imp fun _ _ records => records.mono h.extends

/-- What a step adds to the tables is behind what they had. -/
theorem extended (tracks : TableTracks pool options taken session) {more : List Element}
    (options_eq : after.options = session.options) (grown : session.pool.Grows after.pool)
    (size_eq : session.code.size = Instruction.endOf 0 (Element.instructions taken))
    (lines : after.lines.toList = session.lines.toList ++
      if options.lineNumbers = .pass then Element.lineMarksFrom session.code.size more else [])
    (catches : after.catches.toList =
      session.catches.toList ++ (Element.catches more).map pendingCatch)
    {addedLocals addedTypes : List PendingLocal}
    (locals : after.locals.toList = session.locals.toList ++ addedLocals)
    (recordsLocals : List.Forall₂ (Records after.pool.resolver)
      (if options.debugElements = .pass then Element.locals more else []) addedLocals)
    (localTypes : after.localTypes.toList = session.localTypes.toList ++ addedTypes)
    (recordsTypes : List.Forall₂ (Records after.pool.resolver)
      (if options.debugElements = .pass then Element.localTypes more else []) addedTypes) :
    TableTracks pool options (taken ++ more) after := by
  -- Old rows are read in the larger pool, then the new ones are put behind them.
  have old := tracks.grown grown
  constructor
  · rw [options_eq, tracks.options_eq]
  · exact old.grows
  · rw [lines, tracks.lines_eq, size_eq, Element.lineMarks, Element.lineMarksFrom_append]
    split <;> simp
  · rw [catches, tracks.catches_eq, Element.catches_append, List.map_append]
  · rw [locals, Element.locals_append]
    have both := List.rel_append old.locals recordsLocals
    by_cases passes : options.debugElements = .pass <;> simpa [passes] using both
  · rw [localTypes, Element.localTypes_append]
    have both := List.rel_append old.localTypes recordsTypes
    by_cases passes : options.debugElements = .pass <;> simpa [passes] using both

/-- The same for a step that leaves the pool and the local variables alone. -/
theorem extended_beside (tracks : TableTracks pool options taken session) {more : List Element}
    (options_eq : after.options = session.options) (pool_eq : after.pool = session.pool)
    (size_eq : session.code.size = Instruction.endOf 0 (Element.instructions taken))
    (lines : after.lines.toList = session.lines.toList ++
      if options.lineNumbers = .pass then Element.lineMarksFrom session.code.size more else [])
    (catches : after.catches.toList =
      session.catches.toList ++ (Element.catches more).map pendingCatch)
    (locals_eq : after.locals = session.locals) (localTypes_eq : after.localTypes = session.localTypes)
    (noLocals : (if options.debugElements = .pass then Element.locals more else []) = [])
    (noTypes : (if options.debugElements = .pass then Element.localTypes more else []) = []) :
    TableTracks pool options (taken ++ more) after := by
  refine @extended _ _ _ _ _ tracks _ options_eq (pool_eq ▸ .refl) size_eq lines catches [] [] ?_ ?_ ?_ ?_
  · rw [locals_eq, List.append_nil]
  · rw [noLocals]
    exact .nil
  · rw [localTypes_eq, List.append_nil]
  · rw [noTypes]
    exact .nil

/-- Taking an element keeps what the tables are. -/
theorem took (tracks : TableTracks pool options taken session) (sound : pool.Sound)
    (size_eq : session.code.size = Instruction.endOf 0 (Element.instructions taken))
    (took : Taken session element after) : TableTracks pool options (taken ++ [element]) after := by
  have current := tracks.options_eq
  cases took with
  | instruction emitted =>
      exact tracks.extended_beside rfl rfl size_eq (by simp [Element.lineMarksFrom])
        (by simp [Element.catches, Element.catch?]) rfl rfl (ite_self _) (ite_self _)
  | label fresh =>
      exact tracks.extended_beside rfl rfl size_eq (by simp [Element.lineMarksFrom])
        (by simp [Element.catches, Element.catch?]) rfl rfl (ite_self _) (ite_self _)
  | line number passes =>
      rw [current] at passes
      exact tracks.extended_beside rfl rfl size_eq (by simp [Element.lineMarksFrom, passes])
        (by simp [Element.catches, Element.catch?]) rfl rfl (ite_self _) (ite_self _)
  | localVariable passes entered =>
      rename_i marker pending larger
      rw [current] at passes
      have grown := (grows_pendingLocal marker).of_ok entered
      refine tracks.extended rfl grown size_eq (by simp [Element.lineMarksFrom])
        (by simp [Element.catches, Element.catch?]) Array.toList_push ?_ (List.append_nil _).symm ?_
      · rw [if_pos passes]
        exact .cons (.of_pendingLocal (tracks.grows.sound sound) entered) .nil
      · rw [if_pos passes]
        exact .nil
  | localVariableType passes entered =>
      rename_i marker pending larger
      rw [current] at passes
      have grown := (grows_pendingLocal marker).of_ok entered
      refine tracks.extended rfl grown size_eq (by simp [Element.lineMarksFrom])
        (by simp [Element.catches, Element.catch?]) (List.append_nil _).symm ?_ Array.toList_push ?_
      · rw [if_pos passes]
        exact .nil
      · rw [if_pos passes]
        exact .cons (.of_pendingLocal (tracks.grows.sound sound) entered) .nil
  | exceptionCatch marker =>
      exact tracks.extended_beside rfl rfl size_eq (by simp [Element.lineMarksFrom])
        (by simp [Element.catches, Element.catch?]) rfl rfl (ite_self _) (ite_self _)
  | droppedLine number drops =>
      rw [current] at drops
      exact tracks.extended_beside rfl rfl size_eq (by simp [drops])
        (by simp [Element.catches, Element.catch?]) rfl rfl (ite_self _) (ite_self _)
  | droppedLocal marker drops =>
      rw [current] at drops
      exact tracks.extended_beside rfl rfl size_eq (by simp [Element.lineMarksFrom])
        (by simp [Element.catches, Element.catch?]) rfl rfl (if_neg drops) (ite_self _)
  | droppedLocalType marker drops =>
      rw [current] at drops
      exact tracks.extended_beside rfl rfl size_eq (by simp [Element.lineMarksFrom])
        (by simp [Element.catches, Element.catch?]) rfl rfl (ite_self _) (if_neg drops)

/-- A step keeps what the tables are. -/
theorem step (tracks : TableTracks pool options taken session) (sound : pool.Sound)
    (size_eq : session.code.size = Instruction.endOf 0 (Element.instructions taken))
    {more : List Element} (step : Step session more after) :
    TableTracks pool options (taken ++ more) after := by
  cases step with
  | took h => exact tracks.took sound size_eq (taken_of_add h)
  | refused h =>
      obtain ⟨larger, grown, rfl⟩ := grows_of_add_error h
      rw [List.append_nil]
      exact tracks.grown grown
  | minted h =>
      cases h
      rw [List.append_nil]
      exact ⟨tracks.options_eq, tracks.grows, tracks.lines_eq, tracks.catches_eq, tracks.locals,
        tracks.localTypes⟩
  | grown h =>
      rw [List.append_nil]
      exact tracks.grown h

/-- A session that took nothing has empty tables. -/
theorem start (pool : Pool) (options : Options) : TableTracks pool options [] (start pool options) where
  options_eq := rfl
  grows := .refl
  lines_eq := by rw [Element.lineMarks, Element.lineMarksFrom, ite_self]; rfl
  catches_eq := rfl
  locals := by rw [Element.locals, List.filterMap_nil, ite_self]; exact .nil
  localTypes := by rw [Element.localTypes, List.filterMap_nil, ite_self]; exact .nil

end TableTracks

/-- The tables of a session are those of the elements it took. -/
theorem Session.tableTracks (h : Session pool options taken session) (sound : pool.Sound)
    (fits : ∀ i ∈ Element.instructions taken, i.Fits) : TableTracks pool options taken session := by
  induction h with
  | start => exact TableTracks.start pool options
  | step before step ih =>
      rw [Element.instructions_append] at fits
      have earlier := fun i mem => fits i (List.mem_append_left _ mem)
      exact (ih earlier).step sound (before.codeTracks earlier).size_eq step

end JvmCode.Assembler
