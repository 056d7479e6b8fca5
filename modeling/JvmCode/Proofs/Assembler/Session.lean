import JvmCode.Proofs.Assembler.Patching
import JvmCode.Proofs.Elements
import JvmCode.Proofs.Pool.Growth

/-! # Sessions

What the state of an assembler session is, in terms of the elements that it took. Elements that were
refused, labels that were handed out and additions to the pool may come in between.

* **`Assembler.Taken`** is what taking an element does; `add_cases`: an element is taken, or refused.
* **`Assembler.Step`** is one step of a session and **`Assembler.Session`** any number of them.
* **`Assembler.CodeTracks`** is what code and patches are: resolved with any final places, they are
  what a two-pass assembler makes of the instructions that were taken.
* `Session.codeTracks` proves it by one step at a time. -/

namespace JvmCode.Assembler

/-! ## One element -/

/-- Recording a local variable in either table: its texts are added to the pool first. -/
theorem recordLocal_eq (marker : LocalMarker) (keep : PendingLocal → Assembler → Assembler)
    (session : Assembler) :
    (do
      if (← get).options.passesDebug then
        let pending ← interning (pendingLocal marker)
        modify (keep pending) : Assembling Unit) session =
      if session.options.debugElements = .pass then
        match pendingLocal marker session.pool with
        | .ok pending pool => .ok () (keep pending { session with pool })
        | .error cause pool => .error (.pool cause) { session with pool }
      else .ok () session := by
  change (if session.options.passesDebug = true then _ else _ : Assembling Unit) session = _
  simp only [Options.passesDebug_iff]
  by_cases passes : session.options.debugElements = .pass
  · rw [if_pos passes, if_pos passes]
    change EStateM.bind (interning (pendingLocal marker)) _ session = _
    unfold EStateM.bind interning
    dsimp only
    cases pendingLocal marker session.pool <;> rfl
  · rw [if_neg passes, if_neg passes]
    rfl

/-- Entering the texts of a local variable only adds entries. -/
theorem grows_pendingLocal (marker : LocalMarker) : Interning.Grows (pendingLocal marker) :=
  (Interning.Grows.intern _).bind fun _ => (Interning.Grows.intern _).bind fun _ =>
    Interning.Grows.pure _

/-- The row in waiting that an exception handler becomes. -/
def pendingCatch (marker : CatchMarker) : PendingCatch :=
  ⟨marker.start, marker.stop, marker.handler, (marker.caught.map ClassRef.index).getD 0⟩

/-- What a session is after it took an element. -/
inductive Taken (session : Assembler) : Element → Assembler → Prop where
  /-- The bytes of an instruction, with its patches. -/
  | instruction {i : Instruction} {emission : Emission}
      (emitted : i.emit session.place session.code.size = .ok emission) :
      Taken session (.instruction i) { session with
        code := session.code ++ emission.bytes
        patches := session.patches ++ emission.patches }
  /-- The place of a label that had none. -/
  | label {label : Label} (fresh : session.place label = none) :
      Taken session (.label label) { session with
        placed := session.placed.insert label session.code.size }
  /-- A line number. -/
  | line (number : UInt16) (passes : session.options.lineNumbers = .pass) :
      Taken session (.line number) { session with
        lines := session.lines.push (session.code.size, number) }
  /-- A local variable with its descriptor. -/
  | localVariable {marker : LocalMarker} {pending : PendingLocal} {pool : Pool}
      (passes : session.options.debugElements = .pass)
      (entered : pendingLocal marker session.pool = .ok pending pool) :
      Taken session (.localVariable marker) { session with
        pool := pool
        locals := session.locals.push pending }
  /-- A local variable with its signature. -/
  | localVariableType {marker : LocalMarker} {pending : PendingLocal} {pool : Pool}
      (passes : session.options.debugElements = .pass)
      (entered : pendingLocal marker session.pool = .ok pending pool) :
      Taken session (.localVariableType marker) { session with
        pool := pool
        localTypes := session.localTypes.push pending }
  /-- An exception handler. -/
  | exceptionCatch (marker : CatchMarker) :
      Taken session (.exceptionCatch marker) { session with
        catches := session.catches.push (pendingCatch marker) }
  /-- A line number that is not passed on. -/
  | droppedLine (number : UInt16) (drops : session.options.lineNumbers ≠ .pass) :
      Taken session (.line number) session
  /-- A local variable that is not passed on. -/
  | droppedLocal (marker : LocalMarker) (drops : session.options.debugElements ≠ .pass) :
      Taken session (.localVariable marker) session
  /-- A local variable with signature that is not passed on. -/
  | droppedLocalType (marker : LocalMarker) (drops : session.options.debugElements ≠ .pass) :
      Taken session (.localVariableType marker) session

variable {session after : Assembler} {element : Element}

/-- A local variable is recorded, refused, or not passed on. -/
theorem recordLocal_cases (marker : LocalMarker) (keep : PendingLocal → Assembler → Assembler)
    (session : Assembler) {outcome : EStateM.Result Fault Assembler Unit}
    (h : (do
      if (← get).options.passesDebug then
        let pending ← interning (pendingLocal marker)
        modify (keep pending) : Assembling Unit) session = outcome) :
    (session.options.debugElements = .pass ∧ ∃ pending pool,
      pendingLocal marker session.pool = .ok pending pool ∧
        outcome = .ok () (keep pending { session with pool })) ∨
    (session.options.debugElements = .pass ∧ ∃ cause pool, session.pool.Grows pool ∧
      outcome = .error (.pool cause) { session with pool }) ∨
    (session.options.debugElements ≠ .pass ∧ outcome = .ok () session) := by
  rw [recordLocal_eq] at h
  by_cases passes : session.options.debugElements = .pass
  · rw [if_pos passes] at h
    -- Whether both texts are entered or not, the pool has only grown.
    cases entered : pendingLocal marker session.pool with
    | ok pending pool =>
        rw [entered] at h
        exact .inl ⟨passes, pending, pool, rfl, h.symm⟩
    | error cause pool =>
        have grown := grows_pendingLocal marker session.pool
        rw [Interning.after, entered] at grown
        rw [entered] at h
        exact .inr (.inl ⟨passes, cause, pool, grown, h.symm⟩)
  · rw [if_neg passes] at h
    exact .inr (.inr ⟨passes, h.symm⟩)

/-- An instruction that can be emitted is appended. -/
theorem addInstruction_of_emit {i : Instruction} {emission : Emission}
    (emitted : i.emit session.place session.code.size = .ok emission) :
    addInstruction i session = .ok () { session with
      code := session.code ++ emission.bytes
      patches := session.patches ++ emission.patches } := by
  unfold addInstruction
  simp only [position, emitted]

/-- An instruction that cannot be emitted is refused. -/
theorem addInstruction_of_emit_error {i : Instruction} {fault : Fault}
    (refused : i.emit session.place session.code.size = .error fault) :
    addInstruction i session = .error fault session := by
  unfold addInstruction
  simp only [position, refused]

/-- A line number is recorded if line numbers are passed on. -/
theorem addLine_eq (number : UInt16) (session : Assembler) :
    addLine number session = .ok () (if session.options.lineNumbers = .pass then
      { session with lines := session.lines.push (session.code.size, number) } else session) := by
  change EStateM.Result.ok () (if session.options.passesLines = true then _ else session) = _
  simp only [Options.passesLines_iff]

/-- Whatever an element is, it is taken, or it is refused and only the pool may have grown. -/
theorem add_cases {outcome : EStateM.Result Fault Assembler Unit}
    (h : add element session = outcome) :
    (∃ after, Taken session element after ∧ outcome = .ok () after) ∨
      ∃ fault pool, session.pool.Grows pool ∧ outcome = .error fault { session with pool } := by
  cases element with
  | instruction i =>
      rw [add] at h
      cases emitted : i.emit session.place session.code.size with
      | ok emission =>
          rw [addInstruction_of_emit emitted] at h
          exact .inl ⟨_, .instruction emitted, h.symm⟩
      | error fault =>
          rw [addInstruction_of_emit_error emitted] at h
          exact .inr ⟨fault, session.pool, .refl, h.symm⟩
  | label label =>
      rw [add, addLabel] at h
      by_cases placed : session.placed.contains label = true
      · rw [if_pos placed] at h
        exact .inr ⟨_, session.pool, .refl, h.symm⟩
      · rw [if_neg placed] at h
        rw [Std.HashMap.contains_eq_isSome_getElem?, Option.isSome_iff_ne_none, not_not] at placed
        exact .inl ⟨_, .label placed, h.symm⟩
  | line number =>
      rw [add, addLine_eq] at h
      by_cases passes : session.options.lineNumbers = .pass
      · rw [if_pos passes] at h
        exact .inl ⟨_, .line number passes, h.symm⟩
      · rw [if_neg passes] at h
        exact .inl ⟨_, .droppedLine number passes, h.symm⟩
  | localVariable marker =>
      obtain ⟨passes, pending, pool, entered, same⟩ | ⟨-, cause, pool, grown, same⟩ | ⟨drops, same⟩ :=
        recordLocal_cases marker (fun pending session =>
          { session with locals := session.locals.push pending }) session h
      · exact .inl ⟨_, .localVariable passes entered, same⟩
      · exact .inr ⟨_, pool, grown, same⟩
      · exact .inl ⟨_, .droppedLocal marker drops, same⟩
  | localVariableType marker =>
      obtain ⟨passes, pending, pool, entered, same⟩ | ⟨-, cause, pool, grown, same⟩ | ⟨drops, same⟩ :=
        recordLocal_cases marker (fun pending session =>
          { session with localTypes := session.localTypes.push pending }) session h
      · exact .inl ⟨_, .localVariableType passes entered, same⟩
      · exact .inr ⟨_, pool, grown, same⟩
      · exact .inl ⟨_, .droppedLocalType marker drops, same⟩
  | exceptionCatch marker => exact .inl ⟨_, .exceptionCatch marker, h.symm⟩

/-- An element that can be taken is added. -/
theorem add_of_taken (h : Taken session element after) : add element session = .ok () after := by
  cases h with
  | instruction emitted => rw [add, addInstruction_of_emit emitted]
  | label fresh =>
      rw [add, addLabel, if_neg]
      rw [Std.HashMap.contains_eq_isSome_getElem?, Option.isSome_iff_ne_none, not_not]
      exact fresh
  | line number passes => rw [add, addLine_eq, if_pos passes]
  | localVariable passes entered =>
      rw [add, addLocal, recordLocal_eq, if_pos passes, entered]
  | localVariableType passes entered =>
      rw [add, addLocalType, recordLocal_eq, if_pos passes, entered]
  | exceptionCatch marker => rfl
  | droppedLine number drops => rw [add, addLine_eq, if_neg drops]
  | droppedLocal marker drops => rw [add, addLocal, recordLocal_eq, if_neg drops]
  | droppedLocalType marker drops => rw [add, addLocalType, recordLocal_eq, if_neg drops]

/-- An element that was added was taken. -/
theorem taken_of_add (h : add element session = .ok () after) : Taken session element after := by
  obtain ⟨after, taken, same⟩ | ⟨fault, pool, -, same⟩ := add_cases h
  · cases same
    exact taken
  · cases same

/-- A refused element leaves the session as it was, except that the pool may have grown. -/
theorem grows_of_add_error {fault : Fault} (h : add element session = .error fault after) :
    ∃ pool, session.pool.Grows pool ∧ after = { session with pool } := by
  obtain ⟨after, taken, same⟩ | ⟨fault, pool, grown, same⟩ := add_cases h
  · cases same
  · cases same
    exact ⟨pool, grown, rfl⟩

/-! ## Steps and sessions -/

/-- One step of a session, with the elements that it took. -/
inductive Step (session : Assembler) : List Element → Assembler → Prop where
  /-- An element was added. -/
  | took {element : Element} {after : Assembler} (h : add element session = .ok () after) :
      Step session [element] after
  /-- An element was refused. -/
  | refused {element : Element} {fault : Fault} {after : Assembler}
      (h : add element session = .error fault after) : Step session [] after
  /-- A label was handed out. -/
  | minted {label : Label} {after : Assembler} (h : freshLabel session = .ok label after) :
      Step session [] after
  /-- Entries were added to the pool. A session only adds to its pool: to put another pool in its place is no
  step. -/
  | grown {pool : Pool} (h : session.pool.Grows pool) : Step session [] { session with pool }

/-- A session over a pool, with the elements that it took, in order. -/
inductive Session (pool : Pool) (options : Options) : List Element → Assembler → Prop where
  /-- Nothing was taken yet. -/
  | start : Session pool options [] (start pool options)
  /-- One more step was made. -/
  | step {taken more : List Element} {session after : Assembler}
      (before : Session pool options taken session) (step : Step session more after) :
      Session pool options (taken ++ more) after

/-- Where labels are placed after one more was. -/
theorem place_insert (session : Assembler) (label other : Label) (position : Nat) :
    place { session with placed := session.placed.insert label position } other =
      if label = other then some position else session.place other := by
  rw [place, Std.HashMap.getElem?_insert]
  simp only [beq_iff_eq]
  rfl

/-- No element takes no step. -/
theorem addAll_nil (session : Assembler) : addAll [] session = .ok () session := rfl

/-- Elements are taken in turn. -/
theorem addAll_cons_eq_ok_iff {element : Element} {rest : List Element} {session after : Assembler} :
    addAll (element :: rest) session = .ok () after ↔
      ∃ middle, Taken session element middle ∧ addAll rest middle = .ok () after := by
  -- One step of the loop, then the rest of it.
  have unfolded : addAll (element :: rest) session =
      EStateM.bind (add element) (fun _ => addAll rest) session := rfl
  rw [unfolded, EStateM.bind]
  cases first : add element session with
  | ok _ middle =>
      constructor
      · intro took
        exact ⟨middle, taken_of_add first, took⟩
      · rintro ⟨other, took, more⟩
        rw [add_of_taken took] at first
        cases first
        exact more
  | error fault middle =>
      constructor
      · intro took
        cases took
      · rintro ⟨other, took, -⟩
        rw [add_of_taken took] at first
        cases first

/-- Two sequences of elements are taken in turn. -/
theorem addAll_append {first second : List Element} {session middle after : Assembler}
    (took : addAll first session = .ok () middle) (more : addAll second middle = .ok () after) :
    addAll (first ++ second) session = .ok () after := by
  induction first generalizing session with
  | nil =>
      rw [addAll_nil] at took
      cases took
      exact more
  | cons element rest ih =>
      obtain ⟨next, one, others⟩ := addAll_cons_eq_ok_iff.mp took
      exact addAll_cons_eq_ok_iff.mpr ⟨next, one, ih others⟩

/-- A session that takes elements in order has taken them. -/
theorem Session.addAll {pool : Pool} {options : Options} {taken elements : List Element}
    {session after : Assembler} (before : Session pool options taken session)
    (took : addAll elements session = .ok () after) :
    Session pool options (taken ++ elements) after := by
  induction elements generalizing taken session with
  | nil =>
      rw [addAll_nil] at took
      cases took
      rw [List.append_nil]
      exact before
  | cons element rest ih =>
      obtain ⟨middle, first, others⟩ := addAll_cons_eq_ok_iff.mp took
      have more := ih (before.step (.took (add_of_taken first))) others
      rw [List.append_assoc] at more
      exact more

/-! ## Code -/

/-- What the code of a session is, in terms of the elements that it took. -/
structure CodeTracks (taken : List Element) (session : Assembler) : Prop where
  /-- Labels are placed where the elements place them. -/
  place_eq : session.place = Element.places taken
  /-- The code ends where the instructions end. -/
  size_eq : session.code.size = Instruction.endOf 0 (Element.instructions taken)
  /-- Patches lie inside the code. -/
  within : ∀ patch ∈ session.patches.toList, Within session.code.size patch
  /-- Every patch is for an offset operand of an instruction. -/
  operand : ∀ patch ∈ session.patches.toList, ∃ start i,
    (start, i) ∈ Instruction.located 0 (Element.instructions taken) ∧ patch ∈ i.offsets start
  /-- With any final places, the patched code is what the instructions assemble to. -/
  resolves : ∀ final, Refines final session.place → ∀ result,
    Resolves final session.patches.toList session.code result ↔
      assemble final 0 (Element.instructions taken) = .ok result.toList

namespace CodeTracks

variable {taken more : List Element}

/-- Steps that leave code, patches and places alone keep what the code is. -/
theorem unchanged (tracks : CodeTracks taken session) (placed : after.placed = session.placed)
    (code : after.code = session.code) (patches : after.patches = session.patches)
    (none : Element.instructions more = []) (unplaced : ∀ bci label, Element.placesFrom bci more label = .none) :
    CodeTracks (taken ++ more) after := by
  obtain ⟨place_eq, size_eq, within, operand, resolves⟩ := tracks
  have place : after.place = session.place := by
    funext label
    rw [place, placed, ← place]
  have places : Element.places (taken ++ more) = Element.places taken := by
    funext label
    change Element.placesFrom 0 (taken ++ more) label = Element.placesFrom 0 taken label
    rw [Element.placesFrom_append, unplaced]
    cases Element.placesFrom 0 taken label <;> rfl
  have same : Element.instructions (taken ++ more) = Element.instructions taken := by
    rw [Element.instructions_append, none, List.append_nil]
  constructor
  · rw [place, places, place_eq]
  · rw [code, same, size_eq]
  · rw [code, patches]
    exact within
  · rw [patches, same]
    exact operand
  · rw [place, patches, code, same]
    exact resolves

/-- A label that had no place gets the current position. -/
theorem label (tracks : CodeTracks taken session) {label : Label} (fresh : session.place label = none) :
    CodeTracks (taken ++ [.label label])
      { session with placed := session.placed.insert label session.code.size } := by
  obtain ⟨place_eq, size_eq, within, operand, resolves⟩ := tracks
  have same : Element.instructions (taken ++ [.label label]) = Element.instructions taken := by
    rw [Element.instructions_append]
    exact List.append_nil _
  constructor
  -- The last label is found behind all others, which is where it was placed.
  · funext other
    rw [place_insert, Element.places, Element.placesFrom_append, ← size_eq]
    change _ = (Element.places taken other <|> if label = other then some session.code.size else none)
    rw [← place_eq]
    by_cases found : label = other
    · rw [if_pos found, if_pos found, ← found, fresh]
      rfl
    · rw [if_neg found, if_neg found]
      cases session.place other <;> rfl
  · rw [same, size_eq]
  · exact within
  · rw [same]
    exact operand
  · rw [same]
    intro final finer
    -- Final places that agree with one label more agree with those before.
    refine resolves final fun other position known => finer other position ?_
    rw [place_insert]
    by_cases found : label = other
    · rw [← found, fresh] at known
      cases known
    · rw [if_neg found, known]

/-- An instruction is emitted behind the code. -/
theorem instruction (tracks : CodeTracks taken session) {i : Instruction} (fits : i.Fits)
    {emission : Emission} (emitted : i.emit session.place session.code.size = .ok emission) :
    CodeTracks (taken ++ [.instruction i]) { session with
      code := session.code ++ emission.bytes
      patches := session.patches ++ emission.patches } := by
  obtain ⟨place_eq, size_eq, within, operand, resolves⟩ := tracks
  have emittedPatches := (of_emit emitted).2
  have behind : Element.instructions (taken ++ [.instruction i]) =
      Element.instructions taken ++ [i] :=
    Element.instructions_append taken [.instruction i]
  -- The new instruction is the last one, and it starts where the code ended.
  have last : (session.code.size, i) ∈
      Instruction.located 0 (Element.instructions taken ++ [i]) := by
    rw [Instruction.located_append, ← size_eq]
    exact List.mem_append_right _ List.mem_cons_self
  have size : (session.code ++ emission.bytes).size = session.code.size + i.size session.code.size := by
    rw [Array.size_append, size_of_emit fits emitted]
  constructor
  · funext label
    rw [Element.places, Element.placesFrom_append]
    change session.place label = (Element.places taken label <|> none)
    rw [place_eq]
    cases Element.places taken label <;> rfl
  · rw [size, behind, Instruction.endOf_concat, size_eq]
  · intro patch mem
    rw [Array.toList_append, List.mem_append] at mem
    obtain mem | mem := mem
    · exact (within patch mem).mono (by rw [size]; omega)
    · have upper := (Chunk.bounds_of_mem_holes (emittedPatches patch (Array.mem_toList_iff.mp mem))).2
      rw [fits.total_template] at upper
      rw [size]
      exact upper
  · intro patch mem
    rw [behind]
    rw [Array.toList_append, List.mem_append] at mem
    obtain mem | mem := mem
    · obtain ⟨start, other, located, offset⟩ := operand patch mem
      rw [Instruction.located_append]
      exact ⟨start, other, List.mem_append_left _ located, offset⟩
    · exact ⟨session.code.size, i, last, emittedPatches patch (Array.mem_toList_iff.mp mem)⟩
  · intro final finer result
    rw [Array.toList_append, resolves_emit_iff finer within emitted, behind,
      assemble_append_eq_ok_iff, ← size_eq]
    simp only [assemble_singleton_eq_ok_iff]
    constructor
    · rintro ⟨before, content, resolved, encoded, rfl⟩
      exact ⟨before.toList, content, (resolves final finer before).mp resolved, encoded,
        Array.toList_append⟩
    · rintro ⟨before, content, assembled, encoded, shape⟩
      refine ⟨before.toArray, content, (resolves final finer _).mpr assembled, encoded, ?_⟩
      apply Array.toList_inj.mp
      rw [shape, Array.toList_append]

/-- Taking an element keeps what the code is. -/
theorem took (tracks : CodeTracks taken session) (took : Taken session element after)
    (fits : ∀ i, element = .instruction i → i.Fits) : CodeTracks (taken ++ [element]) after := by
  cases took with
  | instruction emitted => exact tracks.instruction (fits _ rfl) emitted
  | label fresh => exact tracks.label fresh
  | _ => exact tracks.unchanged rfl rfl rfl rfl fun _ _ => rfl

/-- A step keeps what the code is. -/
theorem step (tracks : CodeTracks taken session) (step : Step session more after)
    (fits : ∀ i ∈ Element.instructions more, i.Fits) : CodeTracks (taken ++ more) after := by
  cases step with
  | took h =>
      refine tracks.took (taken_of_add h) fun i same => fits i ?_
      rw [same]
      exact List.mem_cons_self
  | refused h =>
      obtain ⟨pool, -, rfl⟩ := grows_of_add_error h
      exact tracks.unchanged rfl rfl rfl rfl fun _ _ => rfl
  | minted h =>
      cases h
      exact tracks.unchanged rfl rfl rfl rfl fun _ _ => rfl
  | grown h => exact tracks.unchanged rfl rfl rfl rfl fun _ _ => rfl

/-- A session without code has no instructions. -/
theorem start (pool : Pool) (options : Options) : CodeTracks [] (start pool options) := by
  constructor
  · funext label
    exact Std.HashMap.getElem?_empty
  · rfl
  · intro patch mem
    cases mem
  · intro patch mem
    cases mem
  · intro final finer result
    rw [show (Assembler.start pool options).patches.toList = [] from rfl, resolves_nil_iff]
    constructor
    · rintro rfl
      rfl
    · intro assembled
      exact Array.toList_inj.mp (Except.ok.inj assembled).symm

end CodeTracks

variable {pool : Pool} {options : Options} {taken : List Element}

/-- The code of a session is that of the elements it took. -/
theorem Session.codeTracks (h : Session pool options taken session)
    (fits : ∀ i ∈ Element.instructions taken, i.Fits) : CodeTracks taken session := by
  induction h with
  | start => exact CodeTracks.start pool options
  | step before step ih =>
      rw [Element.instructions_append] at fits
      refine (ih fun i mem => fits i (List.mem_append_left _ mem)).step step ?_
      exact fun i mem => fits i (List.mem_append_right _ mem)

end JvmCode.Assembler
