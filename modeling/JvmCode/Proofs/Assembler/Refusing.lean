import JvmCode.Proofs.Assembler.Recording
import JvmCode.Proofs.Assembler.TwoPass
import JvmCode.Proofs.Pool.Representation

/-! # What a session refuses

An element is refused for one of three reasons: a label already has a place, a near jump goes back too far,
or the pool cannot take a text. What is refused leaves the session as it was, except that a local variable may
have left its name in the pool.

* **`Assembler.Refused`** is what refusing an element does; `add_eq_error_iff`: nothing else is refused.
* `fault?_emit`: emitting fails with the first offset that its operand cannot hold, whatever it wrote before.
* **`Assembler.addInPlace`** writes an instruction piece by piece and takes back only bytes if a piece is
  refused; `addInstruction_eq_addInPlace`: nothing else has to be taken back.
* **`Pool.Rejects`** are the texts that a pool cannot take.
* **`Assembler.Rejects`** are the elements that a session refuses; `Session.add_refused` says so. -/

namespace JvmCode

/-! ## Emission -/

/-- The fault of an offset that its operand cannot hold. -/
def offsetFault? (bci position : Nat) (far : Bool) : Option Fault :=
  if reaches far ((position : Int) - bci) then none
  else some (.offsetOverflow bci ((position : Int) - bci))

/-- An offset is refused with its fault. -/
theorem fault?_branchOffset (bci position : Nat) (far : Bool) :
    Outcome.fault? (branchOffset bci position far) = offsetFault? bci position far := by
  change Outcome.fault? (if reaches far ((position : Int) - bci) = true then _ else _) = _
  unfold offsetFault?
  split <;> rfl

/-- An offset has a fault exactly when its operand cannot hold it. -/
theorem isSome_offsetFault? (bci position : Nat) (far : Bool) :
    (offsetFault? bci position far).isSome = !reaches far ((position : Int) - bci) := by
  unfold offsetFault?
  split <;> simp_all

/-- The fault of a piece of the instruction at `bci`: that of an offset whose label is already placed. -/
def Chunk.fault? (place : Label → Option Nat) (bci : Nat) : Chunk → Option Fault
  | .bytes _ => none
  | .offset far target => (place target).bind fun position => offsetFault? bci position far

namespace Assembler

variable {place : Label → Option Nat} {bci : Nat}

/-- A piece is refused with its fault, whatever was emitted before. -/
theorem fault?_emitChunk (emission : Emission) (chunk : Chunk) :
    Outcome.fault? (emitChunk place bci emission chunk) = chunk.fault? place bci := by
  cases chunk with
  | bytes content => rfl
  | offset far target =>
      rw [emitChunk, Chunk.fault?]
      cases place target with
      | none => rfl
      | some position =>
          refine (@Outcome.fault?_bind _ _ _ _ _ none fun _ _ => rfl).trans ?_
          rw [fault?_branchOffset, Option.or_none, Option.bind_some]

/-- An instruction is refused with the fault of the first of its offsets that has one. -/
theorem fault?_emit (i : Instruction) :
    Outcome.fault? (i.emit place bci) = (i.template bci).findSome? (Chunk.fault? place bci) :=
  Outcome.fault?_foldlM fault?_emitChunk _ _

end Assembler

/-- The near offsets of an instruction are the targets of near jumps. -/
theorem Instruction.Fits.mem_template_near_iff {i : Instruction} (fits : i.Fits) {bci : Nat} {target : Label} :
    Chunk.offset false target ∈ i.template bci ↔
      i.opcode.format = .jump .short ∧ i.operands = .target target := by
  obtain ⟨opcode, operands⟩ := i
  change operands.Fits opcode.format at fits
  simp only [template, List.mem_cons, reduceCtorEq, false_or]
  generalize shape : opcode.format = format at fits
  cases fits with
  | short label =>
      simp [operandTemplate, Opcode.near_of_format shape, eq_comm]
  | far label =>
      simp [operandTemplate, Opcode.far_of_format shape]
  | implicitSlot | slot | method | interfaceMethod =>
      -- A slot or a count may be left out, but there is no offset either way.
      simp only [operandTemplate]
      split <;> simp
  | _ => simp [operandTemplate]

/-- An offset operand of four bytes reaches back over all code of less than 2^31 bytes. -/
theorem reaches_far {bci position : Nat} (behind : position ≤ bci) (short : bci < 2147483648) :
    reaches true ((position : Int) - bci) = true := by
  simp only [reaches, if_true, fitsInt32, Bool.and_eq_true, decide_eq_true_eq]
  omega

/-- An instruction is refused exactly when it is a near jump that goes back too far, if all labels that
are placed are placed behind it. -/
theorem Assembler.emit_eq_error_iff {i : Instruction} (fits : i.Fits) {place : Label → Option Nat} {bci : Nat}
    (behind : ∀ label position, place label = some position → position ≤ bci)
    (short : bci < 2147483648) :
    (∃ fault, i.emit place bci = .error fault) ↔
      i.opcode.format = .jump .short ∧ ∃ target position, i.operands = .target target ∧
        place target = some position ∧ fitsInt16 ((position : Int) - bci) = false := by
  simp only [← Outcome.fault?_eq_some_iff, fault?_emit, ← Option.isSome_iff_exists,
    List.findSome?_isSome_iff]
  constructor
  · rintro ⟨chunk, mem, faulty⟩
    cases chunk with
    | bytes content => cases faulty
    | offset far target =>
        rw [Chunk.fault?] at faulty
        cases placed : place target with
        | none =>
            rw [placed] at faulty
            cases faulty
        | some position =>
            rw [placed, Option.bind_some, isSome_offsetFault?, Bool.not_eq_true'] at faulty
            -- Only near offsets can be too small for the way back.
            cases far with
            | true =>
                rw [reaches_far (behind target position placed) short] at faulty
                cases faulty
            | false =>
                obtain ⟨shape, operands⟩ := fits.mem_template_near_iff.mp mem
                exact ⟨shape, target, position, operands, placed, faulty⟩
  · rintro ⟨shape, target, position, operands, placed, missed⟩
    refine ⟨_, fits.mem_template_near_iff.mpr ⟨shape, operands⟩, ?_⟩
    rw [Chunk.fault?, placed, Option.bind_some, isSome_offsetFault?, Bool.not_eq_true']
    exact missed

/-! ## Writing in place -/

namespace Assembler

/-- Emit one piece behind what was emitted. What was emitted before stays if the piece is refused. -/
def emitPiece (place : Label → Option Nat) (bci : Nat) (chunk : Chunk) : EStateM Fault Emission PUnit :=
  fun emission =>
    match emitChunk place bci emission chunk with
    | .ok after => .ok ⟨⟩ after
    | .error fault => .error fault emission

/-- Append an instruction piece by piece. If a piece is refused, the bytes of those before it are taken
back, and their patches are not. -/
def addInPlace (i : Instruction) : Assembling Unit := fun session =>
  match forM (i.template session.position) (emitPiece session.place session.position) ⟨.empty, .empty⟩ with
  | .ok _ emission =>
      .ok () { session with
        code := session.code ++ emission.bytes
        patches := session.patches ++ emission.patches }
  | .error fault emission => .error fault { session with patches := session.patches ++ emission.patches }

variable {place : Label → Option Nat} {bci : Nat}

/-- Pieces that can be emitted are emitted one by one. -/
theorem forM_emitPiece_of_ok {chunks : List Chunk} {emission after : Emission}
    (h : chunks.foldlM (emitChunk place bci) emission = .ok after) :
    forM chunks (emitPiece place bci) emission = .ok ⟨⟩ after := by
  induction chunks generalizing emission with
  | nil =>
      obtain rfl := Outcome.pure_eq_ok_iff.mp h
      rfl
  | cons chunk rest ih =>
      rw [List.foldlM_cons] at h
      obtain ⟨middle, first, others⟩ := Outcome.bind_eq_ok_iff.mp h
      have head : emitPiece place bci chunk emission = .ok ⟨⟩ middle := by rw [emitPiece, first]
      change EStateM.bind (emitPiece place bci chunk) (fun _ => forM rest (emitPiece place bci)) emission = _
      rw [EStateM.bind, head]
      exact ih others

/-- A near jump is its opcode and one offset. -/
theorem template_of_short {i : Instruction} {target : Label} (shape : i.opcode.format = .jump .short)
    (operands : i.operands = .target target) (bci : Nat) :
    i.template bci = [.bytes i.opcode.bytes, .offset false target] := by
  have near := Opcode.near_of_format shape
  rw [Instruction.template, operands, Instruction.operandTemplate, decide_eq_false near]

/-- A near jump that is refused is refused before it leaves a patch. -/
theorem forM_emitPiece_of_error {i : Instruction} {target : Label} {fault : Fault}
    (shape : i.opcode.format = .jump .short) (operands : i.operands = .target target)
    (failed : i.emit place bci = .error fault) :
    ∃ bytes, forM (i.template bci) (emitPiece place bci) ⟨.empty, .empty⟩ =
      .error fault ⟨bytes, .empty⟩ := by
  rw [Instruction.emit, template_of_short shape operands] at failed
  rw [template_of_short shape operands]
  -- The opcode is written, and then the offset is refused.
  obtain ⟨bytes, opened⟩ : ∃ bytes,
      emitChunk place bci ⟨.empty, .empty⟩ (.bytes i.opcode.bytes) = .ok ⟨bytes, .empty⟩ := ⟨_, rfl⟩
  rw [List.foldlM_cons, opened] at failed
  change (emitChunk place bci ⟨bytes, .empty⟩ (.offset false target) >>= pure) = _ at failed
  cases offset : emitChunk place bci ⟨bytes, .empty⟩ (.offset false target) with
  | ok after =>
      rw [offset] at failed
      cases failed
  | error cause =>
      rw [offset] at failed
      cases failed
      have first : emitPiece place bci (.bytes i.opcode.bytes) ⟨.empty, .empty⟩ =
          .ok ⟨⟩ ⟨bytes, .empty⟩ := by rw [emitPiece, opened]
      have second : emitPiece place bci (.offset false target) ⟨bytes, .empty⟩ =
          .error fault ⟨bytes, .empty⟩ := by rw [emitPiece, offset]
      refine ⟨bytes, ?_⟩
      simp only [List.forM_cons, bind, EStateM.bind, first, second]

/-- Taking back the bytes of an instruction that is refused takes back all of it. -/
theorem addInstruction_eq_addInPlace {i : Instruction} (fits : i.Fits) {session : Assembler}
    (behind : ∀ label position, session.place label = some position → position ≤ session.code.size)
    (short : session.code.size < 2147483648) : addInstruction i session = addInPlace i session := by
  cases emitted : i.emit session.place session.code.size with
  | ok emission =>
      have written := forM_emitPiece_of_ok emitted
      rw [addInstruction_of_emit emitted, addInPlace]
      simp only [position, written]
  | error fault =>
      obtain ⟨shape, target, -, operands, -⟩ := (emit_eq_error_iff fits behind short).mp ⟨fault, emitted⟩
      obtain ⟨bytes, written⟩ := forM_emitPiece_of_error shape operands emitted
      rw [addInstruction_of_emit_error emitted, addInPlace]
      have kept : session.patches ++ (Array.empty : Array Patch) = session.patches := Array.append_empty
      simp only [position, written, kept]

end Assembler

/-! ## Texts -/

/-- Two programs in turn fail exactly when one of them does. -/
theorem Interning.exists_bind_eq_error_iff {α β : Type} {program : Interning α} {next : α → Interning β}
    {pool : Pool} :
    (∃ cause after, (program >>= next) pool = .error cause after) ↔
      (∃ cause after, program pool = .error cause after) ∨
        ∃ a middle, program pool = .ok a middle ∧ ∃ cause after, next a middle = .error cause after := by
  simp only [bind, EStateM.bind]
  cases program pool <;> simp

namespace Pool

variable {pool : Pool}

/-- A pool cannot take a text: it is at no index, and it is too long or no slot is free. -/
def Rejects (pool : Pool) (value : String) : Prop :=
  (∀ index, pool.get? index ≠ some (.text value)) ∧
    (maxTextLength < (ModifiedUtf8.encode value).length ∨ maxSize ≤ pool.size)

/-- A text is refused exactly when the pool cannot take it. -/
theorem Sound.internText_eq_error_iff (sound : pool.Sound) {value : String} :
    (∃ cause after, internText value pool = .error cause after) ↔ pool.Rejects value := by
  rw [internText, Rejects]
  cases shared : pool.indexOf[Entry.text value]? with
  | some index =>
      have held := ((sound.shared _ index).mp shared).1
      rw [Pool.intern, shared]
      constructor
      · rintro ⟨_, _, ⟨⟩⟩
      · rintro ⟨absent, -⟩
        exact absurd held (absent index)
  | none =>
      have absent : ∀ index, pool.get? index ≠ some (.text value) := by
        intro index held
        obtain ⟨lowest, present⟩ := sound.indexOf_ne_none held
        rw [shared] at present
        cases present
      have size := sound.size_le
      rw [intern_eq_error_iff shared, maxTextLength, maxSize]
      rw [maxSize] at size
      constructor
      · rintro (⟨_, ⟨⟩, long⟩ | full)
        · exact ⟨absent, .inl long⟩
        · refine ⟨absent, .inr ?_⟩
          change _ < 1 at full
          omega
      · rintro ⟨-, long | full⟩
        · exact .inl ⟨value, rfl, long⟩
        · refine .inr ?_
          change _ < 1
          omega

/-- A pool cannot take the texts of a local variable: its name, or its type behind the name. -/
def RejectsLocal (pool : Pool) (marker : LocalMarker) : Prop :=
  pool.Rejects marker.name ∨
    ∃ index named, internText marker.name pool = .ok index named ∧ named.Rejects marker.type

/-- The texts of a local variable are refused exactly when the pool cannot take them. -/
theorem Sound.pendingLocal_eq_error_iff (sound : pool.Sound) {marker : LocalMarker} :
    (∃ cause after, Assembler.pendingLocal marker pool = .error cause after) ↔
      pool.RejectsLocal marker := by
  rw [RejectsLocal, ← sound.internText_eq_error_iff]
  refine Interning.exists_bind_eq_error_iff.trans (or_congr_right ?_)
  refine exists_congr fun index => exists_congr fun named => and_congr_right fun entered => ?_
  have grown := (Interning.Grows.intern _).of_ok entered
  rw [← (grown.sound sound).internText_eq_error_iff]
  refine Interning.exists_bind_eq_error_iff.trans (or_iff_left ?_)
  rintro ⟨_, _, -, _, _, ⟨⟩⟩

end Pool

/-! ## Elements -/

namespace Assembler

/-- What a session is after it refused an element. -/
inductive Refused (session : Assembler) : Element → Fault → Assembler → Prop where
  /-- An instruction that cannot be emitted. -/
  | instruction {i : Instruction} {fault : Fault}
      (failed : i.emit session.place session.code.size = .error fault) :
      Refused session (.instruction i) fault session
  /-- A label that already has a place. -/
  | label {label : Label} {position : Nat} (placed : session.place label = some position) :
      Refused session (.label label) (.labelAlreadyPlaced label) session
  /-- A local variable with its descriptor. -/
  | localVariable {marker : LocalMarker} {cause : PoolFault} {pool : Pool}
      (passes : session.options.debugElements = .pass)
      (failed : pendingLocal marker session.pool = .error cause pool) :
      Refused session (.localVariable marker) (.pool cause) { session with pool }
  /-- A local variable with its signature. -/
  | localVariableType {marker : LocalMarker} {cause : PoolFault} {pool : Pool}
      (passes : session.options.debugElements = .pass)
      (failed : pendingLocal marker session.pool = .error cause pool) :
      Refused session (.localVariableType marker) (.pool cause) { session with pool }

variable {session after : Assembler} {element : Element} {fault : Fault}

/-- A local variable is refused in either table exactly when the pool refuses its texts. -/
theorem recordLocal_eq_error_iff {marker : LocalMarker} (keep : PendingLocal → Assembler → Assembler) :
    (do
      if (← get).options.passesDebug then
        let pending ← interning (pendingLocal marker)
        modify (keep pending) : Assembling Unit) session = .error fault after ↔
      session.options.debugElements = .pass ∧ ∃ cause pool,
        pendingLocal marker session.pool = .error cause pool ∧ fault = .pool cause ∧
          after = { session with pool } := by
  rw [recordLocal_eq]
  by_cases passes : session.options.debugElements = .pass
  · cases pendingLocal marker session.pool with
    | ok pending pool => simp [passes]
    | error cause pool => simp [passes, eq_comm]
  · simp [passes]

/-- An element is refused exactly when it cannot be taken. -/
theorem add_eq_error_iff : add element session = .error fault after ↔
    Refused session element fault after := by
  constructor
  · intro failed
    cases element with
    | instruction i =>
        rw [add] at failed
        cases emitted : i.emit session.place session.code.size with
        | ok emission =>
            rw [addInstruction_of_emit emitted] at failed
            cases failed
        | error cause =>
            rw [addInstruction_of_emit_error emitted] at failed
            cases failed
            exact .instruction emitted
    | label label =>
        rw [add, addLabel] at failed
        split at failed
        · rename_i placed
          cases failed
          rw [Std.HashMap.contains_eq_isSome_getElem?] at placed
          obtain ⟨position, placed⟩ := Option.isSome_iff_exists.mp placed
          exact .label placed
        · cases failed
    | localVariable marker =>
        obtain ⟨passes, cause, pool, entered, rfl, rfl⟩ := (recordLocal_eq_error_iff _).mp failed
        exact .localVariable passes entered
    | localVariableType marker =>
        obtain ⟨passes, cause, pool, entered, rfl, rfl⟩ := (recordLocal_eq_error_iff _).mp failed
        exact .localVariableType passes entered
    | line | exceptionCatch => cases failed
  · intro refused
    cases refused with
    | instruction failed => rw [add, addInstruction_of_emit_error failed]
    | label placed =>
        rw [add, addLabel, if_pos]
        rw [Std.HashMap.contains_eq_isSome_getElem?]
        exact Option.isSome_iff_exists.mpr ⟨_, placed⟩
    | localVariable passes failed =>
        exact (recordLocal_eq_error_iff _).mpr ⟨passes, _, _, failed, rfl, rfl⟩
    | localVariableType passes failed =>
        exact (recordLocal_eq_error_iff _).mpr ⟨passes, _, _, failed, rfl, rfl⟩

/-! ## Sessions -/

/-- The elements that a session refuses: a label that has a place, a near jump back to a place that its
operand cannot reach, and, if they are kept at all, local variables whose texts the pool cannot take. -/
def Rejects (session : Assembler) : Element → Prop
  | .label label => ∃ position, session.place label = some position
  | .instruction i =>
      i.opcode.format = .jump .short ∧ ∃ target position, i.operands = .target target ∧
        session.place target = some position ∧ fitsInt16 ((position : Int) - session.position) = false
  | .localVariable marker | .localVariableType marker =>
      session.options.debugElements = .pass ∧ session.pool.RejectsLocal marker
  | .line _ | .exceptionCatch _ => False

variable {pool : Pool} {options : Options} {taken : List Element}

/-- What `add` refuses, and what is left then. For `Produced` instructions and less than 2³¹ bytes of code, `add
element session` fails exactly when `session.Rejects element`: a label that has a place, a near jump back out of
reach, or a local variable whose texts the pool cannot take. The session stays as it was, but for entries that a
local variable added to its pool; a refused instruction or label leaves that alone too. `add` is `addInPlace`,
which writes operand by operand and takes back bytes only: what is refused has left no patch by then. -/
theorem Session.add_refused (reachable : pool.Reachable) (run : Session pool options taken session)
    (produced : ∀ i ∈ Element.instructions (taken ++ [element]), i.Produced)
    (short : session.code.size < 2147483648) :
    ((∃ fault after, add element session = .error fault after) ↔ session.Rejects element) ∧
    (∀ fault after, add element session = .error fault after →
      (∃ larger, session.pool.Grows larger ∧ after = { session with pool := larger }) ∧
      (element.isCode = true → after = session)) ∧
    ∀ i, element = .instruction i → add element session = addInPlace i session := by
  have fits := fun i mem => (produced i mem).fits
  rw [Element.instructions_append] at fits
  have tracks := run.codeTracks fun i mem => fits i (List.mem_append_left _ mem)
  have sound := (run.tableTracks reachable.sound fun i mem =>
    fits i (List.mem_append_left _ mem)).grows.sound reachable.sound
  have behind : ∀ label position, session.place label = some position → position ≤ session.code.size :=
    fun _ _ placed => tracks.place_le placed
  simp only [add_eq_error_iff]
  refine ⟨⟨?_, ?_⟩, ?_, ?_⟩
  · rintro ⟨fault, after, refused⟩
    cases refused with
    | @instruction i _ failed =>
        exact (emit_eq_error_iff (fits i (List.mem_append_right _ List.mem_cons_self)) behind short).mp
          ⟨fault, failed⟩
    | label placed => exact ⟨_, placed⟩
    | localVariable passes failed | localVariableType passes failed =>
        exact ⟨passes, sound.pendingLocal_eq_error_iff.mp ⟨_, _, failed⟩⟩
  · intro rejected
    cases element with
    | instruction i =>
        obtain ⟨fault, failed⟩ := (emit_eq_error_iff
          (fits i (List.mem_append_right _ List.mem_cons_self)) behind short).mpr rejected
        exact ⟨fault, session, .instruction failed⟩
    | label label =>
        obtain ⟨position, placed⟩ := rejected
        exact ⟨_, session, .label placed⟩
    | localVariable marker =>
        obtain ⟨cause, larger, failed⟩ := sound.pendingLocal_eq_error_iff.mpr rejected.2
        exact ⟨_, _, .localVariable rejected.1 failed⟩
    | localVariableType marker =>
        obtain ⟨cause, larger, failed⟩ := sound.pendingLocal_eq_error_iff.mpr rejected.2
        exact ⟨_, _, .localVariableType rejected.1 failed⟩
    | line | exceptionCatch => cases rejected
  · intro fault after refused
    refine ⟨grows_of_add_error (add_eq_error_iff.mpr refused), fun code => ?_⟩
    cases refused with
    | instruction | label => rfl
    | localVariable | localVariableType => cases code
  · rintro i rfl
    exact addInstruction_eq_addInPlace (fits i (List.mem_append_right _ List.mem_cons_self)) behind short

/-- The label behind the jump is not placed again, and the session stays as it was. -/
theorem add_refused_jumpAndReturn :
    (∃ fault after, add (.label (.fresh 0)) (jumped #[0xa7, 0, 0, 0xb1] jumpedTo) = .error fault after) ∧
    ∀ fault after, add (.label (.fresh 0)) (jumped #[0xa7, 0, 0, 0xb1] jumpedTo) = .error fault after →
      after = jumped #[0xa7, 0, 0, 0xb1] jumpedTo := by
  obtain ⟨refused, same, -⟩ := @Session.add_refused _ (.label (.fresh 0)) _ _ _ .empty
    session_jumpAndReturn (fun i mem => .constructed (constructed_jumpAndReturn i mem)) (by decide)
  exact ⟨refused.mpr ⟨3, jumpedTo_fresh⟩, fun fault after failed => (same fault after failed).2 rfl⟩

end Assembler

end JvmCode
