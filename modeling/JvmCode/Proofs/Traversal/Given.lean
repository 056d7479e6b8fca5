import JvmCode.Proofs.Instruction.Remade
import JvmCode.Proofs.Traversal.Decoding
import JvmCode.Proofs.Traversal.Listings

/-! # What a traversal gives was read

A traversal gives its elements one at a time, and a fault may end it at any of them. Whatever it gives up to
there, the instructions among it were read from its code, so that their constructors make them again.

* **`Walk.Over`** holds of a traversal of some code that has decoded nothing ahead but what was read.
* `Walk.Over.next`: a step keeps this and gives what was read.
* `Walk.readFrom_of_mem_drainInto`: so does a whole traversal.
* `CodeAttribute.remake_given`: the instructions that are given are made again by their constructors. -/

namespace JvmCode

/-- An element that is an instruction was read from the code. -/
def Element.ReadFrom (resolver : Resolver) (code : Array UInt8) (element : Element) : Prop :=
  ∀ i, element = .instruction i → ∃ bci, i.ReadsAt resolver code bci

namespace Walk

variable {resolver : Resolver} {code : Array UInt8} {walk after : Walk}

/-- A traversal of `code`, where instructions that are decoded ahead were read from it. -/
structure Over (resolver : Resolver) (code : Array UInt8) (walk : Walk) : Prop where
  /-- The code is that of the traversal. -/
  code_eq : walk.code = code
  /-- Symbols are looked up in the pool of the traversal. -/
  resolver_eq : walk.resolver = resolver
  /-- The elements that are decoded ahead were read. -/
  queue_read : ∀ element ∈ walk.queue, element.ReadFrom resolver code

/-- A label is not an instruction. -/
theorem readFrom_labelHere (walk : Walk) : ∀ element ∈ walk.labelHere, element.ReadFrom resolver code := by
  intro element mem i same
  rw [same, labelHere] at mem
  split at mem
  · simp at mem
  · simp at mem

/-- Line numbers are not instructions. -/
theorem readFrom_linesHere (walk : Walk) : ∀ element ∈ walk.linesHere, element.ReadFrom resolver code := by
  intro element mem i same
  rw [same, linesHere] at mem
  simp at mem

namespace Over

/-- Decoding the elements of one position reads the instruction there. -/
theorem advance (valid : walk.Over resolver code) (advanced : walk.advance = .ok after) :
    after.Over resolver code := by
  obtain ⟨rfl, rfl, -⟩ := valid
  unfold Walk.advance at advanced
  split at advanced
  · rename_i inside
    split at advanced
    · rename_i i cursor read
      cases advanced
      have here := ((Instruction.read_eq_ok_iff_readsAt (Nat.le_of_lt inside)).mp read).1
      refine ⟨rfl, rfl, ?_⟩
      intro element mem
      simp only [List.mem_append, List.mem_singleton] at mem
      rcases mem with (label | line) | rfl
      · exact walk.readFrom_labelHere element label
      · exact walk.readFrom_linesHere element line
      · rintro _ ⟨⟩
        exact ⟨_, here⟩
    · cases advanced
  · cases advanced
    exact ⟨rfl, rfl, walk.readFrom_labelHere⟩

/-- A traversal that has stopped has decoded nothing ahead. -/
theorem stopped (valid : walk.Over resolver code) : walk.stopped.Over resolver code :=
  ⟨valid.code_eq, valid.resolver_eq, fun _ mem => nomatch mem⟩

/-- The first element that is decoded ahead was read, and so were the others. -/
theorem pop (valid : walk.Over resolver code) {given : Option (Except Fault Element)}
    (popped : walk.pop = (given, after)) :
    after.Over resolver code ∧ ∀ element, given = some (.ok element) → element.ReadFrom resolver code := by
  unfold Walk.pop at popped
  split at popped
  · rename_i first rest shape
    cases popped
    have read := valid.queue_read
    rw [shape] at read
    refine ⟨⟨valid.code_eq, valid.resolver_eq, fun element mem => read element (.tail first mem)⟩, ?_⟩
    rintro _ ⟨⟩
    exact read first (.head rest)
  · cases popped
    exact ⟨valid, fun _ none => nomatch none⟩

/-- A step of a traversal gives what was read, and leaves ahead only what was read. -/
theorem next (valid : walk.Over resolver code) {given : Option (Except Fault Element)}
    (step : walk.next = (given, after)) :
    after.Over resolver code ∧ ∀ element, given = some (.ok element) → element.ReadFrom resolver code := by
  unfold Walk.next at step
  split at step
  · cases step
    exact ⟨valid.stopped, fun _ fault => nomatch fault⟩
  · split at step
    · rename_i middle advanced
      exact (valid.advance advanced).pop step
    · cases step
      exact ⟨valid.stopped, fun _ fault => nomatch fault⟩
  · exact valid.pop step

end Over

/-- A traversal gives only what was read, whether or not it ends with a fault. -/
theorem readFrom_of_mem_drainInto (valid : walk.Over resolver code) {elements : Array Element}
    (before : ∀ element ∈ elements, element.ReadFrom resolver code) :
    ∀ element ∈ (walk.drainInto elements).1, element.ReadFrom resolver code := by
  -- The induction follows the steps; what was given before them is carried along.
  fun_induction drainInto walk elements with
  | case1 => exact before
  | case2 => exact before
  | case3 walk elements element after step _ ih =>
      obtain ⟨keeps, read⟩ := valid.next step
      refine ih keeps ?_
      intro other mem
      rcases Array.mem_push.mp mem with earlier | rfl
      · exact before other earlier
      · exact read _ rfl

end Walk

namespace Plan

variable {attr : CodeAttribute} {resolver : Resolver} {options : Options}

/-- The marker of an exception row is that of a handler. -/
theorem exists_of_catchMarker {scan : Scan} {length : Nat} {row : ExceptionRow} {element : Element}
    (made : catchMarker scan resolver length row = .ok element) :
    ∃ marker, element = .exceptionCatch marker := by
  simp only [catchMarker, Outcome.bind_eq_ok_iff] at made
  obtain ⟨start, -, stop, -, handler, -, made⟩ := made
  split at made
  · exact ⟨_, (Outcome.pure_eq_ok_iff.mp made).symm⟩
  · split at made
    · exact ⟨_, (Outcome.pure_eq_ok_iff.mp made).symm⟩
    · cases made

/-- The elements that come first are not instructions, also if the code does not read as instructions. -/
theorem instruction_not_mem_markers {plan : Plan} (made : make attr resolver options = .ok plan)
    (i : Instruction) : .instruction i ∉ plan.markers := by
  simp only [make, Outcome.bind_eq_ok_iff, Outcome.pure_eq_ok_iff] at made
  obtain ⟨scan, -, catches, caught, locals, -, localTypes, -, lines, -, rfl⟩ := made
  intro mem
  simp only [Array.toList_append, Array.toList_map, List.mem_append, List.mem_map, reduceCtorEq, and_false,
    exists_false, or_false] at mem
  -- Only the markers of exception rows are elements already when they are made.
  obtain ⟨row, -, marked⟩ := Outcome.exists_of_forall₂_of_mem (Outcome.arrayMapM_eq_ok_iff.mp caught) mem
  obtain ⟨marker, shape⟩ := exists_of_catchMarker marked
  cases shape

end Plan

/-- A traversal starts with nothing decoded ahead but markers. -/
theorem Walk.Over.start (attr : CodeAttribute) (resolver : Resolver) (options : Options) :
    (Walk.start attr resolver options).Over resolver attr.code := by
  unfold Walk.start
  split
  · rename_i plan made
    refine ⟨rfl, rfl, ?_⟩
    intro element mem i same
    rw [same] at mem
    exact absurd mem (Plan.instruction_not_mem_markers made i)
  · exact ⟨rfl, rfl, fun _ mem => nomatch mem⟩

/-- What was read from a code array that is not too long is made again. -/
theorem Instruction.ReadsAt.remake?_eq {i : Instruction} {resolver : Resolver} {code : Array UInt8} {bci : Nat}
    (readsAt : i.ReadsAt resolver code bci) (short : code.size ≤ maxCodeLength)
    (ordinary : i.family ∉ stricter) : i.remake? = some (.ok i) := by
  have inside := readsAt.le_size
  have size : i.size bci ≤ maxCodeLength := by omega
  exact remake?_of_fits ordinary size readsAt.1 readsAt.2.1

namespace CodeAttribute

/-- Decoded instructions are made again by their constructors. Every instruction `i` that `attr.decode` gives, or
that `drain` gives in front of a fault, satisfies `i.remake? = some (.ok i)`, unless its family is among
`Instruction.stricter`, whose constructors refuse more than reading does. -/
theorem remake_given (attr : CodeAttribute) (resolver : Resolver) (options : Options)
    (short : attr.code.size ≤ maxCodeLength) :
    (∀ elements, attr.decode resolver options = .ok elements → ∀ i, .instruction i ∈ elements →
      i.family ∉ Instruction.stricter → i.remake? = some (.ok i)) ∧
      ∀ i, .instruction i ∈ (Walk.start attr resolver options).drain.1 →
        i.family ∉ Instruction.stricter → i.remake? = some (.ok i) := by
  have given : ∀ i, .instruction i ∈ ((Walk.start attr resolver options).drainInto #[]).1 →
      i.family ∉ Instruction.stricter → i.remake? = some (.ok i) := by
    intro i mem ordinary
    have valid := Walk.Over.start attr resolver options
    have read := Walk.readFrom_of_mem_drainInto valid (by simp) _ mem
    obtain ⟨bci, readsAt⟩ := read i rfl
    exact readsAt.remake?_eq short ordinary
  refine ⟨?_, given⟩
  intro elements decoded i mem ordinary
  obtain ⟨after, drained⟩ := decode_eq_ok_iff_drain.mp decoded
  refine given i ?_ ordinary
  rw [drained]
  exact mem

/-- A load in front of a switch over the keys -1 and 0. -/
def denseSwitch : CodeAttribute where
  code := #[0x15, 5, 0xaa, 0, 0, 0, 0, 22, 255, 255, 255, 255, 0, 0, 0, 0, 0, 0, 0, 22, 0, 0, 0, 22, 0xb1]

/-- The switch, with one target for both of its keys. -/
def denseInstruction : Instruction := ⟨.tableswitch, .table (-1) 0 (.decoded 24) [.decoded 24, .decoded 24]⟩

/-- The dense switch is decoded. -/
theorem exists_decode_denseSwitch : ∃ elements,
    denseSwitch.decode Pool.empty.resolver {} = .ok elements ∧ .instruction denseInstruction ∈ elements := by
  have reads : Reads Pool.empty.resolver denseSwitch.code 0
      [⟨.iload, .slot 5⟩, denseInstruction, ⟨.returnVoid, .none⟩] := by
    refine Reads.of_assemble ?_ ?_ rfl
    · rintro i (_ | ⟨_, _ | ⟨_, _ | ⟨_, ⟨⟩⟩⟩⟩)
      · exact .slot fun _ => by decide
      · exact .table (by decide) (by decide)
      · exact .bare
    · rintro i (_ | ⟨_, _ | ⟨_, _ | ⟨_, ⟨⟩⟩⟩⟩)
      · trivial
      · trivial
      · trivial
  have last : Label.Lands [⟨.iload, .slot 5⟩, denseInstruction, ⟨.returnVoid, .none⟩] (.decoded 24) :=
    ⟨24, rfl, ⟨.returnVoid, .none⟩, by decide⟩
  have lands : ∀ i ∈ [⟨.iload, .slot 5⟩, denseInstruction, ⟨.returnVoid, .none⟩], ∀ target ∈ i.targets,
      target.Lands [⟨.iload, .slot 5⟩, denseInstruction, ⟨.returnVoid, .none⟩] := by
    rintro i (_ | ⟨_, _ | ⟨_, _ | ⟨_, ⟨⟩⟩⟩⟩) target mem
    · cases mem
    · rw [show target = .decoded 24 by simpa [Instruction.targets, Operands.targets, denseInstruction] using mem]
      exact last
    · cases mem
  let listing : Listing denseSwitch Pool.empty.resolver {} :=
    ⟨_, [], [], [], reads, lands, .nil, .nil, .nil, fun _ mem => nomatch mem⟩
  refine ⟨listing.elements.toArray, decode_eq_ok_iff.mpr ⟨listing, rfl⟩, ?_⟩
  have within : denseInstruction ∈ Element.instructions listing.elements := by
    rw [listing.instructions_elements]
    exact .tail _ (.head _)
  exact List.mem_toArray.mpr (Element.mem_instructions_iff.mp within)

/-- The switch is made again of its bounds, its default and its two cases. -/
theorem remake_given_denseSwitch : ∃ elements,
    denseSwitch.decode Pool.empty.resolver {} = .ok elements ∧ .instruction denseInstruction ∈ elements ∧
      Instruction.tableSwitch (-1) 0 (.decoded 24) [⟨-1, .decoded 24⟩, ⟨0, .decoded 24⟩] =
        .ok denseInstruction := by
  obtain ⟨elements, decoded, mem⟩ := exists_decode_denseSwitch
  have again := (remake_given denseSwitch Pool.empty.resolver {} (by decide)).1 elements decoded
    denseInstruction mem (by decide)
  exact ⟨elements, decoded, mem, Option.some.inj again⟩

end CodeAttribute

end JvmCode
