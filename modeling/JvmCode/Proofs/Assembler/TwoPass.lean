import JvmCode.Proofs.Assembler.Finishing
import JvmCode.Proofs.Instruction.Constructed

/-! # One pass and two passes

A two-pass assembler first finds the place of every label and then encodes the instructions. The code
of a finished session is what it would make of the elements that the session took.

* **`Patch.Reads`** says which number stands in an offset operand.
* `finish_eq_two_pass` is the equality, with what the offsets are, what finishing touches, and what the
  code does not depend on. -/

namespace JvmCode

namespace Patch

/-- The number that stands in an offset operand, big-endian and signed, in four bytes or in two. -/
def Reads (code : Array UInt8) (operand : Patch) (offset : Int) : Prop :=
  if operand.far then
    ∃ word stop, Reader.i4 code (Cursor.startingAt operand.position) = .ok word stop ∧
      word.toInt = offset
  else
    ∃ word stop, Reader.i2 code (Cursor.startingAt operand.position) = .ok word stop ∧
      word.toInt = offset

/-- A byte of the code belongs to an offset operand. -/
def Covers (operand : Patch) (position : Nat) : Prop :=
  operand.position ≤ position ∧ position < operand.position + offsetWidth operand.far

/-- An offset that the operand can hold is read back. -/
theorem reads_of_stands {code : Array UInt8} {operand : Patch} {offset : Int}
    (fits : reaches operand.far offset = true)
    (stands : Stands code operand.position (offsetBytes operand.far offset)) :
    operand.Reads code offset := by
  unfold Reads
  unfold reaches at fits
  unfold offsetBytes at stands
  cases far : operand.far with
  | true =>
      rw [far] at fits stands
      exact ⟨_, _, Reader.i4_eq_ok_iff.mpr ⟨stands, rfl⟩, toInt_ofInt32_of_fits fits⟩
  | false =>
      rw [far] at fits stands
      exact ⟨_, _, Reader.i2_eq_ok_iff.mpr ⟨stands, rfl⟩, toInt_ofInt16_of_fits fits⟩

end Patch

/-- Every offset among filled chunks stands in its place. -/
theorem Chunk.reads_of_fillAll {place : Label → Option Nat} {code : Array UInt8} {bci position : Nat}
    {chunks : List Chunk} {content : List UInt8} (filled : fillAll place bci chunks = .ok content)
    (stands : Stands code position content) {operand : Patch}
    (mem : operand ∈ holes bci position chunks) :
    ∃ target : Nat, place operand.target = some target ∧
      operand.Reads code ((target : Int) - bci) := by
  induction chunks generalizing position content with
  | nil => cases mem
  | cons chunk rest ih =>
      obtain ⟨first, others, filledFirst, filledOthers, rfl⟩ := fillAll_cons_eq_ok_iff.mp filled
      obtain ⟨here, behind⟩ := Stands.append_iff.mp stands
      rw [length_of_fill filledFirst] at behind
      cases chunk with
      | bytes fixed => exact ih filledOthers behind mem
      | offset far target =>
          obtain rfl | mem := List.mem_cons.mp mem
          · obtain ⟨placed, found, fits, rfl⟩ := fill_offset_eq_ok_iff.mp filledFirst
            exact ⟨placed, found, Patch.reads_of_stands fits here⟩
          · exact ih filledOthers behind mem

namespace Element

/-- Instructions and labels, which are all that code depends on. -/
def isCode : Element → Bool
  | .instruction _ | .label _ => true
  | _ => false

/-- Instructions are among the elements that code depends on. -/
theorem instructions_filter (elements : List Element) :
    instructions (elements.filter isCode) = instructions elements := by
  induction elements with
  | nil => rfl
  | cons element rest ih =>
      cases element with
      | instruction i => exact congrArg (i :: ·) ih
      | label placed => exact ih
      | _ => exact ih

/-- Labels are placed by the elements that code depends on. -/
theorem places_filter (elements : List Element) : places (elements.filter isCode) = places elements := by
  funext sought
  suffices same : ∀ bci, placesFrom bci (elements.filter isCode) sought = placesFrom bci elements sought
    from same 0
  intro bci
  induction elements generalizing bci with
  | nil => rfl
  | cons element rest ih =>
      cases element with
      | instruction i => exact ih _
      | label placed =>
          rw [List.filter_cons_of_pos rfl, placesFrom, placesFrom, ih]
      | _ => exact ih _

end Element

namespace Assembler

/-- Patching touches no byte but those of the offsets that wait. -/
theorem Resolves.covered {place : Label → Option Nat} {patches : List Patch} {code result : Array UInt8}
    (h : Resolves place patches code result) {position : Nat}
    (changed : result[position]? ≠ code[position]?) : ∃ patch ∈ patches, patch.Covers position := by
  -- A byte changes when the first patch that covers it is applied, or by a later one.
  induction patches generalizing code with
  | nil => exact absurd (by rw [resolves_nil_iff.mp h]) changed
  | cons patch rest ih =>
      obtain ⟨content, filled, others⟩ := resolves_cons_iff.mp h
      by_cases covers : patch.Covers position
      · exact ⟨patch, List.mem_cons_self, covers⟩
      · have width : content.length = offsetWidth patch.far := Chunk.length_of_fill filled
        have outside : position < patch.position ∨ patch.position + content.length ≤ position := by
          unfold Patch.Covers at covers
          omega
        have same := Buffer.getElem?_overwrite_of_outside outside code
        obtain ⟨other, mem, covers⟩ := ih others (by rw [same]; exact changed)
        exact ⟨other, List.mem_cons_of_mem _ mem, covers⟩

variable {pool : Pool} {options : Options} {taken : List Element} {session : Assembler} {built : Built}

/-- The code of a finished session is what its instructions assemble to. -/
theorem assemble_of_finish (run : Session pool options taken session)
    (fits : ∀ i ∈ Element.instructions taken, i.Fits) (finished : session.finish = .ok built) :
    assemble (Element.places taken) 0 (Element.instructions taken) = .ok built.code.toList := by
  have tracks := run.codeTracks fits
  have resolved := (finish_eq_ok_iff.mp finished).1
  rw [← tracks.place_eq]
  exact (tracks.resolves session.place (fun _ _ placed => placed) built.code).mp resolved

/-- One pass with patches is two passes. For `Produced` instructions, `built.code` is what `assemble` makes of
`Element.instructions taken` with the final places `Element.places taken`. Every operand among the `offsets` of
an instruction at `start` `Reads` as `target - start`, whichever came first, and `finish` changes only bytes that
such an operand `Covers`. A session whose elements have the same `isCode` part gives the same code, whatever its
pool, its options and its other elements. -/
theorem finish_eq_two_pass (run : Session pool options taken session)
    (produced : ∀ i ∈ Element.instructions taken, i.Produced) (finished : session.finish = .ok built) :
    assemble (Element.places taken) 0 (Element.instructions taken) = .ok built.code.toList ∧
    (∀ start i, (start, i) ∈ Instruction.located 0 (Element.instructions taken) →
      ∀ operand ∈ i.offsets start, ∃ target : Nat,
        Element.places taken operand.target = some target ∧
          operand.Reads built.code ((target : Int) - start)) ∧
    (∀ position, built.code[position]? ≠ session.code[position]? →
      ∃ start i, (start, i) ∈ Instruction.located 0 (Element.instructions taken) ∧
        ∃ operand ∈ i.offsets start, operand.Covers position) ∧
    (∀ otherPool otherOptions otherTaken other otherBuilt,
      Session otherPool otherOptions otherTaken other →
      otherTaken.filter Element.isCode = taken.filter Element.isCode →
      other.finish = .ok otherBuilt → otherBuilt.code = built.code) := by
  have fits := fun i mem => (produced i mem).fits
  have assembled := assemble_of_finish run fits finished
  refine ⟨assembled, ?_, ?_, ?_⟩
  -- Every operand was filled with the final place of its label.
  · intro start i located operand mem
    have stands : Stands built.code 0 built.code.toList := Stands.rest (Nat.zero_le _)
    obtain ⟨bytes, encoded, here⟩ := stands_of_assemble fits assembled stands located
    exact Chunk.reads_of_fillAll encoded here mem
  -- What finishing changed was changed by a patch, and patches are for operands.
  · intro position changed
    have resolved := (finish_eq_ok_iff.mp finished).1
    obtain ⟨patch, mem, covers⟩ := resolved.covered changed
    obtain ⟨start, i, located, offset⟩ := (run.codeTracks fits).operand patch mem
    exact ⟨start, i, located, patch, offset, covers⟩
  -- Both codes are what the same instructions assemble to with the same places.
  · intro otherPool otherOptions otherTaken other otherBuilt otherRun same otherFinished
    have instructions : Element.instructions otherTaken = Element.instructions taken := by
      rw [← Element.instructions_filter otherTaken, same, Element.instructions_filter]
    have places : Element.places otherTaken = Element.places taken := by
      rw [← Element.places_filter otherTaken, same, Element.places_filter]
    have otherAssembled := assemble_of_finish otherRun (instructions ▸ fits) otherFinished
    rw [instructions, places, assembled] at otherAssembled
    exact Array.toList_inj.mp (Except.ok.inj otherAssembled).symm

/-- The instructions of the short sessions were constructed. -/
theorem constructed_jumpAndReturn :
    ∀ i ∈ Element.instructions jumpAndReturn, i.Constructed Pool.empty.resolver := by
  rintro i (_ | ⟨_, _ | ⟨_, ⟨⟩⟩⟩)
  · exact @Instruction.Constructed.jump _ .branch .goto (.fresh 0) _ (by decide) rfl
  · exact .returnOf .void

/-- A jump whose label is placed after it, with a refused element in between. -/
theorem finish_eq_two_pass_jumpAndReturn :
    assemble (Element.places jumpAndReturn) 0 (Element.instructions jumpAndReturn) =
      .ok [0xa7, 0, 3, 0xb1] :=
  (finish_eq_two_pass session_jumpAndReturn (fun i mem => .constructed (constructed_jumpAndReturn i mem))
    (finish_jumped (by decide) rfl)).1

end Assembler

end JvmCode
