import JvmCode.Assembler.Basic
import JvmCode.Proofs.Instruction.Layout

/-! # What a sequence of elements says

Read in order, elements say where instructions start, where labels are placed, and which rows the
tables have. Only instructions move the position on.

* **`Element.instructions`** are the instructions among elements, and **`Element.places`** the position of
  each label.
* **`Element.lineMarks`**, **`Element.catches`**, **`Element.locals`** and **`Element.localTypes`** are what
  the elements say about the tables.
* `Element.boundary_of_placesFrom`: a label is placed where an instruction starts or where all end. -/

namespace JvmCode.Element

/-- The instruction that an element is. -/
def instruction? : Element → Option Instruction
  | .instruction i => some i
  | _ => none

/-- The exception handler that an element is. -/
def catch? : Element → Option CatchMarker
  | .exceptionCatch marker => some marker
  | _ => none

/-- The local variable with descriptor that an element is. -/
def local? : Element → Option LocalMarker
  | .localVariable marker => some marker
  | _ => none

/-- The local variable with signature that an element is. -/
def localType? : Element → Option LocalMarker
  | .localVariableType marker => some marker
  | _ => none

/-- The instructions among elements. -/
def instructions (elements : List Element) : List Instruction := elements.filterMap instruction?

/-- The exception handlers among elements. -/
def catches (elements : List Element) : List CatchMarker := elements.filterMap catch?

/-- The local variables with descriptors among elements. -/
def locals (elements : List Element) : List LocalMarker := elements.filterMap local?

/-- The local variables with signatures among elements. -/
def localTypes (elements : List Element) : List LocalMarker := elements.filterMap localType?

/-- Where elements place a label, if the first of them stands at `bci`. -/
def placesFrom : Nat → List Element → Label → Option Nat
  | _, [], _ => none
  | bci, .instruction i :: rest, sought => placesFrom (bci + i.size bci) rest sought
  | bci, .label placed :: rest, sought =>
      if placed = sought then some bci else placesFrom bci rest sought
  | bci, _ :: rest, sought => placesFrom bci rest sought

/-- Where elements place a label. -/
def places : List Element → Label → Option Nat := placesFrom 0

/-- The line numbers among elements with their positions, if the first element stands at `bci`. -/
def lineMarksFrom : Nat → List Element → List (Nat × UInt16)
  | _, [] => []
  | bci, .instruction i :: rest => lineMarksFrom (bci + i.size bci) rest
  | bci, .line number :: rest => (bci, number) :: lineMarksFrom bci rest
  | bci, _ :: rest => lineMarksFrom bci rest

/-- The line numbers among elements with their positions. -/
def lineMarks : List Element → List (Nat × UInt16) := lineMarksFrom 0

/-- The instructions among elements are the elements that are instructions. -/
theorem mem_instructions_iff {elements : List Element} {i : Instruction} :
    i ∈ instructions elements ↔ .instruction i ∈ elements := by
  rw [instructions, List.mem_filterMap]
  constructor
  · rintro ⟨element, mem, shape⟩
    cases element with
    | instruction j =>
        cases shape
        exact mem
    | _ => cases shape
  · intro mem
    exact ⟨.instruction i, mem, rfl⟩

/-! ## Two sequences in turn -/

variable (first second : List Element)

/-- The instructions of two sequences. -/
@[simp] theorem instructions_append :
    instructions (first ++ second) = instructions first ++ instructions second :=
  List.filterMap_append

/-- The exception handlers of two sequences. -/
@[simp] theorem catches_append : catches (first ++ second) = catches first ++ catches second :=
  List.filterMap_append

/-- The local variables of two sequences. -/
@[simp] theorem locals_append : locals (first ++ second) = locals first ++ locals second :=
  List.filterMap_append

/-- The local variables with signatures of two sequences. -/
@[simp] theorem localTypes_append :
    localTypes (first ++ second) = localTypes first ++ localTypes second :=
  List.filterMap_append

/-- A label of two sequences is placed by the first, or else by the second behind it. -/
theorem placesFrom_append (bci : Nat) (sought : Label) :
    placesFrom bci (first ++ second) sought =
      (placesFrom bci first sought <|>
        placesFrom (Instruction.endOf bci (instructions first)) second sought) := by
  induction first generalizing bci with
  | nil => rfl
  | cons element rest ih =>
      cases element with
      | instruction i => exact ih _
      | label placed =>
          rw [List.cons_append, placesFrom, placesFrom]
          split
          · rfl
          · exact ih _
      | _ => exact ih _

/-- The line numbers of two sequences. -/
theorem lineMarksFrom_append (bci : Nat) :
    lineMarksFrom bci (first ++ second) =
      lineMarksFrom bci first ++
        lineMarksFrom (Instruction.endOf bci (instructions first)) second := by
  induction first generalizing bci with
  | nil => rfl
  | cons element rest ih =>
      cases element with
      | instruction i => exact ih _
      | line number => exact congrArg _ (ih _)
      | _ => exact ih _

/-! ## Positions -/

variable {first second : List Element} {elements : List Element} {sought : Label} {position : Nat}

/-- A label is placed at a boundary of the instructions. -/
theorem boundary_of_placesFrom {bci : Nat} (h : placesFrom bci elements sought = some position) :
    Instruction.Boundary bci (instructions elements) position := by
  induction elements generalizing bci with
  | nil => cases h
  | cons element rest ih =>
      cases element with
      | instruction i => exact Instruction.boundary_cons_iff.mpr (.inr (ih h))
      | label placed =>
          rw [placesFrom] at h
          split at h
          · cases h
            exact Instruction.boundary_self _ _
          · exact ih h
      | _ => exact ih h

/-- A line number stands at a boundary of the instructions. -/
theorem boundary_of_lineMarksFrom {bci : Nat} {number : UInt16}
    (h : (position, number) ∈ lineMarksFrom bci elements) :
    Instruction.Boundary bci (instructions elements) position := by
  induction elements generalizing bci with
  | nil => cases h
  | cons element rest ih =>
      cases element with
      | instruction i => exact Instruction.boundary_cons_iff.mpr (.inr (ih h))
      | line other =>
          obtain same | mem := List.mem_cons.mp h
          · cases same
            exact Instruction.boundary_self _ _
          · exact ih mem
      | _ => exact ih h

/-- Elements without a label do not place it. -/
theorem placesFrom_eq_none (absent : Element.label sought ∉ elements) (bci : Nat) :
    placesFrom bci elements sought = none := by
  induction elements generalizing bci with
  | nil => rfl
  | cons element rest ih =>
      have later := ih fun mem => absent (List.mem_cons_of_mem _ mem)
      cases element with
      | label placed =>
          rw [placesFrom, if_neg, later]
          rintro rfl
          exact absent (List.mem_cons_self ..)
      | _ => exact later _

/-- Elements without line numbers say nothing about lines. -/
theorem lineMarksFrom_eq_nil (absent : ∀ number, Element.line number ∉ elements) (bci : Nat) :
    lineMarksFrom bci elements = [] := by
  induction elements generalizing bci with
  | nil => rfl
  | cons element rest ih =>
      have later := ih fun number mem => absent number (List.mem_cons_of_mem _ mem)
      cases element with
      | line number => exact absurd (List.mem_cons_self ..) (absent number)
      | _ => exact later _

end JvmCode.Element
