import JvmCode.Instruction.Basic

/-! # Code as a sequence of elements

Code is a sequence of instructions with markers between them: labels, line numbers, local variables and
exception handlers. Only instructions occupy bytes.

**`Element.references`** lists the labels that an element refers to without placing them. -/

namespace JvmCode

/-- A local variable over a range of code. -/
structure LocalMarker where
  /-- The local variable. -/
  slot : UInt16
  /-- Its name. -/
  name : String
  /-- Its descriptor, or its signature. -/
  type : String
  /-- Where the range starts. -/
  start : Label
  /-- Where the range ends, exclusively. -/
  stop : Label
  deriving DecidableEq, Repr

/-- An exception handler over a range of code. -/
structure CatchMarker where
  /-- Where the range starts. -/
  start : Label
  /-- Where the range ends, exclusively. -/
  stop : Label
  /-- Where the handler starts. -/
  handler : Label
  /-- The class that is caught, or `none` to catch everything. -/
  caught : Option ClassRef
  deriving DecidableEq, Repr

/-- An element of code. -/
inductive Element where
  /-- An instruction. -/
  | instruction (i : Instruction)
  /-- The place of a label: where the next instruction starts. -/
  | label (label : Label)
  /-- The source line that the next instruction starts. -/
  | line (number : UInt16)
  /-- A local variable with its descriptor. -/
  | localVariable (marker : LocalMarker)
  /-- A local variable with its signature. -/
  | localVariableType (marker : LocalMarker)
  /-- An exception handler. -/
  | exceptionCatch (marker : CatchMarker)
  deriving DecidableEq, Repr

/-- The labels an element refers to. -/
def Element.references : Element → List Label
  | .instruction i => i.targets
  | .label _ | .line _ => []
  | .localVariable marker | .localVariableType marker => [marker.start, marker.stop]
  | .exceptionCatch marker => [marker.start, marker.stop, marker.handler]

end JvmCode
