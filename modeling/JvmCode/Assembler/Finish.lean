import JvmCode.Assembler.Basic
import JvmCode.Buffer

/-! # Finishing a session

The offsets that waited are filled in, and the tables are laid out by the positions of their labels.

* **`Assembler.patchedCode`** is the code with every waiting offset filled in.
* **`Assembler.finish`** gives the code and its tables as **`Built`**. The first fault decides: offsets
  first, then the length of the code, then exception handlers, local variables and their signatures. -/

namespace JvmCode

/-- Finished code with its tables. -/
structure Built where
  /-- The code. -/
  code : Array UInt8
  /-- The line numbers. -/
  lines : Array LineRow
  /-- The local variables with descriptors. -/
  locals : Array LocalRow
  /-- The local variables with signatures. -/
  localTypes : Array LocalRow
  /-- The exception handlers. -/
  exceptions : Array ExceptionRow
  deriving DecidableEq, Repr

/-- Finished code as an attribute with given bounds. -/
def Built.toAttribute (built : Built) (maxStack maxLocals : UInt16) : CodeAttribute where
  maxStack := maxStack
  maxLocals := maxLocals
  code := built.code
  exceptions := built.exceptions
  lines := built.lines
  locals := built.locals
  localTypes := built.localTypes

namespace Assembler

/-- Fill in one waiting offset. -/
def applyPatch (place : Label → Option Nat) (code : Array UInt8) (patch : Patch) :
    Except Fault (Array UInt8) :=
  match place patch.target with
  | none => .error (.unresolvedLabel patch.target)
  | some position => do
      let offset ← branchOffset patch.bci position patch.far
      return Buffer.overwrite code patch.position (offsetBytes patch.far offset)

/-- The code with every waiting offset filled in. -/
def patchedCode (session : Assembler) : Except Fault (Array UInt8) :=
  session.patches.foldlM (applyPatch session.place) session.code

/-- The position of the label of a range in two bytes: `none` if it was never placed and such ranges are left
out. Positions are asked for only once the code is known not to be too long. -/
def rangePosition (session : Assembler) (label : Label) : Except Fault (Option UInt16) :=
  match session.place label with
  | some position => .ok (some (UInt16.ofNat position))
  | none =>
      match session.options.deadLabels with
      | .drop => .ok none
      | .fail => .error (.unresolvedLabel label)

/-- Refuse a position that is not inside the code. -/
def checkInside (length : Nat) (pc : UInt16) : Except Fault Unit :=
  if pc.toNat < length then .ok () else .error (badTablePc pc.toNat)

/-- The row of an exception handler, or `none` if it is left out. -/
def exceptionRow? (session : Assembler) (length : Nat) (pending : PendingCatch) :
    Except Fault (Option ExceptionRow) := do
  let some startPc ← session.rangePosition pending.start | return none
  let some endPc ← session.rangePosition pending.stop | return none
  let some handlerPc ← session.rangePosition pending.handler | return none
  -- A handler covers at least one byte.
  if endPc ≤ startPc then throw (.badLabelRange pending.start pending.stop)
  checkInside length handlerPc
  return some { startPc, endPc, handlerPc, catchType := pending.catchType }

/-- The row of a local variable, or `none` if it is left out. -/
def localRow? (session : Assembler) (length : Nat) (pending : PendingLocal) :
    Except Fault (Option LocalRow) := do
  let some startPc ← session.rangePosition pending.start | return none
  let some endPc ← session.rangePosition pending.stop | return none
  -- A variable may live over an empty range.
  if endPc < startPc then throw (.badLabelRange pending.start pending.stop)
  checkInside length startPc
  return some {
    startPc
    length := endPc - startPc
    nameIndex := pending.nameIndex
    typeIndex := pending.typeIndex
    slot := pending.slot }

/-- The line rows: of the recorded lines, those that an instruction follows. -/
def lineRows (session : Assembler) (length : Nat) : Array LineRow :=
  (session.lines.filter fun (position, _) => position < length).map fun (position, line) =>
    { startPc := UInt16.ofNat position, line }

/-- Refuse code that is empty or too long. -/
def checkLength (length : Nat) : Except Fault Unit :=
  if length = 0 then .error (.malformed 0 .emptyCode)
  else if maxCodeLength < length then .error (.malformed 0 (.codeTooLarge length))
  else .ok ()

/-- Finish a session. -/
def finish (session : Assembler) : Except Fault Built := do
  -- Offsets first: a label that was never placed is reported even of code that is too long.
  let code ← session.patchedCode
  let length := code.size
  checkLength length
  let exceptions ← session.catches.filterMapM (session.exceptionRow? length)
  let locals ← session.locals.filterMapM (session.localRow? length)
  let localTypes ← session.localTypes.filterMapM (session.localRow? length)
  return { code, lines := session.lineRows length, locals, localTypes, exceptions }

end Assembler

end JvmCode
