import JvmCode.Assembler.Emission
import JvmCode.Attribute.Basic
import JvmCode.Element
import JvmCode.Instruction.Push
import JvmCode.Options

/-! # Assembling code

An assembler session takes elements one by one and encodes instructions as they come. Names, types and
constants go to the constant pool of the session.

* **`Assembler`** is the state of a session, and **`Assembling`** the programs that run in it.
* **`Assembler.add`** takes an element. An instruction or a label that is refused leaves the session as
  it was; a refused local variable may leave a text in the pool. -/

namespace JvmCode

/-- A local variable whose range waits for its labels. -/
structure PendingLocal where
  /-- The local variable. -/
  slot : UInt16
  /-- The index of its name. -/
  nameIndex : UInt16
  /-- The index of its descriptor or signature. -/
  typeIndex : UInt16
  /-- Where the range starts. -/
  start : Label
  /-- Where the range ends. -/
  stop : Label
  deriving DecidableEq, Repr

/-- An exception handler whose range waits for its labels. -/
structure PendingCatch where
  /-- Where the range starts. -/
  start : Label
  /-- Where the range ends. -/
  stop : Label
  /-- Where the handler starts. -/
  handler : Label
  /-- The index of the class that is caught, or zero. -/
  catchType : UInt16
  deriving DecidableEq, Repr

/-- The state of an assembler session. -/
structure Assembler where
  /-- What is kept of debug information. -/
  options : Options
  /-- The constant pool. -/
  pool : Pool
  /-- The code so far. -/
  code : Array UInt8
  /-- The labels that are placed, with their positions. -/
  placed : Std.HashMap Label Nat
  /-- The offsets that wait for their labels, in order. -/
  patches : Array Patch
  /-- The number of fresh labels handed out, in 32 bits. -/
  minted : UInt32
  /-- The line numbers with the positions they were given at. -/
  lines : Array (Nat × UInt16)
  /-- The local variables with descriptors. -/
  locals : Array PendingLocal
  /-- The local variables with signatures. -/
  localTypes : Array PendingLocal
  /-- The exception handlers. -/
  catches : Array PendingCatch

/-- Programs that run in an assembler session. -/
abbrev Assembling := EStateM Fault Assembler

namespace Assembler

/-- A session without code. -/
def start (pool : Pool) (options : Options) : Assembler where
  options := options
  pool := pool
  code := .empty
  placed := ∅
  patches := .empty
  minted := 0
  lines := .empty
  locals := .empty
  localTypes := .empty
  catches := .empty

/-- Where the next instruction will start. -/
def position (session : Assembler) : Nat := session.code.size

/-- Where a label was placed. -/
def place (session : Assembler) (label : Label) : Option Nat := session.placed[label]?

/-- The largest serial number of a fresh label: labels are numbered in 32 bits, behind the 65536 decoded
ones. -/
def maxSerial : UInt32 := 0xfffeffff

/-- Hand out a fresh label. Serial numbers stop at `maxSerial`, so labels beyond that are no longer fresh, and the
counter behind them wraps around in 32 bits. -/
def freshLabel : Assembling Label := fun session =>
  .ok (.fresh (min session.minted maxSerial).toNat) { session with minted := session.minted + 1 }

/-- Add to the constant pool. -/
def interning {α : Type} (program : Interning α) : Assembling α := fun session =>
  -- The session lets go of its pool while the program owns it.
  let pool := session.pool
  let session := { session with pool := Pool.empty }
  match program pool with
  | .ok value pool => .ok value { session with pool }
  | .error cause pool => .error (.pool cause) { session with pool }

/-- Append an instruction. -/
def addInstruction (i : Instruction) : Assembling Unit := fun session =>
  match i.emit session.place session.position with
  | .ok emission =>
      .ok () { session with
        code := session.code ++ emission.bytes
        patches := session.patches ++ emission.patches }
  | .error fault => .error fault session

/-- Place a label at the current position. A label is placed once. -/
def addLabel (label : Label) : Assembling Unit := fun session =>
  if session.placed.contains label then .error (.labelAlreadyPlaced label) session
  else .ok () { session with placed := session.placed.insert label session.code.size }

/-- Start a source line at the current position. -/
def addLine (number : UInt16) : Assembling Unit :=
  modify fun session =>
    if session.options.passesLines then
      { session with lines := session.lines.push (session.code.size, number) }
    else session

/-- Enter the texts of a local variable into the pool. -/
def pendingLocal (marker : LocalMarker) : Interning PendingLocal := do
  let nameIndex ← Pool.internText marker.name
  let typeIndex ← Pool.internText marker.type
  return { slot := marker.slot, nameIndex, typeIndex, start := marker.start, stop := marker.stop }

/-- Record a local variable with its descriptor. -/
def addLocal (marker : LocalMarker) : Assembling Unit := do
  if (← get).options.passesDebug then
    let pending ← interning (pendingLocal marker)
    modify fun session => { session with locals := session.locals.push pending }

/-- Record a local variable with its signature. -/
def addLocalType (marker : LocalMarker) : Assembling Unit := do
  if (← get).options.passesDebug then
    let pending ← interning (pendingLocal marker)
    modify fun session => { session with localTypes := session.localTypes.push pending }

/-- Record an exception handler. -/
def addCatch (marker : CatchMarker) : Assembling Unit :=
  let catchType := (marker.caught.map ClassRef.index).getD 0
  let pending := ⟨marker.start, marker.stop, marker.handler, catchType⟩
  modify fun session => { session with catches := session.catches.push pending }

/-- Take one element. -/
def add : Element → Assembling Unit
  | .instruction i => addInstruction i
  | .label label => addLabel label
  | .line number => addLine number
  | .localVariable marker => addLocal marker
  | .localVariableType marker => addLocalType marker
  | .exceptionCatch marker => addCatch marker

/-- Append an instruction that may have been refused. -/
def addMade : Except Fault Instruction → Assembling Unit
  | .ok i => addInstruction i
  | .error fault => throw fault

/-- Append the push of a value. -/
def addPush (value : Constant) : Assembling Unit := do
  let i ← interning (Instruction.pushOf value)
  addInstruction i

/-- Take elements in order, up to the first that is refused. -/
def addAll (elements : List Element) : Assembling Unit := elements.forM add

end Assembler

end JvmCode
