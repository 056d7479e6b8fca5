import JvmCode.BigEndian
import JvmCode.Reader

/-! # Code attributes

The body of a `Code` attribute: a code array with its tables, which name positions in it.

* **`ExceptionRow`**, **`LineRow`** and **`LocalRow`** are the rows of the tables, with their byte forms.
* **`CodeAttribute`** holds code and tables.
* **`CodeAttribute.checkTables`** refuses rows that name positions outside the code. -/

namespace JvmCode

/-- A row of the exception table. -/
structure ExceptionRow where
  /-- Where the covered range starts. -/
  startPc : UInt16
  /-- Where the covered range ends, exclusively. -/
  endPc : UInt16
  /-- Where the handler starts. -/
  handlerPc : UInt16
  /-- The index of the class that is caught, or zero to catch everything. -/
  catchType : UInt16
  deriving DecidableEq, Repr

namespace ExceptionRow

/-- The bytes of a row. -/
def encode (row : ExceptionRow) : List UInt8 :=
  BigEndian.u2 row.startPc ++ BigEndian.u2 row.endPc ++ BigEndian.u2 row.handlerPc
    ++ BigEndian.u2 row.catchType

/-- Read a row. -/
def read : Reader ExceptionRow := do
  let startPc ← Reader.u2
  let endPc ← Reader.u2
  let handlerPc ← Reader.u2
  let catchType ← Reader.u2
  return { startPc, endPc, handlerPc, catchType }

end ExceptionRow

/-- A row of the line number table. -/
structure LineRow where
  /-- Where the line starts. -/
  startPc : UInt16
  /-- The number of the line. -/
  line : UInt16
  deriving DecidableEq, Repr

namespace LineRow

/-- The bytes of a row. -/
def encode (row : LineRow) : List UInt8 := BigEndian.u2 row.startPc ++ BigEndian.u2 row.line

/-- Read a row. -/
def read : Reader LineRow := do
  let startPc ← Reader.u2
  let line ← Reader.u2
  return { startPc, line }

end LineRow

/-- A row of a local variable table. -/
structure LocalRow where
  /-- Where the variable starts to live. -/
  startPc : UInt16
  /-- For how many bytes it lives. -/
  length : UInt16
  /-- The index of its name. -/
  nameIndex : UInt16
  /-- The index of its descriptor, or of its signature. -/
  typeIndex : UInt16
  /-- The local variable. -/
  slot : UInt16
  deriving DecidableEq, Repr

namespace LocalRow

/-- Where the variable ceases to live. -/
def endPc (row : LocalRow) : Nat := row.startPc.toNat + row.length.toNat

/-- The bytes of a row. -/
def encode (row : LocalRow) : List UInt8 :=
  BigEndian.u2 row.startPc ++ BigEndian.u2 row.length ++ BigEndian.u2 row.nameIndex
    ++ BigEndian.u2 row.typeIndex ++ BigEndian.u2 row.slot

/-- Read a row. -/
def read : Reader LocalRow := do
  let startPc ← Reader.u2
  let length ← Reader.u2
  let nameIndex ← Reader.u2
  let typeIndex ← Reader.u2
  let slot ← Reader.u2
  return { startPc, length, nameIndex, typeIndex, slot }

end LocalRow

/-- The longest code array. -/
def maxCodeLength : Nat := 65535

/-- A code array with its tables. -/
structure CodeAttribute where
  /-- The most stack slots the code uses. -/
  maxStack : UInt16 := 0
  /-- The number of local variables. -/
  maxLocals : UInt16 := 0
  /-- The code array. -/
  code : Array UInt8 := .empty
  /-- The exception handlers, in the order in which they are tried. -/
  exceptions : Array ExceptionRow := .empty
  /-- The line numbers. -/
  lines : Array LineRow := .empty
  /-- The local variables with their descriptors. -/
  locals : Array LocalRow := .empty
  /-- The local variables with their signatures. -/
  localTypes : Array LocalRow := .empty
  deriving DecidableEq, Repr

/-- The fault of a table row that names a position outside the code. -/
def badTablePc (pc : Nat) : Fault := .malformed pc (.badTablePc pc)

/-- Refuse an exception row unless its range is a range of the code and its handler lies inside. -/
def ExceptionRow.check (length : Nat) (row : ExceptionRow) : Except Fault Unit :=
  if length ≤ row.startPc.toNat ∨ row.endPc ≤ row.startPc then .error (badTablePc row.startPc.toNat)
  else if length < row.endPc.toNat then .error (badTablePc row.endPc.toNat)
  else if length ≤ row.handlerPc.toNat then .error (badTablePc row.handlerPc.toNat)
  else .ok ()

/-- Refuse a line row unless it starts inside the code. -/
def LineRow.check (length : Nat) (row : LineRow) : Except Fault Unit :=
  if length ≤ row.startPc.toNat then .error (badTablePc row.startPc.toNat) else .ok ()

/-- Refuse a local variable row unless its range lies inside the code. -/
def LocalRow.check (length : Nat) (row : LocalRow) : Except Fault Unit :=
  if length ≤ row.startPc.toNat then .error (badTablePc row.startPc.toNat)
  else if length < row.endPc then .error (badTablePc row.endPc)
  else .ok ()

/-- Refuse an attribute whose tables name positions outside its code. -/
def CodeAttribute.checkTables (attr : CodeAttribute) : Except Fault Unit := do
  let length := attr.code.size
  attr.exceptions.forM (ExceptionRow.check length)
  attr.lines.forM (LineRow.check length)
  attr.locals.forM (LocalRow.check length)
  attr.localTypes.forM (LocalRow.check length)

end JvmCode
