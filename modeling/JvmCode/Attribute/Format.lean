import JvmCode.Attribute.Basic
import JvmCode.Pool.Resolver

/-! # The byte form of code attributes

The bounds, the code and the exception table stand first; the other tables are nested attributes, each
with a name in the constant pool and a length. Nested attributes with other names are passed over, and
tables that are split over several nested attributes are joined.

* **`CodeAttribute.read`** reads a body and checks its tables.
* **`CodeAttribute.write`** writes a body and adds the names of its nested attributes to the pool. -/

namespace JvmCode

/-- The tables that are nested attributes. -/
inductive NestedTable where
  /-- The line numbers. -/
  | lines
  /-- The local variables with their descriptors. -/
  | locals
  /-- The local variables with their signatures. -/
  | localTypes
  deriving DecidableEq, Repr

namespace NestedTable

/-- The nested tables in the order in which they are written. -/
def all : List NestedTable := [.lines, .locals, .localTypes]

/-- The name of a nested table. -/
def name : NestedTable → String
  | .lines => "LineNumberTable"
  | .locals => "LocalVariableTable"
  | .localTypes => "LocalVariableTypeTable"

/-- The nested table with a name. -/
def ofName? (name : String) : Option NestedTable := all.find? fun table => table.name == name

end NestedTable

/-- Read a count and as many rows. -/
def readRows {α : Type} (row : Reader α) : Reader (Array α) := do
  let count ← Reader.u2
  Reader.sequence row count.toNat

/-- The bytes of a count and the rows. The count keeps the low 16 bits of the number of rows. -/
def encodeRows {α : Type} (encode : α → List UInt8) (rows : Array α) : List UInt8 :=
  BigEndian.u2 (UInt16.ofNat rows.size) ++ rows.toList.flatMap encode

namespace CodeAttribute

/-! ## Reading -/

/-- Join the rows of a nested table to those already read. -/
def readTable (attr : CodeAttribute) (body : Array UInt8) :
    NestedTable → Reader CodeAttribute
  | .lines => do
      let rows ← Reader.within body (readRows LineRow.read)
      return { attr with lines := attr.lines ++ rows }
  | .locals => do
      let rows ← Reader.within body (readRows LocalRow.read)
      return { attr with locals := attr.locals ++ rows }
  | .localTypes => do
      let rows ← Reader.within body (readRows LocalRow.read)
      return { attr with localTypes := attr.localTypes ++ rows }

/-- Read one nested attribute. -/
def readNested (resolver : Resolver) (attr : CodeAttribute) : Reader CodeAttribute := do
  let nameIndex ← Reader.u2
  let length ← Reader.u4
  let body ← Reader.take length.toNat
  -- The body is taken before the name is looked up, so a missing body is reported first.
  let name ← Reader.ofPool (resolver.text nameIndex)
  match NestedTable.ofName? name with
  | some table => attr.readTable body table
  | none => return attr

/-- Read `count` nested attributes. -/
def readNestedAll (resolver : Resolver) : Nat → CodeAttribute → Reader CodeAttribute
  | 0, attr => pure attr
  | count + 1, attr => do
      let attr ← readNested resolver attr
      readNestedAll resolver count attr

/-- Read the length of the code and then the code. -/
def readCode : Reader (Array UInt8) := do
  let length ← Reader.u4
  let position ← Reader.position
  if length = 0 then Reader.fail (.malformed position .emptyCode)
  else if maxCodeLength < length.toNat then
    Reader.fail (.malformed position (.codeTooLarge length.toNat))
  else Reader.take length.toNat

/-- The attribute itself, unless its tables name positions outside its code. -/
def checked (attr : CodeAttribute) : Reader CodeAttribute :=
  match attr.checkTables with
  | .ok () => pure attr
  | .error fault => Reader.fail fault

/-- Read a body. -/
def read (resolver : Resolver) : Reader CodeAttribute := do
  let maxStack ← Reader.u2
  let maxLocals ← Reader.u2
  let code ← readCode
  let exceptions ← readRows ExceptionRow.read
  let count ← Reader.u2
  let attr ← readNestedAll resolver count.toNat { maxStack, maxLocals, code, exceptions }
  checked attr

/-! ## Writing -/

/-- The bytes of a nested table, or `none` if it has no rows. -/
def nestedBody? (attr : CodeAttribute) : NestedTable → Option (List UInt8)
  | .lines =>
      if attr.lines.isEmpty then none else some (encodeRows LineRow.encode attr.lines)
  | .locals =>
      if attr.locals.isEmpty then none
      else some (encodeRows LocalRow.encode attr.locals)
  | .localTypes =>
      if attr.localTypes.isEmpty then none
      else some (encodeRows LocalRow.encode attr.localTypes)

/-- The nested tables that have rows, with their bytes. -/
def nestedBodies (attr : CodeAttribute) : List (NestedTable × List UInt8) :=
  NestedTable.all.filterMap fun table => (attr.nestedBody? table).map (table, ·)

/-- The bytes before the nested tables, with the number of nested tables. -/
def preamble (attr : CodeAttribute) : List UInt8 :=
  BigEndian.u2 attr.maxStack ++ BigEndian.u2 attr.maxLocals
    ++ BigEndian.u4 (UInt32.ofNat attr.code.size) ++ attr.code.toList
    ++ encodeRows ExceptionRow.encode attr.exceptions
    ++ BigEndian.u2 (UInt16.ofNat attr.nestedBodies.length)

/-- Why an attribute cannot be written at all. -/
def refusal? (attr : CodeAttribute) : Option Fault :=
  let length := attr.code.size
  if length = 0 then some (.malformed 0 .emptyCode)
  else if maxCodeLength < length then some (.malformed 0 (.codeTooLarge length))
  else none

end CodeAttribute

/-- Bytes being written, and the constant pool that they refer to. -/
structure Writing where
  /-- What was written so far. -/
  output : Array UInt8
  /-- The pool. -/
  pool : Pool

/-- Programs that write bytes and may add to a constant pool. What was written before a fault stays. -/
abbrev Writer := EStateM Fault Writing

namespace Writer

/-- Write bytes. -/
def bytes (content : List UInt8) : Writer Unit :=
  modify fun state => { state with output := state.output ++ content }

/-- Add to the pool. -/
def interning {α : Type} (program : Interning α) : Writer α := fun state =>
  -- The state lets go of its pool while the program owns it.
  let pool := state.pool
  let state := { state with pool := Pool.empty }
  match program pool with
  | .ok value pool => .ok value { state with pool }
  | .error cause pool => .error (.pool cause) { state with pool }

end Writer

namespace CodeAttribute

/-- Write one nested table. -/
def writeNested (table : NestedTable) (body : List UInt8) : Writer Unit := do
  let name ← Writer.interning (Pool.internText table.name)
  Writer.bytes (BigEndian.u2 name)
  Writer.bytes (BigEndian.u4 (UInt32.ofNat body.length))
  Writer.bytes body

/-- Write a body. -/
def write (attr : CodeAttribute) : Writer Unit := do
  match attr.refusal? with
  | some fault => throw fault
  | none =>
      Writer.bytes attr.preamble
      attr.nestedBodies.forM fun (table, body) => writeNested table body

end CodeAttribute

end JvmCode
