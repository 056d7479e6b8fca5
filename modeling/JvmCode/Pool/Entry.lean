import JvmCode.BigEndian
import JvmCode.ModifiedUtf8
import JvmCode.Reader

/-! # Constant pool entries

The entries of a constant pool and their byte form. Entries refer to each other by index; nothing is
checked about those indexes until an entry is resolved.

* **`Entry`** are the kinds of entry; `Entry.width` is the number of slots one takes.
* **`Entry.encode`** writes an entry: a tag and a payload.
* **`Entry.read`** reads one. -/

namespace JvmCode

/-- What a method handle does with the member it refers to. -/
inductive HandleKind where
  /-- Read an instance field. -/
  | getField
  /-- Read a static field. -/
  | getStatic
  /-- Write an instance field. -/
  | putField
  /-- Write a static field. -/
  | putStatic
  /-- Call a method on the receiver's class. -/
  | invokeVirtual
  /-- Call a static method. -/
  | invokeStatic
  /-- Call a method of a fixed class. -/
  | invokeSpecial
  /-- Create an object and call its constructor. -/
  | newInvokeSpecial
  /-- Call an interface method. -/
  | invokeInterface
  deriving DecidableEq, Repr, Hashable

namespace HandleKind

/-- The kinds in the order of their codes. -/
def all : List HandleKind :=
  [.getField, .getStatic, .putField, .putStatic, .invokeVirtual, .invokeStatic, .invokeSpecial,
    .newInvokeSpecial, .invokeInterface]

/-- The byte a kind is written as. -/
def code : HandleKind → UInt8
  | .getField => 1
  | .getStatic => 2
  | .putField => 3
  | .putStatic => 4
  | .invokeVirtual => 5
  | .invokeStatic => 6
  | .invokeSpecial => 7
  | .newInvokeSpecial => 8
  | .invokeInterface => 9

/-- The name of a kind in listings. -/
def name : HandleKind → String
  | .getField => "GetField"
  | .getStatic => "GetStatic"
  | .putField => "PutField"
  | .putStatic => "PutStatic"
  | .invokeVirtual => "InvokeVirtual"
  | .invokeStatic => "InvokeStatic"
  | .invokeSpecial => "InvokeSpecial"
  | .newInvokeSpecial => "NewInvokeSpecial"
  | .invokeInterface => "InvokeInterface"

/-- The kind with a name. -/
def ofName? (name : String) : Option HandleKind := all.find? fun kind => kind.name == name

/-- The kind a byte stands for. -/
def ofCode? (code : UInt8) : Option HandleKind := all.find? fun kind => kind.code == code

/-- The code determines the kind. -/
@[simp] theorem ofCode?_code (kind : HandleKind) : ofCode? kind.code = some kind := by
  cases kind <;> rfl

/-- Read a kind. -/
def read : Reader HandleKind := do
  let code ← Reader.u1
  match ofCode? code with
  | some kind => return kind
  | none => Reader.fail (.pool (.unknownHandleKind code))

end HandleKind

/-- What a member reference refers to. -/
inductive MemberKind where
  /-- A field. -/
  | field
  /-- A method of a class. -/
  | method
  /-- A method of an interface. -/
  | interfaceMethod
  deriving DecidableEq, Repr, Hashable

/-- The name of a member kind in listings. -/
def MemberKind.name : MemberKind → String
  | .field => "Field"
  | .method => "Method"
  | .interfaceMethod => "InterfaceMethod"

/-- An entry of a constant pool. -/
inductive Entry where
  /-- A text. -/
  | text (value : String)
  /-- An `int`. -/
  | integer (value : Int32)
  /-- A `float`, by its IEEE 754 bits. -/
  | float (bits : UInt32)
  /-- A `long`. -/
  | long (value : Int64)
  /-- A `double`, by its IEEE 754 bits. -/
  | double (bits : UInt64)
  /-- A class or interface by the index of its name. -/
  | classRef (name : UInt16)
  /-- A string by the index of its text. -/
  | string (text : UInt16)
  /-- A field or method by the indexes of its class and its name with type. -/
  | member (kind : MemberKind) (owner nameAndType : UInt16)
  /-- A name with a descriptor, by their indexes. -/
  | nameAndType (name descriptor : UInt16)
  /-- A method handle, by the index of the member it refers to. -/
  | methodHandle (kind : HandleKind) (reference : UInt16)
  /-- A method type by the index of its descriptor. -/
  | methodType (descriptor : UInt16)
  /-- A dynamically computed constant. -/
  | dynamic (bootstrap nameAndType : UInt16)
  /-- A dynamically computed call site. -/
  | callSite (bootstrap nameAndType : UInt16)
  /-- A module by the index of its name. -/
  | moduleRef (name : UInt16)
  /-- A package by the index of its name. -/
  | packageRef (name : UInt16)
  deriving DecidableEq, Repr, Hashable

namespace Entry

/-- Whether an entry takes two slots. -/
def isWide : Entry → Bool
  | .long _ | .double _ => true
  | _ => false

/-- The number of slots an entry takes. -/
def width (entry : Entry) : Nat := if entry.isWide then 2 else 1

/-- Every entry takes at least one slot. -/
theorem width_pos (entry : Entry) : 0 < entry.width := by
  unfold width
  split <;> decide

/-- The name of the kind of an entry in listings. -/
def kindName : Entry → String
  | .text _ => "Utf8"
  | .integer _ => "Integer"
  | .float _ => "Float"
  | .long _ => "Long"
  | .double _ => "Double"
  | .classRef _ => "Class"
  | .string _ => "String"
  | .member .field _ _ => "Fieldref"
  | .member .method _ _ => "Methodref"
  | .member .interfaceMethod _ _ => "InterfaceMethodref"
  | .nameAndType _ _ => "NameAndType"
  | .methodHandle _ _ => "MethodHandle"
  | .methodType _ => "MethodType"
  | .dynamic _ _ => "Dynamic"
  | .callSite _ _ => "InvokeDynamic"
  | .moduleRef _ => "Module"
  | .packageRef _ => "Package"

/-- The byte that announces the kind of an entry. -/
def tag : Entry → UInt8
  | .text _ => 1
  | .integer _ => 3
  | .float _ => 4
  | .long _ => 5
  | .double _ => 6
  | .classRef _ => 7
  | .string _ => 8
  | .member .field _ _ => 9
  | .member .method _ _ => 10
  | .member .interfaceMethod _ _ => 11
  | .nameAndType _ _ => 12
  | .methodHandle _ _ => 15
  | .methodType _ => 16
  | .dynamic _ _ => 17
  | .callSite _ _ => 18
  | .moduleRef _ => 19
  | .packageRef _ => 20

/-- The bytes of a text behind the length field that counts them. -/
def textPayload (bytes : List UInt8) : List UInt8 :=
  BigEndian.u2 (UInt16.ofNat bytes.length) ++ bytes

/-- The bytes behind the tag. -/
def payload : Entry → List UInt8
  | .text value => textPayload (ModifiedUtf8.encode value)
  | .integer value => BigEndian.i4 value
  | .float bits => BigEndian.u4 bits
  | .long value => BigEndian.i8 value
  | .double bits => BigEndian.u8 bits
  | .classRef name | .moduleRef name | .packageRef name => BigEndian.u2 name
  | .string value => BigEndian.u2 value
  | .member _ owner described => BigEndian.u2 owner ++ BigEndian.u2 described
  | .nameAndType named typed => BigEndian.u2 named ++ BigEndian.u2 typed
  | .methodHandle kind reference => kind.code :: BigEndian.u2 reference
  | .methodType descriptor => BigEndian.u2 descriptor
  | .dynamic bootstrap described | .callSite bootstrap described =>
      BigEndian.u2 bootstrap ++ BigEndian.u2 described

/-- The bytes of an entry. -/
def encode (entry : Entry) : List UInt8 := entry.tag :: entry.payload

/-- Read a text behind its length. -/
def readText : Reader Entry := do
  let length ← Reader.u2
  let bytes ← Reader.take length.toNat
  match ModifiedUtf8.decode? bytes.toList with
  | some value => return .text value
  | none => Reader.fail (.pool .invalidText)

/-- Read two indexes. -/
def readPair (make : UInt16 → UInt16 → Entry) : Reader Entry := do
  let first ← Reader.u2
  let second ← Reader.u2
  return make first second

/-- Read what stands behind a tag. -/
def readPayload (tag : UInt8) : Reader Entry :=
  match tag.toNat with
  | 1 => readText
  | 3 => do return .integer (← Reader.i4)
  | 4 => do return .float (← Reader.u4)
  | 5 => do return .long (← Reader.i8)
  | 6 => do return .double (← Reader.u8)
  | 7 => do return .classRef (← Reader.u2)
  | 8 => do return .string (← Reader.u2)
  | 9 => readPair (.member .field)
  | 10 => readPair (.member .method)
  | 11 => readPair (.member .interfaceMethod)
  | 12 => readPair .nameAndType
  | 15 => do
      let kind ← HandleKind.read
      return .methodHandle kind (← Reader.u2)
  | 16 => do return .methodType (← Reader.u2)
  | 17 => readPair .dynamic
  | 18 => readPair .callSite
  | 19 => do return .moduleRef (← Reader.u2)
  | 20 => do return .packageRef (← Reader.u2)
  | _ => Reader.fail (.pool (.unknownTag tag))

/-- Read an entry; running out of bytes is reported where the entry starts. -/
def read : Reader Entry := do
  Reader.markHere
  let tag ← Reader.u1
  readPayload tag

end Entry

end JvmCode
