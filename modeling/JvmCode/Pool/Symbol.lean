import JvmCode.Descriptor
import JvmCode.Pool.Entry

/-! # Symbols

What entries of a constant pool stand for once their indexes have been followed.

* **`ClassRef`**, **`MemberRef`** and **`CallSite`** are resolved classes, members and call sites; each
  remembers the index that it was found at.
* **`Constant`** is a value that an instruction pushes, and **`Loadable`** one found in the pool. -/

namespace JvmCode

/-- A resolved class. -/
structure ClassRef where
  /-- The index of the class. -/
  index : UInt16
  /-- The internal name, or the descriptor of an array class. -/
  name : String
  deriving DecidableEq, Repr

/-- The text of a class in listings. -/
def ClassRef.render (ref : ClassRef) : String := "#" ++ toString ref.index.toNat ++ " " ++ ref.name

/-- A resolved field or method. -/
structure MemberRef where
  /-- The index of the member. -/
  index : UInt16
  /-- What the member is. -/
  kind : MemberKind
  /-- The class that the member belongs to. -/
  owner : ClassRef
  /-- The name of the member. -/
  name : String
  /-- The descriptor of the member. -/
  descriptor : String
  deriving DecidableEq, Repr

/-- The text of a member in listings. -/
def MemberRef.render (ref : MemberRef) : String :=
  "#" ++ toString ref.index.toNat ++ " " ++ ref.owner.name ++ "." ++ ref.name ++ ":"
    ++ ref.descriptor

/-- A resolved call site. -/
structure CallSite where
  /-- The index of the call site. -/
  index : UInt16
  /-- The number of its bootstrap method. -/
  bootstrap : UInt16
  /-- The name of the call site. -/
  name : String
  /-- The method descriptor of the call site. -/
  descriptor : String
  deriving DecidableEq, Repr

/-- A value that an instruction pushes. Floating point values are held by their bits. -/
inductive Constant where
  /-- The null reference. -/
  | null
  /-- An `int`. -/
  | integer (value : Int32)
  /-- A `float`, by its bits. -/
  | float (bits : UInt32)
  /-- A `long`. -/
  | long (value : Int64)
  /-- A `double`, by its bits. -/
  | double (bits : UInt64)
  /-- A string. -/
  | string (value : String)
  /-- A class by internal name. -/
  | classLiteral (name : String)
  /-- A method type by descriptor. -/
  | methodType (descriptor : String)
  /-- A method handle. -/
  | methodHandle (kind : HandleKind) (reference : MemberRef)
  /-- A dynamically computed constant. -/
  | dynamic (bootstrap : UInt16) (name descriptor : String)
  deriving DecidableEq, Repr

namespace Constant

/-- Whether pushing the value takes the two-slot form. -/
def isWide : Constant → Bool
  | .long _ | .double _ => true
  | .dynamic _ _ descriptor => descriptor == "J" || descriptor == "D"
  | _ => false

/-- The kind that the value has on the stack. A dynamic constant whose descriptor does not parse counts
as a reference. -/
def kind : Constant → ValueKind
  | .integer _ => .int
  | .float _ => .float
  | .long _ => .long
  | .double _ => .double
  | .dynamic _ _ descriptor =>
      match FieldType.kindOf? descriptor with
      | some kind => kind.loadable
      | none => .reference
  | .null | .string _ | .classLiteral _ | .methodType _ | .methodHandle _ _ => .reference

end Constant

/-- A constant found in the pool. -/
structure Loadable where
  /-- The index of the constant. -/
  index : UInt16
  /-- What the constant is. -/
  value : Constant
  deriving DecidableEq, Repr

end JvmCode
