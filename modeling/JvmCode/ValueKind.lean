/-! # Value kinds

The categories a local variable, an operand or an array element may have.

* **`ValueKind`** are the ten categories, `void` among them as the kind of "no value".
* **`Primitive`** are the eight primitive types: the element types of `newarray` and the base types of
  descriptors. `Primitive.kind` embeds them into the value kinds and `Primitive.ofKind?` is its
  partial inverse. -/

namespace JvmCode

/-- The categories a value may have. -/
inductive ValueKind where
  /-- Signed 8-bit integers. -/
  | byte
  /-- Signed 16-bit integers. -/
  | short
  /-- Unsigned 16-bit code units. -/
  | char
  /-- Signed 32-bit integers. -/
  | int
  /-- Signed 64-bit integers. -/
  | long
  /-- Single precision floating point numbers. -/
  | float
  /-- Double precision floating point numbers. -/
  | double
  /-- Truth values. -/
  | boolean
  /-- Objects and arrays. -/
  | reference
  /-- The absence of a value; only meaningful as what a method returns. -/
  | void
  deriving DecidableEq, Repr, Ord, Hashable

namespace ValueKind

/-- The kinds in declaration order. -/
def all : List ValueKind :=
  [.byte, .short, .char, .int, .long, .float, .double, .boolean, .reference, .void]

/-- The name of a kind in messages. -/
def name : ValueKind → String
  | .byte => "Byte"
  | .short => "Short"
  | .char => "Char"
  | .int => "Int"
  | .long => "Long"
  | .float => "Float"
  | .double => "Double"
  | .boolean => "Boolean"
  | .reference => "Reference"
  | .void => "Void"

/-- The kind with a name. -/
def ofName? (name : String) : Option ValueKind := all.find? fun kind => kind.name == name

/-- How many local variable or stack slots a value takes. -/
def slotSize : ValueKind → UInt16
  | .void => 0
  | .long | .double => 2
  | _ => 1

/-- The character that stands for a kind in descriptors; references use `L`. -/
def descriptorChar : ValueKind → Char
  | .byte => 'B'
  | .short => 'S'
  | .char => 'C'
  | .int => 'I'
  | .long => 'J'
  | .float => 'F'
  | .double => 'D'
  | .boolean => 'Z'
  | .reference => 'L'
  | .void => 'V'

/-- The kind a descriptor starting with this character denotes; an array is a reference. -/
def ofDescriptorChar? : Char → Option ValueKind
  | 'B' => some .byte
  | 'S' => some .short
  | 'C' => some .char
  | 'I' => some .int
  | 'J' => some .long
  | 'F' => some .float
  | 'D' => some .double
  | 'Z' => some .boolean
  | 'L' => some .reference
  | '[' => some .reference
  | 'V' => some .void
  | _ => none

/-- The kind a value has on the stack and in local variables: small integers widen to `int`. -/
def loadable : ValueKind → ValueKind
  | .byte | .short | .char | .boolean => .int
  | kind => kind

/-- Whether values of the kind are primitive. -/
def isPrimitive : ValueKind → Bool
  | .reference | .void => false
  | _ => true

/-- Widening is idempotent. -/
@[simp] theorem loadable_loadable (kind : ValueKind) : kind.loadable.loadable = kind.loadable := by
  cases kind <;> rfl

/-- The name determines the kind. -/
@[simp] theorem ofName?_name (kind : ValueKind) : ofName? kind.name = some kind := by
  cases kind <;> decide

/-- A descriptor character is read as the kind that is written with it, and a bracket as a reference. -/
theorem ofDescriptorChar?_eq_some_iff {c : Char} {kind : ValueKind} :
    ofDescriptorChar? c = some kind ↔ kind.descriptorChar = c ∨ c = '[' ∧ kind = .reference := by
  constructor
  · intro h
    unfold ofDescriptorChar? at h
    split at h <;> cases h <;> simp [descriptorChar]
  · rintro (rfl | ⟨rfl, rfl⟩)
    · cases kind <;> rfl
    · rfl

end ValueKind

/-- The primitive types. -/
inductive Primitive where
  /-- Truth values. -/
  | boolean
  /-- Unsigned 16-bit code units. -/
  | char
  /-- Single precision floating point numbers. -/
  | float
  /-- Double precision floating point numbers. -/
  | double
  /-- Signed 8-bit integers. -/
  | byte
  /-- Signed 16-bit integers. -/
  | short
  /-- Signed 32-bit integers. -/
  | int
  /-- Signed 64-bit integers. -/
  | long
  deriving DecidableEq, Repr, Hashable

namespace Primitive

/-- The primitive types in the order of their array codes. -/
def all : List Primitive := [.boolean, .char, .float, .double, .byte, .short, .int, .long]

/-- The value kind of a primitive type. -/
def kind : Primitive → ValueKind
  | .boolean => .boolean
  | .char => .char
  | .float => .float
  | .double => .double
  | .byte => .byte
  | .short => .short
  | .int => .int
  | .long => .long

/-- The primitive type of a kind, if it is primitive. -/
def ofKind? : ValueKind → Option Primitive
  | .boolean => some .boolean
  | .char => some .char
  | .float => some .float
  | .double => some .double
  | .byte => some .byte
  | .short => some .short
  | .int => some .int
  | .long => some .long
  | .reference | .void => none

/-- The operand of `newarray` that asks for elements of this type. -/
def arrayCode : Primitive → UInt8
  | .boolean => 4
  | .char => 5
  | .float => 6
  | .double => 7
  | .byte => 8
  | .short => 9
  | .int => 10
  | .long => 11

/-- The element type a `newarray` operand asks for. -/
def ofArrayCode? (code : UInt8) : Option Primitive :=
  all.find? fun type => type.arrayCode == code

/-- The character that stands for the type in descriptors. -/
def descriptorChar (type : Primitive) : Char := type.kind.descriptorChar

/-- The primitive type a descriptor character stands for. -/
def ofDescriptorChar? (c : Char) : Option Primitive := (ValueKind.ofDescriptorChar? c).bind ofKind?

/-- A kind is that of a primitive type exactly when the type is found for it. -/
theorem ofKind?_eq_some_iff {kind : ValueKind} {type : Primitive} :
    ofKind? kind = some type ↔ type.kind = kind := by
  cases kind <;> cases type <;> decide

/-- The array code determines the type. -/
@[simp] theorem ofArrayCode?_arrayCode (type : Primitive) :
    ofArrayCode? type.arrayCode = some type := by
  cases type <;> rfl

/-- A type found for an array code has that code. -/
theorem arrayCode_of_ofArrayCode? {code : UInt8} {type : Primitive}
    (h : ofArrayCode? code = some type) : type.arrayCode = code := by
  simpa using List.find?_some h

/-- A descriptor character is read as the primitive type that is written with it. -/
theorem ofDescriptorChar?_eq_some_iff {c : Char} {type : Primitive} :
    ofDescriptorChar? c = some type ↔ type.descriptorChar = c := by
  simp only [ofDescriptorChar?, Option.bind_eq_some_iff, ofKind?_eq_some_iff,
    ValueKind.ofDescriptorChar?_eq_some_iff]
  constructor
  · rintro ⟨kind, written | ⟨-, array⟩, rfl⟩
    · exact written
    · cases type <;> cases array
  · intro written
    exact ⟨type.kind, .inl written, rfl⟩

end Primitive

end JvmCode
