import JvmCode.ValueKind

/-! # Descriptors

The types of fields and methods as text.

* **`FieldType`** is an array rank over a **`LeafType`**: a primitive type or a class by name.
* **`MethodDescriptor`** is a list of parameter types and a return type, `none` for `void`.
* **`FieldType.parse?`** and **`MethodDescriptor.parse?`** read descriptors; `FieldType.chars` and
  `MethodDescriptor.chars` write them. -/

namespace JvmCode

/-- A type that is not an array. -/
inductive LeafType where
  /-- A primitive type. -/
  | primitive (type : Primitive)
  /-- A class by its internal name. -/
  | object (name : String)
  deriving DecidableEq, Repr

/-- A type of a field, a parameter or an array. -/
structure FieldType where
  /-- The number of array dimensions, zero for a type that is not an array. -/
  rank : Nat
  /-- What the innermost elements are. -/
  leaf : LeafType
  deriving DecidableEq, Repr

namespace LeafType

/-- The value kind of a type that is not an array. -/
def kind : LeafType → ValueKind
  | .primitive type => type.kind
  | .object _ => .reference

/-- The descriptor of a type that is not an array. -/
def chars : LeafType → List Char
  | .primitive type => [type.descriptorChar]
  | .object name => 'L' :: name.toList ++ [';']

/-- Read a type that is not an array, with the characters behind it. A class name ends at the first
semicolon and is not empty. -/
def parseFrom? : List Char → Option (LeafType × List Char)
  | [] => none
  | 'L' :: rest =>
      match rest.takeWhile (· ≠ ';'), rest.dropWhile (· ≠ ';') with
      -- The name has a first character, and a semicolon was found behind it.
      | first :: name, _ :: after => some (.object (String.ofList (first :: name)), after)
      | _, _ => none
  | c :: rest => (Primitive.ofDescriptorChar? c).map fun type => (.primitive type, rest)

/-- Reading a leaf uses at least one character. -/
theorem length_of_parseFrom? {chars after : List Char} {leaf : LeafType}
    (h : parseFrom? chars = some (leaf, after)) : after.length < chars.length := by
  unfold parseFrom? at h
  split at h
  · simp at h
  · rename_i rest
    split at h
    · rename_i name tail shape split
      simp only [Option.some.injEq, Prod.mk.injEq] at h
      have short := (List.dropWhile_suffix (l := rest) (· ≠ ';')).length_le
      rw [split, h.2] at short
      simp at short ⊢
      omega
    · simp at h
  · simp only [Option.map_eq_some_iff, Prod.mk.injEq] at h
    obtain ⟨type, -, -, rfl⟩ := h
    simp

end LeafType

namespace FieldType

/-- The value kind of a type: every array is a reference. -/
def kind (type : FieldType) : ValueKind :=
  if type.rank = 0 then type.leaf.kind else .reference

/-- The descriptor of a type: one bracket for each array dimension before the leaf. -/
def chars (type : FieldType) : List Char := List.replicate type.rank '[' ++ type.leaf.chars

/-- Read a type, with the characters behind it. -/
def parseFrom? (chars : List Char) : Option (FieldType × List Char) :=
  (LeafType.parseFrom? (chars.dropWhile (· = '['))).map fun (leaf, rest) =>
    (⟨(chars.takeWhile (· = '[')).length, leaf⟩, rest)

/-- Reading a type uses at least one character. -/
theorem length_of_parseFrom? {chars after : List Char} {type : FieldType}
    (h : parseFrom? chars = some (type, after)) : after.length < chars.length := by
  simp only [parseFrom?, Option.map_eq_some_iff, Prod.mk.injEq] at h
  obtain ⟨⟨leaf, rest⟩, read, -, rfl⟩ := h
  have used := LeafType.length_of_parseFrom? read
  have short := (List.dropWhile_suffix (l := chars) (· = '[')).length_le
  exact Nat.lt_of_lt_of_le used short

/-- Read a type that takes all the characters. -/
def ofChars? (chars : List Char) : Option FieldType :=
  match parseFrom? chars with
  | some (type, []) => some type
  | _ => none

/-- Read a complete field descriptor. -/
def parse? (descriptor : String) : Option FieldType := ofChars? descriptor.toList

/-- The value kind of a field descriptor, if it is one. -/
def kindOf? (descriptor : String) : Option ValueKind := (parse? descriptor).map kind

end FieldType

/-- The types a method takes and gives. -/
structure MethodDescriptor where
  /-- The parameter types in order, without the receiver. -/
  parameters : Array FieldType
  /-- The type of the result, `none` for `void`. -/
  result : Option FieldType
  deriving DecidableEq, Repr

namespace MethodDescriptor

/-- The descriptor of a method. -/
def chars (method : MethodDescriptor) : List Char :=
  '(' :: method.parameters.toList.flatMap FieldType.chars ++ ')' ::
    match method.result with
    | some type => type.chars
    | none => ['V']

/-- Read parameter types up to the closing bracket, behind those already read. -/
def parametersFrom? (chars : List Char) (types : Array FieldType) :
    Option (Array FieldType × List Char) :=
  match chars with
  | ')' :: rest => some (types, rest)
  | chars =>
      match h : FieldType.parseFrom? chars with
      | none => none
      | some (type, rest) =>
          have := FieldType.length_of_parseFrom? h
          parametersFrom? rest (types.push type)
termination_by chars.length

/-- Read the result of a method: `some none` stands for `void`. -/
def resultOf? : List Char → Option (Option FieldType)
  | ['V'] => some none
  | chars => (FieldType.ofChars? chars).map some

/-- Read a complete method descriptor. -/
def ofChars? : List Char → Option MethodDescriptor
  | '(' :: rest => do
      let (parameters, rest) ← parametersFrom? rest .empty
      let result ← resultOf? rest
      return ⟨parameters, result⟩
  | _ => none

/-- Read a complete method descriptor. -/
def parse? (descriptor : String) : Option MethodDescriptor := ofChars? descriptor.toList

/-- The slots that the parameters take, without the receiver. Slots are numbered by 16-bit words, and
are counted by them: beyond 65535 the count starts again at zero. -/
def parameterSlots (method : MethodDescriptor) : UInt16 :=
  method.parameters.foldl (fun slots type => slots + type.kind.slotSize) 0

/-- The value kind of the result. -/
def resultKind (method : MethodDescriptor) : ValueKind :=
  match method.result with
  | some type => type.kind
  | none => .void

end MethodDescriptor

end JvmCode
