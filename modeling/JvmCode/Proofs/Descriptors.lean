import JvmCode.Descriptor

/-! # The grammar of descriptors

Descriptors are parsed exactly as their grammar says: what is parsed is what would be written for the result,
and nothing is left over.

* **`TypeTree`** and **`MethodTree`** are types as the grammar has them, an array around its component, with
  their printers **`TypeTree.render`** and **`MethodTree.render`**. **`TypeTree.Legal`** leaves out what no
  descriptor says.
* **`FieldType.tree`** and **`MethodDescriptor.tree`** are the trees of the types that parsing gives.
* `parseFrom?_eq_some_iff`, for leaves and for types, and `parametersFrom?_eq_some_iff`: what is parsed off the
  front of some characters.
* `parse?_accepts_grammar` puts them together. -/

namespace JvmCode

/-! ## Leaves -/

namespace LeafType

/-- A class name is not empty and does not end early. -/
def WellNamed : LeafType → Prop
  | .primitive _ => True
  | .object name => name ≠ "" ∧ ';' ∉ name.toList

/-- A class name is what stands before the first semicolon. -/
theorem parseFrom?_class {name rest : List Char} (nonempty : name ≠ []) (unbroken : ';' ∉ name) :
    parseFrom? ('L' :: name ++ ';' :: rest) = some (.object (String.ofList name), rest) := by
  have inside : ∀ c ∈ name, decide (c ≠ ';') = true := by
    intro c mem
    rw [decide_eq_true_eq]
    rintro rfl
    exact unbroken mem
  have taken : (name ++ ';' :: rest).takeWhile (· ≠ ';') = name := by
    rw [List.takeWhile_append_of_pos inside]
    simp
  have dropped : (name ++ ';' :: rest).dropWhile (· ≠ ';') = ';' :: rest := by
    rw [List.dropWhile_append_of_pos inside]
    simp
  obtain ⟨first, others, rfl⟩ := List.exists_cons_of_ne_nil nonempty
  simp only [List.cons_append] at taken dropped ⊢
  simp only [parseFrom?, taken, dropped]

/-- A leaf is parsed off its own characters. -/
theorem parseFrom?_chars {leaf : LeafType} (named : leaf.WellNamed) (rest : List Char) :
    parseFrom? (leaf.chars ++ rest) = some (leaf, rest) := by
  cases leaf with
  | primitive type => cases type <;> rfl
  | object name =>
      obtain ⟨nonempty, unbroken⟩ := named
      have parsed : parseFrom? ('L' :: name.toList ++ ';' :: rest) = _ :=
        parseFrom?_class (by simpa using nonempty) unbroken
      simpa [chars] using parsed

/-- What is parsed off the front of some characters is what they start with. -/
theorem eq_append_of_parseFrom? {chars rest : List Char} {leaf : LeafType}
    (h : parseFrom? chars = some (leaf, rest)) : leaf.WellNamed ∧ chars = leaf.chars ++ rest := by
  unfold parseFrom? at h
  split at h
  · cases h
  · rename_i tail
    split at h
    · rename_i first name last after taken dropped
      obtain ⟨rfl, rfl⟩ : LeafType.object (String.ofList (first :: name)) = leaf ∧ after = rest := by
        simpa using h
      have ends : last = ';' := by
        have stops := List.head?_dropWhile_not (· ≠ ';') tail
        rw [dropped] at stops
        simpa using stops
      have unbroken : ';' ∉ first :: name := by
        intro mem
        have inside := List.all_takeWhile (p := (· ≠ ';')) (l := tail)
        rw [taken, List.all_eq_true] at inside
        simpa using inside _ mem
      have whole := List.takeWhile_append_dropWhile (p := (· ≠ ';')) (l := tail)
      rw [taken, dropped, ends] at whole
      exact ⟨⟨by simp, by simpa using unbroken⟩, by simp [LeafType.chars, ← whole]⟩
    · cases h
  · simp only [Option.map_eq_some_iff, Prod.mk.injEq] at h
    obtain ⟨type, found, rfl, rfl⟩ := h
    exact ⟨trivial, by simp [LeafType.chars, Primitive.ofDescriptorChar?_eq_some_iff.mp found]⟩

/-- A leaf is parsed off the front of some characters exactly when they start with its own. -/
theorem parseFrom?_eq_some_iff {chars rest : List Char} {leaf : LeafType} :
    parseFrom? chars = some (leaf, rest) ↔ leaf.WellNamed ∧ chars = leaf.chars ++ rest := by
  constructor
  · exact eq_append_of_parseFrom?
  · rintro ⟨named, rfl⟩
    exact parseFrom?_chars named rest

/-- No leaf starts with a bracket. -/
theorem takeWhile_bracket_chars (leaf : LeafType) (rest : List Char) :
    (leaf.chars ++ rest).takeWhile (· = '[') = [] := by
  cases leaf with
  | primitive type => cases type <;> rfl
  | object name => rfl

end LeafType

/-! ## Types -/

namespace FieldType

/-- A type is parsed off the front of some characters exactly when they start with its own. -/
theorem parseFrom?_eq_some_iff {chars rest : List Char} {type : FieldType} :
    parseFrom? chars = some (type, rest) ↔ type.leaf.WellNamed ∧ chars = type.chars ++ rest := by
  simp only [parseFrom?, Option.map_eq_some_iff, Prod.mk.injEq, Prod.exists]
  constructor
  · rintro ⟨leaf, after, parsed, rfl, rfl⟩
    obtain ⟨named, shape⟩ := LeafType.parseFrom?_eq_some_iff.mp parsed
    refine ⟨named, ?_⟩
    have brackets : chars.takeWhile (· = '[') = List.replicate (chars.takeWhile (· = '[')).length '[' := by
      rw [List.eq_replicate_iff]
      have inside := List.all_takeWhile (p := (· = '[')) (l := chars)
      exact ⟨rfl, fun c mem => by simpa using List.all_eq_true.mp inside c mem⟩
    have whole := List.takeWhile_append_dropWhile (p := (· = '[')) (l := chars)
    rw [shape, brackets] at whole
    rw [FieldType.chars, List.append_assoc, whole]
  · rintro ⟨named, rfl⟩
    have inside : ∀ c ∈ List.replicate type.rank '[', decide (c = '[') = true := by simp
    have taken : (type.chars ++ rest).takeWhile (· = '[') = List.replicate type.rank '[' := by
      rw [FieldType.chars, List.append_assoc, List.takeWhile_append_of_pos inside,
        LeafType.takeWhile_bracket_chars, List.append_nil]
    have dropped : (type.chars ++ rest).dropWhile (· = '[') = type.leaf.chars ++ rest := by
      have whole := List.takeWhile_append_dropWhile (p := (· = '[')) (l := type.chars ++ rest)
      rw [taken, FieldType.chars, List.append_assoc] at whole
      simpa [FieldType.chars] using whole
    refine ⟨type.leaf, rest, ?_, ?_, rfl⟩
    · rw [dropped]
      exact LeafType.parseFrom?_chars named rest
    · rw [taken, List.length_replicate]

/-- The rank of a type is how many brackets its descriptor starts with. -/
theorem rank_eq_of_parseFrom? {chars rest : List Char} {type : FieldType}
    (h : parseFrom? chars = some (type, rest)) : type.rank = (chars.takeWhile (· = '[')).length := by
  simp only [parseFrom?, Option.map_eq_some_iff, Prod.mk.injEq, Prod.exists] at h
  obtain ⟨leaf, after, -, rfl, -⟩ := h
  rfl

/-- Complete parsing leaves nothing behind. -/
theorem ofChars?_eq_some_iff_parseFrom? {chars : List Char} {type : FieldType} :
    ofChars? chars = some type ↔ parseFrom? chars = some (type, []) := by
  unfold ofChars?
  split
  · rename_i parsed
    simp [parsed]
  · rename_i more
    constructor
    · intro h
      cases h
    · intro h
      exact absurd h (more type)

/-- A type is parsed from its own characters only. -/
theorem ofChars?_eq_some_iff {chars : List Char} {type : FieldType} :
    ofChars? chars = some type ↔ type.leaf.WellNamed ∧ chars = type.chars := by
  rw [ofChars?_eq_some_iff_parseFrom?, parseFrom?_eq_some_iff, List.append_nil]

end FieldType

/-! ## Methods -/

namespace MethodDescriptor

/-- All class names of a method's types are well formed. -/
def WellNamed (method : MethodDescriptor) : Prop :=
  (∀ type ∈ method.parameters.toList, type.leaf.WellNamed) ∧ ∀ type ∈ method.result, type.leaf.WellNamed

/-- A type is not parsed off a closing bracket, so it is a parameter. -/
theorem parametersFrom?_of_parseFrom? {chars rest : List Char} {type : FieldType}
    (parsed : FieldType.parseFrom? chars = some (type, rest)) (types : Array FieldType) :
    parametersFrom? chars types = parametersFrom? rest (types.push type) := by
  rw [parametersFrom?]
  · split
    · rename_i none
      rw [parsed] at none
      cases none
    · rename_i some
      rw [parsed] at some
      cases some
      rfl
  · rintro tail rfl
    cases parsed

/-- Parameters are parsed exactly from their characters, one after the other, and the closing bracket. -/
theorem parametersFrom?_eq_some_iff {chars rest : List Char} {types all : Array FieldType} :
    parametersFrom? chars types = some (all, rest) ↔
      ∃ new : List FieldType, (∀ type ∈ new, type.leaf.WellNamed) ∧ all = types ++ new.toArray ∧
        chars = new.flatMap FieldType.chars ++ ')' :: rest := by
  constructor
  · intro h
    fun_induction parametersFrom? chars types with
    | case1 types tail =>
        cases h
        exact ⟨[], by simp⟩
    | case2 => cases h
    | case3 types chars notClosed type tail parsed short ih =>
        obtain ⟨new, named, rfl, rfl⟩ := ih h
        obtain ⟨typeNamed, rfl⟩ := FieldType.parseFrom?_eq_some_iff.mp parsed
        refine ⟨type :: new, ?_, by simp, by simp⟩
        simpa using ⟨typeNamed, named⟩
  · rintro ⟨new, named, rfl, rfl⟩
    -- The parameters left to parse shrink from the front while those already parsed grow.
    induction new generalizing types with
    | nil => simp [parametersFrom?]
    | cons type new ih =>
        have parsed := FieldType.parseFrom?_eq_some_iff.mpr
          ⟨named type (by simp), List.append_assoc type.chars (new.flatMap FieldType.chars) (')' :: rest)⟩
        rw [List.flatMap_cons, parametersFrom?_of_parseFrom? parsed,
          ih (fun other mem => named other (by simp [mem]))]
        simp

/-- The result `void` is parsed exactly from its character. -/
theorem resultOf?_eq_void_iff {chars : List Char} : resultOf? chars = some none ↔ chars = ['V'] := by
  constructor
  · intro h
    unfold resultOf? at h
    split at h
    · rfl
    · simp at h
  · rintro rfl
    rfl

/-- A result is parsed from its own characters only. -/
theorem resultOf?_eq_some_iff {chars : List Char} {type : FieldType} :
    resultOf? chars = some (some type) ↔ type.leaf.WellNamed ∧ chars = type.chars := by
  rw [← FieldType.ofChars?_eq_some_iff]
  unfold resultOf?
  split
  · constructor
    · intro h
      cases h
    · -- `V` is the character of no type.
      intro h
      cases h
  · simp

/-- A method is parsed off an opening bracket: its parameters, and its result from what is left. -/
theorem ofChars?_eq_some_iff_parts {chars : List Char} {method : MethodDescriptor} :
    ofChars? chars = some method ↔
      ∃ tail rest, chars = '(' :: tail ∧ parametersFrom? tail #[] = some (method.parameters, rest) ∧
        resultOf? rest = some method.result := by
  unfold ofChars?
  split
  · rename_i tail
    simp only [Option.bind_eq_bind, Option.bind_eq_some_iff, Prod.exists]
    constructor
    · rintro ⟨parameters, rest, parsed, result, resulted, same⟩
      cases same
      exact ⟨tail, rest, rfl, parsed, resulted⟩
    · rintro ⟨_, rest, same, parsed, resulted⟩
      cases same
      exact ⟨method.parameters, rest, parsed, method.result, resulted, rfl⟩
  · rename_i unopened
    constructor
    · intro h
      cases h
    · rintro ⟨tail, rest, rfl, -⟩
      exact absurd rfl (unopened tail)

/-- A method is parsed from its own characters only. -/
theorem ofChars?_eq_some_iff {chars : List Char} {method : MethodDescriptor} :
    ofChars? chars = some method ↔ method.WellNamed ∧ chars = method.chars := by
  obtain ⟨parameters, result⟩ := method
  rw [ofChars?_eq_some_iff_parts]
  constructor
  · rintro ⟨tail, rest, rfl, parsed, resulted⟩
    obtain ⟨new, named, rfl, rfl⟩ := parametersFrom?_eq_some_iff.mp parsed
    cases result with
    | none =>
        obtain rfl := resultOf?_eq_void_iff.mp resulted
        exact ⟨⟨by simpa using named, by simp⟩, by simp [MethodDescriptor.chars]⟩
    | some type =>
        obtain ⟨typeNamed, rfl⟩ := resultOf?_eq_some_iff.mp resulted
        exact ⟨⟨by simpa using named, by simpa using typeNamed⟩, by simp [MethodDescriptor.chars]⟩
  · rintro ⟨⟨named, resultNamed⟩, rfl⟩
    refine ⟨_, _, rfl, parametersFrom?_eq_some_iff.mpr ⟨parameters.toList, named, by simp, rfl⟩, ?_⟩
    cases result with
    | none => exact resultOf?_eq_void_iff.mpr rfl
    | some type => exact resultOf?_eq_some_iff.mpr ⟨resultNamed type rfl, rfl⟩

end MethodDescriptor

/-! ## Trees -/

/-- A type as the grammar has it. Not every tree is the type of a descriptor. -/
inductive TypeTree where
  /-- A type that is written as one character. -/
  | base (kind : ValueKind)
  /-- A class by its internal name. -/
  | object (name : String)
  /-- An array by the type of its elements. -/
  | array (component : TypeTree)
  deriving DecidableEq, Repr

namespace TypeTree

/-- The descriptor of a type. -/
def render : TypeTree → List Char
  | base kind => [kind.descriptorChar]
  | object name => 'L' :: name.toList ++ [';']
  | array component => '[' :: component.render

/-- What a descriptor can say: base types are primitive, and class names are well formed. -/
def Legal : TypeTree → Prop
  | base kind => kind.isPrimitive = true
  | object name => name ≠ "" ∧ ';' ∉ name.toList
  | array component => component.Legal

instance decidableLegal : (type : TypeTree) → Decidable type.Legal
  | base kind => inferInstanceAs (Decidable (kind.isPrimitive = true))
  | object name => inferInstanceAs (Decidable (name ≠ "" ∧ ';' ∉ name.toList))
  | array component => decidableLegal component

/-- The kind of the innermost elements, if they are no objects. -/
def baseKind? : TypeTree → Option ValueKind
  | base kind => some kind
  | object _ => none
  | array component => component.baseKind?

/-- The number of array dimensions. -/
def dimensions : TypeTree → Nat
  | array component => 1 + component.dimensions
  | _ => 0

/-- The base kind of a legal type is primitive. -/
theorem Legal.ne_of_baseKind? {type : TypeTree} (legal : type.Legal) {kind : ValueKind}
    (found : type.baseKind? = some kind) : kind ≠ .reference ∧ kind ≠ .void := by
  induction type with
  | base other =>
      cases found
      constructor <;> (rintro rfl; cases legal)
  | object name => cases found
  | array component ih => exact ih legal found

end TypeTree

/-- The types of a method as the grammar has them. -/
structure MethodTree where
  /-- The parameter types in order. -/
  parameters : List TypeTree
  /-- The type of the result, `none` for `void`. -/
  result : Option TypeTree
  deriving DecidableEq, Repr

namespace MethodTree

/-- The descriptor of a method. -/
def render (method : MethodTree) : List Char :=
  '(' :: method.parameters.flatMap TypeTree.render ++ ')' ::
    match method.result with
    | some type => type.render
    | none => ['V']

/-- All the types of a method. -/
def types (method : MethodTree) : List TypeTree := method.parameters ++ method.result.toList

/-- What a method descriptor can say. -/
def Legal (method : MethodTree) : Prop := ∀ type ∈ method.types, type.Legal

instance (method : MethodTree) : Decidable method.Legal :=
  inferInstanceAs (Decidable (∀ type ∈ method.types, type.Legal))

end MethodTree

namespace FieldType

/-- So many arrays around a leaf. -/
def treeOf (leaf : LeafType) : Nat → TypeTree
  | 0 =>
      match leaf with
      | .primitive type => .base type.kind
      | .object name => .object name
  | rank + 1 => .array (treeOf leaf rank)

/-- The tree of a type. -/
def tree (type : FieldType) : TypeTree := treeOf type.leaf type.rank

/-- Types are written as their trees are. -/
theorem render_tree (type : FieldType) : type.tree.render = type.chars := by
  obtain ⟨rank, leaf⟩ := type
  induction rank with
  | zero => cases leaf <;> rfl
  | succ rank ih =>
      have step : (FieldType.mk (rank + 1) leaf).tree.render = '[' :: (FieldType.mk rank leaf).tree.render := rfl
      rw [step, ih]
      simp [chars, List.replicate_succ]

/-- The tree of a type is legal when its class name is well formed. -/
theorem legal_tree_iff (type : FieldType) : type.tree.Legal ↔ type.leaf.WellNamed := by
  obtain ⟨rank, leaf⟩ := type
  induction rank with
  | zero =>
      cases leaf with
      | primitive type => cases type <;> exact ⟨fun _ => trivial, fun _ => rfl⟩
      | object name => exact Iff.rfl
  | succ rank ih => exact ih

/-- The rank of a type is the number of dimensions of its tree. -/
theorem dimensions_tree (type : FieldType) : type.tree.dimensions = type.rank := by
  obtain ⟨rank, leaf⟩ := type
  induction rank with
  | zero => cases leaf <;> rfl
  | succ rank ih =>
      have step : (FieldType.mk (rank + 1) leaf).tree.dimensions = 1 + (FieldType.mk rank leaf).tree.dimensions :=
        rfl
      rw [step, ih, Nat.add_comm]

/-- Every legal tree is the tree of a type. -/
theorem exists_tree_eq {tree : TypeTree} (legal : tree.Legal) : ∃ type : FieldType, type.tree = tree := by
  induction tree with
  | base kind =>
      obtain ⟨type, found⟩ : ∃ type, Primitive.ofKind? kind = some type := by
        cases kind <;> first | exact ⟨_, rfl⟩ | cases legal
      exact ⟨⟨0, .primitive type⟩, congrArg TypeTree.base (Primitive.ofKind?_eq_some_iff.mp found)⟩
  | object name => exact ⟨⟨0, .object name⟩, rfl⟩
  | array component ih =>
      obtain ⟨type, rfl⟩ := ih legal
      exact ⟨⟨type.rank + 1, type.leaf⟩, rfl⟩

/-- Legal trees are the trees of types, one by one. -/
theorem exists_trees_eq {trees : List TypeTree} (legal : ∀ tree ∈ trees, tree.Legal) :
    ∃ types : List FieldType, types.map FieldType.tree = trees := by
  induction trees with
  | nil => exact ⟨[], rfl⟩
  | cons tree trees ih =>
      obtain ⟨type, rfl⟩ := exists_tree_eq (legal tree (by simp))
      obtain ⟨types, rfl⟩ := ih fun other mem => legal other (by simp [mem])
      exact ⟨type :: types, rfl⟩

/-- A type is parsed exactly from what its tree is written as. -/
theorem parse?_eq_some_iff {descriptor : String} {type : FieldType} :
    parse? descriptor = some type ↔
      type.tree.Legal ∧ descriptor = String.ofList type.tree.render := by
  rw [parse?, ofChars?_eq_some_iff, legal_tree_iff, render_tree, ← String.toList_inj, String.toList_ofList]

end FieldType

namespace MethodDescriptor

/-- The tree of a method. -/
def tree (method : MethodDescriptor) : MethodTree :=
  ⟨method.parameters.toList.map FieldType.tree, method.result.map FieldType.tree⟩

/-- Methods are written as their trees are. -/
theorem render_tree (method : MethodDescriptor) : method.tree.render = method.chars := by
  have parameters : method.tree.parameters.flatMap TypeTree.render =
      method.parameters.toList.flatMap FieldType.chars := by
    simp [tree, List.flatMap_map, FieldType.render_tree]
  rw [MethodTree.render, chars, parameters]
  cases found : method.result with
  | none => simp [tree, found]
  | some type => simp [tree, found, FieldType.render_tree]

/-- The tree of a method is legal when its class names are well formed. -/
theorem legal_tree_iff (method : MethodDescriptor) : method.tree.Legal ↔ method.WellNamed := by
  simp only [MethodTree.Legal, MethodTree.types, tree, List.mem_append, List.mem_map, Option.mem_toList,
    Option.map_eq_some_iff]
  constructor
  · intro legal
    exact ⟨fun type mem => (FieldType.legal_tree_iff type).mp (legal _ (.inl ⟨type, mem, rfl⟩)),
      fun type mem => (FieldType.legal_tree_iff type).mp (legal _ (.inr ⟨type, mem, rfl⟩))⟩
  · rintro ⟨named, resultNamed⟩ _ (⟨type, mem, rfl⟩ | ⟨type, mem, rfl⟩)
    · exact (FieldType.legal_tree_iff type).mpr (named type mem)
    · exact (FieldType.legal_tree_iff type).mpr (resultNamed type mem)

/-- Every legal tree is the tree of a method. -/
theorem exists_tree_eq {tree : MethodTree} (legal : tree.Legal) :
    ∃ method : MethodDescriptor, method.tree = tree := by
  obtain ⟨parameters, result⟩ := tree
  obtain ⟨types, rfl⟩ := FieldType.exists_trees_eq fun type (mem : type ∈ parameters) =>
    legal type (List.mem_append_left _ mem)
  cases result with
  | none => exact ⟨⟨types.toArray, none⟩, rfl⟩
  | some result =>
      obtain ⟨type, rfl⟩ := FieldType.exists_tree_eq (legal result (by simp [MethodTree.types]))
      exact ⟨⟨types.toArray, some type⟩, rfl⟩

/-- A method is parsed exactly from what its tree is written as. -/
theorem parse?_eq_some_iff {descriptor : String} {method : MethodDescriptor} :
    parse? descriptor = some method ↔
      method.tree.Legal ∧ descriptor = String.ofList method.tree.render := by
  rw [parse?, ofChars?_eq_some_iff, legal_tree_iff, render_tree, ← String.toList_inj, String.toList_ofList]

end MethodDescriptor

/-! ## Acceptance -/

/-- The parsers `FieldType.parse?` and `MethodDescriptor.parse?` accept exactly their grammars. A descriptor
parses to a `tree` exactly when the tree is `Legal` and the descriptor is `tree.render`. So no two descriptors
parse to the same types, no base kind is `.reference` or `.void`, and `dimensions` is the number of brackets in
front. -/
theorem parse?_accepts_grammar :
    (∀ (descriptor : String) (tree : TypeTree),
      (FieldType.parse? descriptor).map FieldType.tree = some tree ↔
        tree.Legal ∧ descriptor = String.ofList tree.render) ∧
    (∀ (descriptor : String) (tree : MethodTree),
      (MethodDescriptor.parse? descriptor).map MethodDescriptor.tree = some tree ↔
        tree.Legal ∧ descriptor = String.ofList tree.render) ∧
    (∀ (one other : String) (type : FieldType),
      FieldType.parse? one = some type → FieldType.parse? other = some type → one = other) ∧
    (∀ (one other : String) (method : MethodDescriptor),
      MethodDescriptor.parse? one = some method → MethodDescriptor.parse? other = some method → one = other) ∧
    (∀ (descriptor : String) (type : FieldType), FieldType.parse? descriptor = some type →
      (∀ kind, type.tree.baseKind? = some kind → kind ≠ .reference ∧ kind ≠ .void) ∧
      type.tree.dimensions = type.rank ∧
      type.rank = (descriptor.toList.takeWhile (· = '[')).length) ∧
    ∀ (descriptor : String) (method : MethodDescriptor), MethodDescriptor.parse? descriptor = some method →
      ∀ type ∈ method.tree.types, ∀ kind, type.baseKind? = some kind → kind ≠ .reference ∧ kind ≠ .void := by
  refine ⟨?_, ?_, ?_, ?_, ?_, ?_⟩
  · intro descriptor tree
    rw [Option.map_eq_some_iff]
    constructor
    · rintro ⟨type, parsed, rfl⟩
      exact FieldType.parse?_eq_some_iff.mp parsed
    · intro accepted
      obtain ⟨type, rfl⟩ := FieldType.exists_tree_eq accepted.1
      exact ⟨type, FieldType.parse?_eq_some_iff.mpr accepted, rfl⟩
  · intro descriptor tree
    rw [Option.map_eq_some_iff]
    constructor
    · rintro ⟨method, parsed, rfl⟩
      exact MethodDescriptor.parse?_eq_some_iff.mp parsed
    · intro accepted
      obtain ⟨method, rfl⟩ := MethodDescriptor.exists_tree_eq accepted.1
      exact ⟨method, MethodDescriptor.parse?_eq_some_iff.mpr accepted, rfl⟩
  · intro one other type first second
    rw [(FieldType.parse?_eq_some_iff.mp first).2, (FieldType.parse?_eq_some_iff.mp second).2]
  · intro one other method first second
    rw [(MethodDescriptor.parse?_eq_some_iff.mp first).2, (MethodDescriptor.parse?_eq_some_iff.mp second).2]
  · intro descriptor type parsed
    have legal := (FieldType.parse?_eq_some_iff.mp parsed).1
    have read := FieldType.ofChars?_eq_some_iff_parseFrom?.mp parsed
    exact ⟨fun kind found => legal.ne_of_baseKind? found, type.dimensions_tree, FieldType.rank_eq_of_parseFrom? read⟩
  · intro descriptor method parsed type mem kind found
    have legal := (MethodDescriptor.parse?_eq_some_iff.mp parsed).1
    exact (legal type mem).ne_of_baseKind? found

/-- A class name may hold every character of the grammar but the semicolon. -/
theorem parse?_accepts_grammar_brackets :
    (MethodTree.mk [.array (.object "a)[L"), .base .long] none).Legal ∧
    (MethodDescriptor.parse? "([La)[L;J)V").map MethodDescriptor.tree =
      some ⟨[.array (.object "a)[L"), .base .long], none⟩ ∧
    FieldType.parse? "[[Z" = some ⟨2, .primitive .boolean⟩ ∧
    ("[[Z".toList.takeWhile (· = '[')).length = 2 := by
  have legal : (MethodTree.mk [.array (.object "a)[L"), .base .long] none).Legal := by decide
  have parsed : FieldType.parse? "[[Z" = some ⟨2, .primitive .boolean⟩ := by decide
  obtain ⟨-, methods, -, -, fields, -⟩ := parse?_accepts_grammar
  exact ⟨legal, (methods _ _).mpr ⟨legal, by decide⟩, parsed, (fields _ _ parsed).2.2.symm⟩

end JvmCode
