import JvmCode.Proofs.Attribute.Reading
import JvmCode.Proofs.Pool.ByteForm
import Mathlib.Logic.Relation

/-! # Merged tables

A table that is split over several nested attributes is read as one, and whatever else is nested does not
matter: nested attributes with other names, bytes behind the declared rows, and the order of nested
attributes with different names.

* `CodeBody.eq_of_stands`: bytes are those of one body at most.
* **`NestedEdit`** is one change of that kind; `Gathers.iff_of_edit` says that it does not matter, and
  `Gathers.iff_of_edits` that any number of them does not.
* `CodeAttribute.read_merges_nested`: the tables of an attribute that is read are the declared rows in their
  order, and the same attribute is read after any changes of that kind. -/

namespace JvmCode

open Reader

/-! ## One body -/

/-- Where a nested attribute stands, there is no other. -/
theorem NestedAttribute.eq_of_stands {bytes : Array UInt8} {position : Nat} {first second : NestedAttribute}
    (stands : Stands bytes position first.bytes) (stands' : Stands bytes position second.bytes) :
    first = second := by
  obtain ⟨front, content⟩ := Stands.append_iff.mp stands
  obtain ⟨name, length⟩ := Stands.append_iff.mp front
  obtain ⟨front', content'⟩ := Stands.append_iff.mp stands'
  obtain ⟨name', length'⟩ := Stands.append_iff.mp front'
  simp only [List.length_append, BigEndian.length_u2, BigEndian.length_u4] at length length' content content'
  have sameName := (Spells.u2.unique rfl name rfl name').1
  have sameLength := congrArg UInt32.toNat (Spells.u4.unique rfl length rfl length').1
  rw [UInt32.toNat_ofNat_of_lt' first.short, UInt32.toNat_ofNat_of_lt' second.short] at sameLength
  have sameContent := content.unique content' sameLength
  cases first
  cases second
  simp_all

/-- Where several nested attributes stand, there are no others of that number. -/
theorem eq_of_stands_nested {bytes : Array UInt8} {position : Nat} {nested other : List NestedAttribute}
    (number : nested.length = other.length)
    (stands : Stands bytes position (nested.flatMap NestedAttribute.bytes))
    (stands' : Stands bytes position (other.flatMap NestedAttribute.bytes)) : nested = other := by
  induction nested generalizing other position with
  | nil => rw [List.length_eq_zero_iff.mp number.symm]
  | cons inner rest ih =>
      obtain _ | ⟨inner', rest'⟩ := other
      · cases number
      rw [List.flatMap_cons] at stands stands'
      obtain ⟨first, stands⟩ := Stands.append_iff.mp stands
      obtain ⟨first', stands'⟩ := Stands.append_iff.mp stands'
      obtain rfl := NestedAttribute.eq_of_stands first first'
      rw [ih (Nat.succ.inj number) stands stands']

/-- Where a body stands, there is no other. -/
theorem CodeBody.eq_of_stands {bytes : Array UInt8} {position : Nat} {body other : CodeBody}
    (stands : Stands bytes position body.bytes) (stands' : Stands bytes position other.bytes) :
    body = other := by
  obtain ⟨maxStack, stands⟩ := Stands.append_iff.mp stands
  obtain ⟨maxStack', stands'⟩ := Stands.append_iff.mp stands'
  have sameStack := (Spells.u2.unique rfl maxStack rfl maxStack').1
  rw [BigEndian.length_u2] at stands stands'
  obtain ⟨maxLocals, stands⟩ := Stands.append_iff.mp stands
  obtain ⟨maxLocals', stands'⟩ := Stands.append_iff.mp stands'
  have sameLocals := (Spells.u2.unique rfl maxLocals rfl maxLocals').1
  rw [BigEndian.length_u2] at stands stands'
  obtain ⟨code, stands⟩ := Stands.append_iff.mp stands
  obtain ⟨code', stands'⟩ := Stands.append_iff.mp stands'
  obtain ⟨sameCode, spelled⟩ := CodeAttribute.spells_readCode.unique
    ⟨body.some_code, body.short_code, rfl⟩ code ⟨other.some_code, other.short_code, rfl⟩ code'
  rw [← spelled] at stands'
  obtain ⟨exceptions, stands⟩ := Stands.append_iff.mp stands
  obtain ⟨exceptions', stands'⟩ := Stands.append_iff.mp stands'
  obtain ⟨sameExceptions, spelled⟩ := (spells_readRows ExceptionRow.spells_read).unique
    ⟨body.few_exceptions, rfl⟩ exceptions ⟨other.few_exceptions, rfl⟩ exceptions'
  rw [← spelled] at stands'
  obtain ⟨count, stands⟩ := Stands.append_iff.mp stands
  obtain ⟨count', stands'⟩ := Stands.append_iff.mp stands'
  have sameCount := congrArg UInt16.toNat (Spells.u2.unique rfl count rfl count').1
  rw [UInt16.toNat_ofNat_of_lt' body.few_nested, UInt16.toNat_ofNat_of_lt' other.few_nested] at sameCount
  rw [BigEndian.length_u2] at stands stands'
  have sameNested := eq_of_stands_nested sameCount stands stands'
  cases body
  cases other
  simp_all

/-! ## Edits -/

/-- The changes of nested attributes that do not matter. -/
inductive NestedEdit (resolver : Resolver) : List NestedAttribute → List NestedAttribute → Prop where
  /-- A nested attribute that is not named after a table is put somewhere. -/
  | insert {before after : List NestedAttribute} {inner : NestedAttribute} {name : String}
      (named : inner.name? resolver = some name) (unknown : NestedTable.ofName? name = none) :
      NestedEdit resolver (before ++ after) (before ++ inner :: after)
  /-- A nested attribute that is not named after a table is taken away. -/
  | remove {before after : List NestedAttribute} {inner : NestedAttribute} {name : String}
      (named : inner.name? resolver = some name) (unknown : NestedTable.ofName? name = none) :
      NestedEdit resolver (before ++ inner :: after) (before ++ after)
  /-- Bytes behind the rows that a nested attribute declares are added, taken away or changed. -/
  | behind {before after : List NestedAttribute} {inner changed : NestedAttribute} {table : NestedTable}
      {rows : Array table.Row} (named : inner.name? resolver = some table.name)
      (sameName : changed.nameIndex = inner.nameIndex) (declares : table.Declares inner.content rows)
      (kept : table.Declares changed.content rows) :
      NestedEdit resolver (before ++ inner :: after) (before ++ changed :: after)
  /-- Nested attributes change places with others of different names: those of one name stay in order. -/
  | reorder {nested other : List NestedAttribute}
      (order : ∀ name, (nested.filter fun inner => inner.name? resolver == name) =
        other.filter fun inner => inner.name? resolver == name) : NestedEdit resolver nested other

/-- A body declares its rows in one way. -/
theorem NestedTable.Declares.unique {table : NestedTable} {content : List UInt8} {rows other : Array table.Row}
    (declares : table.Declares content rows) (again : table.Declares content other) : rows = other := by
  have stands : ∀ front : List UInt8, front <+: content → Stands content.toArray 0 front :=
    fun front leading => ⟨Nat.zero_le _, leading⟩
  exact ((spells_readRows table.spells_readRow).unique ⟨declares.1, rfl⟩ (stands _ declares.2)
    ⟨again.1, rfl⟩ (stands _ again.2)).1

namespace Gathers

variable {resolver : Resolver} {nested other : List NestedAttribute} {attr after : CodeAttribute}

/-- What comes behind some nested attributes may be replaced by what does the same. -/
theorem append_congr (same : ∀ attr, Gathers resolver nested attr after ↔ Gathers resolver other attr after)
    (before : List NestedAttribute) :
    Gathers resolver (before ++ nested) attr after ↔ Gathers resolver (before ++ other) attr after := by
  induction before generalizing attr with
  | nil => exact same attr
  | cons inner rest ih => simp only [List.cons_append, cons_iff, ih]

/-- Only the order of nested attributes with one name matters. -/
theorem congr_of_order (order : ∀ name, (nested.filter fun inner => inner.name? resolver == name) =
      other.filter fun inner => inner.name? resolver == name) :
    Gathers resolver nested attr after ↔ Gathers resolver other attr after := by
  have mem : ∀ inner, inner ∈ nested ↔ inner ∈ other := by
    intro inner
    have among : inner ∈ (nested.filter fun each => each.name? resolver == inner.name? resolver) ↔
        inner ∈ other.filter fun each => each.name? resolver == inner.name? resolver := by
      rw [order]
    simpa using among
  have merges : ∀ table rows, Merges resolver table nested rows ↔ Merges resolver table other rows := by
    intro table rows
    rw [Merges, Merges, order]
  constructor
  · rintro ⟨named, front, joined⟩
    exact ⟨by simpa only [mem] using named, front, by simpa only [merges] using joined⟩
  · rintro ⟨named, front, joined⟩
    exact ⟨by simpa only [mem] using named, front, by simpa only [merges] using joined⟩

/-- One change does not matter. -/
theorem iff_of_edit (edit : NestedEdit resolver nested other) :
    Gathers resolver nested attr after ↔ Gathers resolver other attr after := by
  cases edit with
  | insert named unknown => exact append_congr (fun attr => (cons_iff_of_other named unknown).symm) _
  | remove named unknown => exact append_congr (fun attr => cons_iff_of_other named unknown) _
  | @behind before behind inner changed table rows named sameName declares kept =>
      have named' : changed.name? resolver = some table.name := by
        rw [NestedAttribute.name?, sameName]
        exact named
      -- Both declare the same rows and no others, so both join the same.
      have same : ∀ part, table.Declares inner.content part ↔ table.Declares changed.content part := by
        intro part
        constructor
        · intro again
          rw [again.unique declares]
          exact kept
        · intro again
          rw [again.unique kept]
          exact declares
      refine append_congr (fun attr => ?_) before
      rw [cons_iff_of_table named, cons_iff_of_table named']
      simp only [same]
  | reorder order => exact congr_of_order order

/-- Changes do not matter, however many there are. -/
theorem iff_of_edits (edits : Relation.ReflTransGen (NestedEdit resolver) nested other) :
    Gathers resolver nested attr after ↔ Gathers resolver other attr after := by
  induction edits with
  | refl => exact Iff.rfl
  | tail _ edit ih => exact ih.trans (iff_of_edit edit)

end Gathers

namespace CodeAttribute

variable {resolver : Resolver} {bytes : Array UInt8} {start stop : Cursor} {attr : CodeAttribute}

/-- Nested attributes are merged by name. If `CodeAttribute.read` gives `attr`, one `CodeBody` stands there and
is read to its end, and each table of `attr` `Merges` the rows that the nested attributes of its name declare, in
order of appearance. Any sequence of `NestedEdit`s (insert or remove one with another name, change what stands
behind the declared rows, reorder those of different names) leaves `attr` as it is, wherever the changed body
stands. -/
theorem read_merges_nested (h : CodeAttribute.read resolver bytes start = .ok attr stop) :
    ∃ body : CodeBody, (∀ other : CodeBody, Stands bytes start.position other.bytes ↔ other = body) ∧
      stop = start.forward body.bytes.length ∧
      Merges resolver .lines body.nested attr.lines ∧ Merges resolver .locals body.nested attr.locals ∧
      Merges resolver .localTypes body.nested attr.localTypes ∧
      ∀ (nested : List NestedAttribute) (few : nested.length < 65536),
        Relation.ReflTransGen (NestedEdit resolver) body.nested nested →
        ∀ (others : Array UInt8) (first : Cursor),
          Stands others first.position (body.withNested nested few).bytes →
          CodeAttribute.read resolver others first =
            .ok attr (first.forward (body.withNested nested few).bytes.length) := by
  have inside : start.position ≤ bytes.size := by
    obtain ⟨maxStack, _, reading, -⟩ := Reader.bind_eq_ok_iff.mp h
    exact (Reader.u2_eq_ok_iff.mp reading).1.1
  obtain ⟨_, ⟨body, yields, rfl⟩, stands, rfl⟩ := (spells_read resolver inside attr stop).mp h
  refine ⟨body, ?_, rfl, yields.merges .lines, yields.merges .locals, yields.merges .localTypes, ?_⟩
  · intro other
    constructor
    · exact fun stands' => CodeBody.eq_of_stands stands' stands
    · rintro rfl
      exact stands
  · intro nested few edits others first stands'
    have edited : (body.withNested nested few).Yields resolver attr :=
      ⟨(Gathers.iff_of_edits edits).mp yields.gathers, yields.checked⟩
    exact (spells_read resolver stands'.1 _ _).mpr ⟨_, ⟨_, edited, rfl⟩, stands', rfl⟩

/-- A pool with two names. -/
def twoNames : Pool := Pool.empty.pushAll [.text "LineNumberTable", .text "Deprecated"]

/-- The second name. -/
theorem text_twoNames : twoNames.resolver.text 2 = .ok "Deprecated" := by rfl

/-- Lines that are split over two nested attributes, with a nested attribute between them and a byte behind the
second row. -/
def splitLines : CodeBody where
  maxStack := 0
  maxLocals := 0
  code := #[0xb1]
  exceptions := #[]
  nested := [⟨1, [0, 1, 0, 0, 0, 7], by decide⟩, ⟨2, [1, 2, 3], by decide⟩, ⟨1, [0, 1, 0, 0, 0, 8, 9], by decide⟩]
  some_code := by decide
  short_code := by decide
  few_exceptions := by decide
  few_nested := by decide

/-- Two split lines are joined in order. -/
theorem splitLines_yields :
    splitLines.Yields twoNames.resolver { code := #[0xb1], lines := #[⟨0, 7⟩, ⟨0, 8⟩] } := by
  have lines : twoNames.resolver.text 1 = .ok NestedTable.lines.name := by rfl
  have seven : NestedTable.lines.Declares [0, 1, 0, 0, 0, 7] #[⟨0, 7⟩] := ⟨by decide, by decide⟩
  have eight : NestedTable.lines.Declares [0, 1, 0, 0, 0, 8, 9] #[⟨0, 8⟩] := ⟨by decide, by decide⟩
  refine ⟨?_, by decide⟩
  refine Gathers.cons_iff.mpr ⟨_, .table (NestedAttribute.name?_eq_some_iff.mpr lines) seven, ?_⟩
  refine Gathers.cons_iff.mpr ⟨_, .other (NestedAttribute.name?_eq_some_iff.mpr text_twoNames) (by decide), ?_⟩
  refine Gathers.cons_iff.mpr ⟨_, .table (NestedAttribute.name?_eq_some_iff.mpr lines) eight, ?_⟩
  exact Gathers.nil_iff.mpr rfl

/-- Two split lines are read in order, and the same is read without what stands between them. -/
theorem read_merges_nested_splitLines : ∃ attr stop few,
    CodeAttribute.read twoNames.resolver splitLines.bytes.toArray Cursor.start = .ok attr stop ∧
      attr.lines = #[⟨0, 7⟩, ⟨0, 8⟩] ∧
      Merges twoNames.resolver .lines splitLines.nested attr.lines ∧
      ∃ behind, CodeAttribute.read twoNames.resolver
        (splitLines.withNested (splitLines.nested.eraseIdx 1) few).bytes.toArray Cursor.start =
          .ok attr behind := by
  have stands : ∀ content : List UInt8, Stands content.toArray Cursor.start.position content :=
    fun content => ⟨Nat.zero_le _, List.prefix_rfl⟩
  have read := (spells_read twoNames.resolver (stands _).1 _ _).mpr
    ⟨_, ⟨splitLines, splitLines_yields, rfl⟩, stands _, rfl⟩
  obtain ⟨body, unique, -, lines, -, -, edited⟩ := read_merges_nested read
  obtain rfl := (unique splitLines).mp (stands _)
  have edit : NestedEdit twoNames.resolver splitLines.nested (splitLines.nested.eraseIdx 1) :=
    @NestedEdit.remove _ [_] [_] _ _ (NestedAttribute.name?_eq_some_iff.mpr text_twoNames) (by decide)
  exact ⟨_, _, by decide, read, rfl, lines, _, edited _ _ (.single edit) _ _ (stands _)⟩

end CodeAttribute

end JvmCode
