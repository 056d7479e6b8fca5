import JvmCode.Proofs.Attribute.Writing
import Mathlib.Data.List.Forall2

/-! # Nested attributes

The tables of an attribute are nested attributes: the index of a name, a length, and as many bytes. Only the
front of a nested attribute that is named after a table counts, so what a list of them stands for can be said
without reading it: the rows that are declared, by the name of their table.

* **`NestedAttribute`** is one nested attribute, and `NestedTable.Declares` the rows at its front.
* **`Merges`** puts together the rows of all nested attributes with the name of a table, and **`Gathers`**
  does it for the three tables.
* `Gathers.cons_iff`: gathering goes on by one nested attribute at a time. -/

namespace JvmCode

/-! ## Rows -/

namespace NestedTable

/-- The type of the rows of a nested table. -/
abbrev Row : NestedTable → Type
  | .lines => LineRow
  | .locals => LocalRow
  | .localTypes => LocalRow

/-- The bytes of a row. -/
def encodeRow : (table : NestedTable) → table.Row → List UInt8
  | .lines => LineRow.encode
  | .locals => LocalRow.encode
  | .localTypes => LocalRow.encode

/-- A nested table is found by its name. -/
theorem ofName?_name (table : NestedTable) : ofName? table.name = some table := by
  cases table <;> decide

/-- A table is found by its name alone. -/
theorem ofName?_eq_some_iff {name : String} {table : NestedTable} :
    ofName? name = some table ↔ name = table.name := by
  constructor
  · intro found
    unfold ofName? at found
    have same := List.find?_some found
    exact (beq_iff_eq.mp same).symm
  · rintro rfl
    exact ofName?_name table

/-- The rows that a body declares: it begins with their number and these rows. -/
def Declares (table : NestedTable) (content : List UInt8) (rows : Array table.Row) : Prop :=
  rows.size < 65536 ∧ encodeRows table.encodeRow rows <+: content

end NestedTable

namespace CodeAttribute

/-- The rows of a nested table. -/
def rows (attr : CodeAttribute) : (table : NestedTable) → Array table.Row
  | .lines => attr.lines
  | .locals => attr.locals
  | .localTypes => attr.localTypes

/-- An attribute with rows joined to those of a nested table. -/
def extend (attr : CodeAttribute) : (table : NestedTable) → Array table.Row → CodeAttribute
  | .lines, added => { attr with lines := attr.lines ++ added }
  | .locals, added => { attr with locals := attr.locals ++ added }
  | .localTypes, added => { attr with localTypes := attr.localTypes ++ added }

variable {attr other : CodeAttribute}

/-- The number of rows of a nested table. -/
theorem rowCount_eq_size (attr : CodeAttribute) (table : NestedTable) :
    attr.rowCount table = (attr.rows table).size := by
  cases table <;> rfl

/-- The bytes of the rows of a nested table. -/
theorem rowBytes_eq_flatMap (attr : CodeAttribute) (table : NestedTable) :
    attr.rowBytes table = (attr.rows table).toList.flatMap table.encodeRow := by
  cases table <;> rfl

/-- Rows are joined behind those of their table. -/
theorem rows_extend (attr : CodeAttribute) (table : NestedTable) (added : Array table.Row) :
    (attr.extend table added).rows table = attr.rows table ++ added := by
  cases table <;> rfl

/-- The other tables keep their rows. -/
theorem rows_extend_of_ne {table different : NestedTable} (ne : different ≠ table)
    (attr : CodeAttribute) (added : Array table.Row) :
    (attr.extend table added).rows different = attr.rows different := by
  cases table <;> cases different <;> first | rfl | exact absurd rfl ne

/-- The parts of an attribute in front of its nested tables. -/
def withoutNested (attr : CodeAttribute) : CodeAttribute :=
  { attr with lines := #[], locals := #[], localTypes := #[] }

/-- The parts in front of the nested tables stay as they are. -/
theorem withoutNested_extend (attr : CodeAttribute) (table : NestedTable) (added : Array table.Row) :
    (attr.extend table added).withoutNested = attr.withoutNested := by
  cases table <;> rfl

/-- An attribute is given by the parts in front of its nested tables and the rows of these. -/
theorem eq_of_rows (front : attr.withoutNested = other.withoutNested)
    (same : ∀ table, attr.rows table = other.rows table) : attr = other := by
  simp only [withoutNested, mk.injEq, and_true] at front
  obtain ⟨maxStack, maxLocals, code, exceptions⟩ := front
  have lines : attr.lines = other.lines := same .lines
  have locals : attr.locals = other.locals := same .locals
  have localTypes : attr.localTypes = other.localTypes := same .localTypes
  cases attr
  cases other
  simp_all

end CodeAttribute

/-! ## Nested attributes -/

/-- An attribute inside a body, whose length fits its field. -/
structure NestedAttribute where
  /-- The index of its name. -/
  nameIndex : UInt16
  /-- Its bytes. -/
  content : List UInt8
  /-- The number of its bytes fits 32 bits. -/
  short : content.length < 4294967296

namespace NestedAttribute

/-- The index of the name and the length of a nested attribute, and then its bytes. -/
def bytes (inner : NestedAttribute) : List UInt8 := CodeAttribute.framed inner.nameIndex inner.content

/-- The name of a nested attribute, if there is a text at its index. -/
def name? (resolver : Resolver) (inner : NestedAttribute) : Option String :=
  (resolver.text inner.nameIndex).toOption

/-- What a nested attribute does to an attribute: its rows are joined to the table that it is named after. -/
inductive Joins (resolver : Resolver) (inner : NestedAttribute) (before : CodeAttribute) :
    CodeAttribute → Prop where
  /-- A nested attribute with the name of a table gives its rows. -/
  | table {table : NestedTable} {rows : Array table.Row} (named : inner.name? resolver = some table.name)
      (declares : table.Declares inner.content rows) : Joins resolver inner before (before.extend table rows)
  /-- A nested attribute with another name is passed over. -/
  | other {name : String} (named : inner.name? resolver = some name)
      (unknown : NestedTable.ofName? name = none) : Joins resolver inner before before

variable {resolver : Resolver} {inner : NestedAttribute} {name : String}

/-- A nested attribute has a name exactly when there is a text at its index. -/
theorem name?_eq_some_iff : inner.name? resolver = some name ↔ resolver.text inner.nameIndex = .ok name := by
  unfold name?
  cases resolver.text inner.nameIndex with
  | ok found => simp [Except.toOption]
  | error cause => simp [Except.toOption]

/-- What a nested attribute does, by its name. -/
theorem joins_iff {before after : CodeAttribute} : inner.Joins resolver before after ↔
    ∃ name, inner.name? resolver = some name ∧
      ((∃ table rows, name = table.name ∧ table.Declares inner.content rows ∧ after = before.extend table rows) ∨
        NestedTable.ofName? name = none ∧ after = before) := by
  constructor
  · intro joins
    cases joins with
    | table named declares => exact ⟨_, named, .inl ⟨_, _, rfl, declares, rfl⟩⟩
    | other named unknown => exact ⟨_, named, .inr ⟨unknown, rfl⟩⟩
  · rintro ⟨name, named, ⟨table, rows, rfl, declares, rfl⟩ | ⟨unknown, rfl⟩⟩
    · exact .table named declares
    · exact .other named unknown

end NestedAttribute

/-- Several nested attributes give a table: its rows are what the nested attributes with its name declare, in
their order. -/
def Merges (resolver : Resolver) (table : NestedTable) (nested : List NestedAttribute)
    (rows : Array table.Row) : Prop :=
  ∃ parts, List.Forall₂ (fun inner part => table.Declares inner.content part)
    (nested.filter fun inner => inner.name? resolver == some table.name) parts ∧
      rows.toList = parts.flatMap Array.toList

namespace Merges

variable {resolver : Resolver} {table : NestedTable} {inner : NestedAttribute}
  {nested : List NestedAttribute} {rows : Array table.Row}

/-- No nested attributes give no rows. -/
theorem nil_iff : Merges resolver table [] rows ↔ rows = #[] := by
  simp [Merges]

/-- A nested attribute with the name of a table gives its rows first. -/
theorem cons_iff_of_named (named : inner.name? resolver = some table.name) :
    Merges resolver table (inner :: nested) rows ↔
      ∃ part others, table.Declares inner.content part ∧ Merges resolver table nested others ∧
        rows = part ++ others := by
  simp only [Merges, List.filter_cons, named, beq_self_eq_true, if_true, List.forall₂_cons_left_iff]
  constructor
  · rintro ⟨_, ⟨part, parts, declares, others, rfl⟩, joined⟩
    refine ⟨part, (parts.flatMap Array.toList).toArray, declares, ⟨parts, others, rfl⟩, ?_⟩
    apply Array.toList_inj.mp
    simpa using joined
  · rintro ⟨part, _, declares, ⟨parts, others, joined⟩, rfl⟩
    refine ⟨part :: parts, ⟨part, parts, declares, others, rfl⟩, ?_⟩
    simp [joined]

/-- A nested attribute with another name gives no rows. -/
theorem cons_iff_of_ne (other : inner.name? resolver ≠ some table.name) :
    Merges resolver table (inner :: nested) rows ↔ Merges resolver table nested rows := by
  simp only [Merges, List.filter_cons, beq_eq_false_iff_ne.mpr other, Bool.false_eq_true, if_false]

end Merges

/-- What several nested attributes make of an attribute: each of them has a name, and what they give for a
table is joined to its rows. -/
structure Gathers (resolver : Resolver) (nested : List NestedAttribute) (before after : CodeAttribute) :
    Prop where
  /-- All names are texts. -/
  named : ∀ inner ∈ nested, ∃ name, inner.name? resolver = some name
  /-- The parts in front of the nested tables stay as they are. -/
  front : after.withoutNested = before.withoutNested
  /-- The rows of each table are joined to those that were there. -/
  joined : ∀ table, ∃ added, Merges resolver table nested added ∧ after.rows table = before.rows table ++ added

namespace Gathers

variable {resolver : Resolver} {inner : NestedAttribute} {nested : List NestedAttribute}
  {before middle after : CodeAttribute}

/-- No nested attributes change nothing. -/
theorem nil_iff : Gathers resolver [] before after ↔ after = before := by
  constructor
  · intro gathers
    refine CodeAttribute.eq_of_rows gathers.front fun table => ?_
    obtain ⟨added, merges, same⟩ := gathers.joined table
    rw [same, Merges.nil_iff.mp merges, Array.append_empty]
  · rintro rfl
    exact ⟨by simp, rfl, fun table => ⟨#[], Merges.nil_iff.mpr rfl, by simp⟩⟩

/-- A nested attribute that is not named after a table is passed over. -/
theorem cons_iff_of_other {name : String} (named : inner.name? resolver = some name)
    (unknown : NestedTable.ofName? name = none) :
    Gathers resolver (inner :: nested) before after ↔ Gathers resolver nested before after := by
  have other : ∀ table : NestedTable, inner.name? resolver ≠ some table.name := by
    intro table same
    rw [named, Option.some.injEq] at same
    rw [NestedTable.ofName?_eq_some_iff.mpr same] at unknown
    cases unknown
  constructor
  · intro gathers
    refine ⟨fun each mem => gathers.named each (List.mem_cons_of_mem _ mem), gathers.front, fun table => ?_⟩
    simpa only [Merges.cons_iff_of_ne (other table)] using gathers.joined table
  · intro gathers
    refine ⟨?_, gathers.front, fun table => ?_⟩
    · rintro each (_ | ⟨_, mem⟩)
      · exact ⟨name, named⟩
      · exact gathers.named each mem
    · simpa only [Merges.cons_iff_of_ne (other table)] using gathers.joined table

/-- A nested attribute that is named after a table gives its rows before the others. -/
theorem cons_iff_of_table {table : NestedTable} (named : inner.name? resolver = some table.name) :
    Gathers resolver (inner :: nested) before after ↔
      ∃ rows, table.Declares inner.content rows ∧ Gathers resolver nested (before.extend table rows) after := by
  have other : ∀ different : NestedTable, different ≠ table → inner.name? resolver ≠ some different.name := by
    intro different ne same
    rw [named, Option.some.injEq] at same
    have found := NestedTable.ofName?_eq_some_iff.mpr same
    rw [NestedTable.ofName?_name, Option.some.injEq] at found
    exact ne found.symm
  constructor
  · intro gathers
    obtain ⟨added, merges, same⟩ := gathers.joined table
    obtain ⟨part, others, declares, rest, rfl⟩ := (Merges.cons_iff_of_named named).mp merges
    refine ⟨part, declares, fun each mem => gathers.named each (List.mem_cons_of_mem _ mem), ?_, ?_⟩
    · rw [CodeAttribute.withoutNested_extend, gathers.front]
    · intro different
      by_cases ne : different = table
      · subst ne
        exact ⟨others, rest, by rw [same, CodeAttribute.rows_extend, Array.append_assoc]⟩
      · rw [CodeAttribute.rows_extend_of_ne ne]
        simpa only [Merges.cons_iff_of_ne (other different ne)] using gathers.joined different
  · rintro ⟨part, declares, gathers⟩
    refine ⟨?_, ?_, ?_⟩
    · rintro each (_ | ⟨_, mem⟩)
      · exact ⟨_, named⟩
      · exact gathers.named each mem
    · rw [gathers.front, CodeAttribute.withoutNested_extend]
    · intro different
      obtain ⟨others, merges, same⟩ := gathers.joined different
      by_cases ne : different = table
      · subst ne
        refine ⟨part ++ others, (Merges.cons_iff_of_named named).mpr ⟨part, others, declares, merges, rfl⟩, ?_⟩
        rw [same, CodeAttribute.rows_extend, Array.append_assoc]
      · rw [CodeAttribute.rows_extend_of_ne ne] at same
        exact ⟨others, (Merges.cons_iff_of_ne (other different ne)).mpr merges, same⟩

/-- Nested attributes are joined one by one. -/
theorem cons_iff : Gathers resolver (inner :: nested) before after ↔
    ∃ middle, inner.Joins resolver before middle ∧ Gathers resolver nested middle after := by
  constructor
  · intro gathers
    obtain ⟨name, named⟩ := gathers.named inner (List.mem_cons_self ..)
    cases found : NestedTable.ofName? name with
    | some table =>
        rw [NestedTable.ofName?_eq_some_iff.mp found] at named
        obtain ⟨rows, declares, rest⟩ := (cons_iff_of_table named).mp gathers
        exact ⟨_, .table named declares, rest⟩
    | none => exact ⟨before, .other named found, (cons_iff_of_other named found).mp gathers⟩
  · rintro ⟨middle, joins, rest⟩
    cases joins with
    | table named declares => exact (cons_iff_of_table named).mpr ⟨_, declares, rest⟩
    | other named unknown => exact (cons_iff_of_other named unknown).mpr rest

end Gathers

end JvmCode
