import JvmCode.Proofs.Attribute.Nested
import JvmCode.Proofs.Spelling

/-! # Reading attributes

Each reader of the byte form is described by what it accepts, from the row to the whole body.

* `spells_readRows`: rows stand behind their number.
* `CodeAttribute.spells_readNested` and `spells_readNestedAll`: nested attributes are taken by their lengths,
  and what they stand for is gathered.
* **`CodeBody`** is a whole body whose numbers fit their fields; `CodeAttribute.spells_read` says that an
  attribute is read exactly where a body stands that yields it. -/

namespace JvmCode

/-! ## Rows -/

/-- Items with one byte form each are spelled by their byte forms in order. -/
theorem joined_iff_flatMap {α : Type} {encode : α → List UInt8} {items : List α} {content : List UInt8} :
    Joined (fun item content => content = encode item) items content ↔ content = items.flatMap encode := by
  induction items generalizing content with
  | nil => simp [Joined]
  | cons item rest ih => simp [Joined, ih]

open Reader

/-- An exception row is spelled by its bytes. -/
theorem ExceptionRow.spells_read : Spells ExceptionRow.read fun row content => content = row.encode := by
  refine (Spells.u2.bind fun startPc => Spells.u2.bind fun endPc => Spells.u2.bind fun handlerPc =>
    Spells.u2.map fun catchType => (⟨startPc, endPc, handlerPc, catchType⟩ : ExceptionRow)).congr ?_
  intro row content
  constructor
  · rintro ⟨startPc, _, _, rfl, ⟨endPc, _, _, rfl, ⟨handlerPc, _, _, rfl, ⟨catchType, rfl, rfl⟩, rfl⟩,
      rfl⟩, rfl⟩
    simp [ExceptionRow.encode]
  · rintro rfl
    refine ⟨row.startPc, _, _, rfl, ⟨row.endPc, _, _, rfl, ⟨row.handlerPc, _, _, rfl,
      ⟨row.catchType, rfl, rfl⟩, rfl⟩, rfl⟩, ?_⟩
    simp [ExceptionRow.encode]

/-- A line row is spelled by its bytes. -/
theorem LineRow.spells_read : Spells LineRow.read fun row content => content = row.encode := by
  refine (Spells.u2.bind fun startPc =>
    Spells.u2.map fun line => (⟨startPc, line⟩ : LineRow)).congr ?_
  intro row content
  constructor
  · rintro ⟨startPc, _, _, rfl, ⟨line, rfl, rfl⟩, rfl⟩
    simp [LineRow.encode]
  · rintro rfl
    exact ⟨row.startPc, _, _, rfl, ⟨row.line, rfl, rfl⟩, rfl⟩

/-- A local variable row is spelled by its bytes. -/
theorem LocalRow.spells_read : Spells LocalRow.read fun row content => content = row.encode := by
  refine (Spells.u2.bind fun startPc => Spells.u2.bind fun length => Spells.u2.bind fun nameIndex =>
    Spells.u2.bind fun typeIndex => Spells.u2.map fun slot =>
      (⟨startPc, length, nameIndex, typeIndex, slot⟩ : LocalRow)).congr ?_
  intro row content
  constructor
  · rintro ⟨startPc, _, _, rfl, ⟨length, _, _, rfl, ⟨nameIndex, _, _, rfl, ⟨typeIndex, _, _, rfl,
      ⟨slot, rfl, rfl⟩, rfl⟩, rfl⟩, rfl⟩, rfl⟩
    simp [LocalRow.encode]
  · rintro rfl
    refine ⟨row.startPc, _, _, rfl, ⟨row.length, _, _, rfl, ⟨row.nameIndex, _, _, rfl,
      ⟨row.typeIndex, _, _, rfl, ⟨row.slot, rfl, rfl⟩, rfl⟩, rfl⟩, rfl⟩, ?_⟩
    simp [LocalRow.encode]

section Rows

variable {α : Type} {row : Reader α} {encode : α → List UInt8}

/-- Rows behind their count are spelled by the count and their bytes in order. -/
theorem spells_readRows (spells : Spells row fun item content => content = encode item) :
    Spells (readRows row) fun rows content => rows.size < 65536 ∧ content = encodeRows encode rows := by
  refine (Spells.u2.bind fun count => spells.sequence count.toNat).congr ?_
  intro rows content
  simp only [joined_iff_flatMap, encodeRows]
  constructor
  · rintro ⟨count, _, _, rfl, ⟨size, rfl⟩, rfl⟩
    have small := count.toNat_lt
    rw [size, UInt16.ofNat_toNat]
    exact ⟨small, rfl⟩
  · rintro ⟨small, rfl⟩
    exact ⟨UInt16.ofNat rows.size, _, _, rfl, ⟨(UInt16.toNat_ofNat_of_lt' small).symm, rfl⟩, rfl⟩

end Rows

namespace NestedTable

/-- Read a row. -/
def readRow : (table : NestedTable) → Reader table.Row
  | .lines => LineRow.read
  | .locals => LocalRow.read
  | .localTypes => LocalRow.read

/-- A row is spelled by its bytes. -/
theorem spells_readRow (table : NestedTable) :
    Spells table.readRow fun row content => content = table.encodeRow row := by
  cases table with
  | lines => exact LineRow.spells_read
  | locals => exact LocalRow.spells_read
  | localTypes => exact LocalRow.spells_read

end NestedTable

/-! ## Nested attributes -/

namespace CodeAttribute

/-- Reading a nested table is reading its rows and joining them. -/
theorem readTable_eq (attr : CodeAttribute) (body : Array UInt8) (table : NestedTable) :
    attr.readTable body table = (within body (readRows table.readRow) >>= fun rows =>
      pure (attr.extend table rows)) := by
  cases table <;> rfl

/-- The rows that a nested table declares are joined, whatever stands behind them. -/
theorem spells_readTable (attr : CodeAttribute) (body : Array UInt8) (table : NestedTable) :
    Spells (attr.readTable body table) fun after content =>
      (∃ rows, table.Declares body.toList rows ∧ after = attr.extend table rows) ∧ content = [] := by
  rw [readTable_eq]
  refine (((spells_readRows table.spells_readRow).within body).map (attr.extend table)).congr ?_
  intro after content
  constructor
  · rintro ⟨rows, rfl, ⟨_, ⟨small, rfl⟩, leading⟩, rfl⟩
    exact ⟨⟨rows, ⟨small, leading⟩, rfl⟩, rfl⟩
  · rintro ⟨⟨rows, ⟨small, leading⟩, rfl⟩, rfl⟩
    exact ⟨rows, rfl, ⟨_, ⟨small, rfl⟩, leading⟩, rfl⟩

/-- What is made of the body of a nested attribute once its name is known. -/
theorem spells_readNamed (attr : CodeAttribute) (body : Array UInt8) (name : String) :
    Spells (match NestedTable.ofName? name with
      | some table => attr.readTable body table
      | none => pure attr) fun after content =>
      ((∃ table rows, name = table.name ∧ table.Declares body.toList rows ∧ after = attr.extend table rows) ∨
        NestedTable.ofName? name = none ∧ after = attr) ∧ content = [] := by
  cases found : NestedTable.ofName? name with
  | some table =>
      refine (spells_readTable attr body table).congr fun after content => and_congr_left fun _ => ?_
      have named := NestedTable.ofName?_eq_some_iff.mp found
      constructor
      · rintro ⟨rows, declares, rfl⟩
        exact .inl ⟨table, rows, named, declares, rfl⟩
      · rintro (⟨same, rows, again, declares, rfl⟩ | ⟨missing, -⟩)
        · have known := NestedTable.ofName?_eq_some_iff.mpr again
          rw [found, Option.some.injEq] at known
          subst known
          exact ⟨rows, declares, rfl⟩
        · cases missing
  | none =>
      refine (Spells.pure attr).congr fun after content => and_congr_left fun _ => ?_
      constructor
      · intro same
        exact .inr ⟨rfl, same⟩
      · rintro (⟨table, rows, named, -⟩ | ⟨-, same⟩)
        · rw [NestedTable.ofName?_eq_some_iff.mpr named] at found
          cases found
        · exact same

/-- A nested attribute is spelled by its bytes. -/
theorem spells_readNested (resolver : Resolver) (attr : CodeAttribute) :
    Spells (readNested resolver attr) fun after content =>
      ∃ inner : NestedAttribute, content = inner.bytes ∧ inner.Joins resolver attr after := by
  refine (Spells.u2.bind fun nameIndex => Spells.u4.bind fun length => (Spells.take length.toNat).bind
    fun body => (Spells.ofPool (resolver.text nameIndex)).bind fun name =>
      spells_readNamed attr body name).congr ?_
  intro after content
  simp only [NestedAttribute.joins_iff, NestedAttribute.name?_eq_some_iff]
  constructor
  · rintro ⟨nameIndex, _, _, rfl, ⟨length, _, _, rfl, ⟨body, _, _, ⟨rfl, size⟩, ⟨name, _, _, ⟨named, rfl⟩,
      ⟨outcome, rfl⟩, rfl⟩, rfl⟩, rfl⟩, rfl⟩
    refine ⟨⟨nameIndex, body.toList, by rw [size]; exact length.toNat_lt⟩, ?_, name, named, outcome⟩
    simp [NestedAttribute.bytes, framed, size]
  · rintro ⟨inner, rfl, name, named, outcome⟩
    have fits : (UInt32.ofNat inner.content.length).toNat = inner.content.length :=
      UInt32.toNat_ofNat_of_lt' inner.short
    exact ⟨inner.nameIndex, _, _, rfl, ⟨UInt32.ofNat inner.content.length, _, inner.content, rfl,
      ⟨inner.content.toArray, inner.content, [], ⟨rfl, fits.symm⟩, ⟨name, [], [], ⟨named, rfl⟩, ⟨outcome, rfl⟩,
        rfl⟩, by simp⟩, rfl⟩, by simp [NestedAttribute.bytes, framed]⟩

/-- Nested attributes are spelled by their bytes, one behind the other. -/
theorem spells_readNestedAll (resolver : Resolver) (count : Nat) (attr : CodeAttribute) :
    Spells (readNestedAll resolver count attr) fun after content =>
      ∃ nested : List NestedAttribute, nested.length = count ∧ content = nested.flatMap NestedAttribute.bytes ∧
        Gathers resolver nested attr after := by
  -- The attribute is general, because each nested attribute hands on what it has made of it.
  induction count generalizing attr with
  | zero =>
      refine (Spells.pure attr).congr fun after content => ?_
      simp only [List.length_eq_zero_iff, exists_eq_left, List.flatMap_nil, Gathers.nil_iff]
      exact and_comm
  | succ count ih =>
      refine ((spells_readNested resolver attr).bind fun middle => ih middle).congr fun after content => ?_
      constructor
      · rintro ⟨middle, _, _, ⟨inner, rfl, joins⟩, ⟨nested, rfl, rfl, rest⟩, rfl⟩
        exact ⟨inner :: nested, rfl, rfl, Gathers.cons_iff.mpr ⟨middle, joins, rest⟩⟩
      · rintro ⟨_ | ⟨inner, nested⟩, size, rfl, gathers⟩
        · cases size
        · obtain ⟨middle, joins, rest⟩ := Gathers.cons_iff.mp gathers
          exact ⟨middle, _, _, ⟨inner, rfl, joins⟩, ⟨nested, Nat.succ.inj size, rfl, rest⟩, rfl⟩

/-- A code array is spelled by its length and its bytes, if the length is allowed. -/
theorem spells_readCode : Spells readCode fun code content =>
    1 ≤ code.size ∧ code.size ≤ maxCodeLength ∧
      content = BigEndian.u4 (UInt32.ofNat code.size) ++ code.toList := by
  intro bytes start inside code stop
  constructor
  · intro h
    obtain ⟨length, middle, counting, h⟩ := Reader.bind_eq_ok_iff.mp h
    obtain ⟨position, _, asking, h⟩ := Reader.bind_eq_ok_iff.mp h
    cases asking
    obtain ⟨counted, rfl⟩ := Reader.u4_eq_ok_iff.mp counting
    split at h
    · cases h
    · split at h
      · cases h
      · rename_i nonempty short
        obtain ⟨size, stands, rfl⟩ := take_eq_ok_iff_stands.mp h
        have positive : length.toNat ≠ 0 := fun zero => nonempty (UInt32.toNat.inj zero)
        refine ⟨_, ⟨by omega, by omega, rfl⟩, Stands.append_iff.mpr ⟨?_, by simpa using stands⟩, ?_⟩
        · rw [size, UInt32.ofNat_toNat]
          exact counted
        · simp [size]
  · rintro ⟨_, ⟨some_code, short, rfl⟩, stands, rfl⟩
    obtain ⟨length, content⟩ := Stands.append_iff.mp stands
    rw [BigEndian.length_u4] at content
    unfold maxCodeLength at short
    have fits : (UInt32.ofNat code.size).toNat = code.size :=
      UInt32.toNat_ofNat_of_lt' (show code.size < 4294967296 by omega)
    have nonempty : UInt32.ofNat code.size ≠ 0 := by
      intro zero
      rw [zero] at fits
      have : code.size = 0 := fits.symm
      omega
    refine Reader.bind_eq_ok_iff.mpr ⟨_, _, Reader.u4_eq_ok_iff.mpr ⟨length, rfl⟩, ?_⟩
    refine Reader.bind_eq_ok_iff.mpr ⟨_, start.forward 4, rfl, ?_⟩
    rw [if_neg nonempty, if_neg (by rw [fits, maxCodeLength]; omega), fits, take_eq_ok_iff_stands]
    exact ⟨rfl, content, by simp⟩

/-- An attribute whose tables are in order is spelled by nothing more. -/
theorem spells_checked (attr : CodeAttribute) : Spells attr.checked fun after content =>
    (attr.checkTables = .ok () ∧ after = attr) ∧ content = [] := by
  unfold checked
  cases attr.checkTables with
  | ok _ => exact (Spells.pure attr).congr (by simp)
  | error fault => exact (Spells.fail fault).congr (by simp)

end CodeAttribute

/-! ## Bodies -/

/-- A body whose numbers fit their fields. -/
structure CodeBody where
  /-- The most stack slots the code uses. -/
  maxStack : UInt16
  /-- The number of local variables. -/
  maxLocals : UInt16
  /-- The code array. -/
  code : Array UInt8
  /-- The exception handlers. -/
  exceptions : Array ExceptionRow
  /-- The nested attributes. -/
  nested : List NestedAttribute
  /-- There is code. -/
  some_code : 1 ≤ code.size
  /-- The code is not too long. -/
  short_code : code.size ≤ maxCodeLength
  /-- The number of handlers fits 16 bits. -/
  few_exceptions : exceptions.size < 65536
  /-- The number of nested attributes fits 16 bits. -/
  few_nested : nested.length < 65536

namespace CodeBody

/-- The bytes of a body. -/
def bytes (body : CodeBody) : List UInt8 :=
  BigEndian.u2 body.maxStack ++ (BigEndian.u2 body.maxLocals ++
    ((BigEndian.u4 (UInt32.ofNat body.code.size) ++ body.code.toList) ++
      (encodeRows ExceptionRow.encode body.exceptions ++
        (BigEndian.u2 (UInt16.ofNat body.nested.length) ++ body.nested.flatMap NestedAttribute.bytes))))

/-- The parts of a body in front of its nested attributes. -/
def front (body : CodeBody) : CodeAttribute :=
  { maxStack := body.maxStack, maxLocals := body.maxLocals, code := body.code, exceptions := body.exceptions }

/-- A body with other nested attributes. -/
def withNested (body : CodeBody) (nested : List NestedAttribute) (few : nested.length < 65536) : CodeBody :=
  { body with nested := nested, few_nested := few }

/-- What a body is read as: the parts in front, and the rows of its nested attributes. -/
structure Yields (body : CodeBody) (resolver : Resolver) (attr : CodeAttribute) : Prop where
  /-- The nested attributes are joined to the parts in front of them. -/
  gathers : Gathers resolver body.nested body.front attr
  /-- The tables are in order. -/
  checked : attr.checkTables = .ok ()

variable {body : CodeBody} {resolver : Resolver} {attr : CodeAttribute}

/-- The rows of each table are those that the nested attributes with its name declare. -/
theorem Yields.merges (yields : body.Yields resolver attr) (table : NestedTable) :
    Merges resolver table body.nested (attr.rows table) := by
  obtain ⟨added, merges, same⟩ := yields.gathers.joined table
  have none : body.front.rows table = #[] := by cases table <;> rfl
  rw [same, none, Array.empty_append]
  exact merges

end CodeBody

/-- An attribute is spelled by the bodies that yield it. -/
theorem CodeAttribute.spells_read (resolver : Resolver) :
    Spells (CodeAttribute.read resolver) fun attr content =>
      ∃ body : CodeBody, body.Yields resolver attr ∧ content = body.bytes := by
  refine (Spells.u2.bind fun maxStack => Spells.u2.bind fun maxLocals => spells_readCode.bind fun code =>
    (spells_readRows ExceptionRow.spells_read).bind fun exceptions => Spells.u2.bind fun count =>
      (spells_readNestedAll resolver count.toNat { maxStack, maxLocals, code, exceptions }).bind fun attr =>
        spells_checked attr).congr ?_
  intro attr content
  constructor
  · rintro ⟨maxStack, _, _, rfl, ⟨maxLocals, _, _, rfl, ⟨code, _, _, ⟨some_code, short, rfl⟩,
      ⟨exceptions, _, _, ⟨few, rfl⟩, ⟨count, _, _, rfl, ⟨_, _, _, ⟨nested, size, rfl, gathers⟩,
        ⟨⟨checked, rfl⟩, rfl⟩, rfl⟩, rfl⟩, rfl⟩, rfl⟩, rfl⟩, rfl⟩
    refine ⟨⟨maxStack, maxLocals, code, exceptions, nested, some_code, short, few, ?_⟩,
      ⟨gathers, checked⟩, ?_⟩
    · rw [size]
      exact count.toNat_lt
    · simp [CodeBody.bytes, size]
  · rintro ⟨body, yields, rfl⟩
    have counted : (UInt16.ofNat body.nested.length).toNat = body.nested.length :=
      UInt16.toNat_ofNat_of_lt' body.few_nested
    exact ⟨body.maxStack, _, _, rfl, ⟨body.maxLocals, _, _, rfl, ⟨body.code, _, _,
      ⟨body.some_code, body.short_code, rfl⟩, ⟨body.exceptions, _, _, ⟨body.few_exceptions, rfl⟩,
        ⟨UInt16.ofNat body.nested.length, _, body.nested.flatMap NestedAttribute.bytes, rfl,
          ⟨attr, _, [], ⟨body.nested, counted.symm, rfl, yields.gathers⟩, ⟨⟨yields.checked, rfl⟩, rfl⟩,
            by simp⟩, rfl⟩, rfl⟩, rfl⟩, rfl⟩, rfl⟩

end JvmCode
