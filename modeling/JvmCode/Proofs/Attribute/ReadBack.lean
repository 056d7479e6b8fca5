import JvmCode.Proofs.Attribute.Reading
import JvmCode.Proofs.Outcomes
import JvmCode.Proofs.Pool.Resolving

/-! # Reading what was written

Where the bytes of an attribute stand, it can be read, from the names of its nested tables to the rows in
them. What comes back of a nested table is as many of its rows as its count says; the rest of its body is
not looked at.

* **`CodeAttribute.kept`** is what comes back for given row counts.
* `CodeAttribute.read_of_stands`: reading a layout, by the nested table (`readNested_of_stands`) and by all of
  them (`readNestedAll_of_stands`).
* `CodeAttribute.read_written`: an attribute with at most 65535 rows in each table comes back as it was. -/

namespace JvmCode

open Reader

/-! ## Nested tables -/

/-- The rows that are counted stand in front of the others. -/
theorem isPrefix_encodeRows_take {α : Type} {encode : α → List UInt8} {rows : Array α} {count : UInt16}
    (enough : count.toNat ≤ rows.size) :
    encodeRows encode (rows.take count.toNat) <+: BigEndian.u2 count ++ rows.toList.flatMap encode := by
  have size : (rows.take count.toNat).size = count.toNat := by simp [enough]
  refine ⟨(rows.toList.drop count.toNat).flatMap encode, ?_⟩
  rw [encodeRows, size, UInt16.ofNat_toNat, List.append_assoc, ← List.flatMap_append]
  simp

namespace CodeAttribute

variable {attr source : CodeAttribute} {names : NestedTable → UInt16} {counts : RowCounts}
  {resolver : Resolver} {bytes : Array UInt8} {start : Cursor}

/-- An attribute whose nested tables are cut off behind as many rows as counts say. -/
def kept (attr : CodeAttribute) (counts : RowCounts) : CodeAttribute :=
  { attr with
    lines := attr.lines.take (counts.nested .lines).toNat
    locals := attr.locals.take (counts.nested .locals).toNat
    localTypes := attr.localTypes.take (counts.nested .localTypes).toNat }

/-- An attribute with the rows that another has in a nested table joined to its own. -/
def join (attr source : CodeAttribute) (table : NestedTable) : CodeAttribute :=
  attr.extend table (source.rows table)

/-- Joining a table without rows changes nothing. -/
theorem join_of_rowCount {table : NestedTable} (none : source.rowCount table = 0) :
    attr.join source table = attr := by
  rw [rowCount_eq_size] at none
  rw [join, Array.eq_empty_of_size_eq_zero none]
  cases table <;> simp [extend]

/-- Rows take ten bytes at most. -/
theorem length_rowBytes_le (attr : CodeAttribute) (table : NestedTable) :
    (attr.rowBytes table).length ≤ 10 * attr.rowCount table := by
  cases table with
  | lines =>
      simp [rowBytes, rowCount, List.length_flatMap, LineRow.encode]
      omega
  | locals =>
      simp [rowBytes, rowCount, List.length_flatMap, LocalRow.encode]
      omega
  | localTypes =>
      simp [rowBytes, rowCount, List.length_flatMap, LocalRow.encode]
      omega

/-- A nested table can be found and read: its name is at its index, it has as many rows as are counted at
least, and its length fits 32 bits. -/
structure Legible (attr : CodeAttribute) (resolver : Resolver) (names : NestedTable → UInt16)
    (counts : RowCounts) (table : NestedTable) : Prop where
  /-- The name is found. -/
  named : resolver.text (names table) = .ok table.name
  /-- There are as many rows as are counted, or more. -/
  enough : (counts.nested table).toNat ≤ attr.rowCount table
  /-- The length fits 32 bits. -/
  small : 2 + (attr.rowBytes table).length < 4294967296

/-- A legible table as a nested attribute. -/
def Legible.nested {table : NestedTable} (legible : source.Legible resolver names counts table) :
    NestedAttribute where
  nameIndex := names table
  content := BigEndian.u2 (counts.nested table) ++ source.rowBytes table
  short := by
    have small := legible.small
    rwa [List.length_append, BigEndian.length_u2]

/-- A legible table declares as many of its rows as are counted. -/
theorem Legible.declares {table : NestedTable} (legible : source.Legible resolver names counts table) :
    table.Declares legible.nested.content ((source.kept counts).rows table) := by
  have enough := legible.enough
  have counted := (counts.nested table).toNat_lt
  have cut : (source.kept counts).rows table = (source.rows table).take (counts.nested table).toNat := by
    cases table <;> rfl
  rw [rowCount_eq_size] at enough
  have content : legible.nested.content =
      BigEndian.u2 (counts.nested table) ++ (source.rows table).toList.flatMap table.encodeRow :=
    congrArg (BigEndian.u2 (counts.nested table) ++ ·) (rowBytes_eq_flatMap source table)
  rw [cut, content]
  exact ⟨by simp; omega, isPrefix_encodeRows_take enough⟩

/-- Where the bytes of a nested table stand, its rows are read and joined. -/
theorem readNested_of_stands {table : NestedTable} (legible : source.Legible resolver names counts table)
    (stands : Stands bytes start.position (source.nestedBytes names counts table)) :
    readNested resolver attr bytes start = .ok (attr.join (source.kept counts) table)
      (start.forward (source.nestedBytes names counts table).length) := by
  have named : legible.nested.name? resolver = some table.name :=
    NestedAttribute.name?_eq_some_iff.mpr legible.named
  exact (spells_readNested resolver attr stands.1 _ _).mpr
    ⟨_, ⟨legible.nested, rfl, .table named legible.declares⟩, stands, rfl⟩

/-- Where the bytes of nested tables stand, they are read and joined one by one. -/
theorem readNestedAll_of_stands {tables : List NestedTable}
    (legible : ∀ table ∈ tables, source.Legible resolver names counts table)
    (stands : Stands bytes start.position (tables.flatMap (source.nestedBytes names counts))) :
    readNestedAll resolver tables.length attr bytes start =
      .ok (tables.foldl (fun attr table => attr.join (source.kept counts) table) attr)
        (start.forward (tables.flatMap (source.nestedBytes names counts)).length) := by
  induction tables generalizing attr start with
  | nil => rfl
  | cons table rest ih =>
      rw [List.flatMap_cons] at stands ⊢
      obtain ⟨first, others⟩ := Stands.append_iff.mp stands
      have read := @readNested_of_stands attr source names counts resolver bytes start table
        (legible table (List.mem_cons_self ..)) first
      refine Reader.bind_eq_ok_iff.mpr ⟨_, _, read, ?_⟩
      rw [ih (fun other mem => legible other (List.mem_cons_of_mem _ mem)) others,
        Cursor.forward_forward, List.length_append, List.foldl_cons]

/-! ## Attributes -/

/-- Tables are in order exactly when each of their rows is. -/
theorem checkTables_eq_ok_iff : attr.checkTables = .ok () ↔
    (∀ row ∈ attr.exceptions, row.check attr.code.size = .ok ()) ∧
      (∀ row ∈ attr.lines, row.check attr.code.size = .ok ()) ∧
      (∀ row ∈ attr.locals, row.check attr.code.size = .ok ()) ∧
      ∀ row ∈ attr.localTypes, row.check attr.code.size = .ok () := by
  simp only [checkTables, Outcome.bind_eq_ok_iff, ← Outcome.arrayForM_eq_ok_iff]
  constructor
  · rintro ⟨⟨⟩, exceptions, ⟨⟩, lines, ⟨⟩, locals, localTypes⟩
    exact ⟨exceptions, lines, locals, localTypes⟩
  · rintro ⟨exceptions, lines, locals, localTypes⟩
    exact ⟨(), exceptions, (), lines, (), locals, localTypes⟩

/-- The first items of an array are among its items. -/
theorem mem_of_mem_take {α : Type} {items : Array α} {item : α} {count : Nat}
    (mem : item ∈ items.take count) : item ∈ items := by
  rw [← Array.mem_toList_iff] at mem ⊢
  apply List.mem_of_mem_take
  simpa using mem

/-- Tables that are cut off stay in order. -/
theorem checkTables_kept (checked : attr.checkTables = .ok ()) (counts : RowCounts) :
    (attr.kept counts).checkTables = .ok () := by
  obtain ⟨exceptions, lines, locals, localTypes⟩ := checkTables_eq_ok_iff.mp checked
  refine checkTables_eq_ok_iff.mpr ⟨exceptions, ?_, ?_, ?_⟩
  · exact fun row mem => lines row (mem_of_mem_take mem)
  · exact fun row mem => locals row (mem_of_mem_take mem)
  · exact fun row mem => localTypes row (mem_of_mem_take mem)

/-- Where a full table stands, it is read. -/
theorem readRows_of_stands_full {α : Type} {row : Reader α} {encode : α → List UInt8}
    (spells : Spells row fun item content => content = encode item) {rows : Array α} {count : UInt16}
    (exact_count : count.toNat = rows.size) (stands : Stands bytes start.position
      (BigEndian.u2 count ++ rows.toList.flatMap encode)) :
    readRows row bytes start =
      .ok rows (start.forward (BigEndian.u2 count ++ rows.toList.flatMap encode).length) := by
  have small := count.toNat_lt
  have shape : BigEndian.u2 count ++ rows.toList.flatMap encode = encodeRows encode rows := by
    rw [encodeRows, ← exact_count, UInt16.ofNat_toNat]
  rw [shape] at stands ⊢
  have inside : start.position ≤ bytes.size := stands.1
  exact (spells_readRows spells inside _ _).mpr ⟨_, ⟨by omega, rfl⟩, stands, rfl⟩

/-- Where the bytes of an attribute with some nested tables stand, it is read: the tables are joined in
order, and then they are checked. -/
theorem read_of_stands_layoutOf {tables : List NestedTable} {result : CodeAttribute}
    (some_code : 1 ≤ attr.code.size) (short : attr.code.size ≤ maxCodeLength)
    (few : tables.length ≤ 65535) (exceptions : counts.exceptions.toNat = attr.exceptions.size)
    (legible : ∀ table ∈ tables, attr.Legible resolver names counts table)
    (joined : tables.foldl (fun before table => before.join (attr.kept counts) table)
      attr.withoutNested = result) (checked : result.checkTables = .ok ())
    (stands : Stands bytes start.position (attr.layoutOf tables names counts)) :
    read resolver bytes start =
      .ok result (start.forward (attr.layoutOf tables names counts).length) := by
  have shape : attr.layoutOf tables names counts = BigEndian.u2 attr.maxStack ++
      (BigEndian.u2 attr.maxLocals ++ ((BigEndian.u4 (UInt32.ofNat attr.code.size) ++ attr.code.toList) ++
        ((BigEndian.u2 counts.exceptions ++ attr.exceptions.toList.flatMap ExceptionRow.encode) ++
          (BigEndian.u2 (UInt16.ofNat tables.length) ++
            tables.flatMap (attr.nestedBytes names counts))))) := by
    simp [layoutOf]
  rw [shape] at stands ⊢
  obtain ⟨maxStack, stands⟩ := Stands.append_iff.mp stands
  obtain ⟨maxLocals, stands⟩ := Stands.append_iff.mp stands
  obtain ⟨code, stands⟩ := Stands.append_iff.mp stands
  obtain ⟨handlers, stands⟩ := Stands.append_iff.mp stands
  obtain ⟨count, nested⟩ := Stands.append_iff.mp stands
  have counted : (UInt16.ofNat tables.length).toNat = tables.length :=
    UInt16.toNat_ofNat_of_lt' (show tables.length < 65536 by omega)
  refine Reader.bind_eq_ok_iff.mpr ⟨_, _, Reader.u2_eq_ok_iff.mpr ⟨maxStack, rfl⟩, ?_⟩
  refine Reader.bind_eq_ok_iff.mpr ⟨_, _, Reader.u2_eq_ok_iff.mpr ⟨maxLocals, rfl⟩, ?_⟩
  refine Reader.bind_eq_ok_iff.mpr ⟨_, _, (spells_readCode code.1 _ _).mpr
    ⟨_, ⟨some_code, short, rfl⟩, code, rfl⟩, ?_⟩
  refine Reader.bind_eq_ok_iff.mpr ⟨_, _, readRows_of_stands_full ExceptionRow.spells_read exceptions
    handlers, ?_⟩
  refine Reader.bind_eq_ok_iff.mpr ⟨_, _, Reader.u2_eq_ok_iff.mpr ⟨count, rfl⟩, ?_⟩
  rw [counted]
  refine Reader.bind_eq_ok_iff.mpr ⟨_, _, readNestedAll_of_stands legible nested, ?_⟩
  change CodeAttribute.checked (tables.foldl _ attr.withoutNested) bytes _ = _
  rw [joined, CodeAttribute.checked, checked]
  refine Reader.pure_eq_ok_iff.mpr ⟨rfl, ?_⟩
  simp only [Cursor.forward_forward, List.length_append, BigEndian.length_u2, BigEndian.length_u4,
    Array.length_toList]
  congr 1
  omega

/-- The nested tables that have rows, joined in order, make up all nested tables. -/
theorem foldl_join_filled (attr : CodeAttribute) (counts : RowCounts) :
    attr.filled.foldl (fun before table => before.join (attr.kept counts) table) attr.withoutNested =
      attr.kept counts := by
  -- A table without rows can be joined as well, so the fold may run over all tables.
  have all : attr.filled.foldl (fun before table => before.join (attr.kept counts) table)
      attr.withoutNested = NestedTable.all.foldl
        (fun before table => before.join (attr.kept counts) table) attr.withoutNested := by
    rw [filled, List.foldl_filter]
    congr 1
    funext before table
    by_cases none : attr.rowCount table = 0
    · have cut : (attr.kept counts).rowCount table = 0 := by
        cases table <;> simp_all [rowCount, kept]
      simp [none, join_of_rowCount cut]
    · simp [none]
  rw [all]
  simp [NestedTable.all, join, extend, rows, withoutNested, kept]

/-- Where the bytes of an attribute stand, it is read up to the rows that are counted. -/
theorem read_of_stands (some_code : 1 ≤ attr.code.size) (short : attr.code.size ≤ maxCodeLength)
    (exceptions : counts.exceptions.toNat = attr.exceptions.size)
    (legible : ∀ table ∈ attr.filled, attr.Legible resolver names counts table)
    (checked : attr.checkTables = .ok ())
    (stands : Stands bytes start.position (attr.layout names counts)) :
    read resolver bytes start =
      .ok (attr.kept counts) (start.forward (attr.layout names counts).length) := by
  have few : attr.filled.length ≤ 3 := List.length_filter_le ..
  exact read_of_stands_layoutOf some_code short (by omega) exceptions legible
    (foldl_join_filled attr counts) (checkTables_kept checked counts) stands

/-! ## Round trips -/

variable {first last : Writing}

/-- What is written in a reachable pool is legible. Rows take ten bytes at most, so the length of a table with
less than 400 million rows fits 32 bits. -/
theorem legible_of_write (reachable : first.pool.Reachable) (written : attr.write first = .ok () last)
    {table : NestedTable} (mem : table ∈ attr.filled) (few : attr.rowCount table < 400000000) :
    attr.Legible last.pool.resolver (fun table => last.pool.sharedIndex (.text table.name))
      attr.declared table := by
  obtain ⟨-, grown, shared, -⟩ := layout_of_write written
  have sound := grown.sound reachable.sound
  have bytes := length_rowBytes_le attr table
  refine ⟨Pool.text_eq_ok_iff.mpr ((sound.shared _ _).mp (shared table mem)).1, ?_, by omega⟩
  rw [declared, UInt16.toNat_ofNat']
  exact Nat.mod_le _ _

/-- The code of an attribute that is written is neither empty nor too long. -/
theorem code_size_of_refusal? (accepted : attr.refusal? = none) :
    1 ≤ attr.code.size ∧ attr.code.size ≤ maxCodeLength := by
  unfold refusal? at accepted
  dsimp only at accepted
  split at accepted
  · cases accepted
  · split at accepted
    · cases accepted
    · omega

/-- What is written for an attribute is read back, wherever it stands, up to the rows that are counted. The
lengths of its nested tables have to fit 32 bits. -/
theorem read_of_write (reachable : first.pool.Reachable) (written : attr.write first = .ok () last)
    (exceptions : attr.exceptions.size ≤ 65535) (few : ∀ table, attr.rowCount table < 400000000)
    (checked : attr.checkTables = .ok ()) :
    ∃ content, last.output.toList = first.output.toList ++ content ∧
      ∀ {bytes : Array UInt8} {start : Cursor}, Stands bytes start.position content →
        read last.pool.resolver bytes start =
          .ok (attr.kept attr.declared) (start.forward content.length) := by
  obtain ⟨accepted, -, -, output⟩ := layout_of_write written
  obtain ⟨some_code, short⟩ := code_size_of_refusal? accepted
  refine ⟨_, output, fun stands => ?_⟩
  refine read_of_stands some_code short ?_ (fun table mem => legible_of_write reachable written mem
    (few table)) checked stands
  rw [declared, toNat_ofNat_eq_iff]
  exact exceptions

/-- Where all rows can be counted, all are kept. -/
theorem kept_declared (few : ∀ table, attr.rowCount table ≤ 65535) : attr.kept attr.declared = attr := by
  have lines := toNat_ofNat_eq_iff.mpr (few .lines)
  have locals := toNat_ofNat_eq_iff.mpr (few .locals)
  have localTypes := toNat_ofNat_eq_iff.mpr (few .localTypes)
  simp only [kept, declared, lines, locals, localTypes]
  simp [rowCount]

/-- Reading undoes writing: `CodeAttribute.read` after `CodeAttribute.write`. An attribute that passes
`checkTables` and has at most 65535 rows in each table is read back as it was from the bytes that `write`
appended, whatever stands `before` and `trailing` behind, and reading stops at their end.
`last.pool.resolver.Keeps first.pool.resolver`: what the pool resolved before is resolved to the same. -/
theorem read_written (reachable : first.pool.Reachable)
    (few : attr.exceptions.size ≤ 65535 ∧ attr.lines.size ≤ 65535 ∧ attr.locals.size ≤ 65535 ∧
      attr.localTypes.size ≤ 65535)
    (checked : attr.checkTables = .ok ()) (written : attr.write first = .ok () last) :
    ∃ content, last.output.toList = first.output.toList ++ content ∧
      (∀ before trailing mark,
        CodeAttribute.read last.pool.resolver (before ++ content ++ trailing).toArray
          ⟨before.length, mark⟩ = .ok attr ⟨before.length + content.length, mark⟩) ∧
      last.pool.resolver.Keeps first.pool.resolver := by
  obtain ⟨exceptions, lines, locals, localTypes⟩ := few
  have nested : ∀ table, attr.rowCount table ≤ 65535 := by
    intro table
    cases table with
    | lines => exact lines
    | locals => exact locals
    | localTypes => exact localTypes
  have grown := (layout_of_write written).2.1
  obtain ⟨content, output, read⟩ := read_of_write reachable written exceptions
    (fun table => Nat.lt_of_le_of_lt (nested table) (by decide)) checked
  refine ⟨content, output, fun before trailing mark => ?_, grown.extends.keeps⟩
  have stands : Stands (before ++ content ++ trailing).toArray before.length content := by
    refine ⟨by simp, ?_⟩
    simp
  rw [kept_declared nested] at read
  exact @read _ ⟨before.length, mark⟩ stands

/-- An attribute with one row in each table is read back. -/
theorem read_written_guardedStore :
    ∃ last content, guardedStore.write ⟨#[], Pool.empty⟩ = .ok () last ∧
      last.output.toList = content ∧
      ∀ before trailing mark,
        CodeAttribute.read last.pool.resolver (before ++ content ++ trailing).toArray
          ⟨before.length, mark⟩ = .ok guardedStore ⟨before.length + content.length, mark⟩ := by
  obtain ⟨last, written⟩ := exists_write_guardedStore
  obtain ⟨content, output, read, -⟩ := read_written .empty (by decide) (by decide) written
  exact ⟨last, content, written, by simpa using output, read⟩

end CodeAttribute

end JvmCode
