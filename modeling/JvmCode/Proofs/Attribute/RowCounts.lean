import JvmCode.Proofs.Attribute.ReadBack

/-! # Row counts

A row count has 16 bits, and a table may have more rows: tables that are split over several nested
attributes are joined when they are read. Such a table is written all the same, with a count that keeps
the low 16 bits.

* **`RowCounts.Exact`** says that the counts in a byte form are the numbers of rows.
* `CodeAttribute.exact_iff_of_write`: what is written has exact counts as long as no table has more than
  65535 rows, and only then.
* `CodeAttribute.exists_rows_lost`: an attribute that was read, and comes back without its lines when it
  is written and read again. -/

namespace JvmCode

/-- Row counts are exact when each one that is written is the number of rows of its table. -/
def RowCounts.Exact (counts : RowCounts) (attr : CodeAttribute) : Prop :=
  counts.exceptions.toNat = attr.exceptions.size ∧
    ∀ table ∈ attr.filled, (counts.nested table).toNat = attr.rowCount table

/-- Pieces of the same lengths that are joined to the same bytes are the same pieces. -/
theorem eq_of_flatMap_eq {α : Type} {items : List α} {first second : α → List UInt8}
    (lengths : ∀ item, (first item).length = (second item).length)
    (same : items.flatMap first = items.flatMap second) : ∀ item ∈ items, first item = second item := by
  induction items with
  | nil => simp
  | cons item rest ih =>
      rw [List.flatMap_cons, List.flatMap_cons] at same
      obtain ⟨head, tail⟩ := List.append_inj same (lengths item)
      intro other mem
      rcases List.mem_cons.mp mem with rfl | mem
      · exact head
      · exact ih tail other mem

namespace CodeAttribute

variable {attr : CodeAttribute} {start stop : Writing}

/-- One byte form has one list of row counts. -/
theorem counts_of_layout_eq {names names' : NestedTable → UInt16} {counts counts' : RowCounts}
    (same : attr.layout names counts = attr.layout names' counts') :
    counts.exceptions = counts'.exceptions ∧
      ∀ table ∈ attr.filled, counts.nested table = counts'.nested table := by
  -- The parts have the same lengths whatever the indexes and counts, so they can be compared in turn.
  simp only [layout, layoutOf, List.append_assoc, List.append_cancel_left_eq] at same
  obtain ⟨exceptions, rest⟩ := List.append_inj same (by simp)
  refine ⟨BigEndian.u2_injective exceptions, ?_⟩
  simp only [List.append_cancel_left_eq] at rest
  intro table mem
  have nested := eq_of_flatMap_eq (by simp [nestedBytes, framed]) rest table mem
  simp only [nestedBytes, framed, List.append_assoc] at nested
  have behindName := (List.append_inj nested (by simp)).2
  have behindLength := (List.append_inj behindName (by simp)).2
  exact BigEndian.u2_injective (List.append_inj behindLength (by simp)).1

/-- The declared counts are exact as long as no table has more than 65535 rows, and only then. -/
theorem exact_declared_iff (attr : CodeAttribute) : attr.declared.Exact attr ↔
    attr.exceptions.size ≤ 65535 ∧ ∀ table, attr.rowCount table ≤ 65535 := by
  simp only [RowCounts.Exact, declared, toNat_ofNat_eq_iff]
  refine and_congr Iff.rfl ⟨?_, ?_⟩
  · intro few table
    by_cases rows : attr.rowCount table = 0
    · omega
    · refine few table (List.mem_filter.mpr ⟨?_, by simpa using rows⟩)
      cases table <;> simp [NestedTable.all]
  · intro few table _
    exact few table

/-- The row counts of a byte form that is written are exact as long as no table has more than 65535 rows,
and only then. -/
theorem exact_iff_of_layout_eq {names names' : NestedTable → UInt16} {counts : RowCounts}
    (same : attr.layout names counts = attr.layout names' attr.declared) :
    counts.Exact attr ↔ attr.exceptions.size ≤ 65535 ∧ ∀ table, attr.rowCount table ≤ 65535 := by
  obtain ⟨exceptions, nested⟩ := counts_of_layout_eq same
  rw [← exact_declared_iff]
  unfold RowCounts.Exact
  rw [exceptions]
  refine and_congr Iff.rfl (forall₂_congr fun table mem => ?_)
  rw [nested table mem]

/-- When written row counts are right. Whatever `attr.write` appends is `attr.layout names counts` for some
`counts`. These are `Exact`, the numbers of rows of the tables, exactly when no table has more than 65535 rows: a
longer table is written without a fault, with a count that is cut to 16 bits. -/
theorem exact_iff_of_write (written : attr.write start = .ok () stop) :
    (∃ names counts, stop.output.toList = start.output.toList ++ attr.layout names counts) ∧
      ∀ names counts, stop.output.toList = start.output.toList ++ attr.layout names counts →
        (counts.Exact attr ↔ attr.exceptions.size ≤ 65535 ∧ ∀ table, attr.rowCount table ≤ 65535) := by
  obtain ⟨-, -, -, output⟩ := layout_of_write written
  refine ⟨⟨_, _, output⟩, ?_⟩
  intro names counts same
  rw [output, List.append_cancel_left_eq] at same
  exact exact_iff_of_layout_eq same.symm

/-- The row counts of an attribute with one row in each table. -/
theorem exact_of_write_guardedStore :
    ∃ stop, guardedStore.write ⟨#[], Pool.empty⟩ = .ok () stop ∧
      ∀ names counts, stop.output.toList = guardedStore.layout names counts →
        counts.Exact guardedStore := by
  obtain ⟨stop, written⟩ := exists_write_guardedStore
  refine ⟨stop, written, fun names counts same => ?_⟩
  refine ((exact_iff_of_write written).2 names counts (by simpa using same)).mpr ⟨by decide, ?_⟩
  intro table
  cases table <;> decide

/-! ## Lost rows -/

/-- Half of a line number table that is too long to be counted. -/
def halfTable : CodeAttribute where
  code := #[0xb1]
  lines := Array.replicate 32768 ⟨0, 1⟩

/-- A line number table that is too long to be counted. -/
def fullTable : CodeAttribute := { halfTable with lines := halfTable.lines ++ halfTable.lines }

/-- The whole table has one row more than can be counted. -/
theorem rowCount_fullTable : fullTable.rowCount .lines = 65536 := by
  simp [rowCount, fullTable, halfTable]

/-- The halves can be counted. -/
theorem rowCount_halfTable_le (table : NestedTable) : halfTable.rowCount table ≤ 32768 := by
  cases table with
  | lines => simp [rowCount, halfTable]
  | locals => exact Nat.zero_le _
  | localTypes => exact Nat.zero_le _

/-- The rows of the whole table are in order. -/
theorem checkTables_fullTable : fullTable.checkTables = .ok () := by
  have accepted : LineRow.check 1 ⟨0, 1⟩ = .ok () := by decide
  refine checkTables_eq_ok_iff.mpr ⟨fun row mem => absurd mem (Array.not_mem_empty row), ?_,
    fun row mem => absurd mem (Array.not_mem_empty row),
    fun row mem => absurd mem (Array.not_mem_empty row)⟩
  intro row mem
  have same : row = ⟨0, 1⟩ := by simpa [fullTable, halfTable] using mem
  rw [same]
  exact accepted

/-- The whole table is read from two nested attributes with a half each. -/
theorem read_halfTable_twice {pool : Pool} {name : UInt16}
    (named : pool.resolver.text name = .ok NestedTable.lines.name) :
    CodeAttribute.read pool.resolver
        (halfTable.layoutOf [.lines, .lines] (fun _ => name) halfTable.declared).toArray Cursor.start =
      .ok fullTable (Cursor.start.forward
        (halfTable.layoutOf [.lines, .lines] (fun _ => name) halfTable.declared).length) := by
  have few : ∀ table, halfTable.rowCount table ≤ 65535 :=
    fun table => Nat.le_trans (rowCount_halfTable_le table) (by decide)
  have legible : halfTable.Legible pool.resolver (fun _ => name) halfTable.declared .lines := by
    have size := rowCount_halfTable_le .lines
    have bytes := length_rowBytes_le halfTable .lines
    refine ⟨named, Nat.le_of_eq (toNat_ofNat_eq_iff.mpr (few .lines)), by omega⟩
  refine read_of_stands_layoutOf (by decide) (by decide) (by decide) (by decide) ?_ ?_
    checkTables_fullTable ⟨Nat.zero_le _, ?_⟩
  · intro table mem
    have lines : table = .lines := by simpa using mem
    rw [lines]
    exact legible
  · rw [kept_declared few]
    simp only [List.foldl_cons, List.foldl_nil, join, extend, rows, withoutNested, fullTable,
      Array.empty_append]
    rfl
  · exact List.prefix_rfl

/-- Of a table with 65536 rows none is kept. -/
theorem kept_fullTable : fullTable.kept fullTable.declared = { fullTable with lines := #[] } := by
  have none : (fullTable.declared.nested .lines).toNat = 0 := by
    change (UInt16.ofNat (fullTable.rowCount .lines)).toNat = 0
    rw [rowCount_fullTable]
    decide
  have locals : fullTable.locals = #[] := rfl
  have localTypes : fullTable.localTypes = #[] := rfl
  simp [kept, none, locals, localTypes]

/-- Lines that were read from two nested attributes can be too many to be counted. They are written all the
same, with a count that is wrong, and none of them is read back. -/
theorem exists_rows_lost :
    ∃ (first last : Writing) (bytes : Array UInt8) (attr : CodeAttribute), first.pool.Reachable ∧
      (∃ stop, CodeAttribute.read first.pool.resolver bytes Cursor.start = .ok attr stop) ∧
      attr.lines.size = 65536 ∧ attr.write first = .ok () last ∧
      (∀ names counts, last.output.toList = first.output.toList ++ attr.layout names counts →
        ¬counts.Exact attr) ∧
      ∃ stop, CodeAttribute.read last.pool.resolver last.output Cursor.start =
        .ok { attr with lines := #[] } stop := by
  -- The pool holds the name of the table and nothing else.
  obtain ⟨name, pool, added⟩ := @Pool.exists_intern Pool.empty (.text NestedTable.lines.name)
    (by decide) (by decide)
  have size := Pool.size_le_of_intern added
  have reachable : pool.Reachable := ((Interning.Grows.intern _).of_ok added).reachable .empty
  have named := Pool.Sound.empty.text_of_internText added
  obtain ⟨last, written⟩ := @exists_write fullTable ⟨#[], pool⟩ (by decide) (by decide)
    (Nat.le_trans (Nat.add_le_add_right size 3) (by decide))
  refine ⟨⟨#[], pool⟩, last, _, fullTable, reachable, ⟨_, read_halfTable_twice named⟩,
    rowCount_fullTable, written, ?_, ?_⟩
  · intro names counts same exact_counts
    obtain ⟨-, -, -, output⟩ := layout_of_write written
    rw [output, List.append_cancel_left_eq] at same
    have few := ((exact_iff_of_layout_eq same.symm).mp exact_counts).2 .lines
    rw [rowCount_fullTable] at few
    omega
  · have few : ∀ table, fullTable.rowCount table < 400000000 := by
      intro table
      cases table with
      | lines =>
          rw [rowCount_fullTable]
          decide
      | locals => decide
      | localTypes => decide
    obtain ⟨content, output, read⟩ := read_of_write reachable written (by decide) few
      checkTables_fullTable
    have stands : Stands last.output Cursor.start.position content := by
      refine ⟨Nat.zero_le _, ?_⟩
      rw [output]
      exact List.prefix_rfl
    exact ⟨_, by rw [← kept_fullTable]; exact read stands⟩

end CodeAttribute

end JvmCode
