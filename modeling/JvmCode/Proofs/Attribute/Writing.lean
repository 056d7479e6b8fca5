import JvmCode.Attribute.Format
import JvmCode.Proofs.Pool.Growth

/-! # What is written for an attribute

The body of an attribute is laid out in a fixed order. Two things in it are not determined by the
attribute alone: the indexes of the names, which the pool decides, and the row counts, which have 16
bits however many rows there are.

* **`CodeAttribute.layout`** is the byte form with given name indexes and row counts.
* `CodeAttribute.layout_of_write`: what is written is laid out with the indexes at which the pool then
  shares the names, and with counts that keep the low 16 bits of the numbers of rows.
* `CodeAttribute.exists_write`: writing succeeds if the pool has room for the names, whatever the tables
  are. -/

namespace JvmCode

/-! ## Programs that write -/

namespace Writer

variable {α β : Type} {start stop : Writing}

/-- Two programs in turn succeed exactly when both do. -/
theorem bind_eq_ok_iff {program : Writer α} {next : α → Writer β} {b : β} :
    (program >>= next) start = .ok b stop ↔
      ∃ a middle, program start = .ok a middle ∧ next a middle = .ok b stop := by
  simp only [bind, EStateM.bind]
  cases program start with
  | ok a middle =>
      constructor
      · exact fun h => ⟨a, middle, rfl, h⟩
      · rintro ⟨_, _, ⟨⟩, h⟩
        exact h
  | error fault middle => simp

/-- Writing bytes always succeeds, and puts them behind what was written. -/
theorem bytes_eq_ok_iff {content : List UInt8} {done : Unit} :
    bytes content start = .ok done stop ↔ stop = { start with output := start.output ++ content } := by
  change EStateM.Result.ok () _ = _ ↔ _
  simp [eq_comm]

/-- Adding to the pool succeeds exactly when the program that adds does, and writes nothing. -/
theorem interning_eq_ok_iff {program : Interning α} {value : α} :
    interning program start = .ok value stop ↔
      ∃ pool, program start.pool = .ok value pool ∧ stop = { start with pool } := by
  cases run : program start.pool with
  | ok other pool =>
      simp only [interning, run, EStateM.Result.ok.injEq]
      constructor
      · rintro ⟨rfl, rfl⟩
        exact ⟨pool, ⟨rfl, rfl⟩, rfl⟩
      · rintro ⟨_, ⟨rfl, rfl⟩, rfl⟩
        exact ⟨rfl, rfl⟩
  | error cause pool => simp [interning, run]

end Writer

/-- The index at which a pool shares an entry, or zero if it does not hold it. -/
def Pool.sharedIndex (pool : Pool) (entry : Entry) : UInt16 := (pool.indexOf[entry]?).getD 0

/-! ## The layout -/

/-- The row counts that stand in front of the tables of an attribute. -/
structure RowCounts where
  /-- The count of the exception table. -/
  exceptions : UInt16
  /-- The counts of the nested tables. -/
  nested : NestedTable → UInt16

/-- The low 16 bits of a number are the number exactly when it fits them. -/
theorem toNat_ofNat_eq_iff {number : Nat} : (UInt16.ofNat number).toNat = number ↔ number ≤ 65535 := by
  rw [UInt16.toNat_ofNat']
  omega

namespace CodeAttribute

/-- The number of rows of a nested table. -/
def rowCount (attr : CodeAttribute) : NestedTable → Nat
  | .lines => attr.lines.size
  | .locals => attr.locals.size
  | .localTypes => attr.localTypes.size

/-- The bytes of the rows of a nested table. -/
def rowBytes (attr : CodeAttribute) : NestedTable → List UInt8
  | .lines => attr.lines.toList.flatMap LineRow.encode
  | .locals => attr.locals.toList.flatMap LocalRow.encode
  | .localTypes => attr.localTypes.toList.flatMap LocalRow.encode

/-- The nested tables that have rows, in the order in which they are written. -/
def filled (attr : CodeAttribute) : List NestedTable :=
  NestedTable.all.filter fun table => attr.rowCount table ≠ 0

/-- The bytes of a nested attribute: the index of its name, its length and its body. -/
def framed (name : UInt16) (body : List UInt8) : List UInt8 :=
  BigEndian.u2 name ++ BigEndian.u4 (UInt32.ofNat body.length) ++ body

/-- The bytes of a nested table with its name at a given index and a given row count. -/
def nestedBytes (attr : CodeAttribute) (names : NestedTable → UInt16) (counts : RowCounts)
    (table : NestedTable) : List UInt8 :=
  framed (names table) (BigEndian.u2 (counts.nested table) ++ attr.rowBytes table)

/-- The bytes of an attribute with given nested tables, with names at given indexes and given row counts. -/
def layoutOf (attr : CodeAttribute) (tables : List NestedTable) (names : NestedTable → UInt16)
    (counts : RowCounts) : List UInt8 :=
  BigEndian.u2 attr.maxStack ++ BigEndian.u2 attr.maxLocals
    ++ BigEndian.u4 (UInt32.ofNat attr.code.size) ++ attr.code.toList
    ++ (BigEndian.u2 counts.exceptions ++ attr.exceptions.toList.flatMap ExceptionRow.encode)
    ++ BigEndian.u2 (UInt16.ofNat tables.length) ++ tables.flatMap (attr.nestedBytes names counts)

/-- The bytes of an attribute with names at given indexes and given row counts: each nested table that has
rows stands there once. -/
def layout (attr : CodeAttribute) (names : NestedTable → UInt16) (counts : RowCounts) : List UInt8 :=
  attr.layoutOf attr.filled names counts

/-- The row counts that are written: the low 16 bits of the numbers of rows. -/
def declared (attr : CodeAttribute) : RowCounts :=
  ⟨UInt16.ofNat attr.exceptions.size, fun table => UInt16.ofNat (attr.rowCount table)⟩

variable {attr : CodeAttribute} {start stop : Writing}

/-- A nested table that has rows is written with its count and its rows. -/
theorem nestedBody?_eq (attr : CodeAttribute) (table : NestedTable) :
    attr.nestedBody? table = if attr.rowCount table ≠ 0 then
      some (BigEndian.u2 (attr.declared.nested table) ++ attr.rowBytes table) else none := by
  cases table with
  | lines => simp [nestedBody?, rowCount, rowBytes, declared, encodeRows]
  | locals => simp [nestedBody?, rowCount, rowBytes, declared, encodeRows]
  | localTypes => simp [nestedBody?, rowCount, rowBytes, declared, encodeRows]

/-- The nested tables that have rows are those that are written. -/
theorem nestedBodies_eq (attr : CodeAttribute) :
    attr.nestedBodies = attr.filled.map fun table =>
      (table, BigEndian.u2 (attr.declared.nested table) ++ attr.rowBytes table) := by
  rw [nestedBodies, filled, ← List.filterMap_eq_map, ← List.filterMap_eq_filter, List.filterMap_filterMap]
  congr 1
  funext table
  rw [nestedBody?_eq]
  by_cases rows : attr.rowCount table = 0
  · simp [rows, Option.guard]
  · simp [rows, Option.guard]

/-- A nested table is written as soon as its name is in the pool. -/
theorem writeNested_eq_ok_iff {table : NestedTable} {body : List UInt8} :
    writeNested table body start = .ok () stop ↔ ∃ name pool,
      Pool.internText table.name start.pool = .ok name pool ∧
        stop = ⟨start.output ++ framed name body, pool⟩ := by
  simp only [writeNested, Writer.bind_eq_ok_iff, Writer.interning_eq_ok_iff, Writer.bytes_eq_ok_iff]
  constructor
  · rintro ⟨name, _, ⟨pool, added, rfl⟩, _, _, rfl, _, _, rfl, rfl⟩
    refine ⟨name, pool, added, ?_⟩
    simp only [framed, Writing.mk.injEq, and_true]
    apply Array.ext'
    simp
  · rintro ⟨name, pool, added, rfl⟩
    refine ⟨name, _, ⟨pool, added, rfl⟩, (), _, rfl, (), _, rfl, ?_⟩
    simp only [framed, Writing.mk.injEq, and_true]
    apply Array.ext'
    simp

/-- Nested tables are written in order, each with the name index that the pool shares in the end. -/
theorem framed_of_writeNested {tables : List NestedTable} {body : NestedTable → List UInt8}
    (written : ((tables.map fun table => (table, body table)).forM
      fun (table, body) => writeNested table body : Writer Unit) start = .ok () stop) :
    start.pool.Grows stop.pool ∧
      (∀ table ∈ tables, stop.pool.indexOf[Entry.text table.name]? =
        some (stop.pool.sharedIndex (.text table.name))) ∧
      stop.output.toList = start.output.toList ++ tables.flatMap fun table =>
        framed (stop.pool.sharedIndex (.text table.name)) (body table) := by
  -- Later tables only add to the pool, so the index that a name was given stays its index.
  induction tables generalizing start with
  | nil =>
      cases written
      exact ⟨.refl, by simp, by simp⟩
  | cons table rest ih =>
      obtain ⟨_, middle, first, others⟩ := Writer.bind_eq_ok_iff.mp written
      obtain ⟨name, pool, added, rfl⟩ := writeNested_eq_ok_iff.mp first
      obtain ⟨grown, known, output⟩ := ih others
      have shared := grown.indexOf_eq_some (Pool.indexOf_of_intern added)
      refine ⟨((Interning.Grows.intern _).of_ok added).trans grown, ?_, ?_⟩
      · intro other mem
        rcases List.mem_cons.mp mem with rfl | mem
        · rw [Pool.sharedIndex, shared, Option.getD_some]
        · exact known other mem
      · rw [output, List.flatMap_cons, Pool.sharedIndex, shared]
        simp

/-- The bytes in front of the nested tables are those of the layout. -/
theorem preamble_append (attr : CodeAttribute) (names : NestedTable → UInt16) :
    attr.preamble ++ attr.filled.flatMap (attr.nestedBytes names attr.declared) =
      attr.layout names attr.declared := by
  rw [preamble, nestedBodies_eq, List.length_map]
  rfl

/-- What is written is laid out with the name indexes that the pool shares in the end and with the low 16
bits of the numbers of rows. -/
theorem layout_of_write (written : attr.write start = .ok () stop) :
    attr.refusal? = none ∧ start.pool.Grows stop.pool ∧
      (∀ table ∈ attr.filled, stop.pool.indexOf[Entry.text table.name]? =
        some (stop.pool.sharedIndex (.text table.name))) ∧
      stop.output.toList = start.output.toList ++
        attr.layout (fun table => stop.pool.sharedIndex (.text table.name)) attr.declared := by
  unfold write at written
  cases refused : attr.refusal? with
  | some fault =>
      rw [refused] at written
      cases written
  | none =>
      rw [refused] at written
      obtain ⟨_, middle, first, nested⟩ := Writer.bind_eq_ok_iff.mp written
      rw [nestedBodies_eq] at nested
      obtain ⟨grown, known, output⟩ := framed_of_writeNested nested
      rw [Writer.bytes_eq_ok_iff] at first
      subst first
      refine ⟨rfl, grown, known, ?_⟩
      rw [output, ← preamble_append]
      simp only [Array.toList_appendList, List.append_assoc]
      rfl

/-- Nested tables are written if there is room for their names. -/
theorem exists_writeNested (tables : List NestedTable) (body : NestedTable → List UInt8)
    (room : start.pool.size + tables.length ≤ Pool.maxSize) :
    ∃ stop, ((tables.map fun table => (table, body table)).forM
      fun (table, body) => writeNested table body : Writer Unit) start = .ok () stop := by
  induction tables generalizing start with
  | nil => exact ⟨start, rfl⟩
  | cons table rest ih =>
      rw [List.length_cons] at room
      have short : Pool.textLength (.text table.name) ≤ Pool.maxTextLength := by
        cases table <;> decide
      have narrow : (Entry.text table.name).width = 1 := rfl
      have free : start.pool.size + (Entry.text table.name).width ≤ Pool.maxSize := by
        rw [narrow]
        omega
      obtain ⟨name, pool, added⟩ := Pool.exists_intern short free
      have size := Pool.size_le_of_intern added
      rw [narrow] at size
      obtain ⟨stop, others⟩ := @ih ⟨start.output ++ framed name (body table), pool⟩ (by dsimp only; omega)
      exact ⟨stop, Writer.bind_eq_ok_iff.mpr
        ⟨(), _, writeNested_eq_ok_iff.mpr ⟨name, pool, added, rfl⟩, others⟩⟩

/-- An attribute whose code is neither empty nor too long is written if the pool has three slots left. -/
theorem exists_write (some_code : 1 ≤ attr.code.size) (short : attr.code.size ≤ maxCodeLength)
    (room : start.pool.size + 3 ≤ Pool.maxSize) : ∃ stop, attr.write start = .ok () stop := by
  have accepted : attr.refusal? = none := by
    unfold refusal?
    dsimp only
    rw [if_neg (by omega), if_neg (by omega)]
  have few : attr.filled.length ≤ 3 := List.length_filter_le ..
  obtain ⟨stop, nested⟩ := @exists_writeNested ⟨start.output ++ attr.preamble, start.pool⟩ attr.filled
    (fun table => BigEndian.u2 (attr.declared.nested table) ++ attr.rowBytes table) (by dsimp only; omega)
  refine ⟨stop, ?_⟩
  unfold write
  rw [accepted]
  refine Writer.bind_eq_ok_iff.mpr ⟨(), _, Writer.bytes_eq_ok_iff.mpr rfl, ?_⟩
  rw [nestedBodies_eq]
  exact nested

/-- An attribute with one row in each table. -/
def guardedStore : CodeAttribute where
  maxStack := 1
  maxLocals := 2
  code := #[0x03, 0x3c, 0xb1]
  exceptions := #[⟨0, 2, 2, 0⟩]
  lines := #[⟨0, 7⟩]
  locals := #[⟨2, 1, 1, 2, 1⟩]
  localTypes := #[⟨2, 1, 1, 3, 1⟩]

/-- It can be written in a pool without entries. -/
theorem exists_write_guardedStore : ∃ stop, guardedStore.write ⟨#[], Pool.empty⟩ = .ok () stop :=
  exists_write (by decide) (by decide) (by decide)

end CodeAttribute

end JvmCode
