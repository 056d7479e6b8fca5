import JvmCode.Proofs.Pool.Representation
import JvmCode.Proofs.Spelling

/-! # Pools read back from their bytes

A pool that is written and read again is the same pool: it has the same slots, and it shares entries at the
same indexes, so that whatever is added to the two is given the same index or refused alike.

* `Entry.read_of_stands`: where the bytes of an entry stand, the entry is read.
* **`Pool.pushAll`** appends entries in order; `Reachable.exists_pushAll` says that every pool is made that
  way, and `readInto_of_stands` that reading makes it that way again.
* `read_encode_afterAll`: the round trip. -/

namespace JvmCode

/-! ## Entries -/

section Entries

variable {bytes : Array UInt8} {start : Cursor}

/-- Where the code of a kind stands, the kind is read. -/
theorem HandleKind.read_of_stands {kind : HandleKind} (stands : Stands bytes start.position [kind.code]) :
    HandleKind.read bytes start = .ok kind (start.forward 1) := by
  refine Reader.bind_eq_ok_iff.mpr ⟨kind.code, _, Reader.u1_eq_ok_iff.mpr ⟨stands, rfl⟩, ?_⟩
  simp only [ofCode?_code]
  rfl

namespace Entry

variable {entry : Entry}

/-- Where the bytes of a text stand behind their number, the text is read. -/
theorem readText_of_stands {value : String} (short : (ModifiedUtf8.encode value).length < 65536)
    (stands : Stands bytes start.position (textPayload (ModifiedUtf8.encode value))) :
    readText bytes start =
      .ok (.text value) (start.forward (textPayload (ModifiedUtf8.encode value)).length) := by
  obtain ⟨counted, written⟩ := Stands.append_iff.mp stands
  have length : (UInt16.ofNat (ModifiedUtf8.encode value).length).toNat =
      (ModifiedUtf8.encode value).length := UInt16.toNat_ofNat_of_lt' short
  rw [BigEndian.length_u2] at written
  refine Reader.bind_eq_ok_iff.mpr ⟨_, _, Reader.u2_eq_ok_iff.mpr ⟨counted, rfl⟩, ?_⟩
  refine Reader.bind_eq_ok_iff.mpr ⟨(ModifiedUtf8.encode value).toArray,
    (start.forward 2).forward (ModifiedUtf8.encode value).length,
    Reader.take_eq_ok_iff_stands.mpr ⟨by rw [length, List.size_toArray], written, by rw [length]⟩, ?_⟩
  simp only [ModifiedUtf8.decode?_encode, Cursor.forward_forward, textPayload, List.length_append,
    BigEndian.length_u2]
  rfl

/-- Two indexes are spelled one behind the other. -/
theorem spells_readPair (make : UInt16 → UInt16 → Entry) :
    Reader.Spells (readPair make) fun entry content =>
      ∃ first second, entry = make first second ∧
        content = BigEndian.u2 first ++ BigEndian.u2 second := by
  refine (Reader.Spells.u2.bind fun first => Reader.Spells.u2.map (make first)).congr ?_
  intro entry content
  constructor
  · rintro ⟨first, before, after, rfl, ⟨second, rfl, rfl⟩, rfl⟩
    exact ⟨first, second, rfl, rfl⟩
  · rintro ⟨first, second, rfl, rfl⟩
    exact ⟨first, _, _, rfl, ⟨second, rfl, rfl⟩, rfl⟩

/-- Behind its tag an entry is read where its bytes stand. -/
theorem readPayload_of_stands (short : Pool.textLength entry ≤ Pool.maxTextLength)
    (stands : Stands bytes start.position entry.payload) :
    readPayload entry.tag bytes start = .ok entry (start.forward entry.payload.length) := by
  have inside : start.position ≤ bytes.size := stands.1
  cases entry with
  | text value =>
      have counted : (ModifiedUtf8.encode value).length < 65536 := by
        rw [← ModifiedUtf8.encodedLength_eq_length]
        exact Nat.lt_succ_of_le short
      exact readText_of_stands counted stands
  | integer value => exact ((Reader.Spells.i4.map integer) inside _ _).mpr ⟨_, ⟨value, rfl, rfl⟩, stands, rfl⟩
  | float bits => exact ((Reader.Spells.u4.map float) inside _ _).mpr ⟨_, ⟨bits, rfl, rfl⟩, stands, rfl⟩
  | long value => exact ((Reader.Spells.i8.map long) inside _ _).mpr ⟨_, ⟨value, rfl, rfl⟩, stands, rfl⟩
  | double bits => exact ((Reader.Spells.u8.map double) inside _ _).mpr ⟨_, ⟨bits, rfl, rfl⟩, stands, rfl⟩
  | classRef name => exact ((Reader.Spells.u2.map classRef) inside _ _).mpr ⟨_, ⟨name, rfl, rfl⟩, stands, rfl⟩
  | string value => exact ((Reader.Spells.u2.map string) inside _ _).mpr ⟨_, ⟨value, rfl, rfl⟩, stands, rfl⟩
  | member kind owner described =>
      cases kind with
      | field => exact (spells_readPair _ inside _ _).mpr ⟨_, ⟨owner, described, rfl, rfl⟩, stands, rfl⟩
      | method => exact (spells_readPair _ inside _ _).mpr ⟨_, ⟨owner, described, rfl, rfl⟩, stands, rfl⟩
      | interfaceMethod =>
          exact (spells_readPair _ inside _ _).mpr ⟨_, ⟨owner, described, rfl, rfl⟩, stands, rfl⟩
  | nameAndType named typed =>
      exact (spells_readPair _ inside _ _).mpr ⟨_, ⟨named, typed, rfl, rfl⟩, stands, rfl⟩
  | methodHandle kind reference =>
      have parts : Stands bytes start.position ([kind.code] ++ BigEndian.u2 reference) := stands
      obtain ⟨coded, referred⟩ := Stands.append_iff.mp parts
      refine Reader.bind_eq_ok_iff.mpr ⟨kind, _, HandleKind.read_of_stands coded, ?_⟩
      exact Reader.bind_eq_ok_iff.mpr ⟨reference, _, Reader.u2_eq_ok_iff.mpr ⟨referred, rfl⟩, rfl⟩
  | methodType descriptor =>
      exact ((Reader.Spells.u2.map methodType) inside _ _).mpr ⟨_, ⟨descriptor, rfl, rfl⟩, stands, rfl⟩
  | dynamic bootstrap described =>
      exact (spells_readPair _ inside _ _).mpr ⟨_, ⟨bootstrap, described, rfl, rfl⟩, stands, rfl⟩
  | callSite bootstrap described =>
      exact (spells_readPair _ inside _ _).mpr ⟨_, ⟨bootstrap, described, rfl, rfl⟩, stands, rfl⟩
  | moduleRef name => exact ((Reader.Spells.u2.map moduleRef) inside _ _).mpr ⟨_, ⟨name, rfl, rfl⟩, stands, rfl⟩
  | packageRef name =>
      exact ((Reader.Spells.u2.map packageRef) inside _ _).mpr ⟨_, ⟨name, rfl, rfl⟩, stands, rfl⟩

/-- Where the bytes of an entry stand, the entry is read. -/
theorem read_of_stands (short : Pool.textLength entry ≤ Pool.maxTextLength)
    (stands : Stands bytes start.position entry.encode) :
    Entry.read bytes start =
      .ok entry ⟨start.position + entry.encode.length, start.position⟩ := by
  have parts : Stands bytes start.position ([entry.tag] ++ entry.payload) := stands
  obtain ⟨tag, payload⟩ := Stands.append_iff.mp parts
  refine Reader.bind_eq_ok_iff.mpr ⟨(), ⟨start.position, start.position⟩, rfl, ?_⟩
  refine Reader.bind_eq_ok_iff.mpr ⟨entry.tag, ⟨start.position + 1, start.position⟩,
    Reader.u1_eq_ok_iff.mpr ⟨tag, rfl⟩, ?_⟩
  rw [readPayload_of_stands short payload, encode, List.length_cons, Cursor.forward,
    Nat.add_assoc, Nat.add_comm 1]

end Entry

end Entries

/-! ## Pools -/

namespace Pool

/-- A pool with entries appended in order, none of them shared. -/
def pushAll (pool : Pool) (entries : List Entry) : Pool := entries.foldl push pool

variable {pool : Pool} {entry : Entry} {entries : List Entry} {bytes : Array UInt8} {start : Cursor}

/-- Appending no entry changes nothing. -/
@[simp] theorem pushAll_nil (pool : Pool) : pool.pushAll [] = pool := rfl

/-- Entries are appended one by one. -/
@[simp] theorem pushAll_cons (pool : Pool) (entry : Entry) (rest : List Entry) :
    pool.pushAll (entry :: rest) = (pool.push entry).pushAll rest := rfl

/-- Appending entries takes away no slot. -/
theorem size_le_size_pushAll (pool : Pool) (entries : List Entry) :
    pool.size ≤ (pool.pushAll entries).size := by
  induction entries generalizing pool with
  | nil => simp
  | cons entry rest ih =>
      have grown := size_push pool entry
      have later := ih (pool.push entry)
      rw [pushAll_cons]
      omega

/-- Every reachable pool is made by appending entries with short texts. -/
theorem Reachable.exists_pushAll (reachable : pool.Reachable) :
    ∃ entries, pool = Pool.empty.pushAll entries ∧
      ∀ entry ∈ entries, textLength entry ≤ maxTextLength := by
  refine reachable.push_induction ?_ ?_
  · exact ⟨[], rfl, by simp⟩
  · rintro before entry room ⟨entries, rfl, short⟩
    refine ⟨entries ++ [entry], by simp [pushAll], ?_⟩
    intro other mem
    rw [List.mem_append, List.mem_singleton] at mem
    rcases mem with mem | rfl
    · exact short other mem
    · exact (refusal?_eq_none_iff.mp room).1

/-- The bytes of the entries of a pool: unusable slots have none. -/
def entryBytes (pool : Pool) : List UInt8 :=
  pool.slots.toList.flatMap fun slot => slot.elim [] Entry.encode

/-- The bytes of an appended entry stand behind those of the others. -/
theorem entryBytes_push (pool : Pool) (entry : Entry) :
    (pool.push entry).entryBytes = pool.entryBytes ++ entry.encode := by
  simp only [entryBytes, push, appendSlots]
  by_cases wide : entry.isWide = true
  · simp [wide]
  · simp [wide]

/-- The bytes of appended entries stand behind those of the others, in order. -/
theorem entryBytes_pushAll (pool : Pool) (entries : List Entry) :
    (pool.pushAll entries).entryBytes = pool.entryBytes ++ entries.flatMap Entry.encode := by
  induction entries generalizing pool with
  | nil => simp
  | cons entry rest ih => simp [ih, entryBytes_push]

/-- Where the bytes of entries stand, they are read and appended in order. -/
theorem readInto_of_stands (short : ∀ entry ∈ entries, textLength entry ≤ maxTextLength)
    (room : (pool.pushAll entries).size ≤ maxSize)
    (stands : Stands bytes start.position (entries.flatMap Entry.encode)) :
    ∃ mark, readInto (pool.pushAll entries).size pool bytes start =
      .ok (pool.pushAll entries)
        ⟨start.position + (entries.flatMap Entry.encode).length, mark⟩ := by
  induction entries generalizing pool start with
  | nil =>
      refine ⟨start.mark, ?_⟩
      rw [readInto, pushAll_nil, if_neg (Nat.lt_irrefl _)]
      rfl
  | cons entry rest ih =>
      rw [pushAll_cons] at room ⊢
      rw [List.flatMap_cons] at stands ⊢
      obtain ⟨first, others⟩ := Stands.append_iff.mp stands
      have grown := size_push pool entry
      have later := size_le_size_pushAll (pool.push entry) rest
      have wide := entry.width_pos
      -- There is room for all entries, so there is room for the next one.
      have accepted : pool.refusal? entry = none :=
        refusal?_eq_none_iff.mpr ⟨short entry (List.mem_cons_self ..), by omega⟩
      have read := Entry.read_of_stands (short entry (List.mem_cons_self ..)) first
      obtain ⟨mark, behind⟩ := @ih (pool.push entry)
        ⟨start.position + entry.encode.length, start.position⟩
        (fun other mem => short other (List.mem_cons_of_mem _ mem)) room others
      refine ⟨mark, ?_⟩
      rw [readInto, if_pos (by omega)]
      refine Reader.bind_eq_ok_iff.mpr ⟨entry, _, read, ?_⟩
      simp only [accepted]
      rw [behind, List.length_append, Nat.add_assoc]

/-- Where the bytes of appended entries with short texts stand, behind their count, the pool is read. -/
theorem read_pushAll_of_stands (short : ∀ entry ∈ entries, textLength entry ≤ maxTextLength)
    (room : (Pool.empty.pushAll entries).size ≤ maxSize)
    (stands : Stands bytes start.position (Pool.empty.pushAll entries).encode) :
    ∃ mark, Pool.read bytes start = .ok (Pool.empty.pushAll entries)
      ⟨start.position + (Pool.empty.pushAll entries).encode.length, mark⟩ := by
  have shape : (Pool.empty.pushAll entries).encode =
      BigEndian.u2 (UInt16.ofNat ((Pool.empty.pushAll entries).size + 1)) ++
        entries.flatMap Entry.encode :=
    congrArg (BigEndian.u2 _ ++ ·) (entryBytes_pushAll Pool.empty entries)
  rw [shape] at stands ⊢
  obtain ⟨counted, listed⟩ := Stands.append_iff.mp stands
  rw [BigEndian.length_u2] at listed
  -- The declared number is one more than the slots, which fits 16 bits.
  have slots : (UInt16.ofNat ((Pool.empty.pushAll entries).size + 1)).toNat - 1 =
      (Pool.empty.pushAll entries).size := by
    rw [UInt16.toNat_ofNat_of_lt' (show (Pool.empty.pushAll entries).size + 1 < 65536 by
      unfold maxSize at room; omega)]
    omega
  obtain ⟨mark, behind⟩ := @readInto_of_stands Pool.empty entries bytes (start.forward 2) short room listed
  refine ⟨mark, Reader.bind_eq_ok_iff.mpr ⟨_, _, Reader.u2_eq_ok_iff.mpr ⟨counted, rfl⟩, ?_⟩⟩
  rw [slots, behind, List.length_append, BigEndian.length_u2, Cursor.position_forward, Nat.add_assoc]

/-- Where the bytes of a reachable pool stand, the pool is read. -/
theorem Reachable.read_of_stands (reachable : pool.Reachable)
    (stands : Stands bytes start.position pool.encode) :
    ∃ mark, Pool.read bytes start = .ok pool ⟨start.position + pool.encode.length, mark⟩ := by
  have room := reachable.sound.size_le
  obtain ⟨entries, rfl, short⟩ := reachable.exists_pushAll
  exact read_pushAll_of_stands short room stands

/-- Appended entries with short texts, whatever they are, make a pool that can be reached: from its bytes. -/
theorem reachable_pushAll (short : ∀ entry ∈ entries, textLength entry ≤ maxTextLength)
    (room : (Pool.empty.pushAll entries).size ≤ maxSize) : (Pool.empty.pushAll entries).Reachable := by
  have stands : Stands (Pool.empty.pushAll entries).encode.toArray Cursor.start.position
      (Pool.empty.pushAll entries).encode :=
    ⟨Nat.zero_le _, List.prefix_rfl⟩
  obtain ⟨mark, read⟩ := read_pushAll_of_stands short room stands
  exact .read read

/-- Reading undoes writing: `Pool.read` after `Pool.encode`. Whatever `operations` were made on a pool, reading
`(afterAll operations).encode` gives `afterAll operations` back, with its slots and its index, and stops right
behind these bytes whatever `trailing` bytes follow. -/
theorem read_encode_afterAll (operations : List Operation) (trailing : List UInt8) :
    ∃ stop, Pool.read ((afterAll operations).encode ++ trailing).toArray Cursor.start =
        .ok (afterAll operations) stop ∧
      stop.position = (afterAll operations).encode.length := by
  have stands : Stands ((afterAll operations).encode ++ trailing).toArray Cursor.start.position
      (afterAll operations).encode :=
    ⟨Nat.zero_le _, List.prefix_append ..⟩
  obtain ⟨mark, read⟩ := (reachable_afterAll operations).read_of_stands stands
  exact ⟨_, read, Nat.zero_add _⟩

end Pool

end JvmCode
