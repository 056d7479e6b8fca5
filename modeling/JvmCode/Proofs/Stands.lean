import JvmCode.Reader

/-! # What a reader finds

A reader succeeds exactly when the bytes of the value it gives stand where it starts. Stated as
equivalences, these facts serve both directions of every round trip: from left to right they say what
bytes a value was read from, and from right to left that bytes which were written can be read.

* **`Stands`** says that a byte list stands at a position of a byte array.
* **`Cursor.forward`** is a cursor moved on.
* `u1_eq_ok_iff` to `i8_eq_ok_iff`: each word reader against the encoder of its width. -/

namespace JvmCode

/-- A cursor moved on by a number of bytes. -/
def Cursor.forward (cursor : Cursor) (count : Nat) : Cursor :=
  { cursor with position := cursor.position + count }

/-- Moving on changes the position. -/
@[simp] theorem Cursor.position_forward (cursor : Cursor) (count : Nat) :
    (cursor.forward count).position = cursor.position + count := rfl

/-- Moving on keeps the mark. -/
@[simp] theorem Cursor.mark_forward (cursor : Cursor) (count : Nat) :
    (cursor.forward count).mark = cursor.mark := rfl

/-- Moving on by nothing changes nothing. -/
@[simp] theorem Cursor.forward_zero (cursor : Cursor) : cursor.forward 0 = cursor := rfl

/-- Moving on twice is moving on by the sum. -/
@[simp] theorem Cursor.forward_forward (cursor : Cursor) (first second : Nat) :
    (cursor.forward first).forward second = cursor.forward (first + second) := by
  simp only [Cursor.forward, Nat.add_assoc]

/-- The bytes `content` stand at `position`. -/
def Stands (bytes : Array UInt8) (position : Nat) (content : List UInt8) : Prop :=
  position ≤ bytes.size ∧ content <+: bytes.toList.drop position

/-- Whether bytes stand at a position can be tested. -/
instance (bytes : Array UInt8) (position : Nat) (content : List UInt8) :
    Decidable (Stands bytes position content) :=
  inferInstanceAs (Decidable (_ ∧ _))

namespace Stands

variable {bytes : Array UInt8} {position : Nat} {content first second : List UInt8}

/-- Nothing stands at every position up to the end. -/
@[simp] theorem nil_iff : Stands bytes position [] ↔ position ≤ bytes.size := by
  simp [Stands]

/-- What stands at a position lies inside the bytes. -/
theorem le_size (h : Stands bytes position content) : position + content.length ≤ bytes.size := by
  have short := h.2.length_le
  simp only [List.length_drop, Array.length_toList] at short
  have inside := h.1
  omega

/-- Two byte lists stand one behind the other exactly when their concatenation stands. -/
theorem append_iff : Stands bytes position (first ++ second) ↔
    Stands bytes position first ∧ Stands bytes (position + first.length) second := by
  constructor
  · intro h
    have inside := h.le_size
    rw [List.length_append] at inside
    obtain ⟨rest, shape⟩ := h.2
    refine ⟨⟨h.1, second ++ rest, by rw [← shape, List.append_assoc]⟩, by omega, rest, ?_⟩
    rw [← List.drop_drop, ← shape, List.append_assoc, List.drop_left]
  · rintro ⟨⟨inside, before, shape⟩, -, after, shape'⟩
    refine ⟨inside, after, ?_⟩
    rw [← List.drop_drop, ← shape, List.drop_left] at shape'
    rw [List.append_assoc, shape', shape]

/-- Byte lists of one length that stand at one position are equal. -/
theorem unique (h : Stands bytes position first) (h' : Stands bytes position second)
    (same : first.length = second.length) : first = second := by
  rw [List.prefix_iff_eq_take.mp h.2, List.prefix_iff_eq_take.mp h'.2, same]

/-- The byte at a place inside bytes that stand at a position. -/
theorem getElem? (h : Stands bytes position content) {place : Nat} (inside : place < content.length) :
    bytes[position + place]? = content[place]? := by
  obtain ⟨rest, shape⟩ := h.2
  rw [← Array.getElem?_toList, ← List.getElem?_drop, ← shape, List.getElem?_append_left inside]

/-- All the bytes from a position on stand there. -/
theorem rest (inside : position ≤ bytes.size) :
    Stands bytes position (bytes.toList.drop position) :=
  ⟨inside, List.prefix_rfl⟩

end Stands

namespace Reader

variable {bytes : Array UInt8} {start stop : Cursor}

/-- Bytes are taken exactly when there are enough of them. -/
theorem take_eq_ok_iff_stands {count : Nat} {taken : Array UInt8} :
    take count bytes start = .ok taken stop ↔
      taken.size = count ∧ Stands bytes start.position taken.toList ∧
        stop = start.forward count := by
  rw [take_eq_ok_iff]
  constructor
  · rintro ⟨enough, rfl, rfl⟩
    refine ⟨by rw [Array.size_extract]; omega, ⟨by omega, ?_⟩, rfl⟩
    rw [Array.toList_extract, List.extract_eq_take_drop]
    exact List.take_prefix _ _
  · rintro ⟨rfl, stands, rfl⟩
    have enough := stands.le_size
    rw [Array.length_toList] at enough
    refine ⟨enough, ?_, rfl⟩
    have shape := List.prefix_iff_eq_take.mp stands.2
    apply Array.toList_inj.mp
    rw [Array.toList_extract, List.extract_eq_take_drop, Nat.add_sub_cancel_left,
      ← Array.length_toList]
    exact shape

/-- Bytes are passed over exactly when there are enough of them. -/
theorem skip_eq_ok_iff {count : Nat} : skip count bytes start = .ok () stop ↔
    ∃ content, content.length = count ∧ Stands bytes start.position content ∧
      stop = start.forward count := by
  simp only [skip, bind_eq_ok_iff, pure_eq_ok_iff, take_eq_ok_iff_stands]
  constructor
  · rintro ⟨taken, middle, ⟨size, stands, rfl⟩, -, rfl⟩
    exact ⟨taken.toList, by rw [Array.length_toList, size], stands, rfl⟩
  · rintro ⟨content, size, stands, rfl⟩
    exact ⟨content.toArray, _, ⟨by rw [List.size_toArray, size], stands, rfl⟩, trivial, rfl⟩

/-- A word is read exactly when its bytes stand there. -/
theorem word_eq_ok_iff {width value : Nat} : word width bytes start = .ok value stop ↔
    value < BigEndian.capacity width ∧ Stands bytes start.position (BigEndian.encode width value) ∧
      stop = start.forward width := by
  simp only [word, bind_eq_ok_iff, pure_eq_ok_iff, take_eq_ok_iff_stands]
  constructor
  · rintro ⟨taken, middle, ⟨size, stands, rfl⟩, rfl, rfl⟩
    rw [← Array.length_toList] at size
    refine ⟨size ▸ BigEndian.decode_lt _, ?_, rfl⟩
    have bytes_eq := BigEndian.encode_decode taken.toList
    rw [size] at bytes_eq
    rw [bytes_eq]
    exact stands
  · rintro ⟨fits, stands, rfl⟩
    refine ⟨(BigEndian.encode width value).toArray, _, ⟨?_, stands, rfl⟩, ?_, rfl⟩
    · rw [List.size_toArray, BigEndian.length_encode]
    · rw [BigEndian.decode_encode fits]

/-- A word is read as a value of a type whose values are exactly the numbers of that width. -/
theorem map_word_eq_ok_iff {α : Type} (width : Nat) (make : Nat → α) (number : α → Nat)
    (make_number : ∀ value, make (number value) = value)
    (number_make : ∀ n < BigEndian.capacity width, number (make n) = n)
    (fits : ∀ value, number value < BigEndian.capacity width) {value : α} :
    (word width >>= fun n => pure (make n)) bytes start = .ok value stop ↔
      Stands bytes start.position (BigEndian.encode width (number value)) ∧
        stop = start.forward width := by
  simp only [bind_eq_ok_iff, pure_eq_ok_iff, word_eq_ok_iff]
  constructor
  · rintro ⟨n, middle, ⟨bound, stands, rfl⟩, rfl, rfl⟩
    rw [number_make n bound]
    exact ⟨stands, rfl⟩
  · rintro ⟨stands, rfl⟩
    exact ⟨number value, _, ⟨fits value, stands, rfl⟩, make_number value, rfl⟩

/-- An unsigned byte is read exactly when it stands there. -/
theorem u1_eq_ok_iff {value : UInt8} : u1 bytes start = .ok value stop ↔
    Stands bytes start.position [value] ∧ stop = start.forward 1 := by
  have shape : BigEndian.encode 1 value.toNat = [value] := by
    simp [BigEndian.encode]
  rw [← shape]
  exact map_word_eq_ok_iff 1 UInt8.ofNat UInt8.toNat (fun _ => UInt8.ofNat_toNat)
    (fun _ bound => UInt8.toNat_ofNat_of_lt' bound) (fun value => value.toNat_lt)

/-- An unsigned 16-bit word is read exactly when its bytes stand there. -/
theorem u2_eq_ok_iff {value : UInt16} : u2 bytes start = .ok value stop ↔
    Stands bytes start.position (BigEndian.u2 value) ∧ stop = start.forward 2 :=
  map_word_eq_ok_iff 2 UInt16.ofNat UInt16.toNat (fun _ => UInt16.ofNat_toNat)
    (fun _ bound => UInt16.toNat_ofNat_of_lt' bound) (fun value => value.toNat_lt)

/-- An unsigned 32-bit word is read exactly when its bytes stand there. -/
theorem u4_eq_ok_iff {value : UInt32} : u4 bytes start = .ok value stop ↔
    Stands bytes start.position (BigEndian.u4 value) ∧ stop = start.forward 4 :=
  map_word_eq_ok_iff 4 UInt32.ofNat UInt32.toNat (fun _ => UInt32.ofNat_toNat)
    (fun _ bound => UInt32.toNat_ofNat_of_lt' bound) (fun value => value.toNat_lt)

/-- An unsigned 64-bit word is read exactly when its bytes stand there. -/
theorem u8_eq_ok_iff {value : UInt64} : u8 bytes start = .ok value stop ↔
    Stands bytes start.position (BigEndian.u8 value) ∧ stop = start.forward 8 :=
  map_word_eq_ok_iff 8 UInt64.ofNat UInt64.toNat (fun _ => UInt64.ofNat_toNat)
    (fun _ bound => UInt64.toNat_ofNat_of_lt' bound) (fun value => value.toNat_lt)

/-- A signed byte is read exactly when it stands there. -/
theorem i1_eq_ok_iff {value : Int8} : i1 bytes start = .ok value stop ↔
    Stands bytes start.position [value.toUInt8] ∧ stop = start.forward 1 := by
  simp only [i1, bind_eq_ok_iff, pure_eq_ok_iff, u1_eq_ok_iff]
  constructor
  · rintro ⟨word, middle, ⟨stands, rfl⟩, rfl, rfl⟩
    exact ⟨stands, rfl⟩
  · rintro ⟨stands, rfl⟩
    exact ⟨value.toUInt8, _, ⟨stands, rfl⟩, rfl, rfl⟩

/-- A signed 16-bit word is read exactly when its bytes stand there. -/
theorem i2_eq_ok_iff {value : Int16} : i2 bytes start = .ok value stop ↔
    Stands bytes start.position (BigEndian.i2 value) ∧ stop = start.forward 2 := by
  simp only [i2, bind_eq_ok_iff, pure_eq_ok_iff, u2_eq_ok_iff]
  constructor
  · rintro ⟨word, middle, ⟨stands, rfl⟩, rfl, rfl⟩
    exact ⟨stands, rfl⟩
  · rintro ⟨stands, rfl⟩
    exact ⟨value.toUInt16, _, ⟨stands, rfl⟩, rfl, rfl⟩

/-- A signed 32-bit word is read exactly when its bytes stand there. -/
theorem i4_eq_ok_iff {value : Int32} : i4 bytes start = .ok value stop ↔
    Stands bytes start.position (BigEndian.i4 value) ∧ stop = start.forward 4 := by
  simp only [i4, bind_eq_ok_iff, pure_eq_ok_iff, u4_eq_ok_iff]
  constructor
  · rintro ⟨word, middle, ⟨stands, rfl⟩, rfl, rfl⟩
    exact ⟨stands, rfl⟩
  · rintro ⟨stands, rfl⟩
    exact ⟨value.toUInt32, _, ⟨stands, rfl⟩, rfl, rfl⟩

/-- A signed 64-bit word is read exactly when its bytes stand there. -/
theorem i8_eq_ok_iff {value : Int64} : i8 bytes start = .ok value stop ↔
    Stands bytes start.position (BigEndian.i8 value) ∧ stop = start.forward 8 := by
  simp only [i8, bind_eq_ok_iff, pure_eq_ok_iff, u8_eq_ok_iff]
  constructor
  · rintro ⟨word, middle, ⟨stands, rfl⟩, rfl, rfl⟩
    exact ⟨stands, rfl⟩
  · rintro ⟨stands, rfl⟩
    exact ⟨value.toUInt64, _, ⟨stands, rfl⟩, rfl, rfl⟩

/-- A failing reader never succeeds. -/
theorem fail_eq_ok_iff {α : Type} {fault : Fault} {value : α} :
    (fail fault : Reader α) bytes start = .ok value stop ↔ False := by
  simp [fail]

/-- A reader that fails at the mark never succeeds. -/
theorem failAtMark_eq_ok_iff {α : Type} {what : Malformation} {value : α} :
    (failAtMark what : Reader α) bytes start = .ok value stop ↔ False := by
  simp [failAtMark]

/-- A lookup succeeds exactly when the entry is found, and does not move. -/
theorem ofPool_eq_ok_iff {α : Type} {result : Except PoolFault α} {value : α} :
    ofPool result bytes start = .ok value stop ↔ result = .ok value ∧ stop = start := by
  cases result with
  | ok found =>
      rw [ofPool, pure_eq_ok_iff, Except.ok.injEq]
      exact and_congr Iff.rfl eq_comm
  | error cause => simp [ofPool, fail]

/-- What is read off other bytes does not move the reader. -/
theorem within_eq_ok_iff {α : Type} {reader : Reader α} {inner : Array UInt8} {value : α} :
    within inner reader bytes start = .ok value stop ↔
      (∃ behind, reader inner Cursor.start = .ok value behind) ∧ stop = start := by
  unfold within
  cases reader inner Cursor.start with
  | ok found behind => simp [eq_comm]
  | error fault behind => simp

end Reader

end JvmCode
