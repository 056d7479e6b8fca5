import JvmCode.ModifiedUtf8

/-! # Texts read back from their bytes

Every text survives being written in modified UTF-8: the bytes of each code unit are read as that unit,
and the units of each character as that character.

* `unitsInto?_unitBytes` and `charsInto?_charUnits` are the two steps.
* `decode?_encode`: a written text is read back.
* `encodedLength_eq_length`: the number of bytes that is asked for beforehand is the number written.
* `bounds_of_mem_unitBytes`: neither a zero byte nor the lead byte of a four-byte form is written.
* `encode_faithful` puts them together. -/

namespace JvmCode.ModifiedUtf8

/-! ## Lengths -/

/-- Counting behind a number of bytes adds the bytes of the units. -/
theorem foldl_unitLength (units : List UInt16) (length : Nat) :
    units.foldl (fun length unit => length + unitLength unit) length =
      length + (units.flatMap unitBytes).length := by
  induction units generalizing length with
  | nil => simp
  | cons unit rest ih =>
      rw [List.foldl_cons, ih, List.flatMap_cons, List.length_append, length_unitBytes, Nat.add_assoc]

/-- The number of bytes a text takes is the length of its bytes. -/
theorem encodedLength_eq_length (text : String) : encodedLength text = (encode text).length := by
  rw [encodedLength, encode, foldl_unitLength, Nat.zero_add]

/-! ## Code units and bytes -/

section Units

variable (rest : List UInt8) (units : Array UInt16)

/-- A byte that stands for itself is read as a unit. -/
theorem unitsInto?_one {lead : UInt8} (h : 1 ≤ lead.toNat ∧ lead.toNat < 0x80) :
    unitsInto? (lead :: rest) units = unitsInto? rest (units.push (UInt16.ofNat lead.toNat)) := by
  rw [unitsInto?.eq_def]
  dsimp only
  rw [if_pos h]

/-- A lead byte and one continuation are read as a unit. -/
theorem unitsInto?_two {lead second : UInt8} (h : 0xc0 ≤ lead.toNat ∧ lead.toNat < 0xe0)
    (h₂ : isContinuation second = true) :
    unitsInto? (lead :: second :: rest) units =
      unitsInto? rest (units.push (unitOfTwo lead second)) := by
  rw [unitsInto?.eq_def]
  dsimp only
  rw [if_neg (by omega), if_pos h]
  simp only [h₂, if_true]

/-- A lead byte and two continuations are read as a unit. -/
theorem unitsInto?_three {lead second third : UInt8} (h : 0xe0 ≤ lead.toNat ∧ lead.toNat < 0xf0)
    (h₂ : isContinuation second = true) (h₃ : isContinuation third = true) :
    unitsInto? (lead :: second :: third :: rest) units =
      unitsInto? rest (units.push (unitOfThree lead second third)) := by
  rw [unitsInto?.eq_def]
  dsimp only
  rw [if_neg (by omega), if_neg (by omega), if_pos h]
  simp only [h₂, h₃, Bool.and_self, if_true]

/-- A byte made of six bits continues a code unit. -/
theorem isContinuation_ofNat {bits : Nat} (h : bits < 64) :
    isContinuation (UInt8.ofNat (0x80 + bits)) = true := by
  have byte : (UInt8.ofNat (0x80 + bits)).toNat = 0x80 + bits :=
    UInt8.toNat_ofNat_of_lt' (show 0x80 + bits < 256 by omega)
  simp only [isContinuation, byte, Bool.and_eq_true, decide_eq_true_eq]
  omega

/-- The bytes of a code unit are read as the unit. -/
theorem unitsInto?_unitBytes (unit : UInt16) :
    unitsInto? (unitBytes unit ++ rest) units = unitsInto? rest (units.push unit) := by
  have small : unit.toNat < 65536 := unit.toNat_lt
  have bytes : ∀ n < 256, (UInt8.ofNat n).toNat = n := fun n h => UInt8.toNat_ofNat_of_lt' h
  unfold unitBytes
  by_cases one : 1 ≤ unit.toNat ∧ unit.toNat < 0x80
  · have lead := bytes unit.toNat (by omega)
    rw [if_pos one, List.cons_append, List.nil_append, unitsInto?_one _ _ (by omega), lead,
      UInt16.ofNat_toNat]
  · rw [if_neg one]
    by_cases two : unit.toNat < 0x800
    · -- The unit splits into five bits and six.
      have lead := bytes (0xc0 + unit.toNat / 64) (by omega)
      have second := bytes (0x80 + unit.toNat % 64) (by omega)
      have joined : unitOfTwo (UInt8.ofNat (0xc0 + unit.toNat / 64))
          (UInt8.ofNat (0x80 + unit.toNat % 64)) = unit := by
        rw [unitOfTwo, lead, second]
        have whole : (0xc0 + unit.toNat / 64 - 0xc0) * 64 + (0x80 + unit.toNat % 64 - 0x80) =
            unit.toNat := by omega
        rw [whole, UInt16.ofNat_toNat]
      rw [if_pos two, List.cons_append, List.cons_append, List.nil_append,
        unitsInto?_two _ _ (by omega) (isContinuation_ofNat (by omega)), joined]
    · -- The unit splits into four bits and twice six.
      have lead := bytes (0xe0 + unit.toNat / 4096) (by omega)
      have second := bytes (0x80 + unit.toNat / 64 % 64) (by omega)
      have third := bytes (0x80 + unit.toNat % 64) (by omega)
      have joined : unitOfThree (UInt8.ofNat (0xe0 + unit.toNat / 4096))
          (UInt8.ofNat (0x80 + unit.toNat / 64 % 64)) (UInt8.ofNat (0x80 + unit.toNat % 64)) = unit := by
        rw [unitOfThree, lead, second, third]
        have whole : (0xe0 + unit.toNat / 4096 - 0xe0) * 4096 +
            (0x80 + unit.toNat / 64 % 64 - 0x80) * 64 + (0x80 + unit.toNat % 64 - 0x80) =
              unit.toNat := by omega
        rw [whole, UInt16.ofNat_toNat]
      rw [if_neg two, List.cons_append, List.cons_append, List.cons_append, List.nil_append,
        unitsInto?_three _ _ (by omega) (isContinuation_ofNat (by omega))
          (isContinuation_ofNat (by omega)), joined]

end Units

/-- A byte made of a number between the two. -/
theorem bounds_ofNat {n : Nat} (positive : 0 < n) (below : n < 0xf0) :
    UInt8.ofNat n ≠ 0x00 ∧ UInt8.ofNat n < 0xf0 := by
  have byte : (UInt8.ofNat n).toNat = n := UInt8.toNat_ofNat_of_lt' (show n < 256 by omega)
  constructor
  · intro zero
    rw [zero] at byte
    exact absurd byte (Nat.ne_of_lt positive)
  · rw [UInt8.lt_iff_toNat_lt, byte]
    exact below

/-- No byte of a code unit is zero, and none leads a form of four bytes. -/
theorem bounds_of_mem_unitBytes {unit : UInt16} {byte : UInt8} (mem : byte ∈ unitBytes unit) :
    byte ≠ 0x00 ∧ byte < 0xf0 := by
  have small : unit.toNat < 65536 := unit.toNat_lt
  unfold unitBytes at mem
  -- The zero unit is not written in one byte, and the lead of three bytes holds four bits.
  split at mem
  · obtain rfl := List.mem_singleton.mp mem
    exact bounds_ofNat (by omega) (by omega)
  · split at mem
    · simp only [List.mem_cons, List.not_mem_nil, or_false] at mem
      rcases mem with rfl | rfl
      · exact bounds_ofNat (by omega) (by omega)
      · exact bounds_ofNat (by omega) (by omega)
    · simp only [List.mem_cons, List.not_mem_nil, or_false] at mem
      rcases mem with rfl | rfl | rfl
      · exact bounds_ofNat (by omega) (by omega)
      · exact bounds_ofNat (by omega) (by omega)
      · exact bounds_ofNat (by omega) (by omega)

/-- The bytes of code units are read as the units. -/
theorem unitsOfBytes?_flatMap (units : List UInt16) :
    unitsOfBytes? (units.flatMap unitBytes) = some units.toArray := by
  -- The units read before are general, because each step puts one more behind them.
  have behind : ∀ before : Array UInt16,
      unitsInto? (units.flatMap unitBytes) before = some (before ++ units.toArray) := by
    induction units with
    | nil =>
        intro before
        simp [unitsInto?]
    | cons unit rest ih =>
        intro before
        rw [List.flatMap_cons, unitsInto?_unitBytes, ih]
        simp
  exact (behind #[]).trans (congrArg some (Array.empty_append ..))

/-! ## Characters and code units -/

/-- A character is no surrogate. -/
theorem not_surrogate (c : Char) : c.toNat < 0xd800 ∨ 0xdfff < c.toNat ∧ c.toNat < 0x110000 := by
  have valid : c.val.toNat < 0xd800 ∨ 0xdfff < c.val.toNat ∧ c.val.toNat < 0x110000 := c.valid
  exact valid

/-- The code units of a character are read as the character. -/
theorem charsInto?_charUnits (c : Char) (rest : List UInt16) (chars : Array Char) :
    charsInto? (charUnits c ++ rest) chars = charsInto? rest (chars.push c) := by
  have valid := not_surrogate c
  have words : ∀ n < 65536, (UInt16.ofNat n).toNat = n := fun n h => UInt16.toNat_ofNat_of_lt' h
  unfold charUnits
  by_cases basic : c.toNat < 0x10000
  · have unit := words c.toNat basic
    have high : isHighSurrogate (UInt16.ofNat c.toNat) = false := by
      simp only [isHighSurrogate, unit, Bool.and_eq_false_iff, decide_eq_false_iff_not]
      omega
    have low : isLowSurrogate (UInt16.ofNat c.toNat) = false := by
      simp only [isLowSurrogate, unit, Bool.and_eq_false_iff, decide_eq_false_iff_not]
      omega
    rw [if_pos basic, List.cons_append, List.nil_append]
    rw [charsInto?.eq_def]
    simp [high, low, unit, Char.ofNat_toNat]
  · -- A supplementary character lies 0x10000 above twenty bits, ten in each unit of the pair.
    have first := words (0xd800 + (c.toNat - 0x10000) / 0x400) (by omega)
    have second := words (0xdc00 + (c.toNat - 0x10000) % 0x400) (by omega)
    have high : isHighSurrogate (UInt16.ofNat (0xd800 + (c.toNat - 0x10000) / 0x400)) = true := by
      simp only [isHighSurrogate, first, Bool.and_eq_true, decide_eq_true_eq]
      omega
    have low : isLowSurrogate (UInt16.ofNat (0xdc00 + (c.toNat - 0x10000) % 0x400)) = true := by
      simp only [isLowSurrogate, second, Bool.and_eq_true, decide_eq_true_eq]
      omega
    have joined : pairChar (UInt16.ofNat (0xd800 + (c.toNat - 0x10000) / 0x400))
        (UInt16.ofNat (0xdc00 + (c.toNat - 0x10000) % 0x400)) = c := by
      rw [pairChar, first, second]
      have whole : 0x10000 + (0xd800 + (c.toNat - 0x10000) / 0x400 - 0xd800) * 0x400 +
          (0xdc00 + (c.toNat - 0x10000) % 0x400 - 0xdc00) = c.toNat := by omega
      rw [whole, Char.ofNat_toNat]
    rw [if_neg basic, List.cons_append, List.cons_append, List.nil_append]
    rw [charsInto?.eq_def]
    simp only [high, low, if_true, joined]

/-- The code units of characters are read as the characters. -/
theorem charsOfUnits?_flatMap (chars : List Char) :
    charsOfUnits? (chars.flatMap charUnits) = some chars.toArray := by
  have behind : ∀ before : Array Char,
      charsInto? (chars.flatMap charUnits) before = some (before ++ chars.toArray) := by
    induction chars with
    | nil =>
        intro before
        simp [charsInto?]
    | cons c rest ih =>
        intro before
        rw [List.flatMap_cons, charsInto?_charUnits, ih]
        simp
  exact (behind #[]).trans (congrArg some (Array.empty_append ..))

/-! ## Texts -/

/-- A written text is read back. -/
theorem decode?_encode (text : String) : decode? (encode text) = some text := by
  have units : unitsOfBytes? (encode text) = some (units text).toArray := unitsOfBytes?_flatMap _
  have chars : charsOfUnits? (ModifiedUtf8.units text) = some text.toList.toArray :=
    charsOfUnits?_flatMap _
  simp [decode?, units, chars, String.ofList_toList]

/-- Decoding undoes encoding: every `text` is read back from `encode text`; `encodedLength text` is the number of
these bytes; and none of them is `0x00`, or `0xf0` and above, which would lead a form of four bytes. -/
theorem encode_faithful (text : String) :
    decode? (encode text) = some text ∧
    encodedLength text = (encode text).length ∧
    ∀ byte ∈ encode text, byte ≠ 0x00 ∧ byte < 0xf0 := by
  refine ⟨decode?_encode text, encodedLength_eq_length text, ?_⟩
  intro byte mem
  obtain ⟨unit, -, within⟩ := List.mem_flatMap.mp mem
  exact bounds_of_mem_unitBytes within

/-- A letter, the zero character, an accented letter and a supplementary character, in one, two, two and
twice three bytes. -/
theorem encode_faithful_allForms :
    encode "a\x00é😀" = [0x61, 0xc0, 0x80, 0xc3, 0xa9, 0xed, 0xa0, 0xbd, 0xed, 0xb8, 0x80] ∧
      decode? [0x61, 0xc0, 0x80, 0xc3, 0xa9, 0xed, 0xa0, 0xbd, 0xed, 0xb8, 0x80] = some "a\x00é😀" ∧
      (0xed : UInt8) ≠ 0x00 ∧ (0xed : UInt8) < 0xf0 := by
  have bytes : encode "a\x00é😀" =
      [0x61, 0xc0, 0x80, 0xc3, 0xa9, 0xed, 0xa0, 0xbd, 0xed, 0xb8, 0x80] := by decide
  obtain ⟨read, -, bounds⟩ := encode_faithful "a\x00é😀"
  rw [bytes] at read bounds
  exact ⟨bytes, read, bounds 0xed (by decide)⟩

end JvmCode.ModifiedUtf8
