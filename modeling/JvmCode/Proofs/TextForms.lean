import JvmCode.Proofs.Texts
import Mathlib.Algebra.Ring.Nat

/-! # The forms of code units

Which bytes are a text, and which of them are the bytes that the text is written with. A code unit may be
spelled in one, two or three bytes, and in more bytes than it needs; the units must pair every surrogate.

* **`Form`** is a spelling of a code unit, **`Form.value`** the bits that it carries, and **`Form.OverLong`**
  says that a shorter form carries the same.
* **`Paired`** holds of the units in which every surrogate has its other half.
* `decode?_eq_some_iff` and `exists_decode?_iff`: decoding reads exactly the concatenations of forms whose
  values are units of a text, which are those that are paired.
* `length_encode_le` and `encode_eq_iff`: encoding again is never longer, and the same exactly when no form
  was over-long. -/

namespace JvmCode.ModifiedUtf8

/-! ## Forms -/

/-- A spelling of a code unit. -/
inductive Form where
  /-- Seven bits, not all of them zero. -/
  | one (lead : UInt8) (leads : 0x01 ≤ lead ∧ lead ≤ 0x7f)
  /-- Five bits and six. -/
  | two (lead second : UInt8) (leads : 0xc0 ≤ lead ∧ lead ≤ 0xdf)
      (continues : 0x80 ≤ second ∧ second ≤ 0xbf)
  /-- Four bits and twice six. -/
  | three (lead second third : UInt8) (leads : 0xe0 ≤ lead ∧ lead ≤ 0xef)
      (continues : 0x80 ≤ second ∧ second ≤ 0xbf) (ends : 0x80 ≤ third ∧ third ≤ 0xbf)

namespace Form

/-- The bytes of a form. -/
def bytes : Form → List UInt8
  | .one lead _ => [lead]
  | .two lead second _ _ => [lead, second]
  | .three lead second third _ _ _ => [lead, second, third]

/-- The bits that a form carries. -/
def value : Form → UInt16
  | .one lead _ => lead.toUInt16
  | .two lead second _ _ => (lead &&& 0x1f).toUInt16 <<< 6 ||| (second &&& 0x3f).toUInt16
  | .three lead second third _ _ _ =>
      (lead &&& 0x0f).toUInt16 <<< 12 ||| (second &&& 0x3f).toUInt16 <<< 6 ||| (third &&& 0x3f).toUInt16

/-- A shorter form carries the same bits. -/
def OverLong (form : Form) : Prop :=
  ∃ shorter : Form, shorter.value = form.value ∧ shorter.bytes.length < form.bytes.length

end Form

/-! ## The bits of a form -/

/-- The low bits of a byte are its remainder. -/
theorem toNat_and_mask (byte : UInt8) (width : Nat) {mask : UInt8} (low : mask.toNat = 2 ^ width - 1) :
    (byte &&& mask).toUInt16.toNat = byte.toNat % 2 ^ width := by
  rw [UInt8.toNat_toUInt16, UInt8.toNat_and, low, Nat.and_two_pow_sub_one_eq_mod]

/-- Bits that are shifted away from those below them are put side by side with them. -/
theorem toNat_join {high low shift : UInt16} (short : shift.toNat < 16)
    (room : high.toNat * 2 ^ shift.toNat < 65536) (below : low.toNat < 2 ^ shift.toNat) :
    (high <<< shift ||| low).toNat = high.toNat * 2 ^ shift.toNat + low.toNat := by
  have shifted : (high <<< shift).toNat = high.toNat <<< shift.toNat := by
    rw [UInt16.toNat_shiftLeft, Nat.mod_eq_of_lt short, Nat.shiftLeft_eq]
    exact Nat.mod_eq_of_lt room
  rw [UInt16.toNat_or, shifted, ← Nat.shiftLeft_add_eq_or_of_lt below, Nat.shiftLeft_eq]

namespace Form

/-- Two bytes carry what decoding reads off them. -/
theorem value_two {lead second : UInt8} (leads : 0xc0 ≤ lead ∧ lead ≤ 0xdf)
    (continues : 0x80 ≤ second ∧ second ≤ 0xbf) :
    (two lead second leads continues).value = unitOfTwo lead second := by
  have five : (lead &&& 0x1f).toUInt16.toNat = lead.toNat % 32 := toNat_and_mask lead 5 rfl
  have six : (second &&& 0x3f).toUInt16.toNat = second.toNat % 64 := toNat_and_mask second 6 rfl
  have joined : (two lead second leads continues).value.toNat = lead.toNat % 32 * 64 + second.toNat % 64 := by
    rw [← five, ← six]
    exact toNat_join (by decide) (show _ * 64 < 65536 by omega) (show _ < 64 by omega)
  have first : 0xc0 ≤ lead.toNat ∧ lead.toNat ≤ 0xdf := leads
  have last : 0x80 ≤ second.toNat ∧ second.toNat ≤ 0xbf := continues
  apply UInt16.toNat.inj
  rw [joined, unitOfTwo, UInt16.toNat_ofNat_of_lt' (show _ < 65536 by omega)]
  omega

/-- Three bytes carry what decoding reads off them. -/
theorem value_three {lead second third : UInt8} (leads : 0xe0 ≤ lead ∧ lead ≤ 0xef)
    (continues : 0x80 ≤ second ∧ second ≤ 0xbf) (ends : 0x80 ≤ third ∧ third ≤ 0xbf) :
    (three lead second third leads continues ends).value = unitOfThree lead second third := by
  have four : (lead &&& 0x0f).toUInt16.toNat = lead.toNat % 16 := toNat_and_mask lead 4 rfl
  have six : (second &&& 0x3f).toUInt16.toNat = second.toNat % 64 := toNat_and_mask second 6 rfl
  have last : (third &&& 0x3f).toUInt16.toNat = third.toNat % 64 := toNat_and_mask third 6 rfl
  have lower : ((second &&& 0x3f).toUInt16 <<< 6 ||| (third &&& 0x3f).toUInt16).toNat =
      second.toNat % 64 * 64 + third.toNat % 64 := by
    rw [← six, ← last]
    exact toNat_join (by decide) (show _ * 64 < 65536 by omega) (show _ < 64 by omega)
  have joined : (three lead second third leads continues ends).value.toNat =
      lead.toNat % 16 * 4096 + (second.toNat % 64 * 64 + third.toNat % 64) := by
    rw [← four, ← lower, value, UInt16.or_assoc]
    exact toNat_join (by decide) (show _ * 4096 < 65536 by omega) (show _ < 4096 by omega)
  have lead_bounds : 0xe0 ≤ lead.toNat ∧ lead.toNat ≤ 0xef := leads
  have second_bounds : 0x80 ≤ second.toNat ∧ second.toNat ≤ 0xbf := continues
  have third_bounds : 0x80 ≤ third.toNat ∧ third.toNat ≤ 0xbf := ends
  apply UInt16.toNat.inj
  rw [joined, unitOfThree, UInt16.toNat_ofNat_of_lt' (show _ < 65536 by omega)]
  omega

end Form

/-! ## Bytes and forms -/

/-- A continuation is a byte between two bounds. -/
theorem isContinuation_iff {byte : UInt8} : isContinuation byte = true ↔ 0x80 ≤ byte ∧ byte ≤ 0xbf := by
  simp only [isContinuation, Bool.and_eq_true, decide_eq_true_eq, UInt8.le_iff_toNat_le]
  exact and_congr Iff.rfl Nat.lt_succ_iff

/-- The bytes of a form are read as the unit that it carries. -/
theorem unitsInto?_form (form : Form) (rest : List UInt8) (units : Array UInt16) :
    unitsInto? (form.bytes ++ rest) units = unitsInto? rest (units.push form.value) := by
  cases form with
  | one lead leads =>
      rw [Form.value, ← UInt16.ofNat_uInt8ToNat]
      exact unitsInto?_one rest units ⟨leads.1, Nat.lt_succ_of_le leads.2⟩
  | two lead second leads continues =>
      rw [Form.value_two]
      exact unitsInto?_two rest units ⟨leads.1, Nat.lt_succ_of_le leads.2⟩
        (isContinuation_iff.mpr continues)
  | three lead second third leads continues ends =>
      rw [Form.value_three]
      exact unitsInto?_three rest units ⟨leads.1, Nat.lt_succ_of_le leads.2⟩
        (isContinuation_iff.mpr continues) (isContinuation_iff.mpr ends)

/-- The bytes of forms are read as the units that they carry. -/
theorem unitsOfBytes?_forms (forms : List Form) :
    unitsOfBytes? (forms.flatMap Form.bytes) = some (forms.map Form.value).toArray := by
  have behind : ∀ before : Array UInt16,
      unitsInto? (forms.flatMap Form.bytes) before = some (before ++ (forms.map Form.value).toArray) := by
    induction forms with
    | nil =>
        intro before
        simp [unitsInto?]
    | cons form rest ih =>
        intro before
        rw [List.flatMap_cons, unitsInto?_form, ih]
        simp
  exact (behind #[]).trans (congrArg some (Array.empty_append ..))

/-- Bytes that are read as units are the bytes of forms. -/
theorem exists_forms {bytes : List UInt8} {before units : Array UInt16}
    (read : unitsInto? bytes before = some units) :
    ∃ forms : List Form, bytes = forms.flatMap Form.bytes := by
  -- The cases that remain are those in which reading goes on; each peels off one form.
  fun_induction unitsInto? bytes before with
  | case1 => exact ⟨[], rfl⟩
  | case2 lead rest before leads ih =>
      obtain ⟨forms, rfl⟩ := ih read
      exact ⟨.one lead ⟨leads.1, Nat.le_of_lt_succ leads.2⟩ :: forms, rfl⟩
  | case3 lead before _ leads second rest continues ih =>
      obtain ⟨forms, rfl⟩ := ih read
      exact ⟨.two lead second ⟨leads.1, Nat.le_of_lt_succ leads.2⟩ (isContinuation_iff.mp continues) ::
        forms, rfl⟩
  | case6 lead before _ _ leads second third rest both ih =>
      obtain ⟨continues, ends⟩ := (Bool.and_eq_true ..).mp both
      obtain ⟨forms, rfl⟩ := ih read
      exact ⟨.three lead second third ⟨leads.1, Nat.le_of_lt_succ leads.2⟩
        (isContinuation_iff.mp continues) (isContinuation_iff.mp ends) :: forms, rfl⟩
  | _ => cases read

/-- Bytes are read as units exactly when they are the bytes of forms that carry the units. -/
theorem unitsOfBytes?_eq_some_iff {bytes : List UInt8} {units : Array UInt16} :
    unitsOfBytes? bytes = some units ↔
      ∃ forms : List Form, bytes = forms.flatMap Form.bytes ∧ units = (forms.map Form.value).toArray := by
  constructor
  · intro read
    obtain ⟨forms, rfl⟩ := exists_forms read
    rw [unitsOfBytes?_forms, Option.some.injEq] at read
    exact ⟨forms, rfl, read.symm⟩
  · rintro ⟨forms, rfl, rfl⟩
    exact unitsOfBytes?_forms forms

/-! ## Units and texts -/

/-- Units in which every surrogate is paired. -/
inductive Paired : List UInt16 → Prop where
  /-- No unit. -/
  | nil : Paired []
  /-- A unit that is no surrogate. -/
  | single {unit : UInt16} {rest : List UInt16} (plain : unit < 0xd800 ∨ 0xdfff < unit)
      (others : Paired rest) : Paired (unit :: rest)
  /-- Both halves of a pair. -/
  | pair {high low : UInt16} {rest : List UInt16} (first : 0xd800 ≤ high ∧ high ≤ 0xdbff)
      (second : 0xdc00 ≤ low ∧ low ≤ 0xdfff) (others : Paired rest) : Paired (high :: low :: rest)

/-- The first half of a pair lies between two bounds. -/
theorem isHighSurrogate_iff {unit : UInt16} : isHighSurrogate unit = true ↔ 0xd800 ≤ unit ∧ unit ≤ 0xdbff := by
  simp only [isHighSurrogate, Bool.and_eq_true, decide_eq_true_eq, UInt16.le_iff_toNat_le]
  exact and_congr Iff.rfl Nat.lt_succ_iff

/-- The second half of a pair lies between two bounds. -/
theorem isLowSurrogate_iff {unit : UInt16} : isLowSurrogate unit = true ↔ 0xdc00 ≤ unit ∧ unit ≤ 0xdfff := by
  simp only [isLowSurrogate, Bool.and_eq_true, decide_eq_true_eq, UInt16.le_iff_toNat_le]
  exact and_congr Iff.rfl Nat.lt_succ_iff

/-- Units that are read as characters pair every surrogate. -/
theorem paired_of_charsInto? {units : List UInt16} {before chars : Array Char}
    (read : charsInto? units before = some chars) : Paired units := by
  fun_induction charsInto? units before with
  | case1 => exact .nil
  | case2 high before first low rest second ih =>
      exact .pair (isHighSurrogate_iff.mp first) (isLowSurrogate_iff.mp second) (ih read)
  | case6 unit rest before notHigh notLow ih =>
      rw [isHighSurrogate_iff] at notHigh
      rw [isLowSurrogate_iff] at notLow
      refine .single ?_ (ih read)
      simp only [UInt16.le_iff_toNat_le, UInt16.lt_iff_toNat_lt] at notHigh notLow ⊢
      change unit.toNat < 0xd800 ∨ 0xdfff < unit.toNat
      change ¬(0xd800 ≤ unit.toNat ∧ unit.toNat ≤ 0xdbff) at notHigh
      change ¬(0xdc00 ≤ unit.toNat ∧ unit.toNat ≤ 0xdfff) at notLow
      omega
  | _ => cases read

/-- Every number that a character may have is that of one. -/
theorem exists_toNat_eq {n : Nat} (valid : n.isValidChar) : ∃ c : Char, c.toNat = n :=
  ⟨Char.ofNatAux n valid, rfl⟩

/-- A unit that is no surrogate is that of a character. -/
theorem exists_charUnits_single {unit : UInt16} (plain : unit < 0xd800 ∨ 0xdfff < unit) :
    ∃ c, charUnits c = [unit] := by
  have bounds : unit.toNat < 0xd800 ∨ 0xdfff < unit.toNat := plain
  have small : unit.toNat < 0x10000 := unit.toNat_lt
  obtain ⟨c, number⟩ := @exists_toNat_eq unit.toNat (by unfold Nat.isValidChar; omega)
  exact ⟨c, by rw [charUnits, number, if_pos small, UInt16.ofNat_toNat]⟩

/-- Both halves of a pair are the units of a character. -/
theorem exists_charUnits_pair {high low : UInt16} (first : 0xd800 ≤ high ∧ high ≤ 0xdbff)
    (second : 0xdc00 ≤ low ∧ low ≤ 0xdfff) : ∃ c, charUnits c = [high, low] := by
  have upper : 0xd800 ≤ high.toNat ∧ high.toNat ≤ 0xdbff := first
  have lower : 0xdc00 ≤ low.toNat ∧ low.toNat ≤ 0xdfff := second
  obtain ⟨c, number⟩ := @exists_toNat_eq (0x10000 + (high.toNat - 0xd800) * 0x400 + (low.toNat - 0xdc00))
    (by unfold Nat.isValidChar; omega)
  -- The twenty bits above 0x10000 split into the ten of each half again.
  have high_bits : 0xd800 + (c.toNat - 0x10000) / 0x400 = high.toNat := by omega
  have low_bits : 0xdc00 + (c.toNat - 0x10000) % 0x400 = low.toNat := by omega
  refine ⟨c, ?_⟩
  rw [charUnits, if_neg (by omega), high_bits, low_bits, UInt16.ofNat_toNat, UInt16.ofNat_toNat]

/-- Units in which every surrogate is paired are those of characters. -/
theorem Paired.exists_chars {units : List UInt16} (paired : Paired units) :
    ∃ chars : List Char, units = chars.flatMap charUnits := by
  induction paired with
  | nil => exact ⟨[], rfl⟩
  | single plain _ ih =>
      obtain ⟨chars, rfl⟩ := ih
      obtain ⟨c, same⟩ := exists_charUnits_single plain
      exact ⟨c :: chars, by rw [List.flatMap_cons, same, List.singleton_append]⟩
  | pair first second _ ih =>
      obtain ⟨chars, rfl⟩ := ih
      obtain ⟨c, same⟩ := exists_charUnits_pair first second
      exact ⟨c :: chars, by rw [List.flatMap_cons, same, List.cons_append, List.singleton_append]⟩

/-- Units are read as characters exactly when they are the units of the characters. -/
theorem charsOfUnits?_eq_some_iff {units : List UInt16} {chars : Array Char} :
    charsOfUnits? units = some chars ↔ units = chars.toList.flatMap charUnits := by
  constructor
  · intro read
    obtain ⟨list, rfl⟩ := (paired_of_charsInto? read).exists_chars
    rw [charsOfUnits?_flatMap, Option.some.injEq] at read
    rw [← read]
  · rintro rfl
    exact charsOfUnits?_flatMap _

/-! ## Texts -/

/-- Bytes are decoded to a text exactly when they are the bytes of forms that carry its units. -/
theorem decode?_eq_some_iff {bytes : List UInt8} {text : String} :
    decode? bytes = some text ↔
      ∃ forms : List Form, bytes = forms.flatMap Form.bytes ∧ units text = forms.map Form.value := by
  simp only [decode?, Option.bind_eq_bind, Option.bind_eq_some_iff, unitsOfBytes?_eq_some_iff,
    charsOfUnits?_eq_some_iff, Option.pure_def, Option.some.injEq]
  constructor
  · rintro ⟨_, ⟨forms, rfl, rfl⟩, chars, same, rfl⟩
    refine ⟨forms, rfl, ?_⟩
    rw [units, String.toList_ofList, ← same]
  · rintro ⟨forms, rfl, same⟩
    refine ⟨_, ⟨forms, rfl, rfl⟩, text.toList.toArray, ?_, String.ofList_toList⟩
    rw [← same, units]

/-- Bytes are a text exactly when they are the bytes of forms whose values pair every surrogate. -/
theorem exists_decode?_iff {bytes : List UInt8} :
    (∃ text, decode? bytes = some text) ↔
      ∃ forms : List Form, bytes = forms.flatMap Form.bytes ∧ Paired (forms.map Form.value) := by
  simp only [decode?_eq_some_iff]
  constructor
  · rintro ⟨text, forms, rfl, same⟩
    refine ⟨forms, rfl, ?_⟩
    rw [← same]
    exact paired_of_charsInto? (charsOfUnits?_flatMap text.toList)
  · rintro ⟨forms, rfl, paired⟩
    obtain ⟨chars, same⟩ := paired.exists_chars
    refine ⟨String.ofList chars, forms, rfl, ?_⟩
    rw [units, String.toList_ofList, same]

/-! ## The shortest forms -/

/-- The bytes of a unit are a form that carries it. -/
theorem exists_form_of_unit (unit : UInt16) :
    ∃ form : Form, form.bytes = unitBytes unit ∧ form.value = unit := by
  have read := unitsOfBytes?_flatMap [unit]
  rw [List.flatMap_singleton, unitsOfBytes?_eq_some_iff] at read
  obtain ⟨forms, bytes, values⟩ := read
  -- A single unit is carried by a single form.
  match forms, values, bytes with
  | [form], values, bytes => exact ⟨form, by simpa using bytes.symm, by simpa using values.symm⟩

/-- The unit that a form carries is written with the bytes of the form, or with fewer. -/
theorem Form.unitBytes_value (form : Form) :
    unitBytes form.value = form.bytes ∨ (unitBytes form.value).length < form.bytes.length := by
  have same : ∀ (byte : UInt8) {n : Nat}, n = byte.toNat → UInt8.ofNat n = byte := by
    rintro byte _ rfl
    exact UInt8.ofNat_toNat
  cases form with
  | one lead leads =>
      have bounds : 1 ≤ lead.toNat ∧ lead.toNat < 0x80 := ⟨leads.1, Nat.lt_succ_of_le leads.2⟩
      left
      rw [value, unitBytes, UInt8.toNat_toUInt16, if_pos bounds, same lead rfl]
      rfl
  | two lead second leads continues =>
      have lead_bounds : 0xc0 ≤ lead.toNat ∧ lead.toNat ≤ 0xdf := leads
      have second_bounds : 0x80 ≤ second.toNat ∧ second.toNat ≤ 0xbf := continues
      have number : (unitOfTwo lead second).toNat = (lead.toNat - 0xc0) * 64 + (second.toNat - 0x80) :=
        UInt16.toNat_ofNat_of_lt' (show _ < 65536 by omega)
      rw [value_two, unitBytes]
      by_cases seven : 1 ≤ (unitOfTwo lead second).toNat ∧ (unitOfTwo lead second).toNat < 0x80
      · rw [if_pos seven]
        exact .inr (Nat.lt_succ_self 1)
      · rw [if_neg seven, if_pos (by omega)]
        exact .inl (by rw [same lead (by omega), same second (by omega)]; rfl)
  | three lead second third leads continues ends =>
      have lead_bounds : 0xe0 ≤ lead.toNat ∧ lead.toNat ≤ 0xef := leads
      have second_bounds : 0x80 ≤ second.toNat ∧ second.toNat ≤ 0xbf := continues
      have third_bounds : 0x80 ≤ third.toNat ∧ third.toNat ≤ 0xbf := ends
      have number : (unitOfThree lead second third).toNat =
          (lead.toNat - 0xe0) * 4096 + (second.toNat - 0x80) * 64 + (third.toNat - 0x80) :=
        UInt16.toNat_ofNat_of_lt' (show _ < 65536 by omega)
      rw [value_three]
      by_cases eleven : (unitOfThree lead second third).toNat < 0x800
      · refine .inr (show _ < 3 from ?_)
        rw [length_unitBytes, unitLength, if_pos eleven]
        split <;> decide
      · left
        rw [unitBytes, if_neg (by omega), if_neg eleven, same lead (by omega),
          same second (by omega), same third (by omega)]
        rfl

/-- A form is over-long exactly when the unit that it carries is not written with its bytes. -/
theorem Form.overLong_iff {form : Form} : form.OverLong ↔ unitBytes form.value ≠ form.bytes := by
  constructor
  · rintro ⟨shorter, carries, less⟩ same
    rw [← same, ← carries] at less
    -- The shorter form would be shorter than the bytes that its own unit is written with.
    obtain written | fewer := shorter.unitBytes_value
    · rw [written] at less
      exact Nat.lt_irrefl _ less
    · exact Nat.lt_asymm less fewer
  · intro other
    obtain ⟨shortest, bytes, carries⟩ := exists_form_of_unit form.value
    refine ⟨shortest, carries, ?_⟩
    rw [bytes]
    exact form.unitBytes_value.resolve_left other

/-- The units that forms carry are written with the bytes of the forms, and then no form is over-long, or
with fewer bytes. -/
theorem flatMap_unitBytes_value (forms : List Form) :
    (forms.map Form.value).flatMap unitBytes = forms.flatMap Form.bytes ∧
        (∀ form ∈ forms, ¬form.OverLong) ∨
      ((forms.map Form.value).flatMap unitBytes).length < (forms.flatMap Form.bytes).length ∧
        ∃ form ∈ forms, form.OverLong := by
  induction forms with
  | nil => exact .inl ⟨rfl, by simp⟩
  | cons form rest ih =>
      simp only [List.map_cons, List.flatMap_cons, List.length_append, List.forall_mem_cons]
      obtain written | fewer := form.unitBytes_value
      · have short : ¬form.OverLong := fun long => Form.overLong_iff.mp long written
        obtain ⟨others, none⟩ | ⟨less, other, mem, long⟩ := ih
        · exact .inl ⟨by rw [written, others], short, none⟩
        · exact .inr ⟨by rw [written]; omega, other, List.mem_cons_of_mem _ mem, long⟩
      · have long : form.OverLong := Form.overLong_iff.mpr fun same => by
          rw [same] at fewer
          exact Nat.lt_irrefl _ fewer
        refine .inr ⟨?_, form, List.mem_cons_self .., long⟩
        obtain ⟨others, -⟩ | ⟨less, -⟩ := ih
        · rw [others]
          omega
        · omega

section Accepted

variable {bytes : List UInt8} {text : String}

/-- A text that was read is written with no more bytes than it was read from, and with as many exactly when
with the same. -/
theorem length_encode_le (read : decode? bytes = some text) :
    (encode text).length ≤ bytes.length ∧
      ((encode text).length = bytes.length ↔ encode text = bytes) := by
  obtain ⟨forms, rfl, same⟩ := decode?_eq_some_iff.mp read
  rw [encode, same]
  obtain ⟨written, -⟩ | ⟨fewer, -⟩ := flatMap_unitBytes_value forms
  · rw [written]
    exact ⟨Nat.le_refl _, iff_of_true rfl rfl⟩
  · refine ⟨Nat.le_of_lt fewer, iff_of_false (Nat.ne_of_lt fewer) fun written => ?_⟩
    rw [written] at fewer
    exact Nat.lt_irrefl _ fewer

/-- A text is written with the bytes that it was read from exactly when no form of them is over-long. -/
theorem encode_eq_iff {forms : List Form} (read : decode? (forms.flatMap Form.bytes) = some text) :
    encode text = forms.flatMap Form.bytes ↔ ∀ form ∈ forms, ¬form.OverLong := by
  have same : units text = forms.map Form.value := by
    have values := unitsOfBytes?_forms forms
    obtain ⟨others, bytes, same⟩ := decode?_eq_some_iff.mp read
    rw [bytes, unitsOfBytes?_forms, Option.some.injEq] at values
    rw [same]
    exact congrArg Array.toList values
  rw [encode, same]
  obtain ⟨written, none⟩ | ⟨fewer, form, mem, long⟩ := flatMap_unitBytes_value forms
  · exact iff_of_true written none
  · refine iff_of_false (fun written => ?_) fun none => none form mem long
    rw [written] at fewer
    exact Nat.lt_irrefl _ fewer

end Accepted

end JvmCode.ModifiedUtf8
