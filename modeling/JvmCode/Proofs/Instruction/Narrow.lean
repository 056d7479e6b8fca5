import JvmCode.Instruction.Construct

/-! # Small numbers in narrow fields

A signed number that fits a narrow field is given back by widening what the field holds. -/

namespace JvmCode

/-- The low half of a word holds the number narrowed to 16 bits. -/
theorem ofNat_toUInt32_eq (value : Int32) :
    UInt16.ofNat value.toUInt32.toNat = value.toInt16.toUInt16 := by
  apply UInt16.toNat.inj
  change _ = (BitVec.signExtend 16 value.toBitVec).toNat
  rw [BitVec.signExtend_eq_setWidth_of_le _ (by decide)]
  rfl

/-- The low byte of a word holds the number narrowed to 8 bits. -/
theorem toUInt8_ofNat_toUInt32_eq (value : Int32) :
    (UInt16.ofNat value.toUInt32.toNat).toUInt8 = value.toInt8.toUInt8 := by
  apply UInt8.toNat.inj
  change _ = (BitVec.signExtend 8 value.toBitVec).toNat
  rw [BitVec.signExtend_eq_setWidth_of_le _ (by decide)]
  change (value.toBitVec.toNat % 65536) % 256 = value.toBitVec.toNat % 256
  omega

/-- The low byte of a half word holds the number narrowed to 8 bits. -/
theorem toUInt8_toUInt16_eq (value : Int16) : value.toUInt16.toUInt8 = value.toInt8.toUInt8 := by
  apply UInt8.toNat.inj
  change _ = (BitVec.signExtend 8 value.toBitVec).toNat
  rw [BitVec.signExtend_eq_setWidth_of_le _ (by decide)]
  rfl

/-- A number fits 8 bits exactly if it lies between the bounds. -/
theorem fitsInt8_iff {number : Int} : fitsInt8 number = true ↔ -128 ≤ number ∧ number ≤ 127 := by
  simp [fitsInt8]

/-- A number fits 16 bits exactly if it lies between the bounds. -/
theorem fitsInt16_iff {number : Int} : fitsInt16 number = true ↔ -32768 ≤ number ∧ number ≤ 32767 := by
  simp [fitsInt16]

/-- A number of 16 bits fits 16 bits. -/
theorem fitsInt16_toInt (value : Int16) : fitsInt16 value.toInt = true := by
  have upper := value.toInt_lt
  have lower := value.le_toInt
  simp only [fitsInt16, Bool.and_eq_true, decide_eq_true_eq]
  omega

/-- A number of 8 bits fits 8 bits. -/
theorem fitsInt8_toInt (value : Int8) : fitsInt8 value.toInt = true := by
  have upper := value.toInt_lt
  have lower := value.le_toInt
  simp only [fitsInt8, Bool.and_eq_true, decide_eq_true_eq]
  omega

/-- A number of 32 bits fits 32 bits. -/
theorem fitsInt32_toInt (value : Int32) : fitsInt32 value.toInt = true := by
  have upper := value.toInt_lt
  have lower := value.le_toInt
  simp only [fitsInt32, Bool.and_eq_true, decide_eq_true_eq]
  omega

/-- A number that fits 16 bits is not changed by narrowing. -/
theorem toInt32_toInt16_of_fits {value : Int32} (fits : fitsInt16 value.toInt = true) :
    value.toInt16.toInt32 = value := by
  simp only [fitsInt16, Bool.and_eq_true, decide_eq_true_eq] at fits
  apply Int32.toInt.inj
  rw [Int16.toInt_toInt32, Int32.toInt_toInt16]
  exact Int.bmod_eq_of_le (by omega) (by omega)

/-- A number that fits 8 bits is not changed by narrowing. -/
theorem toInt32_toInt8_of_fits {value : Int32} (fits : fitsInt8 value.toInt = true) :
    value.toInt8.toInt32 = value := by
  simp only [fitsInt8, Bool.and_eq_true, decide_eq_true_eq] at fits
  apply Int32.toInt.inj
  rw [Int8.toInt_toInt32, Int32.toInt_toInt8]
  exact Int.bmod_eq_of_le (by omega) (by omega)

/-- A number that fits 8 bits is not changed by narrowing. -/
theorem toInt16_toInt8_of_fits {value : Int16} (fits : fitsInt8 value.toInt = true) :
    value.toInt8.toInt16 = value := by
  simp only [fitsInt8, Bool.and_eq_true, decide_eq_true_eq] at fits
  apply Int16.toInt.inj
  rw [Int8.toInt_toInt16, Int16.toInt_toInt8]
  exact Int.bmod_eq_of_le (by omega) (by omega)

/-- A number that fits 16 bits is held by them. -/
theorem toInt_ofInt16_of_fits {value : Int} (fits : fitsInt16 value = true) :
    (Int16.ofInt value).toInt = value := by
  simp only [fitsInt16, Bool.and_eq_true, decide_eq_true_eq] at fits
  exact Int16.toInt_ofInt_of_le (by omega) (by omega)

/-- A number that fits 32 bits is held by them. -/
theorem toInt_ofInt32_of_fits {value : Int} (fits : fitsInt32 value = true) :
    (Int32.ofInt value).toInt = value := by
  simp only [fitsInt32, Bool.and_eq_true, decide_eq_true_eq] at fits
  exact Int32.toInt_ofInt_of_le (by omega) (by omega)

end JvmCode
