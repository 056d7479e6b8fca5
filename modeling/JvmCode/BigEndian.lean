/-! # Big-endian words

Multi-byte values are stored most significant byte first.

* **`BigEndian.encode`** gives the bytes of a number at a given width.
* **`BigEndian.decode`** reads a byte list back as a number.
* `decode_encode` and `encode_decode`: at a fixed width the two are inverse to each other.
* `u1`, `u2`, `u4`, `u8`, `i2`, `i4` and `i8` are the encoders at the widths that occur. -/

namespace JvmCode.BigEndian

/-- The `width` low bytes of `value`, most significant first. -/
def encode : Nat → Nat → List UInt8
  | 0, _ => []
  | width + 1, value => encode width (value / 256) ++ [UInt8.ofNat value]

/-- The number a byte list stands for. -/
def decode (bytes : List UInt8) : Nat :=
  bytes.foldl (fun value byte => value * 256 + byte.toNat) 0

/-- The number of values that `width` bytes can have. -/
def capacity : Nat → Nat
  | 0 => 1
  | width + 1 => capacity width * 256

/-- A word of a given width has that many bytes. -/
@[simp] theorem length_encode (width value : Nat) : (encode width value).length = width := by
  induction width generalizing value with
  | zero => rfl
  | succ width ih => simp [encode, ih]

/-- The empty byte list stands for zero. -/
@[simp] theorem decode_nil : decode [] = 0 := rfl

/-- One more byte at the end shifts the value and adds the byte. -/
@[simp] theorem decode_append_singleton (bytes : List UInt8) (byte : UInt8) :
    decode (bytes ++ [byte]) = decode bytes * 256 + byte.toNat := by
  simp [decode]

/-- Decoding undoes encoding, up to what the width can hold. -/
theorem decode_encode_mod (width value : Nat) :
    decode (encode width value) = value % capacity width := by
  induction width generalizing value with
  | zero => simp [encode, capacity, Nat.mod_one]
  | succ width ih =>
      rw [encode, decode_append_singleton, ih, capacity, Nat.mul_comm (capacity width) 256,
        Nat.mod_mul]
      simp
      omega

/-- Decoding undoes encoding of a value that fits the width. -/
theorem decode_encode {width value : Nat} (fits : value < capacity width) :
    decode (encode width value) = value := by
  rw [decode_encode_mod, Nat.mod_eq_of_lt fits]

/-- The value of a byte list fits its width. -/
theorem decode_lt (bytes : List UInt8) : decode bytes < capacity bytes.length := by
  generalize size : bytes.length = width
  induction width generalizing bytes with
  | zero => simp [List.eq_nil_of_length_eq_zero size, capacity]
  | succ width ih =>
      obtain rfl | ⟨init, byte, rfl⟩ := List.eq_nil_or_concat bytes
      · simp at size
      rw [List.concat_eq_append] at size ⊢
      have bound := byte.toNat_lt
      have rest := ih init (by simpa using size)
      rw [decode_append_singleton, capacity]
      omega

/-- Encoding undoes decoding at the width of the bytes. -/
theorem encode_decode (bytes : List UInt8) : encode bytes.length (decode bytes) = bytes := by
  generalize size : bytes.length = width
  induction width generalizing bytes with
  | zero => simp [List.eq_nil_of_length_eq_zero size, encode]
  | succ width ih =>
      obtain rfl | ⟨init, byte, rfl⟩ := List.eq_nil_or_concat bytes
      · simp at size
      rw [List.concat_eq_append] at size ⊢
      have bound := byte.toNat_lt
      rw [decode_append_singleton, encode]
      rw [show (decode init * 256 + byte.toNat) / 256 = decode init by omega,
        ih init (by simpa using size)]
      congr 2
      apply UInt8.toNat.inj
      simp

/-- One unsigned byte. -/
def u1 (value : UInt8) : List UInt8 := [value]

/-- An unsigned 16-bit word. -/
def u2 (value : UInt16) : List UInt8 := encode 2 value.toNat

/-- An unsigned 32-bit word. -/
def u4 (value : UInt32) : List UInt8 := encode 4 value.toNat

/-- An unsigned 64-bit word. -/
def u8 (value : UInt64) : List UInt8 := encode 8 value.toNat

/-- A signed 16-bit word in two's complement. -/
def i2 (value : Int16) : List UInt8 := u2 value.toUInt16

/-- A signed 32-bit word in two's complement. -/
def i4 (value : Int32) : List UInt8 := u4 value.toUInt32

/-- A signed 64-bit word in two's complement. -/
def i8 (value : Int64) : List UInt8 := u8 value.toUInt64

/-- An unsigned 16-bit word has two bytes. -/
@[simp] theorem length_u2 (value : UInt16) : (u2 value).length = 2 := length_encode 2 _

/-- An unsigned 32-bit word has four bytes. -/
@[simp] theorem length_u4 (value : UInt32) : (u4 value).length = 4 := length_encode 4 _

/-- An unsigned 64-bit word has eight bytes. -/
@[simp] theorem length_u8 (value : UInt64) : (u8 value).length = 8 := length_encode 8 _

/-- A signed 16-bit word has two bytes. -/
@[simp] theorem length_i2 (value : Int16) : (i2 value).length = 2 := length_u2 _

/-- A signed 32-bit word has four bytes. -/
@[simp] theorem length_i4 (value : Int32) : (i4 value).length = 4 := length_u4 _

/-- A signed 64-bit word has eight bytes. -/
@[simp] theorem length_i8 (value : Int64) : (i8 value).length = 8 := length_u8 _

/-- Different 16-bit words have different bytes. -/
theorem u2_injective {first second : UInt16} (same : u2 first = u2 second) : first = second := by
  have fits : ∀ value : UInt16, decode (u2 value) = value.toNat :=
    fun value => decode_encode value.toNat_lt
  apply UInt16.toNat.inj
  rw [← fits, same, fits]

end JvmCode.BigEndian
