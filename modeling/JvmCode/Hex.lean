/-! # Hexadecimal text

Bytes and words in lowercase hexadecimal, two digits to a byte, high half first.

* **`Hex.ofBytes`** writes bytes and **`Hex.bytes?`** reads them.
* **`Hex.ofWord`** writes a number with leading zeros and **`Hex.word?`** reads one. -/

namespace JvmCode.Hex

/-- The two digits of a byte. -/
def byteDigits (byte : UInt8) : List Char :=
  [Nat.digitChar (byte.toNat / 16), Nat.digitChar (byte.toNat % 16)]

/-- The text of a byte. -/
def ofByte (byte : UInt8) : String := String.ofList (byteDigits byte)

/-- The text of bytes. -/
def ofBytes (bytes : List UInt8) : String := String.ofList (bytes.flatMap byteDigits)

/-- The text of a number with at least `width` digits. -/
def ofWord (width number : Nat) : String :=
  let digits := Nat.toDigits 16 number
  String.ofList (List.replicate (width - digits.length) '0' ++ digits)

/-- The value of a lowercase digit. -/
def digit? (c : Char) : Option Nat :=
  if '0' ≤ c ∧ c ≤ '9' then some (c.toNat - '0'.toNat)
  else if 'a' ≤ c ∧ c ≤ 'f' then some (c.toNat - 'a'.toNat + 10)
  else none

/-- The bytes that digits stand for, behind those already read. -/
def bytesFrom? (read : Array UInt8) : List Char → Option (Array UInt8)
  | [] => some read
  | [_] => none
  | high :: low :: rest =>
      match digit? high, digit? low with
      | some h, some l => bytesFrom? (read.push (UInt8.ofNat (h * 16 + l))) rest
      | _, _ => none

/-- The bytes that a text stands for. -/
def bytes? (text : String) : Option (Array UInt8) := bytesFrom? .empty text.toList

/-- The number that a text stands for. -/
def word? (text : String) : Option Nat :=
  text.toList.foldlM (fun number c => (digit? c).map (number * 16 + ·)) 0

end JvmCode.Hex
