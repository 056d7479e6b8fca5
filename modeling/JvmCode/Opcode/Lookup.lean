import JvmCode.Fault
import JvmCode.Opcode.Basic

/-! # Finding opcodes

Opcodes by their byte, by the byte behind `wide`, and by mnemonic.

* **`Opcode.ofByte`** and **`Opcode.ofWideByte`** look a byte up in tables built once from the opcode
  table; `ofByte_code` and `ofWideByte_code` say that every opcode is found under its own code.
* **`Opcode.ofMnemonic?`** finds an opcode by name. -/

namespace JvmCode.Opcode

/-- The opcodes of one byte, by that byte. -/
def plainTable : Array (Option Opcode) :=
  Array.ofFn fun byte : Fin 256 => all.find? fun op => op.code.toNat == byte.val

/-- The wide forms, by the byte behind `wide`. -/
def wideTable : Array (Option Opcode) :=
  Array.ofFn fun byte : Fin 256 => all.find? fun op => op.code.toNat == 0xc400 + byte.val

/-- The opcode of a byte. The `wide` byte is not an opcode of its own. -/
def ofByte (byte : UInt8) : Except Malformation Opcode :=
  match plainTable[byte.toNat]? with
  | some (some op) => .ok op
  | _ => .error (.unknownOpcode byte)

/-- The opcode whose wide form continues with a byte. -/
def ofWideByte (byte : UInt8) : Except Malformation Opcode :=
  match wideTable[byte.toNat]? with
  | some (some op) => .ok op
  | _ => .error (.unknownWideOpcode byte)

/-- The opcode with a given mnemonic. -/
def ofMnemonic? (mnemonic : String) : Option Opcode :=
  all.find? fun op => op.mnemonic == mnemonic

/-- An entry of the plain table is the first opcode with that code. -/
theorem plainTable_getElem? (byte : UInt8) :
    plainTable[byte.toNat]? = some (all.find? fun op => op.code.toNat == byte.toNat) := by
  rw [plainTable, Array.getElem?_ofFn, dif_pos byte.toNat_lt]

/-- An entry of the wide table is the first opcode with that code. -/
theorem wideTable_getElem? (byte : UInt8) :
    wideTable[byte.toNat]? = some (all.find? fun op => op.code.toNat == 0xc400 + byte.toNat) := by
  rw [wideTable, Array.getElem?_ofFn, dif_pos byte.toNat_lt]

/-- An opcode of a byte is the first with that code. -/
theorem ofByte_eq (byte : UInt8) :
    ofByte byte = (all.find? fun op => op.code.toNat == byte.toNat).elim
      (.error (.unknownOpcode byte)) .ok := by
  unfold ofByte
  rw [plainTable_getElem?]
  cases all.find? fun op => op.code.toNat == byte.toNat <;> rfl

/-- An opcode of a byte behind `wide` is the first with that code. -/
theorem ofWideByte_eq (byte : UInt8) :
    ofWideByte byte = (all.find? fun op => op.code.toNat == 0xc400 + byte.toNat).elim
      (.error (.unknownWideOpcode byte)) .ok := by
  unfold ofWideByte
  rw [wideTable_getElem?]
  cases all.find? fun op => op.code.toNat == 0xc400 + byte.toNat <;> rfl

/-- No two opcodes share a code. -/
theorem find?_code : ∀ op : Opcode, (all.find? fun other => other.code.toNat == op.code.toNat) =
    some op := by
  decide +kernel

/-- The codes of one byte are those of the opcodes that are not wide. -/
theorem code_lt_of_not_isWide : ∀ op : Opcode, op.isWide = false →
    op.code.toUInt8.toNat = op.code.toNat := by
  decide +kernel

/-- The codes of the wide forms are the `wide` byte followed by a byte. -/
theorem code_of_isWide : ∀ op : Opcode, op.isWide = true →
    0xc400 + op.code.toUInt8.toNat = op.code.toNat := by
  decide +kernel

/-- Every opcode that is not wide is found under its byte. -/
theorem ofByte_code {op : Opcode} (narrow : op.isWide = false) :
    ofByte op.code.toUInt8 = .ok op := by
  rw [ofByte_eq, code_lt_of_not_isWide op narrow, find?_code op]
  rfl

/-- Every wide form is found under the byte behind `wide`. -/
theorem ofWideByte_code {op : Opcode} (wide : op.isWide = true) :
    ofWideByte op.code.toUInt8 = .ok op := by
  rw [ofWideByte_eq, code_of_isWide op wide, find?_code op]
  rfl

end JvmCode.Opcode
