/-! # Modified UTF-8

Texts are stored as UTF-16 code units, each unit in one to three bytes. The zero unit takes two bytes,
and a supplementary character takes two units, so neither a zero byte nor a four-byte form occurs.

* **`ModifiedUtf8.encode`** writes a text; **`ModifiedUtf8.encodedLength`** is the number of its bytes.
* **`ModifiedUtf8.decode?`** reads bytes. Over-long forms are read, unpaired surrogates are refused. -/

namespace JvmCode.ModifiedUtf8

/-! ## Characters and code units -/

/-- The UTF-16 code units of a character. -/
def charUnits (c : Char) : List UInt16 :=
  if c.toNat < 0x10000 then [UInt16.ofNat c.toNat]
  else
    [UInt16.ofNat (0xd800 + (c.toNat - 0x10000) / 0x400),
      UInt16.ofNat (0xdc00 + (c.toNat - 0x10000) % 0x400)]

/-- The UTF-16 code units of a text. -/
def units (text : String) : List UInt16 := text.toList.flatMap charUnits

/-- Whether a unit is the first half of a surrogate pair. -/
def isHighSurrogate (unit : UInt16) : Bool := 0xd800 ≤ unit.toNat && unit.toNat < 0xdc00

/-- Whether a unit is the second half of a surrogate pair. -/
def isLowSurrogate (unit : UInt16) : Bool := 0xdc00 ≤ unit.toNat && unit.toNat < 0xe000

/-- The character that a surrogate pair stands for. -/
def pairChar (high low : UInt16) : Char :=
  Char.ofNat (0x10000 + (high.toNat - 0xd800) * 0x400 + (low.toNat - 0xdc00))

/-- Read code units as characters, behind those already read. -/
def charsInto? : List UInt16 → Array Char → Option (Array Char)
  | [], chars => some chars
  | unit :: rest, chars =>
      if isHighSurrogate unit then
        match rest with
        | low :: rest =>
            if isLowSurrogate low then charsInto? rest (chars.push (pairChar unit low)) else none
        | [] => none
      -- A second half that follows no first half stands for nothing.
      else if isLowSurrogate unit then none
      else charsInto? rest (chars.push (Char.ofNat unit.toNat))

/-- Read code units as characters, if every surrogate is paired. -/
def charsOfUnits? (units : List UInt16) : Option (Array Char) := charsInto? units .empty

/-! ## Code units and bytes -/

/-- The number of bytes a code unit takes. -/
def unitLength (unit : UInt16) : Nat :=
  if 1 ≤ unit.toNat ∧ unit.toNat < 0x80 then 1 else if unit.toNat < 0x800 then 2 else 3

/-- The bytes of a code unit. -/
def unitBytes (unit : UInt16) : List UInt8 :=
  if 1 ≤ unit.toNat ∧ unit.toNat < 0x80 then [UInt8.ofNat unit.toNat]
  else if unit.toNat < 0x800 then
    [UInt8.ofNat (0xc0 + unit.toNat / 64), UInt8.ofNat (0x80 + unit.toNat % 64)]
  else
    [UInt8.ofNat (0xe0 + unit.toNat / 4096), UInt8.ofNat (0x80 + unit.toNat / 64 % 64),
      UInt8.ofNat (0x80 + unit.toNat % 64)]

/-- A code unit takes as many bytes as `unitLength` says. -/
@[simp] theorem length_unitBytes (unit : UInt16) : (unitBytes unit).length = unitLength unit := by
  unfold unitBytes unitLength
  split
  · rfl
  · split <;> rfl

/-- Whether a byte continues a code unit. -/
def isContinuation (byte : UInt8) : Bool := 0x80 ≤ byte.toNat && byte.toNat < 0xc0

/-- The unit that a lead byte and one continuation stand for. -/
def unitOfTwo (lead second : UInt8) : UInt16 :=
  UInt16.ofNat ((lead.toNat - 0xc0) * 64 + (second.toNat - 0x80))

/-- The unit that a lead byte and two continuations stand for. -/
def unitOfThree (lead second third : UInt8) : UInt16 :=
  UInt16.ofNat ((lead.toNat - 0xe0) * 4096 + (second.toNat - 0x80) * 64 + (third.toNat - 0x80))

/-- Read bytes as code units, behind those already read. -/
def unitsInto? : List UInt8 → Array UInt16 → Option (Array UInt16)
  | [], units => some units
  | lead :: rest, units =>
      if 0x01 ≤ lead.toNat ∧ lead.toNat < 0x80 then
        unitsInto? rest (units.push (UInt16.ofNat lead.toNat))
      else if 0xc0 ≤ lead.toNat ∧ lead.toNat < 0xe0 then
        match rest with
        | second :: rest =>
            if isContinuation second then unitsInto? rest (units.push (unitOfTwo lead second))
            else none
        | [] => none
      else if 0xe0 ≤ lead.toNat ∧ lead.toNat < 0xf0 then
        match rest with
        | second :: third :: rest =>
            if isContinuation second && isContinuation third then
              unitsInto? rest (units.push (unitOfThree lead second third))
            else none
        | _ => none
      else none

/-- Read bytes as code units. -/
def unitsOfBytes? (bytes : List UInt8) : Option (Array UInt16) := unitsInto? bytes .empty

/-! ## Texts -/

/-- The bytes of a text. -/
def encode (text : String) : List UInt8 := (units text).flatMap unitBytes

/-- The number of bytes a text takes. -/
def encodedLength (text : String) : Nat :=
  (units text).foldl (fun length unit => length + unitLength unit) 0

/-- The text that bytes stand for. -/
def decode? (bytes : List UInt8) : Option String := do
  let units ← unitsOfBytes? bytes
  let chars ← charsOfUnits? units.toList
  return String.ofList chars.toList

end JvmCode.ModifiedUtf8
