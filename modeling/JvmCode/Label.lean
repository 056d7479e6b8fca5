/-! # Labels

A **`Label`** is an abstract position in code. A decoded label is named by the bytecode index it marks,
so equal targets give equal labels; a fresh label is minted by an assembler session and never equals a
decoded one. -/

namespace JvmCode

/-- A position in code. -/
inductive Label where
  /-- The label that decoding gives to a bytecode index. -/
  | decoded (bci : UInt16)
  /-- The label that a session mints with a serial number, counted from zero. -/
  | fresh (serial : Nat)
  deriving DecidableEq, Repr, Hashable

namespace Label

/-- The bytecode index a decoded label marks. -/
def bci? : Label → Option UInt16
  | .decoded bci => some bci
  | .fresh _ => none

/-- The text of a label in messages: `L7` for a decoded one, `label#0` for the first fresh one. -/
def render : Label → String
  | .decoded bci => "L" ++ toString bci.toNat
  | .fresh serial => "label#" ++ toString serial

/-- The label with a text: `L7`, `label#0`. -/
def ofText? (text : String) : Option Label :=
  match text.toList with
  | 'L' :: digits => do return .decoded (UInt16.ofNat (← (String.ofList digits).toNat?))
  | 'l' :: 'a' :: 'b' :: 'e' :: 'l' :: '#' :: digits => do
      return .fresh (← (String.ofList digits).toNat?)
  | _ => none

/-- The label of a position, if positions that large can have one. -/
def ofPosition? (position : Nat) : Option Label :=
  if position < 65536 then some (.decoded (UInt16.ofNat position)) else none

end Label

end JvmCode
