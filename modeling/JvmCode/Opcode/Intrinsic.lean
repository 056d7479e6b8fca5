import JvmCode.Opcode.Basic
import JvmCode.Pool.Symbol

/-! # Opcodes that push a value of their own

**`Opcode.intrinsic?`** is the value pushed by forms such as `iconst_m1`, which take no operand. -/

namespace JvmCode.Opcode

/-- The value pushed by a form without operand. -/
def intrinsic? : Opcode → Option Constant
  | .aconstNull => some .null
  | .iconstM1 => some (.integer (-1))
  | .iconst0 => some (.integer 0)
  | .iconst1 => some (.integer 1)
  | .iconst2 => some (.integer 2)
  | .iconst3 => some (.integer 3)
  | .iconst4 => some (.integer 4)
  | .iconst5 => some (.integer 5)
  | .lconst0 => some (.long 0)
  | .lconst1 => some (.long 1)
  | .fconst0 => some (.float 0)
  | .fconst1 => some (.float 0x3f800000)
  | .fconst2 => some (.float 0x40000000)
  | .dconst0 => some (.double 0)
  | .dconst1 => some (.double 0x3ff0000000000000)
  | _ => none

/-- The opcode that pushes a value without operand. -/
def pushing? (value : Constant) : Option Opcode :=
  all.find? fun op => op.intrinsic? == some value

end JvmCode.Opcode
