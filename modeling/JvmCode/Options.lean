/-! # Options

What decoding and assembling do with debug information, and with ranges whose ends were never placed. -/

namespace JvmCode

/-- Whether something is passed on or left out. -/
inductive Passing where
  /-- Passed on. -/
  | pass
  /-- Left out. -/
  | drop
  deriving DecidableEq, Repr

/-- What happens to a debug or handler range with a label that was never placed. -/
inductive DeadLabels where
  /-- Assembling fails. -/
  | fail
  /-- The range is left out. -/
  | drop
  deriving DecidableEq, Repr

/-- How code is decoded and assembled. -/
structure Options where
  /-- What happens to local variable markers. -/
  debugElements : Passing := .pass
  /-- What happens to line number markers. -/
  lineNumbers : Passing := .pass
  /-- What happens to ranges with a label that was never placed. -/
  deadLabels : DeadLabels := .fail
  deriving DecidableEq, Repr

namespace Options

/-- Whether local variable markers are kept. -/
def passesDebug (options : Options) : Bool := options.debugElements == .pass

/-- Whether line number markers are kept. -/
def passesLines (options : Options) : Bool := options.lineNumbers == .pass

variable {options : Options}

/-- Local variable markers are kept exactly when they are passed on. -/
theorem passesDebug_iff : options.passesDebug = true ↔ options.debugElements = .pass := beq_iff_eq

/-- Line number markers are kept exactly when they are passed on. -/
theorem passesLines_iff : options.passesLines = true ↔ options.lineNumbers = .pass := beq_iff_eq

end Options

end JvmCode
