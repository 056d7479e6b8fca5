/-! # Byte buffers

Output grows at its end; bytes already written can be cut off again or overwritten in place.

* **`Buffer.overwrite`** replaces bytes from a position on; it never changes the length.
* **`Buffer.patch?`** is the same, refused where the new bytes would not lie inside the buffer. -/

namespace JvmCode.Buffer

/-- Replace the bytes from `start` on, as far as the buffer reaches. -/
def overwrite (buffer : Array UInt8) (start : Nat) : List UInt8 → Array UInt8
  | [] => buffer
  | byte :: rest => overwrite (buffer.setIfInBounds start byte) (start + 1) rest

/-- Replace the bytes from `start` on, if they all lie inside the buffer. -/
def patch? (buffer : Array UInt8) (start : Nat) (bytes : List UInt8) : Option (Array UInt8) :=
  if start + bytes.length ≤ buffer.size then some (overwrite buffer start bytes) else none

/-- Drop every byte from a position on. -/
def truncate (buffer : Array UInt8) (position : Nat) : Array UInt8 := buffer.take position

/-- Overwriting keeps the length. -/
@[simp] theorem size_overwrite (buffer : Array UInt8) (start : Nat) (bytes : List UInt8) :
    (overwrite buffer start bytes).size = buffer.size := by
  induction bytes generalizing buffer start with
  | nil => rfl
  | cons byte rest ih => rw [overwrite, ih, Array.size_setIfInBounds]

end JvmCode.Buffer
