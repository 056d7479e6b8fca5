import JvmCode.Pool.Basic

/-! # The byte form of a constant pool

A count one above the number of slots, and then the usable entries in order.

* **`Pool.encode`** writes a pool.
* **`Pool.read`** reads entries until the declared number of slots is reached. -/

namespace JvmCode.Pool

/-- The bytes of a pool. -/
def encode (pool : Pool) : List UInt8 :=
  BigEndian.u2 (UInt16.ofNat (pool.size + 1)) ++
    pool.slots.toList.flatMap fun slot => slot.elim [] Entry.encode

/-- Read entries behind those of a pool until its size reaches a limit. -/
def readInto (limit : Nat) (pool : Pool) : Reader Pool :=
  if pool.size < limit then do
    let entry ← Entry.read
    -- Equal entries are not shared on reading: indexes stay as they were written.
    match pool.refusal? entry with
    | some cause => Reader.fail (.pool cause)
    | none => readInto limit (pool.push entry)
  else pure pool
termination_by limit - pool.size
decreasing_by
  have := entry.width_pos
  rw [size_push]
  omega

/-- Read a pool. -/
def read : Reader Pool := do
  let count ← Reader.u2
  readInto (count.toNat - 1) empty

end JvmCode.Pool
