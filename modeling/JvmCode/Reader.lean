import JvmCode.BigEndian
import JvmCode.Fault

/-! # Reading bytes

A big-endian cursor over fixed bytes, and the readers that move it.

* **`Cursor`** is a position and a mark: running out of bytes is reported at the mark, so that a fault
  names the item being read and not the byte that is missing.
* **`Reader`** reads a value off bytes that do not change; a reader that fails keeps the position that
  it had reached.
* **`Reader.Forward`** holds of the readers that never move back; `Forward.bind` and the lemmas beside
  each reader make it compositional. -/

namespace JvmCode

/-- Where a reader stands. -/
structure Cursor where
  /-- The index of the next byte. -/
  position : Nat
  /-- The offset reported when the bytes run out. -/
  mark : Nat
  deriving DecidableEq, Repr

namespace Cursor

/-- A cursor at a position, marked there. -/
def startingAt (position : Nat) : Cursor := ⟨position, position⟩

/-- A cursor at the first byte. -/
def start : Cursor := startingAt 0

/-- Whether no byte is left. -/
def ended (cursor : Cursor) (bytes : Array UInt8) : Bool := bytes.size ≤ cursor.position

end Cursor

/-- Programs that read a value off fixed bytes. -/
abbrev Reader := ReaderT (Array UInt8) (EStateM Fault Cursor)

namespace Reader

variable {α β : Type}

/-- A sequence of two readers succeeds exactly when both succeed in turn. -/
theorem bind_eq_ok_iff {reader : Reader α} {next : α → Reader β} {bytes : Array UInt8}
    {start stop : Cursor} {b : β} :
    (reader >>= next) bytes start = .ok b stop ↔
      ∃ a middle, reader bytes start = .ok a middle ∧ next a bytes middle = .ok b stop := by
  change EStateM.bind (reader bytes) (fun a => next a bytes) start = _ ↔ _
  unfold EStateM.bind
  cases reader bytes start with
  | ok a middle =>
      exact ⟨fun h => ⟨a, middle, rfl, h⟩, fun ⟨_, _, same, h⟩ => by cases same; exact h⟩
  | error fault middle => simp

/-- A pure reader leaves the cursor alone. -/
theorem pure_eq_ok_iff {a b : α} {bytes : Array UInt8} {start stop : Cursor} :
    (pure a : Reader α) bytes start = .ok b stop ↔ a = b ∧ start = stop := by
  change EStateM.Result.ok a start = _ ↔ _
  simp

/-- Fail with a fault. -/
def fail (fault : Fault) : Reader α := fun _ cursor => .error fault cursor

/-- Fail with a malformation at the mark. -/
def failAtMark (what : Malformation) : Reader α :=
  fun _ cursor => .error (.malformed cursor.mark what) cursor

/-- The value of a constant pool lookup. -/
def ofPool : Except PoolFault α → Reader α
  | .ok value => pure value
  | .error cause => fail (.pool cause)

/-- The index of the next byte. -/
def position : Reader Nat := fun _ cursor => .ok cursor.position cursor

/-- Report faults at the current position from now on. -/
def markHere : Reader Unit := fun _ cursor => .ok () { cursor with mark := cursor.position }

/-- Move to a position. -/
def seek (position : Nat) : Reader Unit := fun _ cursor => .ok () { cursor with position }

/-- The next `count` bytes. -/
def take (count : Nat) : Reader (Array UInt8) := fun bytes cursor =>
  let stop := cursor.position + count
  if stop ≤ bytes.size then
    .ok (bytes.extract cursor.position stop) { cursor with position := stop }
  else
    .error (.malformed cursor.mark .truncated) cursor

/-- Pass over `count` bytes. -/
def skip (count : Nat) : Reader Unit := do
  let _ ← take count

/-- The number that the next `width` bytes stand for. -/
def word (width : Nat) : Reader Nat := do
  let bytes ← take width
  return BigEndian.decode bytes.toList

/-- An unsigned byte. -/
def u1 : Reader UInt8 := do return UInt8.ofNat (← word 1)

/-- An unsigned 16-bit word. -/
def u2 : Reader UInt16 := do return UInt16.ofNat (← word 2)

/-- An unsigned 32-bit word. -/
def u4 : Reader UInt32 := do return UInt32.ofNat (← word 4)

/-- An unsigned 64-bit word. -/
def u8 : Reader UInt64 := do return UInt64.ofNat (← word 8)

/-- A signed byte. -/
def i1 : Reader Int8 := do return (← u1).toInt8

/-- A signed 16-bit word. -/
def i2 : Reader Int16 := do return (← u2).toInt16

/-- A signed 32-bit word. -/
def i4 : Reader Int32 := do return (← u4).toInt32

/-- A signed 64-bit word. -/
def i8 : Reader Int64 := do return (← u8).toInt64

/-- Read `count` more items behind those already read. -/
def repeatInto (item : Reader α) : Nat → Array α → Reader (Array α)
  | 0, items => pure items
  | count + 1, items => do
      let value ← item
      repeatInto item count (items.push value)

/-- Read `count` items in order. -/
def sequence (item : Reader α) (count : Nat) : Reader (Array α) := repeatInto item count .empty

/-- Run a reader over bytes of its own, leaving the cursor alone. -/
def within (inner : Array UInt8) (reader : Reader α) : Reader α := fun _ cursor =>
  -- The cursor of the inner run is dropped: it counts positions in other bytes.
  match reader inner Cursor.start with
  | .ok value _ => .ok value cursor
  | .error fault _ => .error fault cursor

/-! ## Readers that never move back -/

/-- A reader that, whenever it succeeds, stands where it stood or further on. -/
def Forward (reader : Reader α) : Prop :=
  ∀ ⦃bytes start value stop⦄, reader bytes start = .ok value stop → start.position ≤ stop.position

/-- A pure reader never moves. -/
theorem Forward.pure (a : α) : Forward (pure a : Reader α) := by
  intro bytes start value stop h
  exact Nat.le_of_eq (congrArg Cursor.position (pure_eq_ok_iff.mp h).2)

/-- Readers that never move back can be sequenced. -/
theorem Forward.bind {reader : Reader α} {next : α → Reader β} (first : Forward reader)
    (second : ∀ a, Forward (next a)) : Forward (reader >>= next) := by
  intro bytes start value stop h
  obtain ⟨a, middle, h₁, h₂⟩ := bind_eq_ok_iff.mp h
  exact Nat.le_trans (first h₁) (second a h₂)

/-- A failing reader never moves. -/
theorem Forward.fail (fault : Fault) : Forward (fail fault : Reader α) := by
  intro bytes start value stop h
  simp [Reader.fail] at h

/-- A failing reader never moves. -/
theorem Forward.failAtMark (what : Malformation) : Forward (failAtMark what : Reader α) := by
  intro bytes start value stop h
  simp [Reader.failAtMark] at h

/-- A constant pool lookup never moves. -/
theorem Forward.ofPool (result : Except PoolFault α) : Forward (ofPool result) := by
  cases result with
  | ok value => exact Forward.pure value
  | error cause => exact Forward.fail _

/-- Asking for the position does not move. -/
theorem Forward.position : Forward position := by
  intro bytes start value stop h
  simp only [Reader.position, EStateM.Result.ok.injEq] at h
  exact Nat.le_of_eq (congrArg Cursor.position h.2)

/-- Marking does not move. -/
theorem Forward.markHere : Forward markHere := by
  intro bytes start value stop h
  simp only [Reader.markHere, EStateM.Result.ok.injEq, true_and] at h
  -- Only the mark differs.
  subst h
  exact Nat.le_refl _

/-- What taking bytes does when there are enough of them. -/
theorem take_eq_ok_iff {count : Nat} {bytes taken : Array UInt8} {start stop : Cursor} :
    take count bytes start = .ok taken stop ↔
      start.position + count ≤ bytes.size ∧
        taken = bytes.extract start.position (start.position + count) ∧
        stop = { start with position := start.position + count } := by
  unfold take
  by_cases enough : start.position + count ≤ bytes.size
  · simp [enough, eq_comm]
  · simp [enough]

/-- Taking bytes moves forward. -/
theorem Forward.take (count : Nat) : Forward (take count) := by
  intro bytes start value stop h
  rw [(take_eq_ok_iff.mp h).2.2]
  exact Nat.le_add_right _ _

/-- Passing over bytes moves forward. -/
theorem Forward.skip (count : Nat) : Forward (skip count) :=
  (Forward.take count).bind fun _ => Forward.pure _

/-- Reading a word moves forward. -/
theorem Forward.word (width : Nat) : Forward (word width) :=
  (Forward.take width).bind fun _ => Forward.pure _

/-- Reading an unsigned byte moves forward. -/
theorem Forward.u1 : Forward u1 := (Forward.word 1).bind fun _ => Forward.pure _

/-- Reading an unsigned 16-bit word moves forward. -/
theorem Forward.u2 : Forward u2 := (Forward.word 2).bind fun _ => Forward.pure _

/-- Reading an unsigned 32-bit word moves forward. -/
theorem Forward.u4 : Forward u4 := (Forward.word 4).bind fun _ => Forward.pure _

/-- Reading a signed byte moves forward. -/
theorem Forward.i1 : Forward i1 := Forward.u1.bind fun _ => Forward.pure _

/-- Reading a signed 16-bit word moves forward. -/
theorem Forward.i2 : Forward i2 := Forward.u2.bind fun _ => Forward.pure _

/-- Reading a signed 32-bit word moves forward. -/
theorem Forward.i4 : Forward i4 := Forward.u4.bind fun _ => Forward.pure _

/-- Reading an unsigned byte moves by exactly one. -/
theorem u1_position {bytes : Array UInt8} {start stop : Cursor} {value : UInt8}
    (h : u1 bytes start = .ok value stop) : stop.position = start.position + 1 := by
  obtain ⟨number, middle, h₁, h₂⟩ := bind_eq_ok_iff.mp h
  obtain ⟨taken, middle', h₃, h₄⟩ := bind_eq_ok_iff.mp h₁
  rw [← (pure_eq_ok_iff.mp h₂).2, ← (pure_eq_ok_iff.mp h₄).2, (take_eq_ok_iff.mp h₃).2.2]

end Reader

end JvmCode
