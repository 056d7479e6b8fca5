import JvmCode.Pool.Entry
import Std.Data.HashMap

/-! # Constant pools

A constant pool numbers its entries from one on. An entry of width two also takes the slot behind it,
which stays unusable. Equal entries are shared when they are added.

* **`Pool`** holds the slots and remembers at which index an entry was first put.
* **`Pool.get`** finds the entry at an index.
* **`Pool.refusal?`** says why an entry cannot be appended, and **`Pool.push`** appends it.
* **`Pool.intern`** is the one way to add: an equal entry is reused, a refused one changes nothing. -/

namespace JvmCode

/-- A constant pool. -/
structure Pool where
  /-- The slots; the one of index `i + 1` is at place `i`. -/
  slots : Array (Option Entry)
  /-- The index at which an entry is shared. -/
  indexOf : Std.HashMap Entry UInt16

namespace Pool

/-- The pool without entries. -/
def empty : Pool := ⟨.empty, ∅⟩

/-- The number of slots in use, the unusable ones included. -/
def size (pool : Pool) : Nat := pool.slots.size

/-- Whether no slot is in use. -/
def isEmpty (pool : Pool) : Bool := pool.slots.isEmpty

/-- The most slots a pool can have, so that one more than their number fits 16 bits. -/
def maxSize : Nat := 65534

/-- The most encoded bytes a text can have. -/
def maxTextLength : Nat := 65535

/-- The entry at an index, if a usable slot stands there. -/
def get? (pool : Pool) (index : UInt16) : Option Entry :=
  if index = 0 then none else (pool.slots[index.toNat - 1]?).join

/-- The entry at an index. -/
def get (pool : Pool) (index : UInt16) : Except PoolFault Entry :=
  match pool.get? index with
  | some entry => .ok entry
  | none => .error (.indexOutOfRange index)

/-- The usable entries with their indexes, in order. -/
def entries (pool : Pool) : List (UInt16 × Entry) :=
  pool.slots.toList.zipIdx.filterMap fun (slot, place) =>
    slot.map fun entry => (UInt16.ofNat (place + 1), entry)

/-- The number of encoded bytes an entry needs a length field for. -/
def textLength : Entry → Nat
  | .text value => ModifiedUtf8.encodedLength value
  | _ => 0

/-- Why an entry cannot be appended: its text is too long, or too few slots are left. -/
def refusal? (pool : Pool) (entry : Entry) : Option PoolFault :=
  let length := textLength entry
  if maxTextLength < length then some (.textTooLong length)
  else if maxSize < pool.size + entry.width then some .full
  else none

/-- The slots an entry takes: its own, and an unusable one if it is wide. -/
def appendSlots (slots : Array (Option Entry)) (entry : Entry) : Array (Option Entry) :=
  if entry.isWide then (slots.push (some entry)).push none else slots.push (some entry)

/-- Append an entry. If it is the first of its kind, it will be shared from now on. -/
def push (pool : Pool) (entry : Entry) : Pool :=
  -- The index is that of the first slot the entry takes.
  let index := UInt16.ofNat (pool.slots.size + 1)
  ⟨appendSlots pool.slots entry, pool.indexOf.insertIfNew entry index⟩

/-- Appending an entry takes as many slots as it is wide. -/
@[simp] theorem size_push (pool : Pool) (entry : Entry) :
    (pool.push entry).size = pool.size + entry.width := by
  unfold push size appendSlots Entry.width
  split <;> simp

end Pool

/-- Programs that may add to a constant pool. What was added before a fault stays. -/
abbrev Interning := EStateM PoolFault Pool

namespace Pool

/-- Add an entry, sharing an equal one that is already there. -/
def intern (entry : Entry) : Interning UInt16 := fun pool =>
  match pool.indexOf[entry]? with
  | some index => .ok index pool
  | none =>
      match pool.refusal? entry with
      | some cause => .error cause pool
      | none => .ok (UInt16.ofNat (pool.slots.size + 1)) (pool.push entry)

/-- Add a text. -/
def internText (value : String) : Interning UInt16 := intern (.text value)

/-- Add a class by name. -/
def internClass (name : String) : Interning UInt16 := do
  let name ← internText name
  intern (.classRef name)

/-- Add a string constant. -/
def internString (value : String) : Interning UInt16 := do
  let text ← internText value
  intern (.string text)

/-- Add a method type by descriptor. -/
def internMethodType (descriptor : String) : Interning UInt16 := do
  let descriptor ← internText descriptor
  intern (.methodType descriptor)

/-- Add a name with a descriptor. -/
def internNameAndType (name descriptor : String) : Interning UInt16 := do
  let name ← internText name
  let descriptor ← internText descriptor
  intern (.nameAndType name descriptor)

/-- Add a reference to a field or method. -/
def internMember (kind : MemberKind) (owner name descriptor : String) : Interning UInt16 := do
  let owner ← internClass owner
  let nameAndType ← internNameAndType name descriptor
  intern (.member kind owner nameAndType)

/-- Add an `int` constant. -/
def internInteger (value : Int32) : Interning UInt16 := intern (.integer value)

/-- Add a `float` constant by its bits. -/
def internFloat (bits : UInt32) : Interning UInt16 := intern (.float bits)

/-- Add a `long` constant. -/
def internLong (value : Int64) : Interning UInt16 := intern (.long value)

/-- Add a `double` constant by its bits. -/
def internDouble (bits : UInt64) : Interning UInt16 := intern (.double bits)

/-- Add a method handle to a member that is already there. -/
def internMethodHandle (kind : HandleKind) (reference : UInt16) : Interning UInt16 :=
  intern (.methodHandle kind reference)

/-- Add a dynamically computed constant. -/
def internDynamic (bootstrap : UInt16) (name descriptor : String) : Interning UInt16 := do
  let nameAndType ← internNameAndType name descriptor
  intern (.dynamic bootstrap nameAndType)

/-- Add a dynamically computed call site. -/
def internCallSite (bootstrap : UInt16) (name descriptor : String) : Interning UInt16 := do
  let nameAndType ← internNameAndType name descriptor
  intern (.callSite bootstrap nameAndType)

end Pool

end JvmCode
