import JvmCode.Proofs.Pool.Growth
import JvmCode.Proofs.Texts

/-! # The representation of pools

A pool is two things at once, slots and a map that shares entries. Whatever is done to a pool, the two
agree, and wide entries keep the slot behind them.

* **`Pool.Operation`** is anything that can be done to a pool, and **`Pool.afterAll`** the pool that a
  sequence of operations leads to, whether they succeed or not.
* **`Pool.WellFormed`** is the representation invariant; `WellFormed.push` is its one step.
* `wellFormed_afterAll_and_intern`: it holds after any operations, and then adding an entry gives it an
  index for good, or is refused for one of two reasons. -/

namespace JvmCode.Pool

/-! ## Operations -/

/-- An operation on a pool. -/
inductive Operation where
  /-- Add an entry. -/
  | add (entry : Entry)
  /-- Add a text. -/
  | addText (value : String)
  /-- Add a class by name. -/
  | addClass (name : String)
  /-- Add a string constant. -/
  | addString (value : String)
  /-- Add a method type by descriptor. -/
  | addMethodType (descriptor : String)
  /-- Add a name with a descriptor. -/
  | addNameAndType (name descriptor : String)
  /-- Add a reference to a field or method. -/
  | addMember (kind : MemberKind) (owner name descriptor : String)
  /-- Add an `int` constant. -/
  | addInteger (value : Int32)
  /-- Add a `float` constant by its bits. -/
  | addFloat (bits : UInt32)
  /-- Add a `long` constant. -/
  | addLong (value : Int64)
  /-- Add a `double` constant by its bits. -/
  | addDouble (bits : UInt64)
  /-- Add a method handle to a member that is already there. -/
  | addMethodHandle (kind : HandleKind) (reference : UInt16)
  /-- Add a dynamically computed constant. -/
  | addDynamic (bootstrap : UInt16) (name descriptor : String)
  /-- Add a dynamically computed call site. -/
  | addCallSite (bootstrap : UInt16) (name descriptor : String)
  /-- Read a pool from bytes, which takes the place of this one. -/
  | read (bytes : Array UInt8) (start : Cursor)

/-- The pool after an operation, whether it succeeds or not. -/
def Operation.apply : Operation → Pool → Pool
  | .add entry => Interning.after (intern entry)
  | .addText value => Interning.after (internText value)
  | .addClass name => Interning.after (internClass name)
  | .addString value => Interning.after (internString value)
  | .addMethodType descriptor => Interning.after (internMethodType descriptor)
  | .addNameAndType name descriptor => Interning.after (internNameAndType name descriptor)
  | .addMember kind owner name descriptor =>
      Interning.after (internMember kind owner name descriptor)
  | .addInteger value => Interning.after (internInteger value)
  | .addFloat bits => Interning.after (internFloat bits)
  | .addLong value => Interning.after (internLong value)
  | .addDouble bits => Interning.after (internDouble bits)
  | .addMethodHandle kind reference => Interning.after (internMethodHandle kind reference)
  | .addDynamic bootstrap name descriptor => Interning.after (internDynamic bootstrap name descriptor)
  | .addCallSite bootstrap name descriptor => Interning.after (internCallSite bootstrap name descriptor)
  | .read bytes start => fun pool =>
      match Pool.read bytes start with
      | .ok given _ => given
      -- Bytes that are no pool leave the old one in its place.
      | .error _ _ => pool

/-- The pool that operations lead to, from an empty one. -/
def afterAll (operations : List Operation) : Pool :=
  operations.foldl (fun pool operation => operation.apply pool) empty

variable {pool : Pool} {entry : Entry} {index : UInt16}

/-- A program that only adds entries leads from reachable pools to reachable ones. -/
theorem Reachable.after {program : Interning UInt16} (reachable : pool.Reachable)
    (grows : Interning.Grows program) : (Interning.after program pool).Reachable :=
  (grows pool).reachable reachable

/-- Every operation leads from reachable pools to reachable ones. -/
theorem Reachable.apply (reachable : pool.Reachable) (operation : Operation) :
    (operation.apply pool).Reachable := by
  cases operation with
  | add entry => exact reachable.after (.intern entry)
  | addText value => exact reachable.after (.intern _)
  | addClass name => exact reachable.after (.internClass name)
  | addString value => exact reachable.after (.internString value)
  | addMethodType descriptor => exact reachable.after (.internMethodType descriptor)
  | addNameAndType name descriptor => exact reachable.after (.internNameAndType name descriptor)
  | addMember kind owner name descriptor =>
      exact reachable.after (.internMember kind owner name descriptor)
  | addInteger value => exact reachable.after (.intern _)
  | addFloat bits => exact reachable.after (.intern _)
  | addLong value => exact reachable.after (.intern _)
  | addDouble bits => exact reachable.after (.intern _)
  | addMethodHandle kind reference => exact reachable.after (.intern _)
  | addDynamic bootstrap name descriptor =>
      exact reachable.after (.internDynamic bootstrap name descriptor)
  | addCallSite bootstrap name descriptor =>
      exact reachable.after (.internCallSite bootstrap name descriptor)
  | read bytes start =>
      simp only [Operation.apply]
      split
      · rename_i given
        exact .read given
      · exact reachable

/-- Operations lead to reachable pools. -/
theorem reachable_afterAll (operations : List Operation) : (afterAll operations).Reachable := by
  suffices h : ∀ pool : Pool, pool.Reachable →
      (operations.foldl (fun pool operation => operation.apply pool) pool).Reachable from
    h empty .empty
  induction operations with
  | nil => exact fun pool reachable => reachable
  | cons operation rest ih => exact fun pool reachable => ih _ (reachable.apply operation)

/-! ## The invariant -/

/-- A slot holds an entry of two slots. -/
def HoldsWide (pool : Pool) (place : Nat) : Prop :=
  (∃ value, pool.slots[place]? = some (some (Entry.long value))) ∨
    ∃ bits, pool.slots[place]? = some (some (Entry.double bits))

/-- The representation invariant of pools. -/
structure WellFormed (pool : Pool) : Prop where
  /-- One more than the number of slots fits 16 bits. -/
  size_le : pool.size ≤ 65534
  /-- A slot is unusable exactly when a wide entry stands in the slot before it. -/
  unusable : ∀ place, pool.slots[place]? = some none ↔
    ∃ before, place = before + 1 ∧ pool.HoldsWide before
  /-- The bytes of a text can be counted in 16 bits. -/
  texts : ∀ (place : Nat) (value : String), pool.slots[place]? = some (some (Entry.text value)) →
    (ModifiedUtf8.encode value).length ≤ 65535
  /-- An entry is shared at the lowest index that holds it. -/
  shared : ∀ entry index, pool.indexOf[entry]? = some index ↔ pool.Lowest entry index

/-- A slot holds a wide entry exactly when the entry in it is wide. -/
theorem holdsWide_iff {place : Nat} : pool.HoldsWide place ↔
    ∃ entry, pool.slots[place]? = some (some entry) ∧ entry.isWide = true := by
  constructor
  · rintro (⟨value, holds⟩ | ⟨bits, holds⟩)
    · exact ⟨_, holds, rfl⟩
    · exact ⟨_, holds, rfl⟩
  · rintro ⟨entry, holds, wide⟩
    cases entry with
    | long value => exact .inl ⟨value, holds⟩
    | double bits => exact .inr ⟨bits, holds⟩
    | _ => simp [Entry.isWide] at wide

/-- The slots after an entry is appended: its own, and an unusable one if it is wide. -/
theorem getElem?_slots_push (pool : Pool) (entry : Entry) (place : Nat) :
    (pool.push entry).slots[place]? =
      if place = pool.size then some (some entry)
      else if place = pool.size + 1 ∧ entry.isWide = true then some none
      else pool.slots[place]? := by
  simp only [push, appendSlots, size]
  by_cases wide : entry.isWide = true
  · simp only [wide, if_true, Array.getElem?_push, Array.size_push]
    grind
  · simp only [wide, Bool.false_eq_true, if_false, and_false, Array.getElem?_push]

/-- Behind the last slot there is none. -/
theorem getElem?_slots_of_size_le {place : Nat} (outside : pool.size ≤ place) :
    pool.slots[place]? = none :=
  Array.getElem?_eq_none outside

/-- The unusable slots after an entry is appended. -/
theorem slots_push_eq_none_iff {place : Nat} : (pool.push entry).slots[place]? = some none ↔
    pool.slots[place]? = some none ∨ place = pool.size + 1 ∧ entry.isWide = true := by
  rw [getElem?_slots_push]
  by_cases own : place = pool.size
  · subst own
    simp [getElem?_slots_of_size_le]
  · rw [if_neg own]
    by_cases second : place = pool.size + 1 ∧ entry.isWide = true
    · simp [second]
    · simp [second]

/-- The entries after one is appended. -/
theorem slots_push_eq_some_iff {place : Nat} {other : Entry} :
    (pool.push entry).slots[place]? = some (some other) ↔
      pool.slots[place]? = some (some other) ∨ place = pool.size ∧ entry = other := by
  rw [getElem?_slots_push]
  by_cases own : place = pool.size
  · subst own
    simp [getElem?_slots_of_size_le]
  · rw [if_neg own]
    by_cases second : place = pool.size + 1 ∧ entry.isWide = true
    · obtain ⟨rfl, wide⟩ := second
      simp [wide, getElem?_slots_of_size_le]
    · simp [second, own]

/-- The wide entries after one is appended. -/
theorem holdsWide_push_iff {place : Nat} : (pool.push entry).HoldsWide place ↔
    pool.HoldsWide place ∨ place = pool.size ∧ entry.isWide = true := by
  simp only [holdsWide_iff, slots_push_eq_some_iff, or_and_right, exists_or, and_assoc, exists_and_left,
    exists_eq_left']

/-- The bytes of a text that is not refused can be counted in 16 bits. -/
theorem length_encode_of_refusal? {value : String} (room : pool.refusal? (.text value) = none) :
    (ModifiedUtf8.encode value).length ≤ 65535 := by
  have short := (refusal?_eq_none_iff.mp room).1
  rw [← ModifiedUtf8.encodedLength_eq_length]
  exact short

/-- Appending an entry that is not refused keeps the invariant. -/
theorem WellFormed.push (h : pool.WellFormed) (room : pool.refusal? entry = none) :
    (pool.push entry).WellFormed := by
  have sound : pool.Sound := ⟨h.size_le, h.shared⟩
  have pushed := sound.push (refusal?_eq_none_iff.mp room).2
  refine ⟨pushed.size_le, fun place => ?_, fun place value holds => ?_, pushed.shared⟩
  · -- A wide entry that is appended accounts for the one slot that becomes unusable.
    simp only [slots_push_eq_none_iff, holdsWide_push_iff, h.unusable, and_or_left, exists_or]
    refine or_congr Iff.rfl ⟨?_, ?_⟩
    · rintro ⟨rfl, wide⟩
      exact ⟨pool.size, rfl, rfl, wide⟩
    · rintro ⟨before, rfl, rfl, wide⟩
      exact ⟨rfl, wide⟩
  · obtain holds | ⟨-, rfl⟩ := slots_push_eq_some_iff.mp holds
    · exact h.texts place value holds
    · exact length_encode_of_refusal? room

/-- A pool without entries keeps the invariant. -/
theorem WellFormed.empty : Pool.empty.WellFormed := by
  have none : ∀ place, Pool.empty.slots[place]? = none :=
    fun place => getElem?_slots_of_size_le (Nat.zero_le place)
  refine ⟨Nat.zero_le _, fun place => ?_, fun place value holds => ?_, Sound.empty.shared⟩
  · simp [HoldsWide, none]
  · rw [none] at holds
    cases holds

/-- Every reachable pool keeps the invariant. -/
theorem Reachable.wellFormed (reachable : pool.Reachable) : pool.WellFormed :=
  reachable.push_induction .empty fun _ _ room h => h.push room

/-! ## Adding an entry -/

/-- An index holds an entry exactly when looking it up gives the entry. -/
theorem get_eq_ok_iff : pool.get index = .ok entry ↔ pool.get? index = some entry := by
  unfold get
  split
  · rename_i other found
    simp [found]
  · rename_i absent
    simp [absent]

/-- An entry that was added is shared from then on. -/
theorem intern_again {after : Pool}
    (added : Pool.intern entry pool = .ok index after) :
    Pool.intern entry after = .ok index after := by
  rw [Pool.intern, indexOf_of_intern added]

/-- Only texts have a length to count. -/
theorem lt_textLength_iff {limit : Nat} : limit < textLength entry ↔
    ∃ value, entry = .text value ∧ limit < (ModifiedUtf8.encode value).length := by
  cases entry with
  | text value => simp [textLength, ModifiedUtf8.encodedLength_eq_length]
  | _ => simp [textLength]

/-- An entry that is not there is refused exactly when its text is too long or too few slots are free. -/
theorem intern_eq_error_iff (absent : pool.indexOf[entry]? = none) :
    (∃ cause after, intern entry pool = .error cause after) ↔
      (∃ value, entry = .text value ∧ 65535 < (ModifiedUtf8.encode value).length) ∨
        65534 - pool.size < entry.width := by
  have wide := entry.width_pos
  have refused : pool.refusal? entry ≠ none ↔ 65535 < textLength entry ∨
      65534 - pool.size < entry.width := by
    rw [Ne, refusal?_eq_none_iff]
    simp only [maxTextLength, maxSize]
    omega
  rw [← lt_textLength_iff, ← refused, intern, absent]
  cases pool.refusal? entry with
  | none => simp
  | some cause => simp

/-- A refused entry changes nothing. -/
theorem eq_of_intern_eq_error {after : Pool} {cause : PoolFault}
    (h : intern entry pool = .error cause after) : after = pool := by
  obtain ⟨lowest, -, same⟩ | ⟨-, other, -, same⟩ | ⟨-, -, same⟩ := intern_cases entry pool
  · rw [same] at h
    cases h
  · rw [same] at h
    cases h
    rfl
  · rw [same] at h
    cases h

/-- Every pool that operations lead to is `WellFormed`. What `intern entry` adds to `afterAll operations` is
found by `get` at the index that was given, and `intern` gives the same index again without a change. An entry
that `get` finds nowhere is refused exactly when it is a text of more than 65535 bytes in `ModifiedUtf8.encode`,
or when its `width` is more than what is left of 65534 slots. A refused entry leaves the pool as it was. -/
theorem wellFormed_afterAll_and_intern (operations : List Operation) :
    (afterAll operations).WellFormed ∧ ∀ entry,
      (∀ index after, intern entry (afterAll operations) = .ok index after →
        after.get index = .ok entry ∧ intern entry after = .ok index after) ∧
      ((∀ index, (afterAll operations).get index ≠ .ok entry) →
        ((∃ cause after, intern entry (afterAll operations) = .error cause after) ↔
          (∃ value, entry = .text value ∧ 65535 < (ModifiedUtf8.encode value).length) ∨
            65534 - (afterAll operations).size < entry.width)) ∧
      ∀ cause after, intern entry (afterAll operations) = .error cause after →
        after = afterAll operations := by
  have reachable := reachable_afterAll operations
  refine ⟨reachable.wellFormed, fun entry => ⟨fun index after added => ?_, fun nowhere => ?_, ?_⟩⟩
  · exact ⟨get_eq_ok_iff.mpr (reachable.sound.get?_of_intern added), intern_again added⟩
  · -- What no index holds is not shared either.
    have absent : (afterAll operations).indexOf[entry]? = none := by
      rw [Option.eq_none_iff_forall_ne_some]
      intro index shared
      exact nowhere index (get_eq_ok_iff.mpr ((reachable.sound.shared entry index).mp shared).1)
    exact intern_eq_error_iff absent
  · exact fun cause after refused => eq_of_intern_eq_error refused

end JvmCode.Pool
