import JvmCode.Instruction.Push
import JvmCode.Pool.Format
import Std.Data.HashMap.Lemmas

/-! # How a pool grows

Everything that is added to a pool is added by `Pool.intern`, and an entry that is in the pool stays at
its index.

* **`Pool.Sound`** is the invariant of pools: a bound on their size, and for each entry that is shared
  the lowest index that holds it.
* **`Pool.Grows`** are the pools that adding entries leads to, and **`Pool.Reachable`** those that are
  reached from an empty pool or from bytes.
* `Pool.Reachable.sound` and `Pool.Grows.get?_eq_some`: the invariant holds, and entries stay. -/

namespace JvmCode

/-- The pool that a program leaves behind, whether it succeeds or not. -/
def Interning.after {α : Type} (program : Interning α) (pool : Pool) : Pool :=
  match program pool with
  | .ok _ after => after
  | .error _ after => after

namespace Pool

/-- The pools that adding entries leads to. -/
inductive Grows (pool : Pool) : Pool → Prop where
  /-- Nothing is added. -/
  | refl : Grows pool pool
  /-- One more entry is added, or refused. -/
  | intern {middle : Pool} (entry : Entry) (before : Grows pool middle) :
      Grows pool (Interning.after (intern entry) middle)

/-- The pools that are reached from an empty pool or from bytes by adding entries. -/
inductive Reachable : Pool → Prop where
  /-- A pool without entries. -/
  | empty : Reachable Pool.empty
  /-- A pool that was read. -/
  | read {bytes : Array UInt8} {start stop : Cursor} {pool : Pool}
      (h : Pool.read bytes start = .ok pool stop) : Reachable pool
  /-- A pool to which one more entry was added, or for which it was refused. -/
  | intern {pool : Pool} (entry : Entry) (before : Reachable pool) :
      Reachable (Interning.after (intern entry) pool)

/-- An index is the lowest one that holds an entry. -/
def Lowest (pool : Pool) (entry : Entry) (index : UInt16) : Prop :=
  pool.get? index = some entry ∧ ∀ other, pool.get? other = some entry → index ≤ other

/-- The invariant of pools. -/
structure Sound (pool : Pool) : Prop where
  /-- One more than the number of slots fits 16 bits. -/
  size_le : pool.size ≤ maxSize
  /-- An entry is shared at the lowest index that holds it. -/
  shared : ∀ entry index, pool.indexOf[entry]? = some index ↔ pool.Lowest entry index

/-! ## One step -/

variable {pool : Pool} {entry : Entry} {index : UInt16}

/-- Behind the last slot there is no entry. -/
theorem get?_eq_none_of_size_lt (outside : pool.size < index.toNat) : pool.get? index = none := by
  unfold get?
  split
  · rfl
  · rw [Array.getElem?_eq_none (by unfold size at outside; omega)]
    rfl

/-- An entry lies inside the slots. -/
theorem toNat_le_size_of_get? (h : pool.get? index = some entry) : index.toNat ≤ pool.size := by
  apply Nat.le_of_not_lt
  intro outside
  rw [get?_eq_none_of_size_lt outside] at h
  cases h

/-- An appended entry stands in the first slot behind the others, which stay as they were. -/
theorem get?_push (pool : Pool) (entry : Entry) (index : UInt16) :
    (pool.push entry).get? index =
      if index.toNat = pool.size + 1 then some entry else pool.get? index := by
  unfold get?
  by_cases zero : index = 0
  · subst zero
    simp
  · have positive : 0 < index.toNat := by
      apply Nat.pos_of_ne_zero
      intro none
      exact zero (UInt16.toNat.inj none)
    rw [if_neg zero, if_neg zero]
    simp only [push, appendSlots, size]
    -- An entry of two slots leaves the second one empty.
    split
    · simp only [Array.getElem?_push, Array.size_push]
      grind
    · simp only [Array.getElem?_push]
      grind

/-- The index of an appended entry, if there is room for it. -/
theorem toNat_next (room : pool.size + entry.width ≤ maxSize) :
    (UInt16.ofNat (pool.slots.size + 1)).toNat = pool.size + 1 := by
  have wide := entry.width_pos
  unfold maxSize at room
  exact UInt16.toNat_ofNat_of_lt' (show pool.size + 1 < 65536 by omega)

/-- An entry is refused unless its text is short and there is room for it. -/
theorem refusal?_eq_none_iff : pool.refusal? entry = none ↔
    textLength entry ≤ maxTextLength ∧ pool.size + entry.width ≤ maxSize := by
  unfold refusal?
  dsimp only
  split
  · simp only [reduceCtorEq, false_iff]
    omega
  · split
    · simp only [reduceCtorEq, false_iff]
      omega
    · simp only [true_iff]
      omega

/-- There is one lowest index. -/
theorem Lowest.unique {other : UInt16} (h : pool.Lowest entry index) (h' : pool.Lowest entry other) :
    index = other :=
  UInt16.le_antisymm (h.2 other h'.1) (h'.2 index h.1)

/-- An entry that some index holds has a lowest one. -/
theorem exists_lowest (h : pool.get? index = some entry) : ∃ lowest, pool.Lowest entry lowest := by
  induction number : index.toNat using Nat.strongRecOn generalizing index with
  | ind n ih =>
      by_cases least : ∀ other, pool.get? other = some entry → index ≤ other
      · exact ⟨index, h, least⟩
      · rw [Classical.not_forall] at least
        obtain ⟨other, lower⟩ := least
        rw [Classical.not_imp, UInt16.not_le, UInt16.lt_iff_toNat_lt, number] at lower
        exact ih other.toNat lower.2 lower.1 rfl

/-- An entry that some index holds is shared. -/
theorem Sound.indexOf_ne_none (sound : pool.Sound) (h : pool.get? index = some entry) :
    ∃ lowest, pool.indexOf[entry]? = some lowest := by
  obtain ⟨lowest, least⟩ := exists_lowest h
  exact ⟨lowest, (sound.shared entry lowest).mpr least⟩

/-- An entry that is not shared is nowhere in the pool. -/
theorem Sound.get?_ne_of_indexOf (sound : pool.Sound) (absent : pool.indexOf[entry]? = none) (index : UInt16) :
    pool.get? index ≠ some entry := by
  intro holds
  obtain ⟨lowest, present⟩ := sound.indexOf_ne_none holds
  rw [absent] at present
  cases present

/-- What an index holds after an entry is appended. -/
theorem get?_push_eq_some_iff {other : Entry} : (pool.push entry).get? index = some other ↔
    index.toNat = pool.size + 1 ∧ other = entry ∨ pool.get? index = some other := by
  rw [get?_push]
  by_cases next : index.toNat = pool.size + 1
  · rw [if_pos next, get?_eq_none_of_size_lt (by omega), Option.some.injEq]
    simp [next, eq_comm]
  · rw [if_neg next]
    simp [next]

/-- The lowest index of an entry that is already there stays. -/
theorem Lowest.push {other : Entry} (h : pool.Lowest other index) (entry : Entry) :
    (pool.push entry).Lowest other index := by
  refine ⟨get?_push_eq_some_iff.mpr (.inr h.1), ?_⟩
  intro candidate holds
  obtain ⟨next, -⟩ | holds := get?_push_eq_some_iff.mp holds
  · have inside := toNat_le_size_of_get? h.1
    rw [UInt16.le_iff_toNat_le]
    omega
  · exact h.2 candidate holds

/-- The index of an appended entry is the lowest if no other holds it. -/
theorem lowest_push_next (room : pool.size + entry.width ≤ maxSize)
    (fresh : ∀ index, pool.get? index ≠ some entry) :
    (pool.push entry).Lowest entry (UInt16.ofNat (pool.slots.size + 1)) := by
  have next := toNat_next room
  refine ⟨get?_push_eq_some_iff.mpr (.inl ⟨next, rfl⟩), ?_⟩
  intro candidate holds
  obtain ⟨same, -⟩ | holds := get?_push_eq_some_iff.mp holds
  · rw [UInt16.le_iff_toNat_le]
    omega
  · exact absurd holds (fresh candidate)

/-- Where an entry is shared after one is appended: at its place before, or at the new one. -/
theorem indexOf_push (pool : Pool) (entry other : Entry) :
    (pool.push entry).indexOf[other]? =
      if other = entry ∧ pool.indexOf[entry]? = none then
        some (UInt16.ofNat (pool.slots.size + 1))
      else pool.indexOf[other]? := by
  rw [push, Std.HashMap.getElem?_insertIfNew]
  by_cases new : other = entry ∧ pool.indexOf[entry]? = none
  · rw [if_pos new, if_pos]
    rw [Std.HashMap.mem_iff_isSome_getElem?, new.2, new.1]
    simp
  · rw [if_neg new, if_neg]
    rintro ⟨same, absent⟩
    rw [Std.HashMap.mem_iff_isSome_getElem?, Bool.not_eq_true, Option.isSome_eq_false_iff,
      Option.isNone_iff_eq_none] at absent
    exact new ⟨(beq_iff_eq.mp same).symm, absent⟩

/-- Appending an entry keeps the invariant. -/
theorem Sound.push (sound : pool.Sound) (room : pool.size + entry.width ≤ maxSize) :
    (pool.push entry).Sound := by
  -- Either direction of sharing needs that an entry without an index is nowhere in the pool.
  have lowest : ∀ other index, (pool.push entry).indexOf[other]? = some index →
      (pool.push entry).Lowest other index := by
    intro other index shared
    rw [indexOf_push] at shared
    split at shared
    · rename_i new
      obtain ⟨rfl, absent⟩ := new
      cases shared
      exact lowest_push_next room (sound.get?_ne_of_indexOf absent)
    · exact ((sound.shared other index).mp shared).push entry
  have shared : ∀ other index, (pool.push entry).get? index = some other →
      ∃ lowest, (pool.push entry).indexOf[other]? = some lowest := by
    intro other index holds
    rw [indexOf_push]
    split
    · exact ⟨_, rfl⟩
    · rename_i old
      obtain ⟨-, rfl⟩ | holds := get?_push_eq_some_iff.mp holds
      · exact Option.ne_none_iff_exists'.mp fun absent => old ⟨rfl, absent⟩
      · exact sound.indexOf_ne_none holds
  -- Two lowest indexes of one entry are the same, which gives the other direction.
  refine ⟨by rw [size_push]; exact room, fun other index => ⟨lowest other index, fun least => ?_⟩⟩
  obtain ⟨first, present⟩ := shared other index least.1
  rw [present, (lowest other first present).unique least]

/-- What adding an entry does: the pool stays, or the entry is appended where there is room. -/
theorem intern_cases (entry : Entry) (pool : Pool) :
    (∃ index, pool.indexOf[entry]? = some index ∧ intern entry pool = .ok index pool) ∨
    (pool.indexOf[entry]? = none ∧ ∃ cause, pool.refusal? entry = some cause ∧
      intern entry pool = .error cause pool) ∨
    (pool.indexOf[entry]? = none ∧ pool.refusal? entry = none ∧
      intern entry pool = .ok (UInt16.ofNat (pool.slots.size + 1)) (pool.push entry)) := by
  unfold intern
  cases pool.indexOf[entry]? with
  | some index => exact .inl ⟨index, rfl, rfl⟩
  | none =>
      cases pool.refusal? entry with
      | some cause => exact .inr (.inl ⟨rfl, cause, rfl, rfl⟩)
      | none => exact .inr (.inr ⟨rfl, rfl, rfl⟩)

/-- The pool after an entry is added is the same pool or the pool with the entry appended. -/
theorem after_intern (entry : Entry) (pool : Pool) :
    Interning.after (intern entry) pool = pool ∨
      pool.refusal? entry = none ∧ Interning.after (intern entry) pool = pool.push entry := by
  unfold Interning.after
  obtain ⟨index, -, h⟩ | ⟨-, cause, -, h⟩ | ⟨-, room, h⟩ := intern_cases entry pool
  · rw [h]
    exact .inl rfl
  · rw [h]
    exact .inl rfl
  · rw [h]
    exact .inr ⟨room, rfl⟩

/-- Adding an entry keeps the invariant. -/
theorem Sound.intern (sound : pool.Sound) (entry : Entry) :
    (Interning.after (intern entry) pool).Sound := by
  obtain same | ⟨room, same⟩ := after_intern entry pool
  · rw [same]
    exact sound
  · rw [same]
    exact sound.push (refusal?_eq_none_iff.mp room).2

/-- An entry that is added is held by the index that is given. -/
theorem Sound.get?_of_intern (sound : pool.Sound) {after : Pool}
    (h : Pool.intern entry pool = .ok index after) : after.get? index = some entry := by
  obtain ⟨shared, found, same⟩ | ⟨-, cause, -, same⟩ | ⟨-, room, same⟩ := intern_cases entry pool
  · rw [same] at h
    cases h
    exact ((sound.shared entry index).mp found).1
  · rw [same] at h
    cases h
  · rw [same] at h
    cases h
    exact get?_push_eq_some_iff.mpr (.inl ⟨toNat_next (refusal?_eq_none_iff.mp room).2, rfl⟩)

/-- An entry is shared at the index that adding it gives. -/
theorem indexOf_of_intern {after : Pool} (added : Pool.intern entry pool = .ok index after) :
    after.indexOf[entry]? = some index := by
  rcases intern_cases entry pool with ⟨shared, found, same⟩ | ⟨-, cause, -, same⟩ | ⟨absent, -, same⟩
  · rw [same] at added
    cases added
    exact found
  · rw [same] at added
    cases added
  · rw [same] at added
    cases added
    rw [indexOf_push, if_pos ⟨rfl, absent⟩]

/-- Adding an entry takes as many slots as the entry is wide, or none. -/
theorem size_le_of_intern {after : Pool} (added : Pool.intern entry pool = .ok index after) :
    after.size ≤ pool.size + entry.width := by
  rcases intern_cases entry pool with ⟨shared, -, same⟩ | ⟨-, cause, -, same⟩ | ⟨-, -, same⟩
  · rw [same] at added
    cases added
    exact Nat.le_add_right _ _
  · rw [same] at added
    cases added
  · rw [same] at added
    cases added
    exact Nat.le_of_eq (size_push pool entry)

/-- An entry with a short text is added if there is room for it. -/
theorem exists_intern (short : textLength entry ≤ maxTextLength)
    (room : pool.size + entry.width ≤ maxSize) :
    ∃ index after, Pool.intern entry pool = .ok index after := by
  have accepted := refusal?_eq_none_iff.mpr ⟨short, room⟩
  rcases intern_cases entry pool with ⟨index, -, same⟩ | ⟨-, cause, refused, -⟩ | ⟨-, -, same⟩
  · exact ⟨index, pool, same⟩
  · rw [accepted] at refused
    cases refused
  · exact ⟨_, _, same⟩

/-- An entry that is already there is given its lowest index, and the pool stays as it is. -/
theorem Sound.intern_of_get? (sound : pool.Sound) (h : pool.get? index = some entry) :
    ∃ lowest, Pool.intern entry pool = .ok lowest pool ∧ pool.get? lowest = some entry := by
  obtain ⟨lowest, shared⟩ := sound.indexOf_ne_none h
  refine ⟨lowest, ?_, ((sound.shared entry lowest).mp shared).1⟩
  rw [Pool.intern, shared]

/-- Adding an entry keeps what each index holds. -/
theorem get?_after_intern {other : Entry} (h : pool.get? index = some other) (entry : Entry) :
    (Interning.after (intern entry) pool).get? index = some other := by
  obtain same | ⟨-, same⟩ := after_intern entry pool
  · rw [same]
    exact h
  · rw [same]
    exact get?_push_eq_some_iff.mpr (.inr h)

/-! ## Any number of steps -/

/-- A pool without entries holds nothing. -/
theorem get?_empty (index : UInt16) : Pool.empty.get? index = none := by
  by_cases zero : index = 0
  · rw [zero]
    rfl
  · apply get?_eq_none_of_size_lt
    exact Nat.pos_of_ne_zero fun none => zero (UInt16.toNat.inj none)

/-- A pool without entries keeps the invariant. -/
theorem Sound.empty : Pool.empty.Sound := by
  refine ⟨Nat.zero_le _, fun entry index => ?_⟩
  rw [show Pool.empty.indexOf[entry]? = none from Std.HashMap.getElem?_empty]
  refine ⟨fun h => (nomatch h), fun lowest => ?_⟩
  have holds := lowest.1
  rw [get?_empty] at holds
  cases holds

/-- What appending an entry that is not refused keeps while slots are missing, reading entries keeps, and no
slot is missing in the end. -/
theorem readInto_induction {motive : Pool → Prop} {limit : Nat} {bytes : Array UInt8}
    {start stop : Cursor} {after : Pool}
    (push : ∀ pool entry, pool.size < limit → pool.refusal? entry = none → motive pool →
      motive (pool.push entry))
    (holds : motive pool) (h : readInto limit pool bytes start = .ok after stop) :
    motive after ∧ limit ≤ after.size := by
  -- The loop goes on while slots are missing, and every entry takes one at least.
  induction left : limit - pool.size using Nat.strongRecOn generalizing pool start with
  | ind n ih =>
      rw [readInto] at h
      split at h
      · rename_i missing
        obtain ⟨entry, middle, -, h⟩ := Reader.bind_eq_ok_iff.mp h
        cases room : pool.refusal? entry with
        | some cause =>
            simp only [room] at h
            cases h
        | none =>
            simp only [room] at h
            have wide := entry.width_pos
            have grown := size_push pool entry
            exact ih _ (by omega) (push pool entry missing room holds) h rfl
      · rename_i filled
        obtain ⟨rfl, -⟩ := Reader.pure_eq_ok_iff.mp h
        exact ⟨holds, Nat.le_of_not_lt filled⟩

/-- What holds of a pool without entries, and is kept by appending an entry that is not refused, holds of
every reachable pool. -/
@[elab_as_elim] theorem Reachable.push_induction {motive : Pool → Prop} {pool : Pool}
    (reachable : pool.Reachable) (empty : motive Pool.empty)
    (push : ∀ pool entry, pool.refusal? entry = none → motive pool → motive (pool.push entry)) :
    motive pool := by
  induction reachable with
  | empty => exact empty
  | read h =>
      obtain ⟨count, middle, -, h⟩ := Reader.bind_eq_ok_iff.mp h
      exact (readInto_induction (fun pool entry _ => push pool entry) empty h).1
  | @intern before entry _ ih =>
      obtain same | ⟨room, same⟩ := after_intern entry before
      · rw [same]
        exact ih
      · rw [same]
        exact push before entry room ih

/-- Every reachable pool keeps the invariant. -/
theorem Reachable.sound (h : pool.Reachable) : pool.Sound :=
  h.push_induction Sound.empty fun _ _ room sound => sound.push (refusal?_eq_none_iff.mp room).2

namespace Grows

variable {after last : Pool}

/-- Growing is transitive. -/
theorem trans (h : pool.Grows after) (h' : after.Grows last) : pool.Grows last := by
  induction h' with
  | refl => exact h
  | intern entry _ ih => exact .intern entry ih

/-- What a reachable pool grows to is reachable. -/
theorem reachable (h : pool.Grows after) (reachable : pool.Reachable) : after.Reachable := by
  induction h with
  | refl => exact reachable
  | intern entry _ ih => exact .intern entry ih

/-- What a sound pool grows to is sound. -/
theorem sound (h : pool.Grows after) (sound : pool.Sound) : after.Sound := by
  induction h with
  | refl => exact sound
  | intern entry _ ih => exact ih.intern entry

/-- What an index holds stays there while the pool grows. -/
theorem get?_eq_some (h : pool.Grows after) (holds : pool.get? index = some entry) :
    after.get? index = some entry := by
  induction h with
  | refl => exact holds
  | intern other _ ih => exact get?_after_intern ih other

/-- An entry stays shared at its index while the pool grows. -/
theorem indexOf_eq_some (h : pool.Grows after) (shared : pool.indexOf[entry]? = some index) :
    after.indexOf[entry]? = some index := by
  induction h with
  | refl => exact shared
  | @intern middle other _ ih =>
      rcases after_intern other middle with same | ⟨-, same⟩
      · rw [same]
        exact ih
      · rw [same, indexOf_push, if_neg]
        · exact ih
        -- An entry that is shared is not the first of its kind.
        · rintro ⟨rfl, absent⟩
          rw [absent] at ih
          cases ih

end Grows

end Pool

/-! ## Programs -/

namespace Interning

variable {α β : Type}

/-- A program only adds entries to the pool. -/
def Grows (program : Interning α) : Prop := ∀ pool : Pool, pool.Grows (after program pool)

/-- Two programs in turn succeed exactly when both do. -/
theorem bind_eq_ok_iff {program : Interning α} {next : α → Interning β} {pool last : Pool} {b : β} :
    (program >>= next) pool = .ok b last ↔
      ∃ a middle, program pool = .ok a middle ∧ next a middle = .ok b last := by
  simp only [bind, EStateM.bind]
  cases program pool with
  | ok a middle =>
      constructor
      · exact fun h => ⟨a, middle, rfl, h⟩
      · rintro ⟨_, _, ⟨⟩, h⟩
        exact h
  | error cause middle => simp

/-- A program that only gives a value succeeds and leaves the pool as it is. -/
theorem pure_eq_ok_iff {a b : α} {pool last : Pool} :
    (pure a : Interning α) pool = .ok b last ↔ a = b ∧ pool = last := by
  simp [pure, EStateM.pure]

/-- The pool that a program grows to when it succeeds. -/
theorem Grows.of_ok {program : Interning α} (grows : Grows program) {pool last : Pool} {a : α}
    (h : program pool = .ok a last) : pool.Grows last := by
  have grown := grows pool
  rw [after, h] at grown
  exact grown

/-- Adding an entry adds entries. -/
theorem Grows.intern (entry : Entry) : Grows (Pool.intern entry) :=
  fun _ => .intern entry .refl

/-- Giving a value adds nothing. -/
theorem Grows.pure (a : α) : Grows (Pure.pure a) := fun _ => .refl

/-- Failing adds nothing. -/
theorem Grows.throw (cause : PoolFault) : Grows (throw cause : Interning α) := fun _ => .refl

/-- Programs that only add entries do so in turn. -/
theorem Grows.bind {program : Interning α} {next : α → Interning β} (first : Grows program)
    (second : ∀ a, Grows (next a)) : Grows (program >>= next) := by
  intro pool
  have grown := first pool
  simp only [after, Bind.bind, EStateM.bind] at grown ⊢
  cases given : program pool with
  | ok a middle =>
      rw [given] at grown
      exact grown.trans (second a middle)
  | error cause middle =>
      rw [given] at grown
      exact grown

/-- Adding a class only adds entries. -/
theorem Grows.internClass (name : String) : Grows (Pool.internClass name) :=
  (Grows.intern _).bind fun _ => Grows.intern _

/-- Adding a string only adds entries. -/
theorem Grows.internString (value : String) : Grows (Pool.internString value) :=
  (Grows.intern _).bind fun _ => Grows.intern _

/-- Adding a method type only adds entries. -/
theorem Grows.internMethodType (descriptor : String) : Grows (Pool.internMethodType descriptor) :=
  (Grows.intern _).bind fun _ => Grows.intern _

/-- Adding a name with a descriptor only adds entries. -/
theorem Grows.internNameAndType (name descriptor : String) :
    Grows (Pool.internNameAndType name descriptor) :=
  (Grows.intern _).bind fun _ => (Grows.intern _).bind fun _ => Grows.intern _

/-- Adding a member only adds entries. -/
theorem Grows.internMember (kind : MemberKind) (owner name descriptor : String) :
    Grows (Pool.internMember kind owner name descriptor) :=
  (Grows.internClass owner).bind fun _ => (Grows.internNameAndType name descriptor).bind fun _ =>
    Grows.intern _

/-- Adding a dynamically computed call site only adds entries. -/
theorem Grows.internCallSite (bootstrap : UInt16) (name descriptor : String) :
    Grows (Pool.internCallSite bootstrap name descriptor) :=
  (Grows.internNameAndType name descriptor).bind fun _ => Grows.intern _

/-- Adding a dynamically computed constant only adds entries. -/
theorem Grows.internDynamic (bootstrap : UInt16) (name descriptor : String) :
    Grows (Pool.internDynamic bootstrap name descriptor) :=
  (Grows.internNameAndType name descriptor).bind fun _ => Grows.intern _

/-- Adding a constant only adds entries. -/
theorem Grows.internConstant (value : Constant) : Grows (Instruction.internConstant value) := by
  cases value with
  | null => exact Grows.throw _
  | integer => exact Grows.intern _
  | float => exact Grows.intern _
  | long => exact Grows.intern _
  | double => exact Grows.intern _
  | string => exact Grows.internString _
  | classLiteral => exact Grows.internClass _
  | methodType => exact Grows.internMethodType _
  | methodHandle => exact Grows.intern _
  | dynamic => exact Grows.internDynamic _ _ _

/-- Pushing a value only adds entries. -/
theorem Grows.pushOf (value : Constant) : Grows (Instruction.pushOf value) := by
  unfold Instruction.pushOf
  split
  · exact Grows.pure _
  · split
    · exact Grows.pure _
    · exact (Grows.internConstant value).bind fun _ => Grows.pure _

end Interning

end JvmCode
