import JvmCode.Proofs.Pool.ByteForm

/-! # The declared number of slots

The bytes of a pool begin with a count, one above the number of slots, and entries are read until that many
slots are taken. Nothing compares the two in the end, so there are two ways to be told one number and given
another: a count of zero, and a wide entry in the last slot that is declared, which takes one slot more.

* **`Pool.Overruns`** says that a wide entry stands at the last index that a count declares.
* `filled_of_readInto`: entries are read up to the limit, or one slot beyond it.
* `read_fills_declared_iff`: a pool that was read has as many slots as were declared, and is written with the
  same count, unless in one of these two cases.
* `exists_read_beyond_count`: both cases occur. -/

namespace JvmCode.Pool

/-- A wide entry stands at the last index that a count declares, so its second slot is not declared. -/
def Overruns (pool : Pool) (count : UInt16) : Prop :=
  ∃ entry, pool.get? (count - 1) = some entry ∧ entry.isWide = true

variable {pool after : Pool} {bytes : Array UInt8} {start stop : Cursor} {count : UInt16}

/-- The last index that a count declares. -/
theorem toNat_pred (positive : count ≠ 0) : (count - 1).toNat = count.toNat - 1 := by
  have number : count.toNat ≠ 0 := fun none => positive (UInt16.toNat.inj none)
  have declared : (1 : UInt16) ≤ count := UInt16.le_iff_toNat_le.mpr (Nat.one_le_iff_ne_zero.mpr number)
  exact UInt16.toNat_sub_of_le _ _ declared

/-- A wide entry stands at the last declared index exactly when it stands in the last declared slot, if there
is one. -/
theorem overruns_iff_holdsWide (several : 1 < count.toNat) :
    pool.Overruns count ↔ pool.HoldsWide (count.toNat - 1 - 1) := by
  have positive : count ≠ 0 := by
    rintro rfl
    exact absurd several (by decide)
  have last := toNat_pred positive
  have usable : count - 1 ≠ 0 := by
    intro zero
    rw [zero, show (0 : UInt16).toNat = 0 from rfl] at last
    omega
  simp only [Overruns, holdsWide_iff, get?, if_neg usable, last, Option.join_eq_some_iff]

/-- Reading entries takes up all slots to the limit, and one more only if a wide entry stands in the last. -/
theorem filled_of_readInto {limit : Nat} (below : pool.size ≤ limit)
    (h : readInto limit pool bytes start = .ok after stop) :
    after.size = limit ∨ 0 < limit ∧ after.size = limit + 1 ∧ after.HoldsWide (limit - 1) := by
  -- What is kept: the limit is not passed, but by the second slot of the entry that reaches it.
  have step : ∀ (pool : Pool) (entry : Entry), pool.size < limit → pool.refusal? entry = none →
      (pool.size ≤ limit ∨ 0 < limit ∧ pool.size = limit + 1 ∧ pool.HoldsWide (limit - 1)) →
      (pool.push entry).size ≤ limit ∨
        0 < limit ∧ (pool.push entry).size = limit + 1 ∧ (pool.push entry).HoldsWide (limit - 1) := by
    intro pool entry missing _ _
    rw [size_push, holdsWide_push_iff]
    by_cases wide : entry.isWide = true
    · have width : entry.width = 2 := if_pos wide
      by_cases last : pool.size + 1 = limit
      · exact .inr ⟨by omega, by omega, .inr ⟨by omega, wide⟩⟩
      · exact .inl (by omega)
    · have width : entry.width = 1 := if_neg wide
      exact .inl (by omega)
  obtain ⟨within | beyond, filled⟩ := readInto_induction (motive := fun pool =>
    pool.size ≤ limit ∨ 0 < limit ∧ pool.size = limit + 1 ∧ pool.HoldsWide (limit - 1)) step (.inl below) h
  · exact .inl (Nat.le_antisymm within filled)
  · exact .inr beyond

/-- The three outcomes of reading a pool: as many slots as declared, no slots for a count of zero, or one slot
too many. -/
theorem read_cases (h : Pool.read bytes start = .ok pool stop) :
    ∃ count, Stands bytes start.position (BigEndian.u2 count) ∧
      (count ≠ 0 ∧ pool.size + 1 = count.toNat ∨ count = 0 ∧ pool = Pool.empty ∨
        count ≠ 0 ∧ pool.size = count.toNat ∧ pool.Overruns count) := by
  obtain ⟨count, middle, counting, h⟩ := Reader.bind_eq_ok_iff.mp h
  refine ⟨count, (Reader.u2_eq_ok_iff.mp counting).1, ?_⟩
  by_cases zero : count = 0
  · subst zero
    rw [readInto, if_neg (show ¬ Pool.empty.size < (0 : UInt16).toNat - 1 by decide)] at h
    exact .inr (.inl ⟨rfl, (Reader.pure_eq_ok_iff.mp h).1.symm⟩)
  · have positive : 0 < count.toNat := Nat.pos_of_ne_zero fun none => zero (UInt16.toNat.inj none)
    obtain filled | ⟨several, beyond, wide⟩ := filled_of_readInto (Nat.zero_le _) h
    · exact .inl ⟨zero, by omega⟩
    · exact .inr (.inr ⟨zero, by omega, (overruns_iff_holdsWide (by omega)).mpr wide⟩)

/-- Where all slots are declared, no wide entry stands at the last declared index: its second slot would lie
behind them. -/
theorem WellFormed.not_overruns (wellFormed : pool.WellFormed) (size : pool.size + 1 = count.toNat) :
    ¬pool.Overruns count := by
  intro overruns
  by_cases several : 1 < count.toNat
  · have wide := (overruns_iff_holdsWide several).mp overruns
    have second := (wellFormed.unusable pool.size).mpr ⟨count.toNat - 1 - 1, by omega, wide⟩
    rw [getElem?_slots_of_size_le (Nat.le_refl _)] at second
    cases second
  · obtain ⟨entry, holds, -⟩ := overruns
    have single : count = 1 := UInt16.toNat.inj (show count.toNat = 1 by omega)
    rw [single] at holds
    cases holds

/-- A pool is written with a count exactly when that is one above its slots. -/
theorem count_prefix_encode_iff (small : pool.size ≤ maxSize) :
    BigEndian.u2 count <+: pool.encode ↔ count.toNat = pool.size + 1 := by
  have fits : (UInt16.ofNat (pool.size + 1)).toNat = pool.size + 1 :=
    UInt16.toNat_ofNat_of_lt' (show pool.size + 1 < 65536 by unfold maxSize at small; omega)
  constructor
  · intro written
    have first : BigEndian.u2 count = BigEndian.u2 (UInt16.ofNat (pool.size + 1)) :=
      (List.prefix_of_prefix_length_le written (List.prefix_append ..) (by simp)).eq_of_length (by simp)
    rw [BigEndian.u2_injective first, fits]
  · intro size
    have same : count = UInt16.ofNat (pool.size + 1) := UInt16.toNat.inj (by rw [size, fits])
    rw [same]
    exact List.prefix_append ..

/-- When a pool that was read has the declared slots. `Pool.read` takes a `count` from the front of its bytes.
The pool has `count - 1` slots, and `encode` declares `count` again, exactly when `count ≠ 0 ∧ ¬pool.Overruns
count`. A count of `0` gives `Pool.empty`; an overrun, which is a wide entry at the last declared index, gives
one slot more than declared. -/
theorem read_fills_declared_iff (h : Pool.read bytes start = .ok pool stop) :
    ∃ count, Stands bytes start.position (BigEndian.u2 count) ∧
      (count.toNat = pool.size + 1 ↔ count ≠ 0 ∧ ¬pool.Overruns count) ∧
      (BigEndian.u2 count <+: pool.encode ↔ count ≠ 0 ∧ ¬pool.Overruns count) ∧
      (count = 0 → pool = Pool.empty) ∧ (pool.Overruns count → pool.size = count.toNat) := by
  have wellFormed := (Reachable.read h).wellFormed
  obtain ⟨count, counted, outcome⟩ := read_cases h
  have exact_iff : count.toNat = pool.size + 1 ↔ count ≠ 0 ∧ ¬pool.Overruns count := by
    constructor
    · intro size
      refine ⟨?_, wellFormed.not_overruns size.symm⟩
      rintro rfl
      cases size
    · rintro ⟨positive, inside⟩
      obtain ⟨-, size⟩ | ⟨zero, -⟩ | ⟨-, -, overruns⟩ := outcome
      · exact size.symm
      · exact absurd zero positive
      · exact absurd overruns inside
  refine ⟨count, counted, exact_iff, (count_prefix_encode_iff wellFormed.size_le).trans exact_iff, ?_, ?_⟩
  · intro zero
    obtain ⟨positive, -⟩ | ⟨-, empty⟩ | ⟨positive, -⟩ := outcome
    · exact absurd zero positive
    · exact empty
    · exact absurd zero positive
  · intro overruns
    obtain ⟨-, size⟩ | ⟨rfl, rfl⟩ | ⟨-, size, -⟩ := outcome
    · exact absurd overruns (wellFormed.not_overruns size)
    · rfl
    · exact size

/-- The case of a count of three and one wide entry, which takes the two slots that are declared. -/
theorem read_fills_declared_iff_long : ∃ pool stop,
    Pool.read #[0, 3, 5, 0, 0, 0, 0, 0, 0, 0, 7] Cursor.start = .ok pool stop ∧
      (3 : UInt16).toNat = pool.size + 1 := by
  obtain ⟨mark, read⟩ := @read_pushAll_of_stands [.long 7] #[0, 3, 5, 0, 0, 0, 0, 0, 0, 0, 7] Cursor.start
    (by decide) (by decide) (by decide)
  obtain ⟨count, counted, exact_iff, -⟩ := read_fills_declared_iff read
  have three : count = 3 := BigEndian.u2_injective (counted.unique (by decide) (by simp))
  subst three
  refine ⟨_, _, read, exact_iff.mpr ⟨by decide, ?_⟩⟩
  rintro ⟨entry, holds, -⟩
  cases holds

/-- A count of zero is taken for a pool without entries, and a wide entry in the one declared slot for a pool
of two slots; both are written with another count than they were read with. -/
theorem exists_read_beyond_count :
    (∃ stop, Pool.read #[0, 0] Cursor.start = .ok Pool.empty stop) ∧ Pool.empty.encode = [0, 1] ∧
      ∃ pool stop, Pool.read #[0, 2, 5, 0, 0, 0, 0, 0, 0, 0, 7] Cursor.start = .ok pool stop ∧
        pool.size = 2 ∧ pool.encode = [0, 3, 5, 0, 0, 0, 0, 0, 0, 0, 7] := by
  refine ⟨⟨Cursor.start.forward 2, ?_⟩, rfl, Pool.empty.push (.long 7), ⟨11, 2⟩, ?_, rfl, by decide⟩
  · refine Reader.bind_eq_ok_iff.mpr ⟨0, _, Reader.u2_eq_ok_iff.mpr ⟨by decide, rfl⟩, ?_⟩
    rw [readInto, if_neg (by decide)]
    rfl
  · refine Reader.bind_eq_ok_iff.mpr ⟨2, _, Reader.u2_eq_ok_iff.mpr ⟨by decide, rfl⟩, ?_⟩
    rw [readInto, if_pos (by decide)]
    refine Reader.bind_eq_ok_iff.mpr ⟨.long 7, _, Entry.read_of_stands (by decide) (by decide), ?_⟩
    have accepted : Pool.empty.refusal? (.long 7) = none := rfl
    simp only [accepted]
    rw [readInto, if_neg (by decide)]
    rfl

end JvmCode.Pool
