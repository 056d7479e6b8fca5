import JvmCode.Proofs.Stands

/-! # The spellings that a reader accepts

A reader that only looks at the bytes in front of it is described by a relation between values and
byte lists: it gives a value exactly when a spelling of the value stands where it starts, and then it
has moved behind that spelling.

* **`Reader.Spells`** says that a relation describes a reader.
* `Spells.bind` and the lemmas beside it derive the relation of a reader from those of its parts.
* **`Joined`** spells a list of items one behind the other; `Spells.sequence` reads one. -/

namespace JvmCode

/-- A relation between values and their byte forms. -/
abbrev Spelling (α : Type) := α → List UInt8 → Prop

/-- A list of items is spelled by the spellings of the items in order. -/
def Joined {α : Type} (spelling : Spelling α) : Spelling (List α)
  | [], content => content = []
  | item :: rest, content =>
      ∃ first others, spelling item first ∧ Joined spelling rest others ∧ content = first ++ others

namespace Reader

variable {α β : Type}

/-- A reader gives a value exactly when a spelling of the value stands where it starts. -/
def Spells (reader : Reader α) (spelling : Spelling α) : Prop :=
  ∀ ⦃bytes : Array UInt8⦄ ⦃start : Cursor⦄, start.position ≤ bytes.size → ∀ value stop,
    (reader bytes start = .ok value stop ↔
      ∃ content, spelling value content ∧ Stands bytes start.position content ∧
        stop = start.forward content.length)

namespace Spells

variable {reader : Reader α} {spelling spelling' : Spelling α}

/-- Equivalent relations describe the same readers. -/
theorem congr (h : Spells reader spelling) (same : ∀ value content,
    spelling value content ↔ spelling' value content) : Spells reader spelling' := by
  intro bytes start inside value stop
  rw [h inside]
  simp only [same]

/-- What stands at a place is spelled in one way. -/
theorem unique (h : Spells reader spelling) {bytes : Array UInt8} {position : Nat} {a b : α}
    {first second : List UInt8} (spelled : spelling a first) (stands : Stands bytes position first)
    (spelled' : spelling b second) (stands' : Stands bytes position second) : a = b ∧ first = second := by
  have read : reader bytes (.startingAt position) = .ok a _ :=
    (h stands.1 _ _).mpr ⟨first, spelled, stands, rfl⟩
  have read' : reader bytes (.startingAt position) = .ok b _ :=
    (h stands.1 _ _).mpr ⟨second, spelled', stands', rfl⟩
  rw [read, EStateM.Result.ok.injEq] at read'
  obtain ⟨same, stop⟩ := read'
  have length : first.length = second.length := Nat.add_left_cancel (congrArg Cursor.position stop)
  exact ⟨same, stands.unique stands' length⟩

/-- A reader whose relation gives one byte list for each value, of a fixed length. -/
theorem of_stands {encode : α → List UInt8} {width : Nat} (size : ∀ value, (encode value).length = width)
    (h : ∀ {bytes start value stop}, reader bytes start = .ok value stop ↔
      Stands bytes start.position (encode value) ∧ stop = start.forward width) :
    Spells reader fun value content => content = encode value := by
  intro bytes start inside value stop
  rw [h]
  constructor
  · rintro ⟨stands, rfl⟩
    exact ⟨_, rfl, stands, by rw [size]⟩
  · rintro ⟨content, rfl, stands, rfl⟩
    exact ⟨stands, by rw [size]⟩

/-- An unsigned byte is spelled by itself. -/
theorem u1 : Spells u1 fun value content => content = [value] :=
  of_stands (fun _ => rfl) u1_eq_ok_iff

/-- An unsigned 16-bit word is spelled by its two bytes. -/
theorem u2 : Spells u2 fun value content => content = BigEndian.u2 value :=
  of_stands BigEndian.length_u2 u2_eq_ok_iff

/-- An unsigned 32-bit word is spelled by its four bytes. -/
theorem u4 : Spells u4 fun value content => content = BigEndian.u4 value :=
  of_stands BigEndian.length_u4 u4_eq_ok_iff

/-- An unsigned 64-bit word is spelled by its eight bytes. -/
theorem u8 : Spells u8 fun value content => content = BigEndian.u8 value :=
  of_stands BigEndian.length_u8 u8_eq_ok_iff

/-- A signed byte is spelled by its two's complement. -/
theorem i1 : Spells i1 fun value content => content = [value.toUInt8] :=
  of_stands (fun _ => rfl) i1_eq_ok_iff

/-- A signed 16-bit word is spelled by its two bytes. -/
theorem i2 : Spells i2 fun value content => content = BigEndian.i2 value :=
  of_stands BigEndian.length_i2 i2_eq_ok_iff

/-- A signed 32-bit word is spelled by its four bytes. -/
theorem i4 : Spells i4 fun value content => content = BigEndian.i4 value :=
  of_stands BigEndian.length_i4 i4_eq_ok_iff

/-- A signed 64-bit word is spelled by its eight bytes. -/
theorem i8 : Spells i8 fun value content => content = BigEndian.i8 value :=
  of_stands BigEndian.length_i8 i8_eq_ok_iff

/-- Bytes that are taken spell themselves. -/
theorem take (count : Nat) :
    Spells (take count) fun taken content => taken.toList = content ∧ content.length = count := by
  intro bytes start inside taken stop
  rw [take_eq_ok_iff_stands]
  constructor
  · rintro ⟨rfl, stands, rfl⟩
    exact ⟨taken.toList, ⟨rfl, Array.length_toList⟩, stands, by rw [Array.length_toList]⟩
  · rintro ⟨content, ⟨rfl, rfl⟩, stands, rfl⟩
    exact ⟨Array.length_toList.symm, stands, rfl⟩

/-- Bytes that are passed over may be any. -/
theorem skip (count : Nat) : Spells (skip count) fun _ content => content.length = count := by
  intro bytes start inside value stop
  rw [skip_eq_ok_iff]
  constructor
  · rintro ⟨content, rfl, stands, rfl⟩
    exact ⟨content, rfl, stands, rfl⟩
  · rintro ⟨content, rfl, stands, rfl⟩
    exact ⟨content, rfl, stands, rfl⟩

/-- A value given without reading is spelled by nothing. -/
theorem pure (a : α) : Spells (Pure.pure a) fun value content => value = a ∧ content = [] := by
  intro bytes start inside value stop
  rw [pure_eq_ok_iff]
  constructor
  · rintro ⟨rfl, rfl⟩
    exact ⟨[], ⟨rfl, rfl⟩, Stands.nil_iff.mpr inside, rfl⟩
  · rintro ⟨content, ⟨rfl, rfl⟩, -, rfl⟩
    exact ⟨rfl, rfl⟩

/-- Nothing spells what is never given. -/
theorem fail (fault : Fault) : Spells (fail fault : Reader α) fun _ _ => False := by
  intro bytes start inside value stop
  simp [fail_eq_ok_iff]

/-- Nothing spells what is never given. -/
theorem failAtMark (what : Malformation) :
    Spells (failAtMark what : Reader α) fun _ _ => False := by
  intro bytes start inside value stop
  simp [failAtMark_eq_ok_iff]

/-- What is looked up is spelled by nothing. -/
theorem ofPool (result : Except PoolFault α) :
    Spells (ofPool result) fun value content => result = .ok value ∧ content = [] := by
  intro bytes start inside value stop
  rw [ofPool_eq_ok_iff]
  constructor
  · rintro ⟨found, rfl⟩
    exact ⟨[], ⟨found, rfl⟩, Stands.nil_iff.mpr inside, rfl⟩
  · rintro ⟨content, ⟨found, rfl⟩, -, rfl⟩
    exact ⟨found, rfl⟩

/-- What is read off other bytes is spelled by nothing here: its spelling is the front of those. -/
theorem within (h : Spells reader spelling) (inner : Array UInt8) :
    Spells (Reader.within inner reader) fun value content =>
      (∃ front, spelling value front ∧ front <+: inner.toList) ∧ content = [] := by
  intro bytes start inside value stop
  rw [within_eq_ok_iff]
  constructor
  · rintro ⟨⟨behind, read⟩, rfl⟩
    obtain ⟨front, spelled, stands, -⟩ := (h (Nat.zero_le _) _ _).mp read
    exact ⟨[], ⟨⟨front, spelled, stands.2⟩, rfl⟩, Stands.nil_iff.mpr inside, rfl⟩
  · rintro ⟨content, ⟨⟨front, spelled, leading⟩, rfl⟩, -, rfl⟩
    exact ⟨⟨_, (h (Nat.zero_le _) _ _).mpr ⟨front, spelled, ⟨Nat.zero_le _, leading⟩, rfl⟩⟩, rfl⟩

/-- What two readers give in turn is spelled by the two spellings in turn. -/
theorem bind {next : α → Reader β} {nextSpelling : α → Spelling β} (first : Spells reader spelling)
    (second : ∀ a, Spells (next a) (nextSpelling a)) :
    Spells (reader >>= next) fun value content =>
      ∃ a before after, spelling a before ∧ nextSpelling a value after ∧
        content = before ++ after := by
  -- The second reader starts where the first stopped, which is inside the bytes since content stood there.
  intro bytes start inside value stop
  rw [bind_eq_ok_iff]
  constructor
  · rintro ⟨a, middle, h₁, h₂⟩
    obtain ⟨before, spelled, stands, rfl⟩ := (first inside a middle).mp h₁
    obtain ⟨after, spelled', stands', rfl⟩ := (second a stands.le_size value stop).mp h₂
    refine ⟨before ++ after, ⟨a, before, after, spelled, spelled', rfl⟩,
      Stands.append_iff.mpr ⟨stands, stands'⟩, ?_⟩
    rw [Cursor.forward_forward, List.length_append]
  · rintro ⟨content, ⟨a, before, after, spelled, spelled', rfl⟩, stands, rfl⟩
    obtain ⟨stands, stands'⟩ := Stands.append_iff.mp stands
    refine ⟨a, start.forward before.length, (first inside _ _).mpr ⟨before, spelled, stands, rfl⟩, ?_⟩
    refine (second a stands.le_size _ _).mpr ⟨after, spelled', stands', ?_⟩
    rw [Cursor.forward_forward, List.length_append]

/-- What a reader gives is spelled like the value it was made from. -/
theorem map (h : Spells reader spelling) (make : α → β) :
    Spells (reader >>= fun a => Pure.pure (make a)) fun value content =>
      ∃ a, value = make a ∧ spelling a content := by
  refine (h.bind fun a => pure (make a)).congr fun value content => ?_
  constructor
  · rintro ⟨a, before, after, spelled, ⟨rfl, rfl⟩, rfl⟩
    exact ⟨a, rfl, by rw [List.append_nil]; exact spelled⟩
  · rintro ⟨a, rfl, spelled⟩
    exact ⟨a, content, [], spelled, ⟨rfl, rfl⟩, by rw [List.append_nil]⟩

/-- A reader that decides between two. -/
theorem ite {condition : Prop} [Decidable condition] {yes no : Reader α}
    (h : Spells yes spelling) (h' : Spells no spelling') :
    Spells (if condition then yes else no) fun value content =>
      if condition then spelling value content else spelling' value content := by
  by_cases holds : condition
  · simp only [if_pos holds]
    exact h
  · simp only [if_neg holds]
    exact h'

/-- Items that are read behind others are spelled one behind the other. -/
theorem repeatInto (h : Spells reader spelling) (count : Nat) (items : Array α) :
    Spells (repeatInto reader count items) fun value content =>
      ∃ added, value = items ++ added.toArray ∧ added.length = count ∧
        Joined spelling added content := by
  -- The items read before are general, because each round puts one more behind them.
  induction count generalizing items with
  | zero =>
      refine (pure items).congr fun value content => ?_
      constructor
      · rintro ⟨rfl, rfl⟩
        exact ⟨[], by simp, rfl, rfl⟩
      · rintro ⟨added, rfl, none, joined⟩
        rw [List.eq_nil_of_length_eq_zero none] at joined ⊢
        exact ⟨by simp, joined⟩
  | succ count ih =>
      refine (h.bind fun item => ih (items.push item)).congr fun value content => ?_
      constructor
      · rintro ⟨item, before, after, spelled, ⟨added, rfl, size, joined⟩, rfl⟩
        refine ⟨item :: added, ?_, by rw [List.length_cons, size], before, after, spelled, joined, rfl⟩
        simp
      · rintro ⟨added, rfl, size, joined⟩
        obtain _ | ⟨item, rest⟩ := added
        · simp at size
        obtain ⟨before, after, spelled, joined, rfl⟩ := joined
        refine ⟨item, before, after, spelled, ⟨rest, ?_, by simpa using size, joined⟩, rfl⟩
        simp

/-- Items are spelled one behind the other. -/
theorem sequence (h : Spells reader spelling) (count : Nat) :
    Spells (sequence reader count) fun value content =>
      value.size = count ∧ Joined spelling value.toList content := by
  refine (h.repeatInto count #[]).congr fun value content => ?_
  constructor
  · rintro ⟨added, rfl, rfl, joined⟩
    simpa using joined
  · rintro ⟨rfl, joined⟩
    exact ⟨value.toList, by simp, by simp, joined⟩

end Spells

end Reader

end JvmCode
