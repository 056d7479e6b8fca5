import JvmCode.Proofs.Pool.Resolving

/-! # Pools that hold nothing twice

What is added to a pool is shared, so that a pool to which entries are only ever added holds each of them once. A
pool that is read may hold them as often as its bytes say.

* **`Pool.Distinct`** are the pools that hold nothing twice; `Grows.distinct` says that adding entries keeps a pool
  so.
* **`Resolver.Holds`** are the entries that a constant may be read from.
* `Pool.Distinct.loadable_inj`: in such a pool a constant has one index, though its entry refers to others. -/

namespace JvmCode

namespace Pool

/-- No two indexes hold the same entry. -/
def Distinct (pool : Pool) : Prop :=
  ∀ ⦃first second entry⦄, pool.get? first = some entry → pool.get? second = some entry → first = second

variable {pool after : Pool} {entry : Entry}

/-! ## Adding entries -/

/-- A pool without entries holds nothing twice. -/
theorem Distinct.empty : Pool.empty.Distinct := by
  intro first second entry holds
  rw [get?_empty] at holds
  cases holds

/-- Appending an entry that is nowhere in the pool makes nothing stand twice. -/
theorem Distinct.push (distinct : pool.Distinct) (fresh : ∀ index, pool.get? index ≠ some entry) :
    (pool.push entry).Distinct := by
  intro first second other holds holds'
  rcases get?_push_eq_some_iff.mp holds with ⟨last, rfl⟩ | old
  · rcases get?_push_eq_some_iff.mp holds' with ⟨last', -⟩ | old'
    · exact UInt16.toNat.inj (last.trans last'.symm)
    · exact absurd old' (fresh second)
  · rcases get?_push_eq_some_iff.mp holds' with ⟨-, rfl⟩ | old'
    · exact absurd old (fresh first)
    · exact distinct old old'

/-- Adding an entry makes nothing stand twice. -/
theorem Distinct.intern (distinct : pool.Distinct) (sound : pool.Sound) (entry : Entry) :
    (Interning.after (Pool.intern entry) pool).Distinct := by
  unfold Interning.after
  rcases intern_cases entry pool with ⟨_, -, same⟩ | ⟨-, _, -, same⟩ | ⟨absent, -, same⟩
  · rw [same]
    exact distinct
  · rw [same]
    exact distinct
  · rw [same]
    exact distinct.push (sound.get?_ne_of_indexOf absent)

/-- A pool that holds nothing twice stays so while it grows. -/
theorem Grows.distinct (grown : pool.Grows after) (sound : pool.Sound) (distinct : pool.Distinct) :
    after.Distinct := by
  induction grown with
  | refl => exact distinct
  | intern entry before ih => exact ih.intern (before.sound sound) entry

end Pool

/-! ## Constants -/

namespace Resolver

/-- The entries that a constant may be read from. -/
inductive Holds (resolver : Resolver) : Constant → Entry → Prop where
  /-- An `int`. -/
  | integer (value : Int32) : Holds resolver (.integer value) (.integer value)
  /-- A `float`. -/
  | float (bits : UInt32) : Holds resolver (.float bits) (.float bits)
  /-- A `long`. -/
  | long (value : Int64) : Holds resolver (.long value) (.long value)
  /-- A `double`. -/
  | double (bits : UInt64) : Holds resolver (.double bits) (.double bits)
  /-- A string with its text. -/
  | string {text : UInt16} {value : String} (found : resolver.text text = .ok value) :
      Holds resolver (.string value) (.string text)
  /-- A class with its name. -/
  | classLiteral {text : UInt16} {name : String} (found : resolver.text text = .ok name) :
      Holds resolver (.classLiteral name) (.classRef text)
  /-- A method type with its descriptor. -/
  | methodType {text : UInt16} {descriptor : String} (found : resolver.text text = .ok descriptor) :
      Holds resolver (.methodType descriptor) (.methodType text)
  /-- A method handle with its member. -/
  | methodHandle {kind : HandleKind} {index : UInt16} {ref : MemberRef}
      (found : resolver.memberRef index = .ok ref) :
      Holds resolver (.methodHandle kind ref) (.methodHandle kind index)
  /-- A dynamically computed constant with its name and descriptor. -/
  | dynamic {bootstrap pair : UInt16} {name descriptor : String}
      (found : resolver.nameAndType pair = .ok (name, descriptor)) :
      Holds resolver (.dynamic bootstrap name descriptor) (.dynamic bootstrap pair)

variable {resolver : Resolver} {index : UInt16} {value : Constant}

/-- A constant is read from an entry that may hold it. -/
theorem holds_of_constantOf {entry : Entry} (read : resolver.constantOf index entry = .ok value) :
    resolver.Holds value entry := by
  cases entry with
  | integer | float | long | double =>
      cases read
      constructor
  | string | classRef | methodType =>
      obtain ⟨text, found, read⟩ := Outcome.bind_eq_ok_iff.mp read
      cases read
      constructor
      exact found
  | methodHandle =>
      obtain ⟨ref, found, read⟩ := Outcome.bind_eq_ok_iff.mp read
      cases read
      exact .methodHandle found
  | dynamic =>
      obtain ⟨pair, found, read⟩ := Outcome.bind_eq_ok_iff.mp read
      cases read
      exact .dynamic found
  | _ => cases read

/-- A constant that is found stands in an entry that may hold it. -/
theorem exists_holds_of_loadable (found : resolver.loadable index = .ok ⟨index, value⟩) :
    ∃ entry, resolver.entry index = .ok entry ∧ resolver.Holds value entry := by
  obtain ⟨entry, entered, found⟩ := Outcome.bind_eq_ok_iff.mp found
  obtain ⟨value, read, found⟩ := Outcome.bind_eq_ok_iff.mp found
  cases found
  exact ⟨entry, entered, holds_of_constantOf read⟩

/-- A name with a descriptor is an entry with two texts. -/
theorem texts_of_nameAndType {name descriptor : String}
    (found : resolver.nameAndType index = .ok (name, descriptor)) :
    ∃ first second, resolver.entry index = .ok (.nameAndType first second) ∧
      resolver.text first = .ok name ∧ resolver.text second = .ok descriptor := by
  obtain ⟨entry, entered, found⟩ := Outcome.bind_eq_ok_iff.mp found
  split at found
  · rename_i first second
    obtain ⟨_, named, found⟩ := Outcome.bind_eq_ok_iff.mp found
    obtain ⟨_, described, found⟩ := Outcome.bind_eq_ok_iff.mp found
    cases found
    exact ⟨first, second, entered, named, described⟩
  · cases found

end Resolver

namespace Pool.Distinct

variable {pool : Pool} {first second : UInt16}

/-- A text has one index. -/
theorem text_inj (distinct : pool.Distinct) {value : String} (found : pool.resolver.text first = .ok value)
    (found' : pool.resolver.text second = .ok value) : first = second :=
  distinct (text_eq_ok_iff.mp found) (text_eq_ok_iff.mp found')

/-- A name with a descriptor has one index. -/
theorem nameAndType_inj (distinct : pool.Distinct) {name descriptor : String}
    (found : pool.resolver.nameAndType first = .ok (name, descriptor))
    (found' : pool.resolver.nameAndType second = .ok (name, descriptor)) : first = second := by
  obtain ⟨_, _, entered, named, described⟩ := Resolver.texts_of_nameAndType found
  obtain ⟨_, _, entered', named', described'⟩ := Resolver.texts_of_nameAndType found'
  rw [distinct.text_inj named' named, distinct.text_inj described' described] at entered'
  exact distinct (resolver_entry_eq_ok_iff.mp entered) (resolver_entry_eq_ok_iff.mp entered')

/-- A constant may be read from one entry only. -/
theorem entry_of_holds (distinct : pool.Distinct) {value : Constant} {entry entry' : Entry}
    (holds : pool.resolver.Holds value entry) (holds' : pool.resolver.Holds value entry') : entry = entry' := by
  cases holds with
  | integer | float | long | double =>
      cases holds'
      rfl
  | string found | classLiteral found | methodType found =>
      cases holds' with
      | _ found' => rw [distinct.text_inj found found']
  | methodHandle found =>
      cases holds' with
      | methodHandle found' =>
          -- A member knows its index.
          rw [← Resolver.index_of_memberRef found, ← Resolver.index_of_memberRef found']
  | dynamic found =>
      cases holds' with
      | dynamic found' => rw [distinct.nameAndType_inj found found']

/-- A constant has one index. -/
theorem loadable_inj (distinct : pool.Distinct) {value : Constant}
    (found : pool.resolver.loadable first = .ok ⟨first, value⟩)
    (found' : pool.resolver.loadable second = .ok ⟨second, value⟩) : first = second := by
  obtain ⟨entry, entered, holds⟩ := Resolver.exists_holds_of_loadable found
  obtain ⟨entry', entered', holds'⟩ := Resolver.exists_holds_of_loadable found'
  obtain rfl := distinct.entry_of_holds holds holds'
  exact distinct (resolver_entry_eq_ok_iff.mp entered) (resolver_entry_eq_ok_iff.mp entered')

end Pool.Distinct

end JvmCode
