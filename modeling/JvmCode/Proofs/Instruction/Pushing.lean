import JvmCode.Proofs.Instruction.Layout
import JvmCode.Proofs.Instruction.PushForms
import JvmCode.Proofs.Pool.Additions
import JvmCode.Proofs.Pool.Distinct

/-! # Pushing a value

Whatever a pool holds, the push that is made of a value pushes that value. It need not be the shortest push that the
pool allows.

* `Instruction.pushOf_faithful`: the push that is made pushes its value, now and when it is made again.
* **`Instruction.Shortest`** says that no push of a value that the checked constructors make is shorter.
* `Instruction.pushOf_shortest_iff`: the push is the shortest, unless one of the first 255 indexes holds the value
  already and it was given an immediate of two bytes or a later index. -/

namespace JvmCode

namespace Instruction

variable {pool after : Pool} {value : Constant} {resolver : Resolver} {opcode : Opcode} {i j : Instruction}

/-- A push of `pushOf` pushes its value. For the instruction `i` that `pushOf value pool` gives, `i.constant? =
some value`, and `i` has a `PushForm`, an operand that its opcode can encode. If it loads from the pool, the pool
has `value` at its index. Made again in the pool that is left, it is the same instruction and the pool stays as
it is. `.null` is pushed by `aconst_null`, without the pool. -/
theorem pushOf_faithful (reachable : pool.Reachable)
    (handled : ∀ kind ref, value = .methodHandle kind ref → ∃ index, pool.resolver.memberRef index = .ok ref)
    (made : pushOf value pool = .ok i after) :
    i.constant? = some value ∧ i.PushForm ∧
      (∀ loaded, i.operands = .constant loaded →
        after.resolver.loadable loaded.index = .ok ⟨loaded.index, value⟩) ∧
      pushOf value after = .ok i after ∧
      ∀ start, pushOf .null start = .ok ⟨.aconstNull, .none⟩ start := by
  have pushed := pushOf_cases made
  refine ⟨pushed.constant?, pushed.form, ?_, Interning.Repeats.pushOf value made .refl, fun _ => rfl⟩
  intro loaded loads
  obtain ⟨found, rfl⟩ := pushed.found reachable.sound handled loads
  exact found

/-- A pool with a static method. -/
def staticMethod : Pool :=
  Pool.empty.pushAll
    [.text "A", .classRef 1, .text "m", .text "()V", .nameAndType 3 4, .member .method 2 5]

/-- The method handle of that method. -/
def staticHandle : Constant := .methodHandle .invokeStatic ⟨6, .method, ⟨2, "A"⟩, "m", "()V"⟩

/-- The push of a method handle is made, and made again. -/
theorem pushOf_faithful_staticHandle : ∃ i after, pushOf staticHandle staticMethod = .ok i after ∧
    i.constant? = some staticHandle ∧ pushOf staticHandle after = .ok i after := by
  have reachable : staticMethod.Reachable := Pool.reachable_pushAll (by decide) (by decide)
  have handled : ∀ kind ref, staticHandle = .methodHandle kind ref →
      ∃ index, staticMethod.resolver.memberRef index = .ok ref := by
    rintro _ _ ⟨⟩
    exact ⟨6, rfl⟩
  obtain ⟨index, after, added⟩ := @Pool.exists_intern staticMethod (.methodHandle .invokeStatic 6)
    (Nat.zero_le _) (by decide)
  have made : pushOf staticHandle staticMethod = .ok _ after :=
    Interning.bind_eq_ok_iff.mpr ⟨index, after, added, rfl⟩
  obtain ⟨pushes, -, -, again, -⟩ := pushOf_faithful reachable handled made
  exact ⟨_, after, made, pushes, again⟩

/-! ## Comparing pushes -/

/-- The pushes that the checked constructors make, of constants that a resolver finds. -/
inductive CheckedPush (resolver : Resolver) : Instruction → Prop where
  /-- A push of a built-in value. -/
  | intrinsic {opcode : Opcode} {i : Instruction} (made : pushIntrinsic opcode = .ok i) : CheckedPush resolver i
  /-- A push of an immediate. -/
  | immediate {opcode : Opcode} {number : Int32} {i : Instruction}
      (made : pushImmediate opcode number = .ok i) : CheckedPush resolver i
  /-- A push of a constant of the pool. -/
  | loaded {index : UInt16} {loaded : Loadable} {opcode : Opcode} {i : Instruction}
      (found : resolver.loadable index = .ok loaded) (made : pushLoaded opcode loaded = .ok i) :
      CheckedPush resolver i

/-- A checked push can be encoded. -/
theorem CheckedPush.form (checked : CheckedPush resolver j) : j.PushForm := by
  cases checked with
  | intrinsic made => exact (pushIntrinsic_eq_ok_iff.mp made).2
  | immediate made => exact (pushImmediate_eq_ok_iff.mp made).2
  | loaded _ made => exact (pushLoaded_eq_ok_iff.mp made).2

/-- The constant of a checked push is found. -/
theorem CheckedPush.found {loaded : Loadable} (checked : CheckedPush resolver ⟨opcode, .constant loaded⟩) :
    resolver.loadable loaded.index = .ok loaded := by
  cases checked with
  | intrinsic made => cases (pushIntrinsic_eq_ok_iff.mp made).1
  | immediate made => cases (pushImmediate_eq_ok_iff.mp made).1
  | loaded found made =>
      cases (pushLoaded_eq_ok_iff.mp made).1
      obtain rfl := Resolver.index_of_loadable found
      exact found

/-- A constant of one slot at an index of one byte has a checked push of two bytes. -/
theorem CheckedPush.near {index : UInt16} (found : resolver.loadable index = .ok ⟨index, value⟩)
    (oneSlot : value.isWide = false) (small : index.toNat ≤ 255) :
    CheckedPush resolver ⟨.ldc, .constant ⟨index, value⟩⟩ :=
  .loaded found (pushLoaded_eq_ok_iff.mpr ⟨rfl, .near oneSlot small⟩)

/-- No checked push of a value is shorter than an instruction. -/
def Shortest (resolver : Resolver) (value : Constant) (i : Instruction) : Prop :=
  ∀ j, CheckedPush resolver j → j.constant? = some value → ∀ bci, i.size bci ≤ j.size bci

/-- A push of a value that no opcode has built in takes two bytes at least. -/
theorem PushForm.two_le_size (form : j.PushForm) (pushes : j.constant? = some value)
    (unbuilt : Opcode.pushing? value = none) (bci : Nat) : 2 ≤ j.size bci := by
  cases form with
  | builtIn => exact absurd pushes (Opcode.intrinsic?_ne_of_pushing? unbuilt _)
  | byte | near => exact Nat.le_refl 2
  | short | far | twoSlots => exact Nat.le_succ 2

/-- If the value is no number of one byte either, it takes three, unless it has one slot and is found at an index of
one byte. -/
theorem CheckedPush.three_le_size (checked : CheckedPush resolver j) (pushes : j.constant? = some value)
    (unbuilt : Opcode.pushing? value = none)
    (large : ∀ number, value = .integer number → ¬(-128 ≤ number.toInt ∧ number.toInt ≤ 127))
    (away : value.isWide = false → ∀ index : UInt16, index.toNat ≤ 255 →
      resolver.loadable index ≠ .ok ⟨index, value⟩) (bci : Nat) : 3 ≤ j.size bci := by
  cases checked.form with
  | builtIn => exact absurd pushes (Opcode.intrinsic?_ne_of_pushing? unbuilt _)
  | byte lower upper =>
      cases pushes
      exact absurd ⟨lower, upper⟩ (large _ rfl)
  | near oneSlot small =>
      cases pushes
      exact absurd checked.found (away oneSlot _ small)
  | short | far | twoSlots => exact Nat.le_refl 3

/-- A push by one of the long forms that have a short one takes three bytes, for a value of one slot. -/
theorem PushForm.size_of_long (form : i.PushForm) (pushes : i.constant? = some value)
    (long : i.opcode = .sipush ∨ i.opcode = .ldcW) : value.isWide = false ∧ ∀ bci, i.size bci = 3 := by
  cases form with
  | builtIn built =>
      obtain rfl | rfl := long
      · cases built
      · cases built
  | byte | near | twoSlots => exact long.elim nofun nofun
  | short =>
      cases pushes
      exact ⟨rfl, fun _ => rfl⟩
  | far oneSlot =>
      cases pushes
      exact ⟨oneSlot, fun _ => rfl⟩

/-- A push that was made is the shortest, unless it took a long form though the value is found at an index of one
byte. -/
theorem Pushed.shortest (pushed : Pushed pool value i after)
    (away : i.opcode = .sipush ∨ i.opcode = .ldcW → ∀ index : UInt16, index.toNat ≤ 255 →
      resolver.loadable index ≠ .ok ⟨index, value⟩) : Shortest resolver value i := by
  intro j checked pushes bci
  cases pushed with
  | @builtIn opcode _ built =>
      obtain ⟨-, size⟩ := opcode.builtIn_of_intrinsic? (by rw [built]; rfl)
      change opcode.fixedSize?.getD 1 ≤ _
      rw [size]
      exact j.size_pos bci
  | byte unbuilt => exact checked.form.two_le_size pushes unbuilt bci
  | @short number unbuilt large =>
      refine checked.three_le_size pushes unbuilt ?_ (fun _ => away (.inl rfl)) bci
      rintro _ ⟨⟩
      exact large
  | @loaded _ index _ unbuilt large =>
      have large' : ∀ number, value = .integer number → ¬(-128 ≤ number.toInt ∧ number.toInt ≤ 127) := by
        rintro number rfl ⟨lower, upper⟩
        exact large number rfl ⟨by omega, by omega⟩
      have three := checked.three_le_size pushes unbuilt large'
      unfold loadOpcode at away ⊢
      split
      · rename_i wide
        exact three (fun oneSlot => by rw [wide] at oneSlot; cases oneSlot) bci
      · rename_i oneSlot
        split
        · exact checked.form.two_le_size pushes unbuilt bci
        · rename_i far
          rw [if_neg oneSlot, if_neg far] at away
          exact three (fun _ => away (.inr rfl)) bci

/-- A push that was made by the long form of a load has an index of two bytes. -/
theorem Pushed.far_of_ldcW (pushed : Pushed pool value i after) (long : i.opcode = .ldcW) :
    ∃ index : UInt16, i.operands = .constant ⟨index, value⟩ ∧ 255 < index.toNat := by
  cases pushed with
  | builtIn built =>
      obtain rfl : _ = Opcode.ldcW := long
      cases built
  | byte | short => cases long
  | @loaded _ index =>
      refine ⟨index, rfl, ?_⟩
      change loadOpcode value index = .ldcW at long
      unfold loadOpcode at long
      split at long
      · cases long
      · split at long
        · cases long
        · rename_i far
          rw [UInt16.le_iff_toNat_le] at far
          exact Nat.lt_of_not_le far

/-- When `pushOf` is `Shortest`. The instruction `i` that `pushOf value pool` gives is the shortest checked push
of `value` exactly when it is no `sipush` or `ldc_w` of a value that `loadable` finds at an index of at most 255.
In a pool to which entries were only ever added, `Pool.empty.Grows pool`, only a `sipush` can fail: no other
index holds the value of an `ldc_w`. -/
theorem pushOf_shortest_iff (made : pushOf value pool = .ok i after) :
    (Shortest after.resolver value i ↔
      (i.opcode = .sipush ∨ i.opcode = .ldcW → ∀ index : UInt16, index.toNat ≤ 255 →
        after.resolver.loadable index ≠ .ok ⟨index, value⟩)) ∧
      (Pool.empty.Grows pool →
        (∀ kind ref, value = .methodHandle kind ref → ∃ index, pool.resolver.memberRef index = .ok ref) →
        i.opcode ≠ .sipush → Shortest after.resolver value i) := by
  have pushed := pushOf_cases made
  refine ⟨⟨?_, pushed.shortest⟩, ?_⟩
  · intro shortest long index small found
    obtain ⟨oneSlot, size⟩ := pushed.form.size_of_long pushed.constant? long
    have shorter : i.size 0 ≤ 2 := shortest _ (.near found oneSlot small) rfl 0
    rw [size 0] at shorter
    exact absurd shorter (by decide)
  · intro added handled plain
    refine pushed.shortest ?_
    rintro (immediate | long) index small found
    · exact plain immediate
    · obtain ⟨other, loads, far⟩ := pushed.far_of_ldcW long
      -- Nothing was read, so the index of two bytes is the only one.
      have grown := added.trans ((Interning.Grows.pushOf value).of_ok made)
      have distinct := grown.distinct .empty .empty
      obtain ⟨found', -⟩ := pushed.found (added.sound .empty) handled loads
      rw [distinct.loadable_inj found found'] at small
      exact Nat.not_lt.mpr small far

/-- A number of two bytes that is not in the pool is pushed by the shortest push. -/
theorem pushOf_shortest_iff_thousand :
    pushOf (.integer 1000) Pool.empty = .ok ⟨.sipush, .immediate 1000⟩ Pool.empty ∧
      Shortest Pool.empty.resolver (.integer 1000) ⟨.sipush, .immediate 1000⟩ := by
  have made : pushOf (.integer 1000) Pool.empty = .ok ⟨.sipush, .immediate 1000⟩ Pool.empty := rfl
  refine ⟨made, (pushOf_shortest_iff made).1.mpr ?_⟩
  intro _ index _ found
  obtain ⟨entry, entered, -⟩ := Resolver.exists_holds_of_loadable found
  rw [Pool.resolver_entry_eq_ok_iff, Pool.get?_empty] at entered
  cases entered

/-- A number of two bytes that is in the pool is pushed by an immediate, though a load would be shorter. -/
theorem exists_shorter_push : ∃ pool i, pool.Reachable ∧ pushOf (.integer 1000) pool = .ok i pool ∧
    ¬Shortest pool.resolver (.integer 1000) i := by
  refine ⟨Pool.empty.pushAll [.integer 1000], ⟨.sipush, .immediate 1000⟩, ?_, rfl, ?_⟩
  · exact Pool.reachable_pushAll (by decide) (by decide)
  · intro shortest
    have near : CheckedPush (Pool.empty.pushAll [.integer 1000]).resolver
        ⟨.ldc, .constant ⟨1, .integer 1000⟩⟩ := .near rfl rfl (by decide)
    have shorter : 3 ≤ 2 := shortest _ near rfl 0
    exact absurd shorter (by decide)

end Instruction

end JvmCode
