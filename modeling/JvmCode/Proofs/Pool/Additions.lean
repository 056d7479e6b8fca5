import JvmCode.Proofs.Pool.ByteForm
import JvmCode.Proofs.Pool.Resolving

/-! # What was added to a pool

A symbol is added part by part, and each part may be shared with one that is already there or be a new entry.
Either way the index that comes back names the symbol that was asked for, and asking again changes nothing.

* **`Interning.Repeats`** holds of programs that give the same value again, without adding anything, once they
  have succeeded; `Repeats.bind` makes it compositional.
* **`Pool.Operation.program?`** is the program of an operation that adds, and **`Pool.Operation.Resolved`** says
  that an index is resolved to what the operation was to add.
* `Pool.Reachable.resolved_and_repeated`: both hold of everything that was added to a reachable pool. -/

namespace JvmCode

/-! ## Repeating a program -/

namespace Interning

variable {α β : Type}

/-- Once a program has succeeded, it gives the same value again and adds nothing, however the pool has grown
since. -/
def Repeats (program : Interning α) : Prop :=
  ∀ ⦃pool after later : Pool⦄ ⦃value : α⦄, program pool = .ok value after → after.Grows later →
    program later = .ok value later

/-- An entry that was added stays shared. -/
theorem Repeats.intern (entry : Entry) : Repeats (Pool.intern entry) := by
  intro pool after later index added grown
  have shared := grown.indexOf_eq_some (Pool.indexOf_of_intern added)
  rw [Pool.intern, shared]

/-- Giving a value repeats itself. -/
theorem Repeats.pure (a : α) : Repeats (Pure.pure a) := by
  intro pool after later value given grown
  obtain ⟨rfl, -⟩ := pure_eq_ok_iff.mp given
  rfl

/-- Programs that repeat themselves do so in turn, if the second only adds: what it adds does not disturb the
first. -/
theorem Repeats.bind {program : Interning α} {next : α → Interning β} (first : Repeats program)
    (grows : ∀ a, Grows (next a)) (second : ∀ a, Repeats (next a)) : Repeats (program >>= next) := by
  intro pool after later b added grown
  obtain ⟨a, middle, ran, more⟩ := bind_eq_ok_iff.mp added
  have since : middle.Grows later := ((grows a).of_ok more).trans grown
  exact bind_eq_ok_iff.mpr ⟨a, later, first ran since, second a more grown⟩

/-- Adding a text and an entry that refers to it repeats itself. -/
theorem Repeats.text_intern (value : String) (entry : UInt16 → Entry) :
    Repeats (Pool.internText value >>= fun text => Pool.intern (entry text)) :=
  (Repeats.intern _).bind (fun _ => .intern _) fun _ => .intern _

/-- Adding a name with a descriptor repeats itself. -/
theorem Repeats.internNameAndType (name descriptor : String) :
    Repeats (Pool.internNameAndType name descriptor) :=
  (Repeats.intern _).bind (fun _ => (Grows.intern _).bind fun _ => .intern _) fun _ =>
    .text_intern descriptor _

/-- Adding a name with a descriptor and an entry that refers to them repeats itself. -/
theorem Repeats.nameAndType_intern (name descriptor : String) (entry : UInt16 → Entry) :
    Repeats (Pool.internNameAndType name descriptor >>= fun pair => Pool.intern (entry pair)) :=
  (Repeats.internNameAndType name descriptor).bind (fun _ => .intern _) fun _ => .intern _

/-- Adding a member repeats itself. -/
theorem Repeats.internMember (kind : MemberKind) (owner name descriptor : String) :
    Repeats (Pool.internMember kind owner name descriptor) :=
  (Repeats.text_intern owner _).bind
    (fun _ => (Grows.internNameAndType name descriptor).bind fun _ => .intern _)
    fun _ => .nameAndType_intern name descriptor _

/-- Adding a constant repeats itself. -/
theorem Repeats.internConstant (value : Constant) : Repeats (Instruction.internConstant value) := by
  cases value with
  | null => exact fun _ _ _ _ added => nomatch added
  | integer | float | long | double | methodHandle => exact .intern _
  | string | classLiteral | methodType => exact .text_intern _ _
  | dynamic => exact .nameAndType_intern _ _ _

/-- Pushing a value repeats itself. -/
theorem Repeats.pushOf (value : Constant) : Repeats (Instruction.pushOf value) := by
  unfold Instruction.pushOf
  split
  · exact .pure _
  · split
    · exact .pure _
    · exact (Repeats.internConstant value).bind (fun _ => .pure _) fun _ => .pure _

/-! ## Room for a program -/

/-- A program succeeds in every pool that has so many slots left, and takes no more of them. -/
def TakesAtMost (slots : Nat) (program : Interning α) : Prop :=
  ∀ pool : Pool, pool.size + slots ≤ Pool.maxSize →
    ∃ value after, program pool = .ok value after ∧ after.size ≤ pool.size + slots

/-- An entry with a short text takes the slots of its width. -/
theorem TakesAtMost.intern {entry : Entry} {slots : Nat}
    (short : Pool.textLength entry ≤ Pool.maxTextLength) (width : entry.width = slots) :
    TakesAtMost slots (Pool.intern entry) := by
  intro pool room
  rw [← width] at room ⊢
  obtain ⟨index, after, added⟩ := Pool.exists_intern short room
  exact ⟨index, after, added, Pool.size_le_of_intern added⟩

/-- Programs in turn take the slots of both. -/
theorem TakesAtMost.bind {first second : Nat} {program : Interning α} {next : α → Interning β}
    (takes : TakesAtMost first program) (more : ∀ a, TakesAtMost second (next a)) :
    TakesAtMost (first + second) (program >>= next) := by
  intro pool room
  obtain ⟨a, middle, ran, grown⟩ := takes pool (by omega)
  obtain ⟨b, after, ran', grown'⟩ := more a middle (by omega)
  exact ⟨b, after, bind_eq_ok_iff.mpr ⟨a, middle, ran, ran'⟩, by omega⟩

end Interning

/-! ## Resolving what was added -/

namespace Pool

variable {pool after : Pool} {index : UInt16}

/-- A class that was added is resolved. -/
theorem Sound.classRef_of_intern (sound : pool.Sound) {name : String}
    (h : internClass name pool = .ok index after) : after.resolver.classRef index = .ok ⟨index, name⟩ := by
  obtain ⟨text, found, resolved⟩ := sound.text_of_interns h
  exact Outcome.bind_eq_ok_iff.mpr ⟨_, found, Outcome.bind_eq_ok_iff.mpr ⟨_, resolved, rfl⟩⟩

/-- A name with a descriptor and an entry that refers to them are found when both were added in turn. -/
theorem Sound.nameAndType_of_interns (sound : pool.Sound) {name descriptor : String} {entry : UInt16 → Entry}
    (h : (internNameAndType name descriptor >>= fun pair => Pool.intern (entry pair)) pool = .ok index after) :
    ∃ pair, after.resolver.entry index = .ok (entry pair) ∧
      after.resolver.nameAndType pair = .ok (name, descriptor) := by
  obtain ⟨pair, middle, first, second⟩ := Interning.bind_eq_ok_iff.mp h
  have grown := (Interning.Grows.internNameAndType name descriptor).of_ok first
  have grown' := (Interning.Grows.intern _).of_ok second
  exact ⟨pair, (grown.sound sound).entry_of_intern second,
    grown'.extends.nameAndType (sound.nameAndType_of_intern first)⟩

/-- A call site that was added is resolved. -/
theorem Sound.callSite_of_intern (sound : pool.Sound) {bootstrap : UInt16} {name descriptor : String}
    (h : internCallSite bootstrap name descriptor pool = .ok index after) :
    after.resolver.callSite index = .ok ⟨index, bootstrap, name, descriptor⟩ := by
  obtain ⟨pair, found, resolved⟩ := sound.nameAndType_of_interns h
  exact Outcome.bind_eq_ok_iff.mpr ⟨_, found, Outcome.bind_eq_ok_iff.mpr ⟨_, resolved, rfl⟩⟩

/-- A member that was added is resolved; its class is found wherever the pool shares it. -/
theorem Sound.memberRef_of_intern (sound : pool.Sound) {kind : MemberKind} {owner name descriptor : String}
    (h : internMember kind owner name descriptor pool = .ok index after) :
    ∃ place, after.resolver.memberRef index = .ok ⟨index, kind, ⟨place, owner⟩, name, descriptor⟩ := by
  obtain ⟨place, middle, first, rest⟩ := Interning.bind_eq_ok_iff.mp h
  have grown := (Interning.Grows.internClass owner).of_ok first
  have grown' : middle.Grows after :=
    ((Interning.Grows.internNameAndType name descriptor).bind fun _ => .intern _).of_ok rest
  obtain ⟨pair, found, named⟩ := (grown.sound sound).nameAndType_of_interns rest
  have owned := grown'.extends.classRef (sound.classRef_of_intern first)
  exact ⟨place, Outcome.bind_eq_ok_iff.mpr ⟨_, found, Outcome.bind_eq_ok_iff.mpr ⟨_, named,
    Outcome.bind_eq_ok_iff.mpr ⟨_, owned, rfl⟩⟩⟩⟩

namespace Operation

/-- The program of an operation that adds. Reading takes the place of the pool and adds nothing to it. -/
def program? : Operation → Option (Interning UInt16)
  | .add entry => some (Pool.intern entry)
  | .addText value => some (internText value)
  | .addClass name => some (internClass name)
  | .addString value => some (internString value)
  | .addMethodType descriptor => some (internMethodType descriptor)
  | .addNameAndType name descriptor => some (internNameAndType name descriptor)
  | .addMember kind owner name descriptor => some (internMember kind owner name descriptor)
  | .addInteger value => some (internInteger value)
  | .addFloat bits => some (internFloat bits)
  | .addLong value => some (internLong value)
  | .addDouble bits => some (internDouble bits)
  | .addMethodHandle kind reference => some (internMethodHandle kind reference)
  | .addDynamic bootstrap name descriptor => some (internDynamic bootstrap name descriptor)
  | .addCallSite bootstrap name descriptor => some (internCallSite bootstrap name descriptor)
  | .read _ _ => none

/-- An index is resolved to what an operation was to add. -/
def Resolved (resolver : Resolver) (index : UInt16) : Operation → Prop
  | .add entry => resolver.entry index = .ok entry
  | .addText value => resolver.text index = .ok value
  | .addClass name => resolver.classRef index = .ok ⟨index, name⟩ ∧
      resolver.loadable index = .ok ⟨index, .classLiteral name⟩
  | .addString value => resolver.loadable index = .ok ⟨index, .string value⟩
  | .addMethodType descriptor => resolver.loadable index = .ok ⟨index, .methodType descriptor⟩
  | .addNameAndType name descriptor => resolver.nameAndType index = .ok (name, descriptor)
  -- The class of a member may stand anywhere.
  | .addMember kind owner name descriptor => ∃ place,
      resolver.memberRef index = .ok ⟨index, kind, ⟨place, owner⟩, name, descriptor⟩
  | .addInteger value => resolver.loadable index = .ok ⟨index, .integer value⟩
  | .addFloat bits => resolver.loadable index = .ok ⟨index, .float bits⟩
  | .addLong value => resolver.loadable index = .ok ⟨index, .long value⟩
  | .addDouble bits => resolver.loadable index = .ok ⟨index, .double bits⟩
  -- A method handle is added to whatever its index names, which need not be a member.
  | .addMethodHandle kind reference => ∀ ref, resolver.memberRef reference = .ok ref →
      resolver.loadable index = .ok ⟨index, .methodHandle kind ref⟩
  | .addDynamic bootstrap name descriptor =>
      resolver.loadable index = .ok ⟨index, .dynamic bootstrap name descriptor⟩
  | .addCallSite bootstrap name descriptor =>
      resolver.callSite index = .ok ⟨index, bootstrap, name, descriptor⟩
  | .read _ _ => False

variable {operation : Operation} {program : Interning UInt16}

/-- An operation that adds leaves behind the pool of its program. -/
theorem apply_of_program? (adds : operation.program? = some program) (pool : Pool) :
    operation.apply pool = Interning.after program pool := by
  cases operation <;> cases adds <;> rfl

/-- An operation that adds only adds entries. -/
theorem grows_of_program? (adds : operation.program? = some program) : Interning.Grows program := by
  cases operation <;> cases adds
  case addClass => exact .internClass _
  case addString => exact .internString _
  case addMethodType => exact .internMethodType _
  case addNameAndType => exact .internNameAndType _ _
  case addMember => exact .internMember _ _ _ _
  case addDynamic => exact .internDynamic _ _ _
  case addCallSite => exact .internCallSite _ _ _
  all_goals exact .intern _

/-- An operation that adds repeats itself. -/
theorem repeats_of_program? (adds : operation.program? = some program) : Interning.Repeats program := by
  cases operation <;> cases adds
  case addClass | addString | addMethodType => exact .text_intern _ _
  case addNameAndType => exact .internNameAndType _ _
  case addMember => exact .internMember _ _ _ _
  case addDynamic | addCallSite => exact .nameAndType_intern _ _ _
  all_goals exact .intern _

/-- What an operation added is resolved. -/
theorem resolved_of_program? (sound : pool.Sound) (adds : operation.program? = some program)
    (added : program pool = .ok index after) : operation.Resolved after.resolver index := by
  -- All constants but method handles are added by one program, which resolves them for any value.
  have loadable (value : Constant) (plain : ∀ kind ref, value ≠ .methodHandle kind ref)
      (same : program = Instruction.internConstant value) :
      after.resolver.loadable index = .ok ⟨index, value⟩ :=
    sound.loadable_of_internConstant (fun kind ref h => absurd h (plain kind ref)) (same ▸ added)
  cases operation <;> cases adds
  case add => exact sound.entry_of_intern added
  case addText => exact sound.text_of_internText added
  case addClass name => exact ⟨sound.classRef_of_intern added, loadable (.classLiteral name) (by simp) rfl⟩
  case addString value => exact loadable (.string value) (by simp) rfl
  case addMethodType descriptor => exact loadable (.methodType descriptor) (by simp) rfl
  case addNameAndType => exact sound.nameAndType_of_intern added
  case addMember => exact sound.memberRef_of_intern added
  case addInteger value => exact loadable (.integer value) (by simp) rfl
  case addFloat bits => exact loadable (.float bits) (by simp) rfl
  case addLong value => exact loadable (.long value) (by simp) rfl
  case addDouble bits => exact loadable (.double bits) (by simp) rfl
  case addMethodHandle kind reference =>
    intro ref resolved
    refine Outcome.bind_eq_ok_iff.mpr ⟨_, sound.entry_of_intern added,
      Outcome.bind_eq_ok_iff.mpr ⟨_, ?_, rfl⟩⟩
    exact Outcome.bind_eq_ok_iff.mpr ⟨ref, resolved, rfl⟩
  case addDynamic bootstrap name descriptor => exact loadable (.dynamic bootstrap name descriptor) (by simp) rfl
  case addCallSite => exact sound.callSite_of_intern added

end Operation

/-- What is added is resolved. If an adding `operation` on a `Reachable` pool gives `index`, then
`operation.Resolved` holds there: the resolver of its kind gives back what was added. The same `program` then
gives the same `index` again and leaves the pool as it is. -/
theorem Reachable.resolved_and_repeated (reachable : pool.Reachable) {operation : Operation}
    {program : Interning UInt16} (adds : operation.program? = some program)
    (added : program pool = .ok index after) :
    operation.Resolved after.resolver index ∧ program after = .ok index after :=
  ⟨Operation.resolved_of_program? reachable.sound adds added,
    Operation.repeats_of_program? adds added .refl⟩

/-- A pool that has a text twice, and a class without a name. -/
def doubledText : Pool := Pool.empty.pushAll [.text "x", .text "x", .classRef 9]

/-- A field is added to such a pool, with a class that has the name of the field. -/
theorem resolved_and_repeated_doubledText : ∃ index after,
    internMember .field "x" "x" "I" doubledText = .ok index after ∧
      (∃ place, after.resolver.memberRef index = .ok ⟨index, .field, ⟨place, "x"⟩, "x", "I"⟩) ∧
      internMember .field "x" "x" "I" after = .ok index after := by
  have reachable : doubledText.Reachable := reachable_pushAll (by decide) (by decide)
  have text (value : String) (short : textLength (.text value) ≤ maxTextLength) :
      Interning.TakesAtMost 1 (internText value) := .intern short rfl
  have owner : Interning.TakesAtMost (1 + 1) (internClass "x") :=
    (text "x" (by decide)).bind fun name => .intern (show textLength (.classRef name) ≤ _ from Nat.zero_le _) rfl
  have pair : Interning.TakesAtMost (1 + (1 + 1)) (internNameAndType "x" "I") :=
    (text "x" (by decide)).bind fun name => (text "I" (by decide)).bind fun type =>
      .intern (show textLength (.nameAndType name type) ≤ _ from Nat.zero_le _) rfl
  have takes : Interning.TakesAtMost (1 + 1 + (1 + (1 + 1) + 1)) (internMember .field "x" "x" "I") :=
    owner.bind fun place => pair.bind fun described =>
      .intern (show textLength (.member .field place described) ≤ _ from Nat.zero_le _) rfl
  obtain ⟨index, after, added, -⟩ := takes doubledText (by decide)
  have adds : (Operation.addMember .field "x" "x" "I").program? =
      some (internMember .field "x" "x" "I") := rfl
  exact ⟨index, after, added, reachable.resolved_and_repeated adds added⟩

end Pool

end JvmCode
