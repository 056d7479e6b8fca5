import JvmCode.Proofs.Instruction.Reading
import JvmCode.Proofs.Pool.Growth

/-! # Resolving while a pool grows

A symbol that was resolved stays what it is while the pool grows, and what was added can be resolved.

* **`Resolver.Extends`** says that one way to find entries finds all that another finds.
* `Instruction.Found.mono`: the symbols of an instruction stay found.
* `Pool.Sound.loadable_of_internConstant`: a constant that was added is resolved to itself. -/

namespace JvmCode

namespace Resolver

/-- Whatever is found by the one is found by the other. -/
def Extends (larger smaller : Resolver) : Prop :=
  ∀ index entry, smaller.entry index = .ok entry → larger.entry index = .ok entry

variable {smaller larger : Resolver} {index : UInt16}

/-- A text stays. -/
theorem Extends.text (grown : larger.Extends smaller) {value : String}
    (h : smaller.text index = .ok value) : larger.text index = .ok value := by
  obtain ⟨entry, found, h⟩ := Outcome.bind_eq_ok_iff.mp h
  exact Outcome.bind_eq_ok_iff.mpr ⟨entry, grown index entry found, h⟩

/-- A class stays. -/
theorem Extends.classRef (grown : larger.Extends smaller) {ref : ClassRef}
    (h : smaller.classRef index = .ok ref) : larger.classRef index = .ok ref := by
  obtain ⟨entry, found, h⟩ := Outcome.bind_eq_ok_iff.mp h
  refine Outcome.bind_eq_ok_iff.mpr ⟨entry, grown index entry found, ?_⟩
  split at h
  · obtain ⟨value, text, h⟩ := Outcome.bind_eq_ok_iff.mp h
    exact Outcome.bind_eq_ok_iff.mpr ⟨value, grown.text text, h⟩
  · cases h

/-- A name with a descriptor stays. -/
theorem Extends.nameAndType (grown : larger.Extends smaller) {pair : String × String}
    (h : smaller.nameAndType index = .ok pair) : larger.nameAndType index = .ok pair := by
  obtain ⟨entry, found, h⟩ := Outcome.bind_eq_ok_iff.mp h
  refine Outcome.bind_eq_ok_iff.mpr ⟨entry, grown index entry found, ?_⟩
  split at h
  · obtain ⟨name, foundName, h⟩ := Outcome.bind_eq_ok_iff.mp h
    obtain ⟨descriptor, foundDescriptor, h⟩ := Outcome.bind_eq_ok_iff.mp h
    exact Outcome.bind_eq_ok_iff.mpr ⟨name, grown.text foundName,
      Outcome.bind_eq_ok_iff.mpr ⟨descriptor, grown.text foundDescriptor, h⟩⟩
  · cases h

/-- A member stays. -/
theorem Extends.memberRef (grown : larger.Extends smaller) {ref : MemberRef}
    (h : smaller.memberRef index = .ok ref) : larger.memberRef index = .ok ref := by
  obtain ⟨entry, found, h⟩ := Outcome.bind_eq_ok_iff.mp h
  refine Outcome.bind_eq_ok_iff.mpr ⟨entry, grown index entry found, ?_⟩
  split at h
  · obtain ⟨pair, named, h⟩ := Outcome.bind_eq_ok_iff.mp h
    obtain ⟨owner, owned, h⟩ := Outcome.bind_eq_ok_iff.mp h
    exact Outcome.bind_eq_ok_iff.mpr ⟨pair, grown.nameAndType named,
      Outcome.bind_eq_ok_iff.mpr ⟨owner, grown.classRef owned, h⟩⟩
  · cases h

/-- A call site stays. -/
theorem Extends.callSite (grown : larger.Extends smaller) {site : CallSite}
    (h : smaller.callSite index = .ok site) : larger.callSite index = .ok site := by
  obtain ⟨entry, found, h⟩ := Outcome.bind_eq_ok_iff.mp h
  refine Outcome.bind_eq_ok_iff.mpr ⟨entry, grown index entry found, ?_⟩
  split at h
  · obtain ⟨pair, named, h⟩ := Outcome.bind_eq_ok_iff.mp h
    exact Outcome.bind_eq_ok_iff.mpr ⟨pair, grown.nameAndType named, h⟩
  · cases h

/-- The value of an entry stays. -/
theorem Extends.constantOf (grown : larger.Extends smaller) {entry : Entry} {value : Constant}
    (h : smaller.constantOf index entry = .ok value) :
    larger.constantOf index entry = .ok value := by
  cases entry with
  | integer | float | long | double => exact h
  | string | classRef | methodType =>
      obtain ⟨text, found, h⟩ := Outcome.bind_eq_ok_iff.mp h
      exact Outcome.bind_eq_ok_iff.mpr ⟨text, grown.text found, h⟩
  | methodHandle =>
      obtain ⟨ref, found, h⟩ := Outcome.bind_eq_ok_iff.mp h
      exact Outcome.bind_eq_ok_iff.mpr ⟨ref, grown.memberRef found, h⟩
  | dynamic =>
      obtain ⟨pair, found, h⟩ := Outcome.bind_eq_ok_iff.mp h
      exact Outcome.bind_eq_ok_iff.mpr ⟨pair, grown.nameAndType found, h⟩
  | _ => cases h

/-- A constant stays. -/
theorem Extends.loadable (grown : larger.Extends smaller) {loaded : Loadable}
    (h : smaller.loadable index = .ok loaded) : larger.loadable index = .ok loaded := by
  obtain ⟨entry, found, h⟩ := Outcome.bind_eq_ok_iff.mp h
  obtain ⟨value, valued, h⟩ := Outcome.bind_eq_ok_iff.mp h
  exact Outcome.bind_eq_ok_iff.mpr ⟨entry, grown index entry found,
    Outcome.bind_eq_ok_iff.mpr ⟨value, grown.constantOf valued, h⟩⟩

/-- Every index that is resolved by the one, as whatever it is, is resolved to the same by the other. -/
structure Keeps (larger smaller : Resolver) : Prop where
  /-- Entries stay. -/
  entry : ∀ index entry, smaller.entry index = .ok entry → larger.entry index = .ok entry
  /-- Texts stay. -/
  text : ∀ index value, smaller.text index = .ok value → larger.text index = .ok value
  /-- Classes stay. -/
  classRef : ∀ index ref, smaller.classRef index = .ok ref → larger.classRef index = .ok ref
  /-- Names with descriptors stay. -/
  nameAndType : ∀ index pair, smaller.nameAndType index = .ok pair → larger.nameAndType index = .ok pair
  /-- Members stay. -/
  memberRef : ∀ index ref, smaller.memberRef index = .ok ref → larger.memberRef index = .ok ref
  /-- Constants stay. -/
  loadable : ∀ index loaded, smaller.loadable index = .ok loaded → larger.loadable index = .ok loaded
  /-- Call sites stay. -/
  callSite : ∀ index site, smaller.callSite index = .ok site → larger.callSite index = .ok site

/-- Where all entries stay, all that is resolved stays. -/
theorem Extends.keeps (grown : larger.Extends smaller) : larger.Keeps smaller where
  entry := grown
  text _ _ := grown.text
  classRef _ _ := grown.classRef
  nameAndType _ _ := grown.nameAndType
  memberRef _ _ := grown.memberRef
  loadable _ _ := grown.loadable
  callSite _ _ := grown.callSite

end Resolver

/-- The symbols of an instruction stay found. -/
theorem Instruction.Found.mono {smaller larger : Resolver} (grown : larger.Extends smaller)
    {i : Instruction} (h : i.Found smaller) : i.Found larger := by
  obtain ⟨opcode, operands⟩ := i
  change operands.Found smaller opcode at h
  change operands.Found larger opcode
  cases operands with
  | constant loaded =>
      obtain ⟨other, found, wide, same⟩ := Resolver.constantOperand_eq_ok_iff.mp h
      exact Resolver.constantOperand_eq_ok_iff.mpr ⟨other, grown.loadable found, wide, same⟩
  | field ref kind =>
      obtain ⟨other, kind, found, rest⟩ := Resolver.fieldOperand_eq_ok_iff.mp h
      exact Resolver.fieldOperand_eq_ok_iff.mpr ⟨other, kind, grown.memberRef found, rest⟩
  | method ref count result =>
      obtain ⟨other, descriptor, found, rest⟩ := Resolver.methodOperand_eq_ok_iff.mp h
      exact Resolver.methodOperand_eq_ok_iff.mpr ⟨other, descriptor, grown.memberRef found, rest⟩
  | callSite site result =>
      obtain ⟨other, descriptor, found, rest⟩ := Resolver.callSiteOperand_eq_ok_iff.mp h
      exact Resolver.callSiteOperand_eq_ok_iff.mpr ⟨other, descriptor, grown.callSite found, rest⟩
  | classRef ref => exact grown.classRef h
  | arrayClass ref dimensions => exact grown.classRef h
  | _ => trivial

namespace Pool

variable {pool after : Pool} {index : UInt16}

/-- An entry is found exactly when its index holds it. -/
theorem resolver_entry_eq_ok_iff {entry : Entry} :
    pool.resolver.entry index = .ok entry ↔ pool.get? index = some entry := by
  change pool.get index = _ ↔ _
  unfold get
  cases pool.get? index <;> simp

/-- What a pool grows to finds all that the pool finds. -/
theorem Grows.extends (h : pool.Grows after) : after.resolver.Extends pool.resolver := by
  intro index entry found
  rw [resolver_entry_eq_ok_iff] at found ⊢
  exact h.get?_eq_some found

/-- Index 0 names no class. -/
theorem index_ne_zero_of_classRef {index : UInt16} {ref : ClassRef}
    (found : pool.resolver.classRef index = .ok ref) : index ≠ 0 := by
  rintro rfl
  obtain ⟨entry, entered, -⟩ := Outcome.bind_eq_ok_iff.mp found
  have none : pool.get? 0 = none := if_pos rfl
  rw [resolver_entry_eq_ok_iff, none] at entered
  cases entered

/-- A text is resolved exactly where an index holds it. -/
theorem text_eq_ok_iff {value : String} :
    pool.resolver.text index = .ok value ↔ pool.get? index = some (.text value) := by
  rw [Resolver.text, Outcome.bind_eq_ok_iff]
  simp only [resolver_entry_eq_ok_iff]
  constructor
  · rintro ⟨entry, found, h⟩
    split at h
    · cases h
      exact found
    · cases h
  · intro found
    exact ⟨_, found, rfl⟩

/-- An entry that was added is found. -/
theorem Sound.entry_of_intern (sound : pool.Sound) {entry : Entry}
    (h : Pool.intern entry pool = .ok index after) : after.resolver.entry index = .ok entry :=
  resolver_entry_eq_ok_iff.mpr (sound.get?_of_intern h)

/-- A text that was added is resolved. -/
theorem Sound.text_of_internText (sound : pool.Sound) {value : String}
    (h : internText value pool = .ok index after) : after.resolver.text index = .ok value :=
  text_eq_ok_iff.mpr (sound.get?_of_intern h)

/-- A text and an entry that refers to it are found when both were added in turn. -/
theorem Sound.text_of_interns (sound : pool.Sound) {value : String} {entry : UInt16 → Entry}
    (h : (internText value >>= fun text => Pool.intern (entry text)) pool = .ok index after) :
    ∃ text, after.resolver.entry index = .ok (entry text) ∧ after.resolver.text text = .ok value := by
  obtain ⟨text, middle, first, second⟩ := Interning.bind_eq_ok_iff.mp h
  have grown := (Interning.Grows.intern _).of_ok first
  have grown' := (Interning.Grows.intern _).of_ok second
  exact ⟨text, (grown.sound sound).entry_of_intern second,
    grown'.extends.text (sound.text_of_internText first)⟩

/-- A name with a descriptor that was added is resolved. -/
theorem Sound.nameAndType_of_intern (sound : pool.Sound) {name descriptor : String}
    (h : internNameAndType name descriptor pool = .ok index after) :
    after.resolver.nameAndType index = .ok (name, descriptor) := by
  obtain ⟨named, second, first, h⟩ := Interning.bind_eq_ok_iff.mp h
  have grown := (Interning.Grows.intern _).of_ok first
  have rest : Interning.Grows (do
      let descriptor ← internText descriptor
      Pool.intern (.nameAndType named descriptor)) :=
    (Interning.Grows.intern _).bind fun _ => Interning.Grows.intern _
  have foundName := (rest.of_ok h).extends.text (sound.text_of_internText first)
  obtain ⟨described, found, foundDescriptor⟩ := (grown.sound sound).text_of_interns h
  refine Outcome.bind_eq_ok_iff.mpr ⟨_, found, ?_⟩
  exact Outcome.bind_eq_ok_iff.mpr ⟨_, foundName, Outcome.bind_eq_ok_iff.mpr ⟨_, foundDescriptor, rfl⟩⟩

/-- A constant that was added is resolved to itself, if the member that a method handle refers to is
resolved to itself. -/
theorem Sound.loadable_of_internConstant (sound : pool.Sound) {value : Constant}
    (handled : ∀ kind ref, value = .methodHandle kind ref →
      pool.resolver.memberRef ref.index = .ok ref)
    (h : Instruction.internConstant value pool = .ok index after) :
    after.resolver.loadable index = .ok ⟨index, value⟩ := by
  -- The parts of a constant are added before it, and stay what they are while it is added.
  have grown := (Interning.Grows.internConstant value).of_ok h
  cases value with
  | null => cases h
  | integer | float | long | double =>
      exact Outcome.bind_eq_ok_iff.mpr ⟨_, sound.entry_of_intern h, rfl⟩
  | string | classLiteral | methodType =>
      obtain ⟨text, found, resolved⟩ := sound.text_of_interns h
      refine Outcome.bind_eq_ok_iff.mpr ⟨_, found, Outcome.bind_eq_ok_iff.mpr ⟨_, ?_, rfl⟩⟩
      exact Outcome.bind_eq_ok_iff.mpr ⟨_, resolved, rfl⟩
  | methodHandle kind ref =>
      have resolved := grown.extends.memberRef (handled kind ref rfl)
      refine Outcome.bind_eq_ok_iff.mpr ⟨_, sound.entry_of_intern h,
        Outcome.bind_eq_ok_iff.mpr ⟨_, ?_, rfl⟩⟩
      exact Outcome.bind_eq_ok_iff.mpr ⟨_, resolved, rfl⟩
  | dynamic bootstrap name descriptor =>
      obtain ⟨pair, middle, first, second⟩ := Interning.bind_eq_ok_iff.mp h
      have firstGrown := (Interning.Grows.internNameAndType name descriptor).of_ok first
      have secondGrown := (Interning.Grows.intern _).of_ok second
      have resolved := secondGrown.extends.nameAndType (sound.nameAndType_of_intern first)
      refine Outcome.bind_eq_ok_iff.mpr ⟨_, (firstGrown.sound sound).entry_of_intern second,
        Outcome.bind_eq_ok_iff.mpr ⟨_, ?_, rfl⟩⟩
      exact Outcome.bind_eq_ok_iff.mpr ⟨_, resolved, rfl⟩

end Pool

end JvmCode
