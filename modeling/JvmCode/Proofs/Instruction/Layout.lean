import JvmCode.Proofs.Instruction.Encoding
import JvmCode.Proofs.Stands
import JvmCode.Traversal.Scan

/-! # Where instructions start

Instructions that stand one behind the other, by their sizes.

* **`Instruction.endOf`** is the position behind instructions.
* **`Instruction.located`** gives each instruction the position where it starts; positions ascend.
* **`Instruction.Starts`** and **`Instruction.Boundary`** are the positions where one of them starts,
  and those where one starts or all end.
* `assemble_append_eq_ok_iff`: assembled code is that of the first instructions and that of the others
  behind it.
* `stands_of_assemble`: in assembled code every instruction is encoded where it starts. -/

namespace JvmCode

namespace Instruction

/-- The position behind instructions, the first of which starts at `bci`. -/
def endOf : Nat → List Instruction → Nat
  | bci, [] => bci
  | bci, i :: rest => endOf (bci + i.size bci) rest

/-- Instructions with the positions where they start, the first at `bci`. -/
def located : Nat → List Instruction → List (Nat × Instruction)
  | _, [] => []
  | bci, i :: rest => (bci, i) :: located (bci + i.size bci) rest

/-- Every instruction takes a byte at least. -/
theorem size_pos (i : Instruction) (bci : Nat) : 0 < i.size bci := by
  unfold size
  split
  · omega
  · omega
  · exact fixedSize?_getD_pos i.opcode

/-- The position behind no instruction is the position itself. -/
@[simp] theorem endOf_nil (bci : Nat) : endOf bci [] = bci := rfl

/-- The position behind two sequences is found in turn. -/
theorem endOf_append (bci : Nat) (first second : List Instruction) :
    endOf bci (first ++ second) = endOf (endOf bci first) second := by
  induction first generalizing bci with
  | nil => rfl
  | cons i rest ih => exact ih _

/-- The position behind one more instruction. -/
theorem endOf_concat (bci : Nat) (is : List Instruction) (i : Instruction) :
    endOf bci (is ++ [i]) = endOf bci is + i.size (endOf bci is) := by
  rw [endOf_append]
  rfl

/-- Instructions end behind where they start. -/
theorem le_endOf (bci : Nat) (is : List Instruction) : bci ≤ endOf bci is := by
  induction is generalizing bci with
  | nil => exact Nat.le_refl _
  | cons i rest ih => exact Nat.le_trans (Nat.le_add_right _ _) (ih _)

/-- The positions of two sequences are found in turn. -/
theorem located_append (bci : Nat) (first second : List Instruction) :
    located bci (first ++ second) = located bci first ++ located (endOf bci first) second := by
  induction first generalizing bci with
  | nil => rfl
  | cons i rest ih => exact congrArg _ (ih _)

/-- Positions apart, the instructions stay what they are. -/
@[simp] theorem map_snd_located (bci : Nat) (is : List Instruction) :
    (located bci is).map Prod.snd = is := by
  induction is generalizing bci with
  | nil => rfl
  | cons i rest ih => rw [located, List.map_cons, ih]

/-- An instruction lies between the first position and the last. -/
theorem bounds_of_mem_located {bci start : Nat} {is : List Instruction} {i : Instruction}
    (mem : (start, i) ∈ located bci is) : bci ≤ start ∧ start + i.size start ≤ endOf bci is := by
  induction is generalizing bci with
  | nil => cases mem
  | cons first rest ih =>
      obtain same | mem := List.mem_cons.mp mem
      · cases same
        exact ⟨Nat.le_refl _, le_endOf _ rest⟩
      · obtain ⟨lower, upper⟩ := ih mem
        exact ⟨Nat.le_trans (Nat.le_add_right _ _) lower, upper⟩

/-- Instructions start at ascending positions. -/
theorem pairwise_located (bci : Nat) (is : List Instruction) :
    (located bci is).Pairwise fun first second => first.1 < second.1 := by
  induction is generalizing bci with
  | nil => exact List.Pairwise.nil
  | cons i rest ih =>
      refine List.Pairwise.cons ?_ (ih _)
      rintro ⟨start, other⟩ mem
      have lower := (bounds_of_mem_located mem).1
      have positive := i.size_pos bci
      change bci < start
      omega

/-- Every position of instructions belongs to one of them. -/
theorem exists_located_of_lt {bci position : Nat} {is : List Instruction} (lower : bci ≤ position)
    (upper : position < endOf bci is) :
    ∃ start i, (start, i) ∈ located bci is ∧ start ≤ position ∧ position < start + i.size start := by
  induction is generalizing bci with
  | nil => exact absurd upper (Nat.not_lt.mpr lower)
  | cons i rest ih =>
      by_cases here : position < bci + i.size bci
      · exact ⟨bci, i, List.mem_cons_self .., lower, here⟩
      · obtain ⟨start, other, mem, bounds⟩ := ih (Nat.not_lt.mp here) upper
        exact ⟨start, other, List.mem_cons_of_mem _ mem, bounds⟩

/-- One of the instructions starts at a position. -/
def Starts (is : List Instruction) (position : Nat) : Prop := ∃ i, (position, i) ∈ located 0 is

/-- Instructions start in front of where they end. -/
theorem Starts.lt_endOf {is : List Instruction} {position : Nat} (h : Starts is position) :
    position < endOf 0 is := by
  obtain ⟨i, mem⟩ := h
  have upper := (bounds_of_mem_located mem).2
  have positive := i.size_pos position
  omega

/-- One of the instructions starts at a position, the first of them at `bci`, or all end there. -/
def Boundary (bci : Nat) (is : List Instruction) (position : Nat) : Prop :=
  (∃ i, (position, i) ∈ located bci is) ∨ position = endOf bci is

/-- The boundaries of one instruction and others are its own start and those of the others. -/
theorem boundary_cons_iff {bci position : Nat} {i : Instruction} {rest : List Instruction} :
    Boundary bci (i :: rest) position ↔ position = bci ∨ Boundary (bci + i.size bci) rest position := by
  unfold Boundary
  rw [located, endOf]
  simp only [List.mem_cons, Prod.mk.injEq]
  constructor
  · rintro (⟨other, ⟨rfl, rfl⟩ | mem⟩ | ends)
    · exact .inl rfl
    · exact .inr (.inl ⟨other, mem⟩)
    · exact .inr (.inr ends)
  · rintro (rfl | ⟨other, mem⟩ | ends)
    · exact .inl ⟨i, .inl ⟨rfl, rfl⟩⟩
    · exact .inl ⟨other, .inr mem⟩
    · exact .inr ends

/-- Instructions have a boundary where they begin. -/
theorem boundary_self (bci : Nat) (is : List Instruction) : Boundary bci is bci := by
  cases is with
  | nil => exact .inr rfl
  | cons i rest => exact boundary_cons_iff.mpr (.inl rfl)

/-- A boundary lies between the first position and the last. -/
theorem Boundary.bounds {bci position : Nat} {is : List Instruction} (h : Boundary bci is position) :
    bci ≤ position ∧ position ≤ endOf bci is := by
  obtain ⟨i, mem⟩ | rfl := h
  · have := bounds_of_mem_located mem
    omega
  · exact ⟨le_endOf bci is, Nat.le_refl _⟩

/-- At a boundary in front of the end, an instruction starts. -/
theorem Boundary.starts {position : Nat} {is : List Instruction} (h : Boundary 0 is position)
    (inside : position < endOf 0 is) : Starts is position :=
  h.resolve_right (Nat.ne_of_lt inside)

end Instruction

/-- Assembled code is the first encoding and the assembled rest. -/
theorem assemble_cons_eq_ok_iff {place : Label → Option Nat} {bci : Nat} {i : Instruction}
    {rest : List Instruction} {content : List UInt8} :
    assemble place bci (i :: rest) = .ok content ↔
      ∃ first others, i.encode place bci = .ok first ∧
        assemble place (bci + i.size bci) rest = .ok others ∧ content = first ++ others := by
  simp only [assemble, Outcome.bind_eq_ok_iff, Outcome.pure_eq_ok_iff]
  constructor
  · rintro ⟨first, h₁, others, h₂, rfl⟩
    exact ⟨first, others, h₁, h₂, rfl⟩
  · rintro ⟨first, others, h₁, h₂, rfl⟩
    exact ⟨first, h₁, others, h₂, rfl⟩

/-- The assembled code of one instruction is its encoding. -/
theorem assemble_singleton_eq_ok_iff {place : Label → Option Nat} {bci : Nat} {i : Instruction}
    {content : List UInt8} :
    assemble place bci [i] = .ok content ↔ i.encode place bci = .ok content := by
  rw [assemble_cons_eq_ok_iff]
  constructor
  · rintro ⟨first, _, encoded, ⟨⟩, rfl⟩
    rw [List.append_nil]
    exact encoded
  · intro encoded
    exact ⟨content, [], encoded, rfl, (List.append_nil _).symm⟩

/-- Assembled code ends where its instructions end. -/
theorem length_assemble {place : Label → Option Nat} {bci : Nat} {is : List Instruction}
    {content : List UInt8} (fit : ∀ i ∈ is, i.Fits) (h : assemble place bci is = .ok content) :
    bci + content.length = Instruction.endOf bci is := by
  induction is generalizing bci content with
  | nil =>
      rw [assemble, Except.ok.injEq] at h
      rw [← h]
      rfl
  | cons i rest ih =>
      obtain ⟨first, others, h₁, h₂, rfl⟩ := assemble_cons_eq_ok_iff.mp h
      have size := (fit i List.mem_cons_self).length_encode h₁
      have tail := ih (fun i mem => fit i (List.mem_cons_of_mem _ mem)) h₂
      rw [Instruction.endOf, ← tail, List.length_append, size, Nat.add_assoc]

/-- Code assembled of two sequences is the code of one and then of the other. -/
theorem assemble_append_eq_ok_iff {place : Label → Option Nat} {bci : Nat}
    {first second : List Instruction} {content : List UInt8} :
    assemble place bci (first ++ second) = .ok content ↔
      ∃ before after, assemble place bci first = .ok before ∧
        assemble place (Instruction.endOf bci first) second = .ok after ∧
        content = before ++ after := by
  induction first generalizing bci content with
  | nil =>
      rw [List.nil_append]
      constructor
      · intro h
        exact ⟨[], content, rfl, h, rfl⟩
      · rintro ⟨_, after, ⟨⟩, h, rfl⟩
        exact h
  | cons i rest ih =>
      rw [List.cons_append]
      simp only [assemble_cons_eq_ok_iff, ih]
      constructor
      · rintro ⟨head, _, h₁, ⟨before, after, h₂, h₃, rfl⟩, rfl⟩
        exact ⟨head ++ before, after, ⟨head, before, h₁, h₂, rfl⟩, h₃, (List.append_assoc ..).symm⟩
      · rintro ⟨_, after, ⟨head, before, h₁, h₂, rfl⟩, h₃, rfl⟩
        exact ⟨head, before ++ after, h₁, ⟨before, after, h₂, h₃, rfl⟩, List.append_assoc ..⟩

/-- In assembled code every instruction is encoded where it starts. -/
theorem stands_of_assemble {place : Label → Option Nat} {code : Array UInt8} {bci : Nat}
    {is : List Instruction} {content : List UInt8} (fits : ∀ i ∈ is, i.Fits)
    (assembled : assemble place bci is = .ok content) (stands : Stands code bci content) {start : Nat}
    {i : Instruction} (mem : (start, i) ∈ Instruction.located bci is) :
    ∃ bytes, i.encode place start = .ok bytes ∧ Stands code start bytes := by
  induction is generalizing bci content with
  | nil => cases mem
  | cons other rest ih =>
      obtain ⟨first, others, encoded, tail, rfl⟩ := assemble_cons_eq_ok_iff.mp assembled
      obtain ⟨here, behind⟩ := Stands.append_iff.mp stands
      rw [(fits other List.mem_cons_self).length_encode encoded] at behind
      obtain same | mem := List.mem_cons.mp mem
      · cases same
        exact ⟨first, encoded, here⟩
      · exact ih (fun i mem => fits i (List.mem_cons_of_mem _ mem)) tail behind mem

end JvmCode
