import JvmCode.Assembler.Finish
import JvmCode.Proofs.Instruction.Encoding

/-! # Patching code in place

Code under way has zero bytes where offsets wait for their labels. Once the labels have places, filling
the offsets in gives the bytes that encoding the same chunks with those places would have given, whether
an offset was written at once or later.

* **`Assembler.Resolves`** says what code becomes when its patches are applied.
* `resolves_append_code_iff` and `resolves_append_hole_iff`: one more chunk of either sort.
* `resolves_emit_iff`: emitting an instruction and patching it later is encoding it. -/

namespace JvmCode

namespace Buffer

/-- What stands at a place of a buffer that was overwritten. -/
theorem getElem?_overwrite (buffer : Array UInt8) (start : Nat) (bytes : List UInt8) (place : Nat) :
    (overwrite buffer start bytes)[place]? =
      if start ≤ place ∧ place < start + bytes.length ∧ place < buffer.size then bytes[place - start]?
      else buffer[place]? := by
  induction bytes generalizing buffer start with
  | nil =>
      rw [overwrite, if_neg]
      rintro ⟨lower, upper, -⟩
      rw [List.length_nil] at upper
      omega
  | cons byte rest ih =>
      rw [overwrite, ih, Array.getElem?_setIfInBounds, Array.size_setIfInBounds, List.length_cons]
      -- The first byte is written here; the others are written behind it, and do not touch it again.
      by_cases first : place = start
      · subst first
        rw [if_neg (by omega), if_pos rfl, Nat.sub_self]
        by_cases inside : place < buffer.size
        · rw [if_pos inside, if_pos ⟨Nat.le_refl _, by omega, inside⟩, List.getElem?_cons_zero]
        · rw [if_neg inside, if_neg (by omega), Array.getElem?_eq_none (by omega)]
      · by_cases covered : start + 1 ≤ place ∧ place < start + 1 + rest.length ∧ place < buffer.size
        · rw [if_pos covered, if_pos (by omega)]
          rw [show place - start = (place - (start + 1)) + 1 by omega, List.getElem?_cons_succ]
        · rw [if_neg covered, if_neg (fun same => first same.symm), if_neg (by omega)]

/-- Bytes outside the new ones stay. -/
theorem getElem?_overwrite_of_outside {start place : Nat} {bytes : List UInt8}
    (outside : place < start ∨ start + bytes.length ≤ place) (buffer : Array UInt8) :
    (overwrite buffer start bytes)[place]? = buffer[place]? := by
  rw [getElem?_overwrite, if_neg (by omega)]

/-- Overwriting the first of two buffers leaves the second alone. -/
theorem overwrite_append_left {first : Array UInt8} {start : Nat} {bytes : List UInt8}
    (inside : start + bytes.length ≤ first.size) (second : Array UInt8) :
    overwrite (first ++ second) start bytes = overwrite first start bytes ++ second := by
  apply Array.ext_getElem?
  intro place
  rw [getElem?_overwrite, Array.getElem?_append, Array.getElem?_append, size_overwrite,
    getElem?_overwrite, Array.size_append]
  by_cases before : place < first.size
  · rw [if_pos before, if_pos before]
    by_cases covered : start ≤ place ∧ place < start + bytes.length
    · rw [if_pos (by omega), if_pos (by omega)]
    · rw [if_neg (by omega), if_neg (by omega)]
  · rw [if_neg before, if_neg before, if_neg (by omega)]

/-- Overwriting all of the second of two buffers replaces it. -/
theorem overwrite_append_right {first second : Array UInt8} {bytes : List UInt8}
    (size : second.size = bytes.length) :
    overwrite (first ++ second) first.size bytes = first ++ bytes.toArray := by
  apply Array.ext_getElem?
  intro place
  rw [getElem?_overwrite, Array.getElem?_append, Array.getElem?_append, Array.size_append, size]
  by_cases before : place < first.size
  · rw [if_pos before, if_pos before, if_neg (by omega)]
  · rw [if_neg before, if_neg before]
    by_cases covered : place < first.size + bytes.length
    · rw [if_pos (by omega), List.getElem?_toArray]
    · rw [if_neg (by omega), Array.getElem?_eq_none (by omega), Array.getElem?_eq_none]
      rw [List.size_toArray]
      omega

end Buffer

/-! ## Offset operands -/

namespace Chunk

/-- The offsets among chunks of the instruction at `bci`, the first of which stands at `position`. -/
def holes (bci : Nat) : Nat → List Chunk → List Patch
  | _, [] => []
  | position, .bytes content :: rest => holes bci (position + content.length) rest
  | position, .offset far target :: rest =>
      ⟨target, bci, position, far⟩ :: holes bci (position + offsetWidth far) rest

variable {bci position : Nat} {patch : Patch} {chunks : List Chunk}

/-- The offsets behind the first chunk are offsets. -/
theorem holes_subset_cons (chunk : Chunk) (mem : patch ∈ holes bci (position + chunk.size) chunks) :
    patch ∈ holes bci position (chunk :: chunks) := by
  cases chunk with
  | bytes content => exact mem
  | offset far target => exact List.mem_cons_of_mem _ mem

/-- Offsets lie inside their chunks. -/
theorem bounds_of_mem_holes (mem : patch ∈ holes bci position chunks) :
    position ≤ patch.position ∧
      patch.position + offsetWidth patch.far ≤ position + total chunks := by
  induction chunks generalizing position with
  | nil => cases mem
  | cons chunk rest ih =>
      -- The bounds of the rest are taken from where the rest starts, so the position is general.
      rw [total_cons]
      cases chunk with
      | bytes content =>
          obtain ⟨lower, upper⟩ := ih mem
          rw [size]
          omega
      | offset far target =>
          obtain rfl | mem := List.mem_cons.mp mem
          · simp only [size]
            omega
          · obtain ⟨lower, upper⟩ := ih mem
            rw [size]
            omega

end Chunk

/-- The offset operands of an instruction at `bci`, as patches for all of them. -/
def Instruction.offsets (bci : Nat) (i : Instruction) : List Patch :=
  Chunk.holes bci bci (i.template bci)

namespace Assembler

variable {place : Label → Option Nat} {code result : Array UInt8} {patches : List Patch}

/-- A patch lies inside code of a given size. -/
def Within (size : Nat) (patch : Patch) : Prop := patch.position + offsetWidth patch.far ≤ size

/-- An offset is filled in exactly when it can be encoded. -/
theorem applyPatch_eq_ok_iff {patch : Patch} : applyPatch place code patch = .ok result ↔
    ∃ content, (Chunk.offset patch.far patch.target).fill place patch.bci = .ok content ∧
      result = Buffer.overwrite code patch.position content := by
  unfold applyPatch
  simp only [Chunk.fill_offset_eq_ok_iff]
  cases placed : place patch.target with
  | none => simp
  | some position =>
      simp only [Outcome.bind_eq_ok_iff, Outcome.pure_eq_ok_iff, branchOffset_eq_ok_iff]
      constructor
      · rintro ⟨offset, ⟨fits, rfl⟩, rfl⟩
        exact ⟨_, ⟨position, rfl, fits, rfl⟩, rfl⟩
      · rintro ⟨_, ⟨position, ⟨⟩, fits, rfl⟩, rfl⟩
        exact ⟨_, ⟨fits, rfl⟩, rfl⟩

/-- Code becomes `result` when its patches are applied in order. -/
def Resolves (place : Label → Option Nat) (patches : List Patch) (code result : Array UInt8) : Prop :=
  patches.foldlM (applyPatch place) code = .ok result

/-- Code without patches stays as it is. -/
theorem resolves_nil_iff : Resolves place [] code result ↔ result = code := by
  rw [Resolves, List.foldlM_nil, Outcome.pure_eq_ok_iff, eq_comm]

/-- Patches are applied one after the other. -/
theorem resolves_cons_iff {patch : Patch} : Resolves place (patch :: patches) code result ↔
    ∃ content, (Chunk.offset patch.far patch.target).fill place patch.bci = .ok content ∧
      Resolves place patches (Buffer.overwrite code patch.position content) result := by
  rw [Resolves, List.foldlM_cons, Outcome.bind_eq_ok_iff]
  simp only [applyPatch_eq_ok_iff]
  constructor
  · rintro ⟨_, ⟨content, filled, rfl⟩, rest⟩
    exact ⟨content, filled, rest⟩
  · rintro ⟨content, filled, rest⟩
    exact ⟨_, ⟨content, filled, rfl⟩, rest⟩

/-- More patches are applied to what the first ones give. -/
theorem resolves_append_iff {more : List Patch} : Resolves place (patches ++ more) code result ↔
    ∃ middle, Resolves place patches code middle ∧ Resolves place more middle result := by
  rw [Resolves, List.foldlM_append, Outcome.bind_eq_ok_iff]
  rfl

/-- Applying patches keeps the size of the code. -/
theorem Resolves.size_eq (h : Resolves place patches code result) : result.size = code.size := by
  induction patches generalizing code with
  | nil => rw [resolves_nil_iff.mp h]
  | cons patch rest ih =>
      obtain ⟨content, -, others⟩ := resolves_cons_iff.mp h
      rw [ih others, Buffer.size_overwrite]

/-- Bytes behind the code are not touched by its patches. -/
theorem resolves_append_code_iff (within : ∀ patch ∈ patches, Within code.size patch)
    (bytes : Array UInt8) : Resolves place patches (code ++ bytes) result ↔
      ∃ before, Resolves place patches code before ∧ result = before ++ bytes := by
  induction patches generalizing code with
  | nil => simp only [resolves_nil_iff, exists_eq_left]
  | cons patch rest ih =>
      -- Every patch writes inside the code, so the bytes behind can be taken out of each write in turn.
      have step : ∀ content, (Chunk.offset patch.far patch.target).fill place patch.bci = .ok content →
          (Resolves place rest (Buffer.overwrite (code ++ bytes) patch.position content) result ↔
            ∃ before, Resolves place rest (Buffer.overwrite code patch.position content) before ∧
              result = before ++ bytes) := by
        intro content filled
        have inside := within patch List.mem_cons_self
        rw [Within, ← Chunk.size, ← Chunk.length_of_fill filled] at inside
        rw [Buffer.overwrite_append_left inside]
        refine ih fun other mem => ?_
        rw [Buffer.size_overwrite]
        exact within other (List.mem_cons_of_mem _ mem)
      simp only [resolves_cons_iff]
      constructor
      · rintro ⟨content, filled, others⟩
        obtain ⟨before, resolved, rfl⟩ := (step content filled).mp others
        exact ⟨before, ⟨content, filled, resolved⟩, rfl⟩
      · rintro ⟨before, ⟨content, filled, resolved⟩, rfl⟩
        exact ⟨content, filled, (step content filled).mpr ⟨before, resolved, rfl⟩⟩

/-- A hole behind the code, with its patch, becomes the offset that belongs there. -/
theorem resolves_append_hole_iff (within : ∀ patch ∈ patches, Within code.size patch) {hole : Array UInt8}
    {patch : Patch} (wide : hole.size = offsetWidth patch.far) (behind : patch.position = code.size) :
    Resolves place (patches ++ [patch]) (code ++ hole) result ↔
      ∃ before content, Resolves place patches code before ∧
        (Chunk.offset patch.far patch.target).fill place patch.bci = .ok content ∧
        result = before ++ content.toArray := by
  simp only [resolves_append_iff, resolves_append_code_iff within, resolves_cons_iff, resolves_nil_iff]
  -- The last patch covers exactly the hole, which the earlier patches have left alone.
  have filledIn : ∀ {before : Array UInt8} {content : List UInt8},
      Resolves place patches code before →
      (Chunk.offset patch.far patch.target).fill place patch.bci = .ok content →
      Buffer.overwrite (before ++ hole) patch.position content = before ++ content.toArray := by
    intro before content resolved filled
    rw [behind, ← resolved.size_eq]
    exact Buffer.overwrite_append_right (wide.trans (Chunk.length_of_fill filled).symm)
  constructor
  · rintro ⟨_, ⟨before, resolved, rfl⟩, content, filled, rfl⟩
    exact ⟨before, content, resolved, filled, filledIn resolved filled⟩
  · rintro ⟨before, content, resolved, filled, rfl⟩
    exact ⟨_, ⟨before, resolved, rfl⟩, content, filled, (filledIn resolved filled).symm⟩

/-! ## Emission -/

/-- One place map has every label that another has, at the same position. -/
def Refines (finer coarser : Label → Option Nat) : Prop :=
  ∀ label position, coarser label = some position → finer label = some position

variable {final : Label → Option Nat} {bci : Nat} {emission after : Emission}

/-- The bytes of a list behind those of an array. -/
theorem append_toArray (bytes : Array UInt8) (content : List UInt8) :
    bytes ++ content.toArray = bytes ++ content := by
  apply Array.toList_inj.mp
  rw [Array.toList_append, Array.toList_appendList]

/-- What emitting one chunk does: its bytes are written at once, or a hole with a patch is left. -/
theorem emitChunk_cases {chunk : Chunk} (h : emitChunk place bci emission chunk = .ok after) :
    (∃ content, chunk.fill place bci = .ok content ∧
      after = ⟨emission.bytes ++ content.toArray, emission.patches⟩) ∨
    (∃ far target, chunk = .offset far target ∧ place target = none ∧
      after = ⟨emission.bytes ++ Array.replicate (offsetWidth far) 0,
        emission.patches.push ⟨target, bci, bci + emission.bytes.size, far⟩⟩) := by
  cases chunk with
  | bytes content =>
      cases h
      exact .inl ⟨content, rfl, by rw [append_toArray]⟩
  | offset far target =>
      rw [emitChunk] at h
      cases placed : place target with
      | none =>
          simp only [placed] at h
          cases h
          refine .inr ⟨far, target, rfl, placed, ?_⟩
          rw [← append_toArray, List.toArray_replicate]
      | some position =>
          simp only [placed] at h
          obtain ⟨offset, fits, h⟩ := Outcome.bind_eq_ok_iff.mp h
          obtain rfl := Outcome.pure_eq_ok_iff.mp h
          refine .inl ⟨offsetBytes far offset, ?_, by rw [append_toArray]⟩
          rw [Chunk.fill, placed]
          exact Outcome.bind_eq_ok_iff.mpr ⟨offset, fits, rfl⟩

/-- What is filled with some labels placed is filled the same with more labels placed. -/
theorem fill_of_refines (finer : Refines final place) {chunk : Chunk} {content : List UInt8}
    (h : chunk.fill place bci = .ok content) : chunk.fill final bci = .ok content := by
  cases chunk with
  | bytes fixed => exact h
  | offset far target =>
      obtain ⟨position, placed, rest⟩ := Chunk.fill_offset_eq_ok_iff.mp h
      exact Chunk.fill_offset_eq_ok_iff.mpr ⟨position, finer target position placed, rest⟩

/-- Patches inside code are inside longer code. -/
theorem Within.mono {size larger : Nat} {patch : Patch} (h : Within size patch) (le : size ≤ larger) :
    Within larger patch :=
  Nat.le_trans h le

/-- The patches of code to which an emission is added lie inside that code. -/
def Contained (code : Array UInt8) (patches : List Patch) (emission : Emission) : Prop :=
  ∀ patch ∈ patches ++ emission.patches.toList, Within (code ++ emission.bytes).size patch

/-- Emitting a chunk keeps the patches inside the code. -/
theorem Contained.emitChunk {chunk : Chunk} (contained : Contained code patches emission)
    (behind : bci = code.size) (h : emitChunk place bci emission chunk = .ok after) :
    Contained code patches after := by
  intro patch mem
  obtain ⟨content, -, rfl⟩ | ⟨far, target, -, -, rfl⟩ := emitChunk_cases h
  · refine (contained patch mem).mono ?_
    simp only [Array.size_append]
    omega
  · rw [Array.toList_push, ← List.append_assoc, List.mem_append, List.mem_singleton] at mem
    obtain mem | rfl := mem
    · refine (contained patch mem).mono ?_
      simp only [Array.size_append]
      omega
    · simp only [Within, behind, Array.size_append, Array.size_replicate]
      omega

/-- Emitting a chunk and patching later is filling the chunk with all labels placed. -/
theorem resolves_emitChunk_iff {chunk : Chunk} (finer : Refines final place)
    (contained : Contained code patches emission) (behind : bci = code.size)
    (h : emitChunk place bci emission chunk = .ok after) :
    Resolves final (patches ++ after.patches.toList) (code ++ after.bytes) result ↔
      ∃ before content,
        Resolves final (patches ++ emission.patches.toList) (code ++ emission.bytes) before ∧
        chunk.fill final bci = .ok content ∧ result = before ++ content.toArray := by
  obtain ⟨content, filled, rfl⟩ | ⟨far, target, rfl, -, rfl⟩ := emitChunk_cases h
  -- A label that was known is known for good: the bytes are already the final ones.
  · have always := fill_of_refines finer filled
    rw [← Array.append_assoc, resolves_append_code_iff contained]
    constructor
    · rintro ⟨before, resolved, rfl⟩
      exact ⟨before, content, resolved, always, rfl⟩
    · rintro ⟨before, other, resolved, same, rfl⟩
      rw [always, Except.ok.injEq] at same
      exact ⟨before, resolved, by rw [same]⟩
  -- Otherwise a hole was left for the patch that was recorded with it.
  · rw [Array.toList_push, ← List.append_assoc, ← Array.append_assoc]
    refine resolves_append_hole_iff contained Array.size_replicate ?_
    rw [behind, Array.size_append]

/-- Emitting chunks and patching later is filling them with all labels placed. -/
theorem resolves_emitChunks_iff {chunks : List Chunk} (finer : Refines final place)
    (contained : Contained code patches emission) (behind : bci = code.size)
    (h : chunks.foldlM (emitChunk place bci) emission = .ok after) :
    Resolves final (patches ++ after.patches.toList) (code ++ after.bytes) result ↔
      ∃ before content,
        Resolves final (patches ++ emission.patches.toList) (code ++ emission.bytes) before ∧
        Chunk.fillAll final bci chunks = .ok content ∧ result = before ++ content.toArray := by
  induction chunks generalizing emission with
  | nil =>
      obtain rfl := Outcome.pure_eq_ok_iff.mp h
      constructor
      · intro resolved
        exact ⟨result, [], resolved, rfl, by simp⟩
      · rintro ⟨before, _, resolved, ⟨⟩, rfl⟩
        simpa using resolved
  | cons chunk rest ih =>
      rw [List.foldlM_cons] at h
      obtain ⟨middle, first, others⟩ := Outcome.bind_eq_ok_iff.mp h
      -- Peel off the later chunks first: the induction is on what is still to be emitted.
      rw [ih (contained.emitChunk behind first) others]
      simp only [resolves_emitChunk_iff finer contained behind first, Chunk.fillAll_cons_eq_ok_iff]
      constructor
      · rintro ⟨_, tail, ⟨before, head, resolved, filled, rfl⟩, filledTail, rfl⟩
        exact ⟨before, head ++ tail, resolved, ⟨head, tail, filled, filledTail, rfl⟩, by simp⟩
      · rintro ⟨before, _, resolved, ⟨head, tail, filled, filledTail, rfl⟩, rfl⟩
        exact ⟨_, tail, ⟨before, head, resolved, filled, rfl⟩, filledTail, by simp⟩

/-- Emitting an instruction behind code and patching later is encoding it with all labels placed. -/
theorem resolves_emit_iff {i : Instruction} (finer : Refines final place)
    (within : ∀ patch ∈ patches, Within code.size patch)
    (h : i.emit place code.size = .ok emission) :
    Resolves final (patches ++ emission.patches.toList) (code ++ emission.bytes) result ↔
      ∃ before content, Resolves final patches code before ∧
        i.encode final code.size = .ok content ∧ result = before ++ content.toArray := by
  have contained : Contained code patches ⟨#[], #[]⟩ := by
    intro patch mem
    rw [List.append_nil] at mem
    exact within patch mem
  have emitted := @resolves_emitChunks_iff place code result patches final code.size ⟨#[], #[]⟩ emission
    (i.template code.size) finer contained rfl h
  simp only [List.append_nil, Array.append_empty] at emitted
  exact emitted

/-- Emitted chunks take their bytes, and leave no other patches than for their offsets. -/
theorem of_emitChunks {chunks : List Chunk}
    (h : chunks.foldlM (emitChunk place bci) emission = .ok after) :
    after.bytes.size = emission.bytes.size + Chunk.total chunks ∧
      ∀ patch ∈ after.patches, patch ∈ emission.patches ∨
        patch ∈ Chunk.holes bci (bci + emission.bytes.size) chunks := by
  induction chunks generalizing emission with
  | nil =>
      obtain rfl := Outcome.pure_eq_ok_iff.mp h
      exact ⟨rfl, fun patch mem => .inl mem⟩
  | cons chunk rest ih =>
      rw [List.foldlM_cons] at h
      obtain ⟨middle, first, others⟩ := Outcome.bind_eq_ok_iff.mp h
      obtain ⟨size, patched⟩ := ih others
      -- A chunk is written at once, or it leaves a hole and one patch.
      obtain ⟨content, filled, rfl⟩ | ⟨far, target, rfl, -, rfl⟩ := emitChunk_cases first
      · have wide := Chunk.length_of_fill filled
        simp only [Array.size_append, List.size_toArray, wide] at size patched
        refine ⟨by rw [size, Chunk.total_cons]; omega, fun patch mem => ?_⟩
        obtain mem | mem := patched patch mem
        · exact .inl mem
        · rw [← Nat.add_assoc] at mem
          exact .inr (Chunk.holes_subset_cons chunk mem)
      · simp only [Array.size_append, Array.size_replicate, Array.mem_push] at size patched
        refine ⟨by rw [size, Chunk.total_cons, Chunk.size]; omega, fun patch mem => ?_⟩
        obtain (mem | rfl) | mem := patched patch mem
        · exact .inl mem
        · exact .inr List.mem_cons_self
        · rw [← Nat.add_assoc] at mem
          exact .inr (Chunk.holes_subset_cons (.offset far target) mem)

/-- An emitted instruction takes its bytes, and leaves no other patches than for its offsets. -/
theorem of_emit {i : Instruction} (h : i.emit place bci = .ok emission) :
    emission.bytes.size = Chunk.total (i.template bci) ∧
      ∀ patch ∈ emission.patches, patch ∈ i.offsets bci := by
  obtain ⟨size, patched⟩ := of_emitChunks h
  refine ⟨size.trans (Nat.zero_add _), fun patch mem => ?_⟩
  obtain mem | mem := patched patch mem
  · cases Array.not_mem_empty _ mem
  · exact mem

/-- An instruction that fits is emitted in as many bytes as its size. -/
theorem size_of_emit {i : Instruction} (fits : i.Fits) (h : i.emit place bci = .ok emission) :
    emission.bytes.size = i.size bci := by
  rw [(of_emit h).1, fits.total_template]

/-- An instruction is emitted if it can be encoded with all labels placed. -/
theorem emit_of_encode {i : Instruction} (finer : Refines final place) {content : List UInt8}
    (h : i.encode final bci = .ok content) : ∃ emission, i.emit place bci = .ok emission := by
  -- Emission is a fold, so the statement is about any emission that chunks are added to.
  suffices chunks : ∀ (chunks : List Chunk) (content : List UInt8) (emission : Emission),
      Chunk.fillAll final bci chunks = .ok content →
      ∃ after, chunks.foldlM (emitChunk place bci) emission = .ok after from chunks _ content _ h
  intro chunks
  induction chunks with
  | nil =>
      intro content emission _
      exact ⟨emission, rfl⟩
  | cons chunk rest ih =>
      intro content emission filled
      obtain ⟨first, others, filledFirst, filledOthers, rfl⟩ := Chunk.fillAll_cons_eq_ok_iff.mp filled
      have head : ∃ middle, emitChunk place bci emission chunk = .ok middle := by
        cases chunk with
        | bytes fixed => exact ⟨_, rfl⟩
        | offset far target =>
            obtain ⟨position, placed, fits, -⟩ := Chunk.fill_offset_eq_ok_iff.mp filledFirst
            rw [emitChunk]
            cases known : place target with
            | none => exact ⟨_, rfl⟩
            | some earlier =>
                have same := finer target earlier known
                rw [placed, Option.some.injEq] at same
                exact ⟨_, Outcome.bind_eq_ok_iff.mpr
                  ⟨_, branchOffset_eq_ok_iff.mpr ⟨same ▸ fits, rfl⟩, rfl⟩⟩
      obtain ⟨middle, emitted⟩ := head
      obtain ⟨after, rest⟩ := ih others middle filledOthers
      refine ⟨after, ?_⟩
      rw [List.foldlM_cons]
      exact Outcome.bind_eq_ok_iff.mpr ⟨middle, emitted, rest⟩

end Assembler

end JvmCode
