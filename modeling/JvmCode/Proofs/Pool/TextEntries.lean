import JvmCode.Proofs.Instruction.Consuming
import JvmCode.Proofs.Pool.ByteForm
import JvmCode.Proofs.TextForms

/-! # Texts that are read into a pool

A text is read behind a 16-bit count of its bytes. It may be written with fewer bytes than it was read from,
never with more, so that a text which was read can always be written.

* **`Reader.FailsWith`** says which faults a reader may end with; `FailsWith.bind` composes it.
* **`Fault.InPool`** are the faults of reading a pool: a text that is too long is not one of them.
* `Entry.content_of_read`: the bytes that a text entry was read from.
* `ModifiedUtf8.decode?_accepts` puts together what decoding accepts and what becomes of it. -/

namespace JvmCode

/-! ## Faults of reading a pool -/

/-- The faults that reading a pool may end with. -/
inductive Fault.InPool : Fault → Prop where
  /-- The bytes end inside an entry. -/
  | truncated (offset : Nat) : InPool (.malformed offset .truncated)
  /-- No kind of entry has the tag. -/
  | unknownTag (tag : UInt8) : InPool (.pool (.unknownTag tag))
  /-- No kind of method handle has the code. -/
  | unknownHandleKind (code : UInt8) : InPool (.pool (.unknownHandleKind code))
  /-- The bytes of a text are no text. -/
  | invalidText : InPool (.pool .invalidText)
  /-- The entries take more slots than there are. -/
  | full : InPool (.pool .full)

namespace Reader

variable {α β : Type} {reader : Reader α} {next : α → Reader β} {allowed : Fault → Prop}

/-- A reader that fails with certain faults only. -/
def FailsWith (reader : Reader α) (allowed : Fault → Prop) : Prop :=
  ∀ ⦃bytes start fault stop⦄, reader bytes start = .error fault stop → allowed fault

namespace FailsWith

/-- A reader that only gives a value does not fail. -/
theorem pure (a : α) : FailsWith (Pure.pure a : Reader α) allowed := by
  intro bytes start fault stop failed
  cases failed

/-- A failing reader fails with its fault. -/
theorem fail {fault : Fault} (may : allowed fault) : FailsWith (fail fault : Reader α) allowed := by
  intro bytes start other stop failed
  cases failed
  exact may

/-- Two readers in turn fail as either of them does, where the second is asked about what the first gave. -/
theorem bind_of_ok (first : FailsWith reader allowed)
    (second : ∀ a, (∃ bytes start stop, reader bytes start = .ok a stop) → FailsWith (next a) allowed) :
    FailsWith (reader >>= next) allowed := by
  intro bytes start fault stop failed
  cases given : reader bytes start with
  | ok a middle =>
      rw [Reader.bind_of_ok given] at failed
      exact second a ⟨bytes, start, middle, given⟩ failed
  | error other middle =>
      rw [Reader.bind_of_error given] at failed
      cases failed
      exact first given

/-- Two readers in turn fail as either of them does. -/
theorem bind (first : FailsWith reader allowed) (second : ∀ a, FailsWith (next a) allowed) :
    FailsWith (reader >>= next) allowed :=
  first.bind_of_ok fun a _ => second a

/-- Taking bytes fails where they end. -/
theorem take (count : Nat) : FailsWith (take count) Fault.InPool := by
  intro bytes start fault stop failed
  unfold Reader.take at failed
  dsimp only at failed
  split at failed
  · cases failed
  · cases failed
    exact .truncated _

/-- Reading a word fails where the bytes end. -/
theorem word (width : Nat) : FailsWith (word width) Fault.InPool :=
  (take width).bind fun _ => pure _

/-- Reading an unsigned byte fails where the bytes end. -/
theorem u1 : FailsWith u1 Fault.InPool := (word 1).bind fun _ => pure _

/-- Reading an unsigned 16-bit word fails where the bytes end. -/
theorem u2 : FailsWith u2 Fault.InPool := (word 2).bind fun _ => pure _

/-- Reading an unsigned 32-bit word fails where the bytes end. -/
theorem u4 : FailsWith u4 Fault.InPool := (word 4).bind fun _ => pure _

/-- Reading an unsigned 64-bit word fails where the bytes end. -/
theorem u8 : FailsWith u8 Fault.InPool := (word 8).bind fun _ => pure _

/-- Reading a text fails where the bytes end, or for what they are. -/
theorem readText : FailsWith Entry.readText Fault.InPool := by
  refine u2.bind fun length => (take _).bind fun bytes => ?_
  split
  · exact pure _
  · exact fail .invalidText

/-- Reading two indexes fails where the bytes end. -/
theorem readPair (make : UInt16 → UInt16 → Entry) : FailsWith (Entry.readPair make) Fault.InPool :=
  u2.bind fun _ => u2.bind fun _ => pure _

/-- Reading the kind of a method handle fails where the bytes end, or for a code that no kind has. -/
theorem readHandleKind : FailsWith HandleKind.read Fault.InPool := by
  refine u1.bind fun code => ?_
  split
  · exact pure _
  · exact fail (.unknownHandleKind code)

/-- Reading what stands behind a tag fails where the bytes end, or for what they are. -/
theorem readPayload (tag : UInt8) : FailsWith (Entry.readPayload tag) Fault.InPool := by
  unfold Entry.readPayload
  split
  · exact readText
  · exact (u4.bind fun _ => pure _).bind fun _ => pure _
  · exact u4.bind fun _ => pure _
  · exact (u8.bind fun _ => pure _).bind fun _ => pure _
  · exact u8.bind fun _ => pure _
  · exact u2.bind fun _ => pure _
  · exact u2.bind fun _ => pure _
  · exact readPair _
  · exact readPair _
  · exact readPair _
  · exact readPair _
  · exact readHandleKind.bind fun _ => u2.bind fun _ => pure _
  · exact u2.bind fun _ => pure _
  · exact readPair _
  · exact readPair _
  · exact u2.bind fun _ => pure _
  · exact u2.bind fun _ => pure _
  · exact fail (.unknownTag tag)

/-- Reading an entry fails where the bytes end, or for what they are. -/
theorem readEntry : FailsWith Entry.read Fault.InPool := by
  have marks : FailsWith markHere Fault.InPool := by
    intro bytes start fault stop failed
    cases failed
  exact marks.bind fun _ => u1.bind fun tag => readPayload tag

end FailsWith

end Reader

/-! ## Text entries -/

namespace Entry

/-- A reader whose entries all have one tag. -/
def Tagged (reader : Reader Entry) (tag : UInt8) : Prop :=
  ∀ ⦃bytes start entry stop⦄, reader bytes start = .ok entry stop → entry.tag = tag

namespace Tagged

variable {α : Type} {reader : Reader α} {tag : UInt8}

/-- What follows a reader has the tag that it has whatever was read. -/
theorem bind {next : α → Reader Entry} (tagged : ∀ a, Tagged (next a) tag) : Tagged (reader >>= next) tag := by
  intro bytes start entry stop read
  obtain ⟨a, middle, -, rest⟩ := Reader.bind_eq_ok_iff.mp read
  exact tagged a rest

/-- An entry has its own tag. -/
theorem pure (entry : Entry) : Tagged (Pure.pure entry) entry.tag := by
  intro bytes start other stop read
  rw [(Reader.pure_eq_ok_iff.mp read).1]

/-- No entry is given. -/
theorem fail (fault : Fault) : Tagged (Reader.fail fault) tag := by
  intro bytes start entry stop read
  cases read

/-- A text is tagged as one. -/
theorem readText : Tagged readText 1 := by
  refine bind fun length => bind fun bytes => ?_
  split
  · exact pure _
  · exact fail _

/-- What is read behind a tag is an entry with that tag. -/
theorem readPayload (tag : UInt8) : Tagged (readPayload tag) tag := by
  have numbered : ∀ {reader : Reader Entry} {n : UInt8}, tag.toNat = n.toNat → Tagged reader n →
      Tagged reader tag := by
    intro reader n same tagged
    rw [UInt8.toNat.inj same]
    exact tagged
  unfold Entry.readPayload
  split
  · exact numbered ‹_› readText
  · exact numbered ‹_› (bind fun _ => pure _)
  · exact numbered ‹_› (bind fun _ => pure _)
  · exact numbered ‹_› (bind fun _ => pure _)
  · exact numbered ‹_› (bind fun _ => pure _)
  · exact numbered ‹_› (bind fun _ => pure _)
  · exact numbered ‹_› (bind fun _ => pure _)
  · exact numbered ‹_› (bind fun _ => bind fun _ => pure _)
  · exact numbered ‹_› (bind fun _ => bind fun _ => pure _)
  · exact numbered ‹_› (bind fun _ => bind fun _ => pure _)
  · exact numbered ‹_› (bind fun _ => bind fun _ => pure _)
  · exact numbered ‹_› (bind fun _ => bind fun _ => pure _)
  · exact numbered ‹_› (bind fun _ => pure _)
  · exact numbered ‹_› (bind fun _ => bind fun _ => pure _)
  · exact numbered ‹_› (bind fun _ => bind fun _ => pure _)
  · exact numbered ‹_› (bind fun _ => pure _)
  · exact numbered ‹_› (bind fun _ => pure _)
  · exact fail _

end Tagged

variable {bytes : Array UInt8} {start stop : Cursor} {entry : Entry} {value : String}

/-- A text is read off the bytes behind their number. -/
theorem content_of_readText (read : readText bytes start = .ok (.text value) stop) :
    ∃ content, ModifiedUtf8.decode? content = some value ∧ content.length ≤ 65535 ∧
      Stands bytes start.position (textPayload content) ∧
      stop = start.forward (textPayload content).length := by
  obtain ⟨length, c₁, counting, read⟩ := Reader.bind_eq_ok_iff.mp read
  obtain ⟨counted, rfl⟩ := Reader.u2_eq_ok_iff.mp counting
  obtain ⟨taken, c₂, taking, read⟩ := Reader.bind_eq_ok_iff.mp read
  obtain ⟨size, stands, rfl⟩ := Reader.take_eq_ok_iff_stands.mp taking
  have short : taken.toList.length = length.toNat := by rw [Array.length_toList, size]
  have payload : textPayload taken.toList = BigEndian.u2 length ++ taken.toList := by
    rw [textPayload, short, UInt16.ofNat_toNat]
  cases decoded : ModifiedUtf8.decode? taken.toList with
  | none =>
      simp only [decoded] at read
      cases read
  | some other =>
      simp only [decoded] at read
      obtain ⟨same, rfl⟩ := Reader.pure_eq_ok_iff.mp read
      cases same
      refine ⟨taken.toList, decoded, ?_, ?_, ?_⟩
      · rw [short]
        exact Nat.le_of_lt_succ length.toNat_lt
      · rw [payload]
        exact Stands.append_iff.mpr ⟨counted, by rwa [BigEndian.length_u2]⟩
      · rw [payload, List.length_append, BigEndian.length_u2, short, Cursor.forward_forward]

/-- A text entry is read off a tag and the bytes of a text behind their number. -/
theorem content_of_read (read : Entry.read bytes start = .ok (.text value) stop) :
    ∃ content, ModifiedUtf8.decode? content = some value ∧ content.length ≤ 65535 ∧
      Stands bytes start.position (1 :: textPayload content) ∧
      stop.position = start.position + (1 :: textPayload content).length := by
  obtain ⟨⟨⟩, c₁, marked, read⟩ := Reader.bind_eq_ok_iff.mp read
  cases marked
  obtain ⟨tag, c₂, tagging, read⟩ := Reader.bind_eq_ok_iff.mp read
  obtain ⟨tagged, rfl⟩ := Reader.u1_eq_ok_iff.mp tagging
  obtain rfl : (1 : UInt8) = tag := Tagged.readPayload tag read
  obtain ⟨content, decoded, short, stands, rfl⟩ := content_of_readText read
  refine ⟨content, decoded, short, ?_, ?_⟩
  · rw [← List.singleton_append]
    exact Stands.append_iff.mpr ⟨tagged, stands⟩
  · rw [Cursor.position_forward, Cursor.position_forward, List.length_cons, Nat.add_assoc, Nat.add_comm 1]

/-- The bytes of a text that was read can be counted in 16 bits. -/
theorem textLength_of_read (read : Entry.read bytes start = .ok entry stop) :
    Pool.textLength entry ≤ Pool.maxTextLength := by
  cases entry with
  | text value =>
      obtain ⟨content, decoded, short, -⟩ := content_of_read read
      rw [Pool.textLength, ModifiedUtf8.encodedLength_eq_length]
      exact Nat.le_trans (ModifiedUtf8.length_encode_le decoded).1 short
  | _ => exact Nat.zero_le _

/-- A text entry is written with the bytes of some forms exactly when its text is. -/
theorem encode_text_eq_iff {content : List UInt8} :
    (Entry.text value).encode = 1 :: textPayload content ↔ ModifiedUtf8.encode value = content := by
  constructor
  · intro same
    exact (List.append_inj (List.cons.inj same).2 (by simp only [BigEndian.length_u2])).2
  · rintro rfl
    rfl

end Entry

/-! ## Reading a pool -/

/-- An entry whose text is short enough is refused for the slots that it takes, if at all. -/
theorem Pool.refusal?_of_short (pool : Pool) {entry : Entry} (short : textLength entry ≤ maxTextLength) :
    pool.refusal? entry = some .full ∨ pool.refusal? entry = none := by
  unfold refusal?
  dsimp only
  rw [if_neg (Nat.not_lt.mpr short)]
  split
  · exact .inl rfl
  · exact .inr rfl

/-- Reading entries fails where the bytes end, for what they are, or for the slots they take. -/
theorem Reader.FailsWith.readInto (limit : Nat) (pool : Pool) :
    (Pool.readInto limit pool).FailsWith Fault.InPool := by
  induction left : limit - pool.size using Nat.strongRecOn generalizing pool with
  | ind n ih =>
      rw [Pool.readInto]
      split
      · refine readEntry.bind_of_ok fun entry => ?_
        rintro ⟨bytes, start, stop, read⟩
        have wide := entry.width_pos
        have grown := Pool.size_push pool entry
        obtain few | room := Pool.refusal?_of_short pool (Entry.textLength_of_read read)
        · rw [few]
          exact fail .full
        · rw [room]
          exact ih _ (by omega) _ rfl
      · exact pure _

/-- Reading a pool fails where the bytes end, for what they are, or for the slots they take. -/
theorem Pool.failsWith_read : Pool.read.FailsWith Fault.InPool :=
  Reader.FailsWith.u2.bind fun _ => Reader.FailsWith.readInto _ _

namespace ModifiedUtf8

/-- What `decode?` accepts. `bytes` decode to a text exactly when they are the bytes of `forms` of one, two or
three bytes whose values are `Paired`: every surrogate is one of a pair. `encode` of the text then has no more
bytes, and as many only if it has the same. So `Pool.read` never fails with `textTooLong`, and a text entry that
`Entry.read` gives is written with the bytes that it was read from exactly when none of their forms is
`OverLong`. -/
theorem decode?_accepts :
    (∀ bytes, (∃ text, decode? bytes = some text) ↔
      ∃ forms : List Form, bytes = forms.flatMap Form.bytes ∧ Paired (forms.map Form.value)) ∧
    (∀ bytes text, decode? bytes = some text →
      (encode text).length ≤ bytes.length ∧
      ((encode text).length = bytes.length ↔ encode text = bytes)) ∧
    (∀ file start length stop, Pool.read file start ≠ .error (.pool (.textTooLong length)) stop) ∧
    ∀ file start value stop, Entry.read file start = .ok (.text value) stop →
      ∃ forms : List Form, ∃ written : List UInt8,
        written = 1 :: Entry.textPayload (forms.flatMap Form.bytes) ∧
        Stands file start.position written ∧ stop.position = start.position + written.length ∧
        ((Entry.text value).encode = written ↔ ∀ form ∈ forms, ¬form.OverLong) := by
  refine ⟨fun bytes => exists_decode?_iff, fun bytes text read => length_encode_le read, ?_, ?_⟩
  · intro file start length stop failed
    cases Pool.failsWith_read failed
  · intro file start value stop read
    obtain ⟨content, decoded, -, stands, reached⟩ := Entry.content_of_read read
    obtain ⟨forms, rfl, -⟩ := decode?_eq_some_iff.mp decoded
    exact ⟨forms, _, rfl, stands, reached, Entry.encode_text_eq_iff.trans (encode_eq_iff decoded)⟩

/-- The letter `a` in one byte and, over-long, in two: the text `aa` is written with a byte less than it was
read from. -/
theorem decode?_accepts_overLong :
    decode? [0x61, 0xc1, 0xa1] = some "aa" ∧
    ((encode "aa").length ≤ 3 ∧ ((encode "aa").length = 3 ↔ encode "aa" = [0x61, 0xc1, 0xa1])) ∧
    Entry.read #[1, 0, 3, 0x61, 0xc1, 0xa1] Cursor.start = .ok (.text "aa") ⟨6, 0⟩ ∧
    ∃ forms : List Form, ∃ written : List UInt8,
      written = 1 :: Entry.textPayload (forms.flatMap Form.bytes) ∧
      Stands #[1, 0, 3, 0x61, 0xc1, 0xa1] 0 written ∧ 6 = 0 + written.length ∧
      ((Entry.text "aa").encode = written ↔ ∀ form ∈ forms, ¬form.OverLong) := by
  have decoded : decode? [0x61, 0xc1, 0xa1] = some "aa" := by decide
  have read : Entry.read #[1, 0, 3, 0x61, 0xc1, 0xa1] Cursor.start = .ok (.text "aa") ⟨6, 0⟩ := rfl
  obtain ⟨-, shorter, -, entries⟩ := decode?_accepts
  exact ⟨decoded, shorter _ _ decoded, read, entries _ _ _ _ read⟩

end ModifiedUtf8

end JvmCode
