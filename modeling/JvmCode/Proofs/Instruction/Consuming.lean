import JvmCode.Instruction.Reading
import JvmCode.Proofs.Stands

/-! # Operands of a known width

Where an instruction has no branch targets, its size is known from its opcode. Once that many bytes are
there, reading its operands either takes exactly these bytes or fails for what they say, never for where
they end.

* **`Fault.UnseenAt`** are the faults that the size of an instruction does not exclude.
* **`Reader.Consumes`** holds of the readers that take a known number of bytes or fail with such a
  fault; `Consumes.bind` adds the widths of two readers.
* `Consumes.readOperands`: the widths in the opcode table are those that reading takes. -/

namespace JvmCode

/-- A fault in the instruction at `bci` that shows only when its operands are understood: a symbol that
the pool does not have, or operand bytes that mean nothing. -/
inductive Fault.UnseenAt (bci : Nat) : Fault → Prop where
  /-- A symbol is not in the pool as it is used. -/
  | pool (cause : PoolFault) : UnseenAt bci (.pool cause)
  /-- No primitive type has the array code. -/
  | unknownArrayType (code : UInt8) : UnseenAt bci (.malformed bci (.unknownArrayType code))
  /-- A multidimensional array has no dimensions. -/
  | zeroDimensions : UnseenAt bci (.malformed bci .zeroDimensions)
  /-- Bytes that must be zero are not. -/
  | nonZeroReserved : UnseenAt bci (.malformed bci .nonZeroReserved)

namespace Reader

variable {α β : Type} {reader : Reader α} {next : α → Reader β} {bytes : Array UInt8}
  {start middle : Cursor}

/-- A sequence whose first reader succeeds goes on with the second. -/
theorem bind_of_ok {a : α} (h : reader bytes start = .ok a middle) :
    (reader >>= next) bytes start = next a bytes middle := by
  change EStateM.bind (reader bytes) (fun a => next a bytes) start = _
  rw [EStateM.bind, h]

/-- A sequence whose first reader fails fails alike. -/
theorem bind_of_error {fault : Fault} (h : reader bytes start = .error fault middle) :
    (reader >>= next) bytes start = .error fault middle := by
  change EStateM.bind (reader bytes) (fun a => next a bytes) start = _
  rw [EStateM.bind, h]

/-- A reader that, given `width` bytes, takes them all or fails for what they say. -/
def Consumes (reader : Reader α) (width : Nat) : Prop :=
  ∀ ⦃bytes : Array UInt8⦄ ⦃start : Cursor⦄, start.position + width ≤ bytes.size →
    (∃ value, reader bytes start = .ok value (start.forward width)) ∨
      ∃ fault stop, reader bytes start = .error fault stop ∧ fault.UnseenAt start.mark

namespace Consumes

/-- A value given without reading takes nothing. -/
theorem pure (a : α) : Consumes (Pure.pure a) 0 := by
  intro bytes start _
  exact .inl ⟨a, rfl⟩

/-- A lookup takes nothing. -/
theorem ofPool (result : Except PoolFault α) : Consumes (ofPool result) 0 := by
  intro bytes start _
  cases result with
  | ok value => exact .inl ⟨value, rfl⟩
  | error cause => exact .inr ⟨_, _, rfl, .pool cause⟩

/-- A reader takes what it takes, also if it may first complain at the mark about what bytes say. -/
theorem guarded {condition : Prop} [Decidable condition] {what : Malformation} {width : Nat}
    (unseen : ∀ bci, (Fault.malformed bci what).UnseenAt bci) (h : Consumes reader width) :
    Consumes (if condition then failAtMark what else reader) width := by
  split
  · intro bytes start _
    exact .inr ⟨_, _, rfl, unseen start.mark⟩
  · exact h

/-- Two readers in turn take the sum of their widths. -/
theorem bind {first second : Nat} (h : Consumes reader first)
    (h' : ∀ a, Consumes (next a) second) : Consumes (reader >>= next) (first + second) := by
  intro bytes start enough
  obtain ⟨a, given⟩ | ⟨fault, stop, failed, unseen⟩ := h (show start.position + first ≤ bytes.size by omega)
  · -- The second reader starts behind the first, with the mark where it was.
    have behind : (start.forward first).position + second ≤ bytes.size := by
      rw [Cursor.position_forward]
      omega
    rw [bind_of_ok given, ← Cursor.forward_forward]
    exact h' a behind
  · exact .inr ⟨fault, stop, bind_of_error failed, unseen⟩

/-- Taking bytes takes as many. -/
theorem take (count : Nat) : Consumes (take count) count := by
  intro bytes start enough
  exact .inl ⟨_, take_eq_ok_iff.mpr ⟨enough, rfl, rfl⟩⟩

/-- A word takes its width. -/
theorem word (width : Nat) : Consumes (word width) width :=
  (take width).bind fun _ => pure _

/-- An unsigned byte takes one byte. -/
theorem u1 : Consumes u1 1 := (word 1).bind fun _ => pure _

/-- An unsigned 16-bit word takes two bytes. -/
theorem u2 : Consumes u2 2 := (word 2).bind fun _ => pure _

/-- A signed byte takes one byte. -/
theorem i1 : Consumes i1 1 := u1.bind fun _ => pure _

/-- A signed 16-bit word takes two bytes. -/
theorem i2 : Consumes i2 2 := u2.bind fun _ => pure _

/-- An index takes two bytes, or one. -/
theorem readIndex (wide : Bool) : Consumes (readIndex wide) (if wide then 2 else 1) := by
  cases wide with
  | true => exact u2
  | false => exact u1.bind fun _ => pure _

/-- An increment takes two bytes for each of its parts, or one. -/
theorem readIncrement (wide : Bool) : Consumes (readIncrement wide) (if wide then 4 else 2) := by
  cases wide with
  | true => exact (readIndex true).bind fun _ => i2.bind fun _ => pure _
  | false => exact (readIndex false).bind fun _ => i1.bind fun _ => pure _

/-- An immediate takes two bytes, or one. -/
theorem readImmediate (wide : Bool) : Consumes (readImmediate wide) (if wide then 2 else 1) := by
  cases wide with
  | true => exact i2.bind fun _ => pure _
  | false => exact i1.bind fun _ => pure _

/-- An interface call takes an index, a count and a byte that must be zero. -/
theorem readInterfaceMethod (resolver : Resolver) (opcode : Opcode) :
    Consumes (readInterfaceMethod resolver opcode) 4 :=
  u2.bind fun _ => u1.bind fun _ => u1.bind fun _ => guarded (fun _ => .nonZeroReserved) (ofPool _)

/-- A dynamic call takes an index and two bytes that must be zero. -/
theorem readCallSite (resolver : Resolver) : Consumes (readCallSite resolver) 4 :=
  u2.bind fun _ => u2.bind fun _ => guarded (fun _ => .nonZeroReserved) (ofPool _)

/-- Finding an element type takes nothing. -/
theorem elementFound (code : UInt8) : Consumes (elementFound code) 0 := by
  unfold JvmCode.elementFound
  split
  · exact pure _
  · intro bytes start _
    exact .inr ⟨_, _, rfl, .unknownArrayType code⟩

/-- The creation of a multidimensional array takes an index and a number of dimensions. -/
theorem readArrayClass (resolver : Resolver) : Consumes (readArrayClass resolver) 3 :=
  u2.bind fun _ => u1.bind fun _ =>
    guarded (fun _ => .zeroDimensions) ((ofPool _).bind fun _ => pure _)

/-- The operands of an instruction without branch targets take the width of their format. -/
theorem readOperands {opcode : Opcode} (stays : ∀ form, opcode.format ≠ .jump form)
    (resolver : Resolver) (bci : Nat) :
    Consumes (readOperands resolver bci opcode) (opcode.format.width?.getD 0) := by
  unfold JvmCode.readOperands
  generalize opcode.format = format at stays
  cases format with
  | bare => exact pure _
  | implicitSlot slot => exact pure _
  | slot wide => exact (readIndex wide).bind fun _ => pure _
  | increment wide => exact readIncrement wide
  | jump form => exact absurd rfl (stays form)
  | immediate wide => exact readImmediate wide
  | constant wide => exact (readIndex wide).bind fun _ => ofPool _
  | field => exact u2.bind fun _ => ofPool _
  | method => exact u2.bind fun _ => ofPool _
  | interfaceMethod => exact readInterfaceMethod resolver opcode
  | callSite => exact readCallSite resolver
  | classRef => exact u2.bind fun _ => ofPool _
  | elementType => exact (u1.bind elementFound).bind fun _ => pure _
  | arrayClass => exact readArrayClass resolver

end Consumes

end Reader

/-- The size by which an instruction without branch targets is passed over is that of its opcode and of
its operands. -/
theorem Opcode.fixedSize?_getD {opcode : Opcode} (stays : ∀ form, opcode.format ≠ .jump form) :
    opcode.fixedSize?.getD 1 = opcode.bytes.length + opcode.format.width?.getD 0 := by
  rw [fixedSize?_eq_format]
  generalize opcode.format = format at stays
  cases format with
  | jump form => exact absurd rfl (stays form)
  | _ => rfl

end JvmCode
