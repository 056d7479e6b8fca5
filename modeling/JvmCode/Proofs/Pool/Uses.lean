import JvmCode.Proofs.Assembler.Session
import JvmCode.Proofs.Attribute.Writing
import JvmCode.Proofs.Pool.Additions

/-! # Symbols stay while a pool is in use

Instructions keep the indexes of their symbols, while whoever holds the pool goes on adding to it: directly, for
the pushes of values, for the elements of a session, for the names of nested attributes. Some of that may fail
half-way, with part of its entries added. Whatever happens, an index that was resolved stays resolved, to the same.

* **`Pool.Use`** is something that is done with a pool, and **`Pool.afterUses`** the pool that a sequence of uses
  leaves behind, whether they succeed or not.
* `Pool.Use.grows` is the one step: every use only adds entries.
* `Pool.keeps_afterUses`: all that was resolved before is resolved after any uses. -/

namespace JvmCode

/-- The state that a program leaves behind, whether it succeeds or not. -/
def Outcome.stateAfter {ε σ α : Type} (program : EStateM ε σ α) (state : σ) : σ :=
  match program state with
  | .ok _ after => after
  | .error _ after => after

/-! ## Attributes -/

namespace Writer

open Outcome

variable {α β : Type}

/-- A program that writes only adds entries to its pool. -/
def Grows (program : Writer α) : Prop := ∀ start : Writing, start.pool.Grows (stateAfter program start).pool

/-- Writing bytes leaves the pool as it is. -/
theorem Grows.bytes (content : List UInt8) : Grows (Writer.bytes content) := fun _ => .refl

/-- Failing leaves the pool as it is. -/
theorem Grows.throw (fault : Fault) : Grows (throw fault : Writer α) := fun _ => .refl

/-- Adding to the pool leaves the pool that the program leaves. -/
theorem pool_interning (program : Interning α) (start : Writing) :
    (stateAfter (interning program) start).pool = Interning.after program start.pool := by
  unfold stateAfter interning Interning.after
  dsimp only
  cases program start.pool <;> rfl

/-- Adding to the pool adds what the program adds. -/
theorem Grows.interning {program : Interning α} (grows : Interning.Grows program) :
    Grows (Writer.interning program) := by
  intro start
  rw [pool_interning]
  exact grows start.pool

/-- Programs that only add entries do so in turn, also when the second is not reached. -/
theorem Grows.bind {program : Writer α} {next : α → Writer β} (first : Grows program)
    (second : ∀ a, Grows (next a)) : Grows (program >>= next) := by
  intro start
  have grown := first start
  simp only [stateAfter, Bind.bind, EStateM.bind] at grown ⊢
  cases ran : program start with
  | ok a middle =>
      rw [ran] at grown
      exact grown.trans (second a middle)
  | error fault middle =>
      rw [ran] at grown
      exact grown

/-- A program for each item of a list only adds entries. -/
theorem Grows.forM {program : α → Writer PUnit} (grows : ∀ a, Grows (program a)) (items : List α) :
    Grows (items.forM program) := by
  induction items with
  | nil => exact fun _ => .refl
  | cons item rest ih => exact (grows item).bind fun _ => ih

end Writer

/-- Writing an attribute only adds entries, also when it stops half-way. -/
theorem CodeAttribute.grows_write (attr : CodeAttribute) : Writer.Grows attr.write := by
  unfold write
  split
  · exact .throw _
  · refine (Writer.Grows.bytes _).bind fun _ => .forM (fun (table, body) => ?_) _
    exact (Writer.Grows.interning (.intern _)).bind fun _ =>
      (Writer.Grows.bytes _).bind fun _ => (Writer.Grows.bytes _).bind fun _ => .bytes _

/-! ## Sessions -/

/-- Giving an element to a session only adds entries to its pool, whether it is taken or refused. -/
theorem Assembler.grows_add (element : Element) (session : Assembler) :
    session.pool.Grows (Outcome.stateAfter (add element) session).pool := by
  unfold Outcome.stateAfter
  obtain ⟨after, taken, same⟩ | ⟨fault, pool, grown, same⟩ :=
    @add_cases session element (add element session) rfl
  · rw [same]
    cases taken with
    | localVariable _ entered | localVariableType _ entered => exact (grows_pendingLocal _).of_ok entered
    | _ => exact .refl
  · rw [same]
    exact grown

/-! ## Uses -/

namespace Pool

/-- Something that is done with a pool. -/
inductive Use where
  /-- Entries are added by an operation. -/
  | add (operation : Operation) {program : Interning UInt16} (adds : operation.program? = some program)
  /-- The push of a value is made. -/
  | push (value : Constant)
  /-- An element is given to a session, wherever the session stands. -/
  | give (session : Assembler) (element : Element)
  /-- An attribute is written behind some output. -/
  | write (attr : CodeAttribute) (output : Array UInt8)

/-- The pool after a use, whether it succeeds or not. -/
def Use.apply : Use → Pool → Pool
  | .add operation _ => operation.apply
  | .push value => Interning.after (Instruction.pushOf value)
  | .give session element => fun pool =>
      (Outcome.stateAfter (Assembler.add element) { session with pool }).pool
  | .write attr output => fun pool => (Outcome.stateAfter attr.write ⟨output, pool⟩).pool

/-- The pool that uses leave behind, one after the other. -/
def afterUses (uses : List Use) (pool : Pool) : Pool := uses.foldl (fun pool use => use.apply pool) pool

/-- Every use only adds entries. -/
theorem Use.grows (use : Use) (pool : Pool) : pool.Grows (use.apply pool) := by
  cases use with
  | add operation adds =>
      rw [apply, Operation.apply_of_program? adds]
      exact Operation.grows_of_program? adds pool
  | push value => exact Interning.Grows.pushOf value pool
  | give session element => exact Assembler.grows_add element { session with pool }
  | write attr output => exact attr.grows_write ⟨output, pool⟩

/-- Any number of uses only add entries. -/
theorem grows_afterUses (uses : List Use) (pool : Pool) : pool.Grows (pool.afterUses uses) := by
  induction uses generalizing pool with
  | nil => exact .refl
  | cons use rest ih => exact (use.grows pool).trans (ih (use.apply pool))

/-- Indexes keep their meaning. `(pool.afterUses uses).resolver.Keeps pool.resolver`: every index that is
resolved, as whatever it is, is resolved to the same after any `uses` of the pool, whether they succeeded or
failed. -/
theorem keeps_afterUses (uses : List Use) (pool : Pool) :
    (pool.afterUses uses).resolver.Keeps pool.resolver :=
  (grows_afterUses uses pool).extends.keeps

end Pool

end JvmCode
