import JvmCode.Pool.Basic
import JvmCode.Pool.Symbol

/-! # Resolving indexes

Following the indexes of entries to the symbols that they stand for. All that resolution needs is a way
to find the entry at an index, so it is defined for any **`Resolver`**; `Pool.resolver` is that of a
pool. The first fault met on the way is the result. -/

namespace JvmCode

/-- A way to find entries by index. -/
structure Resolver where
  /-- The entry at an index. -/
  entry : UInt16 → Except PoolFault Entry

/-- Resolution through the entries of a pool. -/
def Pool.resolver (pool : Pool) : Resolver := ⟨pool.get⟩

namespace Resolver

/-- The text at an index. -/
def text (resolver : Resolver) (index : UInt16) : Except PoolFault String := do
  match ← resolver.entry index with
  | .text value => return value
  | _ => throw (.wrongEntryKind index .text)

/-- The class at an index. -/
def classRef (resolver : Resolver) (index : UInt16) : Except PoolFault ClassRef := do
  match ← resolver.entry index with
  | .classRef name => return ⟨index, ← resolver.text name⟩
  | _ => throw (.wrongEntryKind index .classRef)

/-- The name and the descriptor at an index. -/
def nameAndType (resolver : Resolver) (index : UInt16) : Except PoolFault (String × String) := do
  match ← resolver.entry index with
  | .nameAndType name descriptor =>
      let name ← resolver.text name
      let descriptor ← resolver.text descriptor
      return (name, descriptor)
  | _ => throw (.wrongEntryKind index .nameAndType)

/-- The field or method at an index. Its name and type are resolved before its class. -/
def memberRef (resolver : Resolver) (index : UInt16) : Except PoolFault MemberRef := do
  match ← resolver.entry index with
  | .member kind owner nameAndType =>
      let (name, descriptor) ← resolver.nameAndType nameAndType
      let owner ← resolver.classRef owner
      return ⟨index, kind, owner, name, descriptor⟩
  | _ => throw (.wrongEntryKind index .member)

/-- The value of a constant entry that was found at an index. -/
def constantOf (resolver : Resolver) (index : UInt16) : Entry → Except PoolFault Constant
  | .integer value => return .integer value
  | .float bits => return .float bits
  | .long value => return .long value
  | .double bits => return .double bits
  | .string text => return .string (← resolver.text text)
  | .classRef name => return .classLiteral (← resolver.text name)
  | .methodType descriptor => return .methodType (← resolver.text descriptor)
  | .methodHandle kind reference => return .methodHandle kind (← resolver.memberRef reference)
  | .dynamic bootstrap nameAndType => do
      let (name, descriptor) ← resolver.nameAndType nameAndType
      return .dynamic bootstrap name descriptor
  | _ => throw (.wrongEntryKind index .loadable)

/-- The constant at an index. -/
def loadable (resolver : Resolver) (index : UInt16) : Except PoolFault Loadable := do
  let entry ← resolver.entry index
  return ⟨index, ← resolver.constantOf index entry⟩

/-- The call site at an index. -/
def callSite (resolver : Resolver) (index : UInt16) : Except PoolFault CallSite := do
  match ← resolver.entry index with
  | .callSite bootstrap nameAndType =>
      let (name, descriptor) ← resolver.nameAndType nameAndType
      return ⟨index, bootstrap, name, descriptor⟩
  | _ => throw (.wrongEntryKind index .callSite)

end Resolver

end JvmCode
