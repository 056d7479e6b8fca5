import JvmCode.Attribute.Basic
import JvmCode.Element
import JvmCode.Options
import JvmCode.Traversal.Scan
import Std.Data.HashMap

/-! # Walking through code

Decoding a code attribute into elements, one at a time. Exception handlers come first, then local
variables, then for each instruction its label if anything refers to it, its line numbers, and the
instruction itself. A label at the end of the code follows the last instruction.

* **`Plan`** is what is known before the first instruction is decoded.
* **`Walk`** is a traversal under way, and **`Walk.next`** its next step; after a fault there is nothing
  more.
* **`Walk.drain`** takes all steps; **`CodeAttribute.decode`** gives all elements or the fault. -/

namespace JvmCode

/-! ## Plans -/

/-- What is known about code before its first instruction is decoded. -/
structure Plan where
  /-- The elements that come first. -/
  markers : List Element
  /-- The positions that something refers to. -/
  labels : Std.HashSet Nat
  /-- The line numbers that start at each position, in table order. -/
  lines : Std.HashMap Nat (Array UInt16)

namespace Plan

/-- The marker of an exception row. -/
def catchMarker (scan : Scan) (resolver : Resolver) (length : Nat) (row : ExceptionRow) :
    Except Fault Element := do
  let start ← scan.tableLabel length false row.startPc.toNat
  let stop ← scan.tableLabel length true row.endPc.toNat
  let handler ← scan.tableLabel length false row.handlerPc.toNat
  -- Index zero catches everything and is never looked up.
  if row.catchType = 0 then return .exceptionCatch ⟨start, stop, handler, none⟩
  match resolver.classRef row.catchType with
  | .ok caught => return .exceptionCatch ⟨start, stop, handler, some caught⟩
  | .error cause => throw (.pool cause)

/-- The marker of a local variable row. -/
def localMarker (scan : Scan) (resolver : Resolver) (length : Nat) (row : LocalRow) :
    Except Fault LocalMarker := do
  let start ← scan.tableLabel length false row.startPc.toNat
  let stop ← scan.tableLabel length true row.endPc
  let name ← (resolver.text row.nameIndex).mapError .pool
  let type ← (resolver.text row.typeIndex).mapError .pool
  return { slot := row.slot, name, type, start, stop }

/-- The position a label marks becomes one that something refers to. -/
def refer (labels : Std.HashSet Nat) : Label → Std.HashSet Nat
  | .decoded bci => labels.insert bci.toNat
  | .fresh _ => labels

/-- A line number joins those of its position. -/
def groupLine (lines : Std.HashMap Nat (Array UInt16)) (row : LineRow) :
    Std.HashMap Nat (Array UInt16) :=
  lines.alter row.startPc.toNat fun numbers => some ((numbers.getD .empty).push row.line)

/-- The local variable markers, if they are passed on. -/
def localMarkers (scan : Scan) (resolver : Resolver) (length : Nat) (options : Options)
    (rows : Array LocalRow) : Except Fault (Array LocalMarker) :=
  if options.passesDebug then rows.mapM (localMarker scan resolver length) else .ok .empty

/-- The line rows, if they are passed on. Each must start where an instruction starts. -/
def lineRows (scan : Scan) (length : Nat) (options : Options) (rows : Array LineRow) :
    Except Fault (Array LineRow) := do
  if options.passesLines then
    rows.forM fun row => discard (scan.tableLabel length false row.startPc.toNat)
    return rows
  else return .empty

/-- The plan of a traversal. The first fault in the code, then in the exception table, the local
variable tables and the line table decides. -/
def make (attr : CodeAttribute) (resolver : Resolver) (options : Options) :
    Except Fault Plan := do
  let length := attr.code.size
  let scan ← Scan.run attr.code
  let catches ← attr.exceptions.mapM (catchMarker scan resolver length)
  let locals ← localMarkers scan resolver length options attr.locals
  let localTypes ← localMarkers scan resolver length options attr.localTypes
  let lines ← lineRows scan length options attr.lines
  let markers := catches ++ locals.map .localVariable ++ localTypes.map .localVariableType
  -- Labels are needed where a jump lands and where a marker starts, ends or is handled.
  let jumped := scan.jumps.foldl (fun labels jump => refer labels jump.target) ∅
  return {
    markers := markers.toList
    labels := markers.foldl (fun labels marker => marker.references.foldl refer labels) jumped
    lines := lines.foldl groupLine ∅ }

end Plan

/-! ## Walks -/

/-- How far a traversal has come. -/
inductive WalkStatus where
  /-- Instructions may be left. -/
  | running
  /-- The next step is this fault. -/
  | failing (fault : Fault)
  /-- Only elements that are already decoded are left. -/
  | finished
  deriving DecidableEq, Repr

/-- A traversal under way. -/
structure Walk where
  /-- The code. -/
  code : Array UInt8
  /-- How pool indexes are resolved. -/
  resolver : Resolver
  /-- The positions that something refers to. -/
  labels : Std.HashSet Nat
  /-- The line numbers that start at each position. -/
  lines : Std.HashMap Nat (Array UInt16)
  /-- The elements that are already decoded. -/
  queue : List Element
  /-- Where the next instruction is read. -/
  cursor : Cursor
  /-- How far the traversal has come. -/
  status : WalkStatus

namespace Walk

/-- Start a traversal. -/
def start (attr : CodeAttribute) (resolver : Resolver) (options : Options) : Walk :=
  match Plan.make attr resolver options with
  | .ok plan =>
      { code := attr.code, resolver, labels := plan.labels, lines := plan.lines,
        queue := plan.markers, cursor := Cursor.start, status := .running }
  | .error fault =>
      { code := attr.code, resolver, labels := ∅, lines := ∅, queue := [],
        cursor := Cursor.start, status := .failing fault }

/-- The label of the current position, if something refers to it. -/
def labelHere (walk : Walk) : List Element :=
  let bci := walk.cursor.position
  if walk.labels.contains bci then [.label (.decoded (UInt16.ofNat bci))] else []

/-- The line numbers that start at the current position. -/
def linesHere (walk : Walk) : List Element :=
  ((walk.lines[walk.cursor.position]?).getD .empty).toList.map .line

/-- Decode the elements at the current position: those of one instruction, or of the end. -/
def advance (walk : Walk) : Except Fault Walk :=
  if walk.cursor.position < walk.code.size then
    match Instruction.read walk.resolver walk.code walk.cursor with
    | .ok i cursor =>
        .ok { walk with queue := walk.labelHere ++ walk.linesHere ++ [.instruction i], cursor }
    | .error fault _ => .error fault
  -- At the end of the code nothing but a label can stand.
  else .ok { walk with queue := walk.labelHere, status := .finished }

/-- The traversal after a fault. -/
def stopped (walk : Walk) : Walk := { walk with queue := [], status := .finished }

/-- The first of the elements that are already decoded. -/
def pop (walk : Walk) : Option (Except Fault Element) × Walk :=
  match walk.queue with
  | element :: rest => (some (.ok element), { walk with queue := rest })
  | [] => (none, walk)

/-- The next step of a traversal: an element, or a fault, or nothing. -/
def next (walk : Walk) : Option (Except Fault Element) × Walk :=
  match walk.status, walk.queue with
  | .failing fault, _ => (some (.error fault), walk.stopped)
  -- Only an empty queue asks for another instruction.
  | .running, [] =>
      match walk.advance with
      | .ok walk => walk.pop
      | .error fault => (some (.error fault), walk.stopped)
  | _, _ => walk.pop

/-- A bound on the instructions that are left. -/
def bytesLeft (walk : Walk) : Nat :=
  match walk.status with
  | .running => walk.code.size - walk.cursor.position + 1
  | _ => 0

/-- Taking an element off the queue shortens the queue and changes nothing else that matters. -/
theorem pop_decreases {walk after : Walk} {element : Element}
    (h : walk.pop = (some (.ok element), after)) :
    after.bytesLeft = walk.bytesLeft ∧ after.queue.length < walk.queue.length := by
  unfold pop at h
  split at h
  · rename_i head rest shape
    simp only [Prod.mk.injEq] at h
    rw [← h.2, shape]
    exact ⟨rfl, Nat.lt_succ_self _⟩
  · simp at h

/-- Decoding an instruction leaves fewer bytes. -/
theorem advance_decreases {walk after : Walk} (running : walk.status = .running)
    (h : walk.advance = .ok after) : after.bytesLeft < walk.bytesLeft := by
  unfold advance at h
  split at h
  · rename_i inside
    split at h
    · rename_i i cursor read
      have moved := Instruction.read_position_lt read
      simp only [Except.ok.injEq] at h
      rw [← h]
      simp only [bytesLeft, running]
      omega
    · simp at h
  · simp only [Except.ok.injEq] at h
    rw [← h]
    simp [bytesLeft, running]

/-- A step that gives an element leaves fewer instructions or fewer decoded elements. -/
theorem next_decreases {walk after : Walk} {element : Element}
    (h : walk.next = (some (.ok element), after)) :
    after.bytesLeft < walk.bytesLeft ∨
      after.bytesLeft = walk.bytesLeft ∧ after.queue.length < walk.queue.length := by
  unfold next at h
  split at h
  · simp at h
  · rename_i running shape
    split at h
    · rename_i middle advanced
      have fewer := advance_decreases running advanced
      rw [← (pop_decreases h).1] at fewer
      exact Or.inl fewer
    · simp at h
  · exact Or.inr (pop_decreases h)

/-- Take all steps, keeping the elements behind those already given. -/
def drainInto (walk : Walk) (elements : Array Element) : Array Element × Option Fault × Walk :=
  match h : walk.next with
  | (none, after) => (elements, none, after)
  | (some (.error fault), after) => (elements, some fault, after)
  | (some (.ok element), after) =>
      have := next_decreases h
      drainInto after (elements.push element)
termination_by (walk.bytesLeft, walk.queue.length)
decreasing_by
  simp only [Prod.lex_def]
  exact this

/-- Take all steps: the elements given, the fault that ended them if one did, and what is left. -/
def drain (walk : Walk) : Array Element × Option Fault × Walk := walk.drainInto .empty

end Walk

/-- All elements of an attribute, or the first fault. -/
def CodeAttribute.decode (attr : CodeAttribute) (resolver : Resolver) (options : Options) :
    Except Fault (Array Element) :=
  match (Walk.start attr resolver options).drain with
  | (elements, none, _) => .ok elements
  | (_, some fault, _) => .error fault

end JvmCode
