import JvmCode.Proofs.Assembler.Refusing
import JvmCode.Proofs.Instruction.Relabel
import JvmCode.Proofs.Traversal.Filtering

/-! # Leaving out while decoding or while building

Debug information may be left out when code is decoded, or when it is built again. Either way the same comes
out of it: the same code and tables or the same fault, and the same pool.

* **`Assembler.build`** is what becomes of elements that a fresh session takes in order.
* **`Assembler.passing`** is a session that passes everything on, otherwise like a session with options.
* **`Assembler.Agrees`** says that both have the same places for the labels that are let through, and wait
  for no others; `Agrees.addAll`: they do so after every element, if the one is given only what the options
  of the other leave.
* `Assembler.build_selected` compares the outcomes, and `CodeAttribute.build_decoded_dropping` does so for
  elements that were decoded. -/

namespace JvmCode

/-! ## Places that matter -/

/-- The labels of the template of an instruction are those it may jump to. -/
theorem Instruction.filterMap_target?_template (i : Instruction) (bci : Nat) :
    (i.template bci).filterMap Chunk.target? = i.targets := by
  have aligned : (operandTemplate i.opcode bci i.operands).filterMap Chunk.target? =
      (i.operands.fields i.opcode).filterMap Chunk.target? := by
    cases i.operands <;> rfl
  rw [template, List.filterMap_cons, Chunk.target?, aligned, Operands.filterMap_target?_fields]
  rfl

/-- The offsets among chunks are to labels of the chunks. -/
theorem Chunk.target_of_mem_holes {bci position : Nat} {patch : Patch} {chunks : List Chunk}
    (mem : patch ∈ holes bci position chunks) : patch.target ∈ chunks.filterMap target? := by
  induction chunks generalizing position with
  | nil => cases mem
  | cons chunk rest ih =>
      cases chunk with
      | bytes content => exact ih mem
      | offset far target =>
          obtain rfl | mem := List.mem_cons.mp mem
          · exact List.mem_cons_self
          · exact List.mem_cons_of_mem _ (ih mem)

/-- What an instruction is emitted as depends on the places of the labels it may jump to alone. -/
theorem Instruction.emit_congr {i : Instruction} {place other : Label → Option Nat}
    (agree : ∀ label ∈ i.targets, place label = other label) (bci : Nat) :
    i.emit place bci = i.emit other bci := by
  refine Outcome.foldlM_congr (fun chunk mem emission => ?_) _
  cases chunk with
  | bytes content => rfl
  | offset far target =>
      have jumps : target ∈ i.targets := by
        rw [← i.filterMap_target?_template bci]
        exact List.mem_filterMap.mpr ⟨_, mem, rfl⟩
      rw [emitChunk, emitChunk, agree target jumps]

/-- A local variable waits for the labels of its marker. -/
theorem Assembler.labels_of_pendingLocal {marker : LocalMarker} {pending : PendingLocal} {before after : Pool}
    (entered : pendingLocal marker before = .ok pending after) :
    pending.start = marker.start ∧ pending.stop = marker.stop := by
  obtain ⟨nameIndex, middle, -, entered⟩ := Interning.bind_eq_ok_iff.mp entered
  obtain ⟨typeIndex, last, -, entered⟩ := Interning.bind_eq_ok_iff.mp entered
  obtain ⟨rfl, rfl⟩ := Interning.pure_eq_ok_iff.mp entered
  exact ⟨rfl, rfl⟩

/-- What is let through refers to labels that are let through. -/
theorem Options.keeps_label {options : Options} {elements : List Element} {element : Element} {label : Label}
    (mem : element ∈ elements)
    (kept : options.keeps (Element.lastingReferences elements) element = true)
    (refers : label ∈ element.references) :
    options.keeps (Element.lastingReferences elements) (.label label) = true := by
  have lasts : element.isLocal = false → label ∈ Element.lastingReferences elements := by
    intro lasting
    refine List.mem_flatMap.mpr ⟨element, List.mem_filter.mpr ⟨mem, ?_⟩, refers⟩
    rw [lasting]
    rfl
  rw [keeps, decide_eq_true_eq]
  cases element with
  | instruction i => exact .inr (lasts rfl)
  | label placed => cases refers
  | line number => cases refers
  | localVariable marker => exact .inl (of_decide_eq_true kept)
  | localVariableType marker => exact .inl (of_decide_eq_true kept)
  | exceptionCatch marker => exact .inr (lasts rfl)

namespace Assembler

/-! ## Sessions that agree -/

/-- The labels whose places are looked up when a session is finished. -/
def awaited (session : Assembler) : List Label :=
  session.patches.toList.map Patch.target ++
    session.catches.toList.flatMap (fun pending => [pending.start, pending.stop, pending.handler]) ++
    (session.locals.toList ++ session.localTypes.toList).flatMap fun pending => [pending.start, pending.stop]

/-- A session that passes everything on and has placed other labels, but is otherwise the same. -/
def passing (session : Assembler) (placed : Std.HashMap Label Nat) : Assembler :=
  { session with
    options := { deadLabels := session.options.deadLabels }
    placed }

/-- A session that passes everything on agrees with one that leaves out what its options do not let through. -/
structure Agrees (options : Options) (lasting : List Label) (placed : Std.HashMap Label Nat)
    (session : Assembler) : Prop where
  /-- The options stay. -/
  options_eq : session.options = options
  /-- Labels that are let through have the same places. -/
  place_eq : ∀ label, options.keeps lasting (.label label) = true →
    (session.passing placed).place label = session.place label
  /-- No other labels are waited for. -/
  awaits : ∀ label ∈ session.awaited, options.keeps lasting (.label label) = true

/-- An element makes a session wait for the labels it refers to, and for no others. -/
theorem awaited_of_taken {session after : Assembler} {element : Element} (took : Taken session element after)
    {label : Label} (mem : label ∈ after.awaited) : label ∈ session.awaited ∨ label ∈ element.references := by
  cases took with
  | @instruction i emission emitted =>
      simp only [awaited, Array.toList_append, List.map_append, List.mem_append] at mem ⊢
      obtain ((mem | mem) | mem) | mem := mem
      · exact .inl (.inl (.inl mem))
      · obtain ⟨patch, waits, rfl⟩ := List.mem_map.mp mem
        have hole := (of_emit emitted).2 patch (Array.mem_toList_iff.mp waits)
        refine .inr ?_
        rw [Element.references, ← i.filterMap_target?_template session.code.size]
        exact Chunk.target_of_mem_holes hole
      · exact .inl (.inl (.inr mem))
      · exact .inl (.inr mem)
  | localVariable passes entered | localVariableType passes entered =>
      obtain ⟨start, stop⟩ := labels_of_pendingLocal entered
      simp only [awaited, Element.references, Array.toList_push, List.flatMap_append, List.mem_append,
        List.flatMap_singleton, start, stop] at mem ⊢
      tauto
  | exceptionCatch marker =>
      simp only [awaited, Element.references, Array.toList_push, List.flatMap_append, List.mem_append,
        List.flatMap_singleton, pendingCatch] at mem ⊢
      tauto
  | label | line | droppedLine | droppedLocal | droppedLocalType => exact .inl mem

/-- Only the element of a label places it. -/
theorem place_of_taken {session after : Assembler} {element : Element} (took : Taken session element after)
    {label : Label} (other : element ≠ .label label) : after.place label = session.place label := by
  cases took with
  | @label placed fresh =>
      rw [place_insert, if_neg]
      rintro rfl
      exact other rfl
  | _ => rfl

/-- Taking an element keeps the options. -/
theorem options_of_taken {session after : Assembler} {element : Element} (took : Taken session element after) :
    after.options = session.options := by
  cases took <;> rfl

namespace Agrees

variable {options : Options} {lasting : List Label} {placed : Std.HashMap Label Nat}
  {session after : Assembler} {element : Element}

/-- Both still agree after an element that refers to labels that are let through, if the places of these are
still the same. -/
theorem of_taken (agrees : Agrees options lasting placed session) (took : Taken session element after)
    (refers : ∀ label ∈ element.references, options.keeps lasting (.label label) = true)
    {next : Std.HashMap Label Nat} (places : ∀ label, options.keeps lasting (.label label) = true →
      (after.passing next).place label = after.place label) :
    Agrees options lasting next after where
  options_eq := (options_of_taken took).trans agrees.options_eq
  place_eq := places
  awaits := fun label mem => (awaited_of_taken took mem).elim (agrees.awaits label) (refers label)

/-- Both emit an instruction alike if the labels it may jump to are let through. -/
theorem emit_eq (agrees : Agrees options lasting placed session) {i : Instruction}
    (refers : ∀ label ∈ i.targets, options.keeps lasting (.label label) = true) :
    i.emit (session.passing placed).place (session.passing placed).code.size =
      i.emit session.place session.code.size :=
  Instruction.emit_congr (fun label jumps => agrees.place_eq label (refers label jumps)) _

/-- An element that is let through is taken by both. -/
theorem took (agrees : Agrees options lasting placed session)
    (kept : options.keeps lasting element = true)
    (refers : ∀ label ∈ element.references, options.keeps lasting (.label label) = true)
    (took : Taken session element after) :
    ∃ next, Taken (session.passing placed) element (after.passing next) ∧
      Agrees options lasting next after := by
  cases took with
  | instruction emitted =>
      exact ⟨placed, .instruction ((agrees.emit_eq refers).trans emitted),
        agrees.of_taken (.instruction emitted) refers agrees.place_eq⟩
  | @label label fresh =>
      refine ⟨placed.insert label session.code.size, .label ((agrees.place_eq label kept).trans fresh),
        agrees.of_taken (.label fresh) refers fun other keepsOther => ?_⟩
      rw [place_insert, ← agrees.place_eq other keepsOther]
      exact place_insert (session.passing placed) label other session.code.size
  | line number passes =>
      exact ⟨placed, .line number rfl, agrees.of_taken (.line number passes) refers agrees.place_eq⟩
  | localVariable passes entered =>
      exact ⟨placed, .localVariable rfl entered,
        agrees.of_taken (.localVariable passes entered) refers agrees.place_eq⟩
  | localVariableType passes entered =>
      exact ⟨placed, .localVariableType rfl entered,
        agrees.of_taken (.localVariableType passes entered) refers agrees.place_eq⟩
  | exceptionCatch marker =>
      exact ⟨placed, .exceptionCatch marker, agrees.of_taken (.exceptionCatch marker) refers agrees.place_eq⟩
  | droppedLine number drops | droppedLocal marker drops | droppedLocalType marker drops =>
      rw [agrees.options_eq] at drops
      exact absurd (of_decide_eq_true kept) drops

/-- An element that is let through is refused by both, for the same reason. -/
theorem refused (agrees : Agrees options lasting placed session)
    (kept : options.keeps lasting element = true)
    (refers : ∀ label ∈ element.references, options.keeps lasting (.label label) = true) {fault : Fault}
    (refused : Refused session element fault after) :
    Refused (session.passing placed) element fault (after.passing placed) := by
  cases refused with
  | instruction failed => exact .instruction ((agrees.emit_eq refers).trans failed)
  | @label label position there => exact .label ((agrees.place_eq label kept).trans there)
  | localVariable passes failed => exact .localVariable rfl failed
  | localVariableType passes failed => exact .localVariableType rfl failed

/-- An element that is left out makes no difference to the session that is not given it. -/
theorem leftOut (agrees : Agrees options lasting placed session)
    (leaves : options.keeps lasting element = false)
    (fresh : ∀ label, element = .label label → session.place label = none) :
    ∃ after, Taken session element after ∧ after.passing placed = session.passing placed ∧
      Agrees options lasting placed after := by
  have keeps := agrees.options_eq
  cases element with
  | instruction i => cases leaves
  | exceptionCatch marker => cases leaves
  | label label =>
      -- The label gets a place that nothing that is let through looks up.
      have took : Taken session (.label label) _ := .label (fresh label rfl)
      refine ⟨_, took, rfl, agrees.of_taken took (fun _ mem => nomatch mem) fun other keepsOther => ?_⟩
      have distinct : label ≠ other := by
        rintro rfl
        exact Bool.false_ne_true (leaves.symm.trans keepsOther)
      rw [place_insert, if_neg distinct]
      exact agrees.place_eq other keepsOther
  | line number => exact ⟨session, .droppedLine number (keeps ▸ of_decide_eq_false leaves), rfl, agrees⟩
  | localVariable marker =>
      exact ⟨session, .droppedLocal marker (keeps ▸ of_decide_eq_false leaves), rfl, agrees⟩
  | localVariableType marker =>
      exact ⟨session, .droppedLocalType marker (keeps ▸ of_decide_eq_false leaves), rfl, agrees⟩

end Agrees

/-! ## Runs that agree -/

/-- An element that is taken is followed by the rest. -/
theorem addAll_cons_of_taken {session after : Assembler} {element : Element}
    (took : Taken session element after) (rest : List Element) :
    addAll (element :: rest) session = addAll rest after := by
  change EStateM.bind (add element) (fun _ => addAll rest) session = _
  rw [EStateM.bind, add_of_taken took]

/-- An element that is refused is the last. -/
theorem addAll_cons_of_refused {session after : Assembler} {element : Element} {fault : Fault}
    (refused : Refused session element fault after) (rest : List Element) :
    addAll (element :: rest) session = .error fault after := by
  change EStateM.bind (add element) (fun _ => addAll rest) session = _
  rw [EStateM.bind, add_eq_error_iff.mpr refused]

/-- What two runs come to that agree: both took everything, or both stopped with the same fault. -/
inductive Matches (options : Options) (lasting : List Label) :
    EStateM.Result Fault Assembler Unit → EStateM.Result Fault Assembler Unit → Prop where
  /-- Both took everything, and agree. -/
  | ok {placed : Std.HashMap Label Nat} {session : Assembler}
      (agrees : Agrees options lasting placed session) :
      Matches options lasting (.ok () (session.passing placed)) (.ok () session)
  /-- Both stopped. -/
  | error (fault : Fault) (placed : Std.HashMap Label Nat) (session : Assembler) :
      Matches options lasting (.error fault (session.passing placed)) (.error fault session)

namespace Agrees

variable {options : Options} {lasting : List Label} {placed : Std.HashMap Label Nat} {session : Assembler}

/-- Sessions that agree still do after the one took elements and the other took what options leave of them.
Labels that are left out have to be placed once, or they would be refused where they are not left out. -/
theorem addAll {elements : List Element} (agrees : Agrees options lasting placed session)
    (refers : ∀ element ∈ elements, options.keeps lasting element = true →
      ∀ label ∈ element.references, options.keeps lasting (.label label) = true)
    (once : ∀ label, elements.count (.label label) ≤ 1)
    (fresh : ∀ label, .label label ∈ elements → session.place label = none) :
    Matches options lasting
      (addAll (elements.filter (options.keeps lasting)) (session.passing placed))
      (addAll elements session) := by
  induction elements generalizing session placed with
  | nil => exact .ok agrees
  | cons element rest ih =>
      obtain ⟨refersFirst, refersRest⟩ := List.forall_mem_cons.mp refers
      have onceRest : ∀ label, rest.count (.label label) ≤ 1 :=
        fun label => Nat.le_trans List.count_le_count_cons (once label)
      -- A label that the first element places does not come again, so those of the rest have no place yet.
      have freshRest : ∀ {after}, Taken session element after →
          ∀ label, .label label ∈ rest → after.place label = none := by
        intro after took label mem
        have other : element ≠ .label label := by
          rintro rfl
          have twice := once label
          have again := List.count_pos_iff.mpr mem
          rw [List.count_cons_self] at twice
          omega
        rw [place_of_taken took other]
        exact fresh label (List.mem_cons_of_mem _ mem)
      cases kept : options.keeps lasting element with
      | false =>
          obtain ⟨after, took, same, still⟩ := agrees.leftOut kept fun label placing =>
            fresh label (placing ▸ List.mem_cons_self)
          rw [List.filter_cons_of_neg (Bool.eq_false_iff.mp kept), addAll_cons_of_taken took, ← same]
          exact ih still refersRest onceRest (freshRest took)
      | true =>
          rw [List.filter_cons_of_pos kept]
          cases added : add element session with
          | ok _ after =>
              have took := taken_of_add added
              obtain ⟨next, alsoTook, still⟩ := agrees.took kept (refersFirst kept) took
              rw [addAll_cons_of_taken took, addAll_cons_of_taken alsoTook]
              exact ih still refersRest onceRest (freshRest took)
          | error fault after =>
              have refused := add_eq_error_iff.mp added
              rw [addAll_cons_of_refused refused,
                addAll_cons_of_refused (agrees.refused kept (refersFirst kept) refused)]
              exact .error fault placed after

/-! ## Finishing -/

/-- Both have the same position for the end of a range. -/
theorem rangePosition_eq (agrees : Agrees options lasting placed session) {label : Label}
    (mem : label ∈ session.awaited) :
    (session.passing placed).rangePosition label = session.rangePosition label := by
  rw [rangePosition, rangePosition, agrees.place_eq label (agrees.awaits label mem)]
  rfl

/-- Both lay out a handler alike. -/
theorem exceptionRow?_eq (agrees : Agrees options lasting placed session) (length : Nat)
    {pending : PendingCatch} (mem : pending ∈ session.catches) :
    (session.passing placed).exceptionRow? length pending = session.exceptionRow? length pending := by
  have awaits : ∀ label ∈ [pending.start, pending.stop, pending.handler], label ∈ session.awaited := by
    intro label refers
    refine List.mem_append_left _ (List.mem_append_right _ ?_)
    exact List.mem_flatMap.mpr ⟨pending, Array.mem_toList_iff.mpr mem, refers⟩
  simp only [List.forall_mem_cons, List.not_mem_nil, false_implies, implies_true, and_true] at awaits
  obtain ⟨start, stop, handler⟩ := awaits
  simp only [exceptionRow?, agrees.rangePosition_eq start, agrees.rangePosition_eq stop,
    agrees.rangePosition_eq handler]

/-- Both lay out a local variable alike. -/
theorem localRow?_eq (agrees : Agrees options lasting placed session) (length : Nat)
    {pending : PendingLocal} (mem : pending ∈ session.locals.toList ++ session.localTypes.toList) :
    (session.passing placed).localRow? length pending = session.localRow? length pending := by
  have awaits : ∀ label ∈ [pending.start, pending.stop], label ∈ session.awaited :=
    fun label refers => List.mem_append_right _ (List.mem_flatMap.mpr ⟨pending, mem, refers⟩)
  simp only [List.forall_mem_cons, List.not_mem_nil, false_implies, implies_true, and_true] at awaits
  obtain ⟨start, stop⟩ := awaits
  simp only [localRow?, agrees.rangePosition_eq start, agrees.rangePosition_eq stop]

/-- Both fill in the same offsets. -/
theorem patchedCode_eq (agrees : Agrees options lasting placed session) :
    (session.passing placed).patchedCode = session.patchedCode := by
  rw [patchedCode, patchedCode, ← Array.foldlM_toList, ← Array.foldlM_toList]
  refine Outcome.foldlM_congr (fun patch mem code => ?_) session.code
  have awaits : patch.target ∈ session.awaited :=
    List.mem_append_left _ (List.mem_append_left _ (List.mem_map_of_mem mem))
  rw [applyPatch, applyPatch, agrees.place_eq _ (agrees.awaits _ awaits)]

/-- Sessions that agree are finished alike. -/
theorem finish_eq (agrees : Agrees options lasting placed session) :
    (session.passing placed).finish = session.finish := by
  have exceptions : ∀ length, (session.passing placed).catches.filterMapM
      ((session.passing placed).exceptionRow? length) =
        session.catches.filterMapM (session.exceptionRow? length) := fun length =>
    Outcome.arrayFilterMapM_congr fun pending mem => agrees.exceptionRow?_eq length mem
  have locals : ∀ length, (session.passing placed).locals.filterMapM
      ((session.passing placed).localRow? length) =
        session.locals.filterMapM (session.localRow? length) := fun length =>
    Outcome.arrayFilterMapM_congr fun pending mem => agrees.localRow?_eq length
      (List.mem_append_left _ (Array.mem_toList_iff.mpr mem))
  have localTypes : ∀ length, (session.passing placed).localTypes.filterMapM
      ((session.passing placed).localRow? length) =
        session.localTypes.filterMapM (session.localRow? length) := fun length =>
    Outcome.arrayFilterMapM_congr fun pending mem => agrees.localRow?_eq length
      (List.mem_append_right _ (Array.mem_toList_iff.mpr mem))
  simp only [finish, agrees.patchedCode_eq, exceptions, locals, localTypes]
  rfl

/-- Sessions without code agree. -/
theorem start (pool : Pool) (options : Options) (lasting : List Label) :
    Agrees options lasting ∅ (start pool options) where
  options_eq := rfl
  place_eq := fun _ _ => rfl
  awaits := fun _ mem => nomatch mem

end Agrees

/-! ## Building -/

/-- What a run comes to: finished code or the first fault, and the pool as it was left. -/
def conclude : EStateM.Result Fault Assembler Unit → Except Fault Built × Pool
  | .ok _ session => (session.finish, session.pool)
  | .error fault session => (.error fault, session.pool)

/-- What becomes of elements that a fresh session over a pool takes in order. -/
def build (pool : Pool) (options : Options) (elements : List Element) : Except Fault Built × Pool :=
  conclude (addAll elements (start pool options))

/-- Runs that agree come to the same. -/
theorem Matches.conclude_eq {options : Options} {lasting : List Label}
    {first second : EStateM.Result Fault Assembler Unit} (h : Matches options lasting first second) :
    conclude first = conclude second := by
  cases h with
  | ok agrees => exact congrArg (·, _) agrees.finish_eq
  | error fault placed session => rfl

/-- Leaving elements out before they are built is leaving them out while they are built. -/
theorem build_selected (pool : Pool) (options : Options) {elements : List Element}
    (once : ∀ label, elements.count (.label label) ≤ 1) :
    build pool { deadLabels := options.deadLabels } (options.selected elements) =
      build pool options elements := by
  have agrees := Agrees.start pool options (Element.lastingReferences elements)
  refine (agrees.addAll (fun element mem kept label refers => Options.keeps_label mem kept refers) once
    fun label mem => ?_).conclude_eq
  exact Std.HashMap.getElem?_empty

end Assembler

namespace CodeAttribute

/-- Leaving out while decoding or while building comes to the same. Let `attr.decode` give `full` with all
options at `.pass`. Decoding with any `debugElements` and `lineNumbers` then succeeds too, and `Assembler.build`
of the result with default options is `Assembler.build` of `full` with these options: the same `Built` or the
same fault, and the same pool. -/
theorem build_decoded_dropping {attr : CodeAttribute} {pool : Pool} {full : Array Element}
    (decoded : attr.decode pool.resolver {} = .ok full) (debugElements lineNumbers : Passing) :
    ∃ elements, attr.decode pool.resolver { debugElements, lineNumbers } = .ok elements ∧
      Assembler.build pool {} elements.toList =
        Assembler.build pool { debugElements, lineNumbers } full.toList := by
  obtain ⟨listing, shape⟩ := decode_eq_ok_iff.mp decoded
  let options : Options := { debugElements, lineNumbers }
  refine ⟨(listing.under options).elements.toArray, decode_eq_ok_iff.mpr ⟨listing.under options, rfl⟩, ?_⟩
  rw [listing.elements_under, shape]
  refine Assembler.build_selected pool options fun label => ?_
  by_cases placed : .label label ∈ listing.elements
  · exact Nat.le_of_eq (listing.count_label_elements (listing.mem_labels_of_label placed))
  · rw [List.count_eq_zero.mpr placed]
    exact Nat.zero_le 1

/-- The jump comes to the same without its local variables and lines, whenever they are left out. -/
theorem build_decoded_dropping_sharedTarget :
    sharedTarget.decode namedPool.resolver {} = .ok sharedElements ∧ ∃ elements,
      sharedTarget.decode namedPool.resolver { debugElements := .drop, lineNumbers := .drop } = .ok elements ∧
        Assembler.build namedPool {} elements.toList =
          Assembler.build namedPool { debugElements := .drop, lineNumbers := .drop } sharedElements.toList :=
  ⟨decode_sharedTarget, build_decoded_dropping decode_sharedTarget .drop .drop⟩

end CodeAttribute

end JvmCode
