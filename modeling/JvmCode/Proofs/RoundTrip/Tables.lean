import JvmCode.Proofs.Pool.ByteForm
import JvmCode.Proofs.RoundTrip.Rebuilding

/-! # Building the tables of what was decoded

Elements that were decoded build the tables that they come from. Handlers come back as they were. Local
variables may get other indexes for their texts, because a pool gives every text one index. Lines come
back in the order of their positions, because they travel with the instructions.

* **`Assembler.SharesTexts`** is the invariant of sessions behind the indexes: every text is recorded at
  the index at which the pool shares it.
* **`LocalRow.SharedAs`** relates a row to the row that comes back.
* `eq_mergeSort_of_filter_eq` is the order behind the lines: sorted by position, and at each position in
  the order of the table.
* `CodeAttribute.rebuild_tables` puts them together. -/

namespace JvmCode

/-! ## Texts at shared indexes -/

namespace Pool

variable {pool larger : Pool} {index : UInt16}

/-- An index at which a pool shares a text. -/
def SharesAt (pool : Pool) (index : UInt16) : Prop :=
  ∃ value, pool.indexOf[Entry.text value]? = some index

/-- A text stays shared at its index while the pool grows. -/
theorem SharesAt.mono (h : pool.SharesAt index) (grown : pool.Grows larger) : larger.SharesAt index := by
  obtain ⟨value, shared⟩ := h
  exact ⟨value, grown.indexOf_eq_some shared⟩

/-- An index at which a sound pool shares a text is the lowest with this text. -/
theorem SharesAt.lowest (h : pool.SharesAt index) (sound : pool.Sound) {value : String}
    (holds : pool.get? index = some (.text value)) : pool.Lowest (.text value) index := by
  obtain ⟨other, shared⟩ := h
  have least := (sound.shared (.text other) index).mp shared
  have same : some (Entry.text other) = some (.text value) := least.1.symm.trans holds
  rw [← Option.some.inj same]
  exact least

end Pool

namespace Assembler

variable {session after : Assembler} {pool larger : Pool} {pending : PendingLocal}

/-- The texts of a recorded local variable are at indexes at which a pool shares them. -/
def PendingShared (pool : Pool) (pending : PendingLocal) : Prop :=
  pool.SharesAt pending.nameIndex ∧ pool.SharesAt pending.typeIndex

/-- Indexes that are shared stay so while the pool grows. -/
theorem PendingShared.mono (h : PendingShared pool pending) (grown : pool.Grows larger) :
    PendingShared larger pending :=
  ⟨h.1.mono grown, h.2.mono grown⟩

/-- The texts of a local variable are entered at the indexes at which the pool shares them. -/
theorem pendingShared_of_pendingLocal {marker : LocalMarker}
    (entered : pendingLocal marker pool = .ok pending larger) : PendingShared larger pending := by
  obtain ⟨nameIndex, middle, named, rest⟩ := Interning.bind_eq_ok_iff.mp entered
  obtain ⟨typeIndex, last, typed, rest⟩ := Interning.bind_eq_ok_iff.mp rest
  obtain ⟨rfl, rfl⟩ := Interning.pure_eq_ok_iff.mp rest
  have grown := (Interning.Grows.intern _).of_ok typed
  have shared := Pool.indexOf_of_intern named
  exact ⟨⟨marker.name, grown.indexOf_eq_some shared⟩, marker.type, Pool.indexOf_of_intern typed⟩

/-- All texts that a session recorded are at the indexes at which its pool shares them. -/
def SharesTexts (session : Assembler) : Prop :=
  ∀ pending, pending ∈ session.locals ∨ pending ∈ session.localTypes → PendingShared session.pool pending

namespace SharesTexts

/-- While the pool grows, texts stay at shared indexes. -/
theorem grown (h : SharesTexts session) (grown : session.pool.Grows larger) :
    SharesTexts { session with pool := larger } := by
  intro pending mem
  exact (h pending mem).mono grown

/-- Taking an element keeps texts at shared indexes. -/
theorem took (h : SharesTexts session) {element : Element} (took : Taken session element after) :
    SharesTexts after := by
  cases took with
  | localVariable passes entered =>
      rename_i marker pending larger
      have grown := (grows_pendingLocal marker).of_ok entered
      intro other mem
      rcases mem with mem | mem
      · rcases Array.mem_push.mp mem with mem | rfl
        · exact (h other (.inl mem)).mono grown
        · exact pendingShared_of_pendingLocal entered
      · exact (h other (.inr mem)).mono grown
  | localVariableType passes entered =>
      rename_i marker pending larger
      have grown := (grows_pendingLocal marker).of_ok entered
      intro other mem
      rcases mem with mem | mem
      · exact (h other (.inl mem)).mono grown
      · rcases Array.mem_push.mp mem with mem | rfl
        · exact (h other (.inr mem)).mono grown
        · exact pendingShared_of_pendingLocal entered
  | instruction emitted => exact h
  | label fresh => exact h
  | line number passes => exact h
  | exceptionCatch marker => exact h
  | droppedLine number drops => exact h
  | droppedLocal marker drops => exact h
  | droppedLocalType marker drops => exact h

/-- A step keeps texts at shared indexes. -/
theorem step (h : SharesTexts session) {more : List Element} (step : Step session more after) :
    SharesTexts after := by
  cases step with
  | took added => exact h.took (taken_of_add added)
  | refused refused =>
      obtain ⟨larger, grows, rfl⟩ := grows_of_add_error refused
      exact h.grown grows
  | minted minted =>
      cases minted
      exact h
  | grown grows => exact h.grown grows

end SharesTexts

/-- Every session records texts at shared indexes. -/
theorem Session.sharesTexts {options : Options} {taken : List Element}
    (run : Session pool options taken session) : SharesTexts session := by
  induction run with
  | start =>
      intro pending mem
      rcases mem with mem | mem
      · exact absurd mem (Array.not_mem_empty pending)
      · exact absurd mem (Array.not_mem_empty pending)
  | step _ step ih => exact ih.step step

/-- A row that a session makes of its local variables has texts at shared indexes. -/
theorem SharesTexts.of_made (h : SharesTexts session) {pendings : Array PendingLocal}
    (recorded : ∀ pending ∈ pendings, pending ∈ session.locals ∨ pending ∈ session.localTypes)
    {length : Nat} {rows : List (Option LocalRow)}
    (made : List.Forall₂ (fun pending row => session.localRow? length pending = .ok row)
      pendings.toList rows) {row : LocalRow} (mem : row ∈ rows.reduceOption) :
    session.pool.SharesAt row.nameIndex ∧ session.pool.SharesAt row.typeIndex := by
  have within : some row ∈ rows := List.reduceOption_mem_iff.mp mem
  obtain ⟨pending, waited, becomes⟩ := Outcome.exists_of_forall₂_of_mem made within
  obtain ⟨_, _, -, -, -, -, rfl⟩ := localRow?_eq_ok_some_iff.mp becomes
  exact h pending (recorded pending (Array.mem_toList_iff.mp waited))

/-- The local variable rows that a session is finished with have texts at shared indexes. -/
theorem SharesTexts.of_finish (h : SharesTexts session) {built : Built}
    (finished : session.finish = .ok built) {row : LocalRow}
    (mem : row ∈ built.locals.toList ∨ row ∈ built.localTypes.toList) :
    session.pool.SharesAt row.nameIndex ∧ session.pool.SharesAt row.typeIndex := by
  obtain ⟨-, -, -, ⟨rows, made, locals⟩, ⟨rows', made', localTypes⟩, -⟩ := finish_eq_ok_iff.mp finished
  rcases mem with mem | mem
  · rw [locals] at mem
    exact h.of_made (fun _ => .inl) made mem
  · rw [localTypes] at mem
    exact h.of_made (fun _ => .inr) made' mem

end Assembler

/-! ## Local variables -/

/-- A row with the same range and variable, whose name and descriptor or signature are the same texts, at
the lowest indexes that have them. -/
structure LocalRow.SharedAs (pool : Pool) (row shared : LocalRow) : Prop where
  /-- The range starts where it started. -/
  startPc : shared.startPc = row.startPc
  /-- The range is as long as it was. -/
  length : shared.length = row.length
  /-- The local variable is the same. -/
  slot : shared.slot = row.slot
  /-- The name is the same text. -/
  name : ∃ value, pool.get? row.nameIndex = some (.text value) ∧
    pool.Lowest (.text value) shared.nameIndex
  /-- The descriptor or signature is the same text. -/
  type : ∃ value, pool.get? row.typeIndex = some (.text value) ∧
    pool.Lowest (.text value) shared.typeIndex

/-- Of two rows that become one marker, the one with texts at shared indexes is what the other comes back
as. -/
theorem LocalRow.sharedAs_of_markedBy {pool : Pool} (sound : pool.Sound) {is : List Instruction}
    {row shared : LocalRow} {marker : LocalMarker} (marked : row.MarkedBy pool.resolver is marker)
    (again : shared.MarkedBy pool.resolver is marker)
    (shares : pool.SharesAt shared.nameIndex ∧ pool.SharesAt shared.typeIndex) :
    row.SharedAs pool shared := by
  have startPc : shared.startPc = row.startPc := by
    have same := marked.start_eq.symm.trans again.start_eq
    injection same with same
    exact same.symm
  have endPc : shared.endPc = row.endPc := by
    have same := marked.stop_eq.symm.trans again.stop_eq
    exact (Option.some.inj same).symm
  refine ⟨startPc, ?_, again.slot.symm.trans marked.slot, ?_, ?_⟩
  · apply UInt16.toNat.inj
    unfold LocalRow.endPc at endPc
    rw [startPc] at endPc
    omega
  · exact ⟨marker.name, Pool.text_eq_ok_iff.mp marked.name,
      shares.1.lowest sound (Pool.text_eq_ok_iff.mp again.name)⟩
  · exact ⟨marker.type, Pool.text_eq_ok_iff.mp marked.type,
      shares.2.lowest sound (Pool.text_eq_ok_iff.mp again.type)⟩

/-- Rows that become the same markers, in order, are what the others come back as, in order. -/
theorem LocalRow.forall₂_sharedAs {pool : Pool} (sound : pool.Sound) {is : List Instruction}
    {rows shared : List LocalRow} {markers : List LocalMarker}
    (marked : List.Forall₂ (LocalRow.MarkedBy pool.resolver is) rows markers)
    (again : List.Forall₂ (LocalRow.MarkedBy pool.resolver is) shared markers)
    (shares : ∀ row ∈ shared, pool.SharesAt row.nameIndex ∧ pool.SharesAt row.typeIndex) :
    List.Forall₂ (LocalRow.SharedAs pool) rows shared := by
  induction marked generalizing shared with
  | nil =>
      cases again
      exact .nil
  | cons first _ ih =>
      obtain _ | ⟨firstAgain, othersAgain⟩ := again
      refine .cons (sharedAs_of_markedBy sound first firstAgain (shares _ (List.mem_cons_self ..))) ?_
      exact ih othersAgain fun row mem => shares row (List.mem_cons_of_mem _ mem)

/-! ## Lines -/

/-- Line numbers come in the order of their positions. -/
theorem Element.pairwise_lineMarksFrom (bci : Nat) (elements : List Element) :
    (lineMarksFrom bci elements).Pairwise fun first second => first.1 ≤ second.1 := by
  induction elements generalizing bci with
  | nil => exact .nil
  | cons element rest ih =>
      cases element with
      | line number =>
          refine List.pairwise_cons.mpr ⟨?_, ih bci⟩
          intro mark mem
          exact (boundary_of_lineMarksFrom mem).bounds.1
      | instruction i => exact ih _
      | _ => exact ih bci

section Sorting

variable {α : Type} {key : α → Nat}

/-- Lists that have the same items with each key have the same items. -/
theorem mem_iff_of_filter_eq {first second : List α}
    (same : ∀ k, first.filter (fun a => key a == k) = second.filter fun a => key a == k) (a : α) :
    a ∈ first ↔ a ∈ second := by
  have here := congrArg (a ∈ ·) (same (key a))
  simpa using here

/-- Sorted lists that have the same items with each key, in the same order, are equal. -/
theorem eq_of_pairwise_of_filter_eq {first second : List α}
    (sorted : first.Pairwise fun a b => key a ≤ key b) (sorted' : second.Pairwise fun a b => key a ≤ key b)
    (same : ∀ k, first.filter (fun a => key a == k) = second.filter fun a => key a == k) :
    first = second := by
  induction first generalizing second with
  | nil =>
      symm
      apply List.eq_nil_iff_forall_not_mem.mpr
      intro a mem
      exact List.not_mem_nil ((mem_iff_of_filter_eq same a).mpr mem)
  | cons a rest ih =>
      have mem_iff := mem_iff_of_filter_eq same
      rcases second with _ | ⟨b, others⟩
      · exact absurd ((mem_iff a).mp (List.mem_cons_self ..)) List.not_mem_nil
      have least : key a ≤ key b := by
        rcases List.mem_cons.mp ((mem_iff b).mpr (List.mem_cons_self ..)) with rfl | mem
        · exact Nat.le_refl _
        · exact (List.pairwise_cons.mp sorted).1 b mem
      have least' : key b ≤ key a := by
        rcases List.mem_cons.mp ((mem_iff a).mp (List.mem_cons_self ..)) with rfl | mem
        · exact Nat.le_refl _
        · exact (List.pairwise_cons.mp sorted').1 a mem
      have keys : key b = key a := Nat.le_antisymm least' least
      -- Both lists start with the first item that has the least key.
      have heads : a = b := by
        have here := same (key a)
        simp only [List.filter_cons, beq_self_eq_true, if_true, keys] at here
        exact (List.cons.inj here).1
      subst heads
      have tails : ∀ k, rest.filter (fun a => key a == k) = others.filter fun a => key a == k := by
        intro k
        have here := same k
        simp only [List.filter_cons] at here
        by_cases found : (key a == k) = true
        · rw [if_pos found, if_pos found] at here
          exact (List.cons.inj here).2
        · rw [if_neg found, if_neg found] at here
          exact here
      rw [ih (List.pairwise_cons.mp sorted).2 (List.pairwise_cons.mp sorted').2 tails]

/-- Comparing keys is transitive. -/
theorem decide_key_trans (a b c : α) (first : decide (key a ≤ key b)) (second : decide (key b ≤ key c)) :
    decide (key a ≤ key c) = true := by
  rw [decide_eq_true_eq] at first second ⊢
  exact Nat.le_trans first second

/-- Keys can always be compared. -/
theorem decide_key_total (a b : α) : (decide (key a ≤ key b) || decide (key b ≤ key a)) = true := by
  simpa using Nat.le_total (key a) (key b)

/-- Sorting keeps the items with a key and their order. -/
theorem filter_mergeSort (items : List α) (k : Nat) :
    ((items.mergeSort fun a b => key a ≤ key b).filter fun a => key a == k) =
      items.filter fun a => key a == k := by
  -- Items with one key are sorted already, so they are left in their order.
  have sorted : (items.filter fun a => key a == k).Pairwise fun a b => decide (key a ≤ key b) := by
    refine List.pairwise_of_forall_mem_list fun a mem b mem' => ?_
    have first : key a = k := eq_of_beq (List.mem_filter.mp mem).2
    have second : key b = k := eq_of_beq (List.mem_filter.mp mem').2
    rw [first, second]
    exact decide_eq_true (Nat.le_refl k)
  have kept := (List.sublist_mergeSort decide_key_trans decide_key_total sorted List.filter_sublist).filter
    fun a => key a == k
  rw [List.filter_filter] at kept
  simp only [Bool.and_self] at kept
  exact (kept.eq_of_length
    ((List.mergeSort_perm items _).filter _).length_eq.symm).symm

/-- A sorted list that has the same items with each key as another, in the same order, is the other list
sorted. -/
theorem eq_mergeSort_of_filter_eq {first second : List α}
    (sorted : first.Pairwise fun a b => key a ≤ key b)
    (same : ∀ k, first.filter (fun a => key a == k) = second.filter fun a => key a == k) :
    first = second.mergeSort fun a b => key a ≤ key b := by
  refine eq_of_pairwise_of_filter_eq sorted ?_ fun k => ?_
  · have pairwise := List.pairwise_mergeSort (@decide_key_trans α key) decide_key_total second
    simpa using pairwise
  · rw [filter_mergeSort, same]

end Sorting

/-- The line rows of a replayed session are those of the attribute, sorted by their positions. -/
theorem Assembler.Replayed.lineRows_eq_mergeSort {pool : Pool} {attr : CodeAttribute}
    {listing : Listing attr pool.resolver {}} {session : Assembler}
    (replayed : Assembler.Replayed listing session) (small : attr.code.size < 65536) :
    (session.lineRows attr.code.size).toList =
      attr.lines.toList.mergeSort fun first second => first.startPc.toNat ≤ second.startPc.toNat := by
  refine eq_mergeSort_of_filter_eq ?_ (replayed.filter_lineRows small)
  rw [replayed.lineRows_eq, List.pairwise_map]
  refine List.Pairwise.imp_of_mem ?_ (Element.pairwise_lineMarksFrom 0 listing.elements)
  intro first second mem mem' ordered
  show (UInt16.ofNat first.1).toNat ≤ (UInt16.ofNat second.1).toNat
  rw [replayed.toNat_lineMark small mem, replayed.toNat_lineMark small mem']
  exact ordered

namespace CodeAttribute

variable {pool : Pool} {attr : CodeAttribute} {elements : Array Element}

/-- The tables of what was decoded come back. If `attr.decode` gives `elements`, a session over the same pool
that takes them is finished with `attr.exceptions`, with local variables that are `LocalRow.SharedAs` those of
`attr` row for row (the same texts, at the lowest indexes that have them), and with `attr.lines` in the stable
`mergeSort` by `startPc`. The pool stays as it was. -/
theorem rebuild_tables (reachable : pool.Reachable)
    (sized : 1 ≤ attr.code.size ∧ attr.code.size ≤ 65535) (checked : attr.checkTables = .ok ())
    (decoded : attr.decode pool.resolver {} = .ok elements) :
    ∃ session built, Assembler.addAll elements.toList (Assembler.start pool {}) = .ok () session ∧
      session.finish = .ok built ∧
      built.exceptions = attr.exceptions ∧
      List.Forall₂ (LocalRow.SharedAs pool) attr.locals.toList built.locals.toList ∧
      List.Forall₂ (LocalRow.SharedAs pool) attr.localTypes.toList built.localTypes.toList ∧
      built.lines.toList = attr.lines.toList.mergeSort
        (fun first second => first.startPc.toNat ≤ second.startPc.toNat) ∧
      session.pool = pool := by
  obtain ⟨listing, listed⟩ := decode_eq_ok_iff.mp decoded
  obtain ⟨session, took, pool_eq⟩ := Assembler.exists_addAll_elements reachable.sound listing
  have run : Assembler.Session pool {} listing.elements session := Assembler.Session.start.addAll took
  have replayed : Assembler.Replayed listing session := ⟨reachable.sound, run, pool_eq⟩
  obtain ⟨built, finished, -, lines, exceptions, markLocals, markLocalTypes⟩ :=
    replayed.exists_finish checked sized
  have shares : ∀ row, row ∈ built.locals.toList ∨ row ∈ built.localTypes.toList →
      pool.SharesAt row.nameIndex ∧ pool.SharesAt row.typeIndex := by
    intro row mem
    rw [← pool_eq]
    exact run.sharesTexts.of_finish finished mem
  have sorted := replayed.lineRows_eq_mergeSort (Nat.lt_succ_of_le sized.2)
  rw [← lines] at sorted
  refine ⟨session, built, listed ▸ took, finished, exceptions, ?_, ?_, sorted, pool_eq⟩
  · exact LocalRow.forall₂_sharedAs reachable.sound listing.markLocals markLocals
      fun row mem => shares row (.inl mem)
  · exact LocalRow.forall₂_sharedAs reachable.sound listing.markLocalTypes markLocalTypes
      fun row mem => shares row (.inr mem)

/-- A pool that has a text twice. -/
def twiceNamed : Pool := Pool.empty.pushAll [.text "x", .text "x", .text "I"]

/-- The pool can be read. -/
theorem reachable_twiceNamed : twiceNamed.Reachable := by
  refine Pool.reachable_pushAll ?_ (by decide)
  decide

/-- Guarded code with a local variable whose name is the second text of two, and with lines that are not in
order. -/
def namedTwice : CodeAttribute where
  code := #[0x00, 0xb1]
  exceptions := #[⟨0, 1, 1, 0⟩]
  lines := #[⟨1, 20⟩, ⟨0, 10⟩, ⟨1, 21⟩]
  locals := #[⟨0, 2, 2, 3, 0⟩]

/-- The code is decoded. -/
theorem exists_decode_namedTwice : ∃ elements, namedTwice.decode twiceNamed.resolver {} = .ok elements := by
  have reads : Reads twiceNamed.resolver namedTwice.code 0 [⟨.nop, .none⟩, ⟨.returnVoid, .none⟩] := by
    refine Reads.of_assemble ?_ ?_ rfl
    · rintro i (_ | ⟨_, _ | ⟨_, ⟨⟩⟩⟩)
      · exact .bare
      · exact .bare
    · rintro i (_ | ⟨_, _ | ⟨_, ⟨⟩⟩⟩)
      · trivial
      · trivial
  have first : Instruction.Starts [⟨.nop, .none⟩, ⟨.returnVoid, .none⟩] 0 := ⟨_, List.mem_cons_self ..⟩
  have second : Instruction.Starts [⟨.nop, .none⟩, ⟨.returnVoid, .none⟩] 1 :=
    ⟨_, List.mem_cons_of_mem _ (List.mem_cons_self ..)⟩
  have lands : ∀ i ∈ [⟨.nop, .none⟩, ⟨.returnVoid, .none⟩], ∀ target ∈ Instruction.targets i,
      target.Lands [⟨.nop, .none⟩, ⟨.returnVoid, .none⟩] := by
    rintro i (_ | ⟨_, _ | ⟨_, ⟨⟩⟩⟩) target ⟨⟩
  have name : twiceNamed.resolver.text 2 = .ok "x" := rfl
  have type : twiceNamed.resolver.text 3 = .ok "I" := rfl
  let listing : Listing namedTwice twiceNamed.resolver {} :=
    ⟨_, [⟨.decoded 0, .decoded 1, .decoded 1, none⟩], [⟨0, "x", "I", .decoded 0, .decoded 2⟩], [], reads,
      lands, .cons ⟨first, .inl second, second, rfl, rfl, rfl, rfl⟩ .nil,
      .cons ⟨first, .inr rfl, rfl, rfl, name, type, rfl⟩ .nil, .nil, by
        rintro row (_ | ⟨_, _ | ⟨_, _ | ⟨_, ⟨⟩⟩⟩⟩)
        · exact second
        · exact first
        · exact second⟩
  exact ⟨_, decode_eq_ok_iff.mpr ⟨listing, rfl⟩⟩

/-- Rebuilding the code gives its local variable the first of the two texts, and sorts its lines. -/
theorem rebuild_tables_namedTwice : ∃ elements session built,
    namedTwice.decode twiceNamed.resolver {} = .ok elements ∧
      Assembler.addAll elements.toList (Assembler.start twiceNamed {}) = .ok () session ∧
      session.finish = .ok built ∧ (∃ row, built.locals.toList = [row] ∧ row.nameIndex = 1) ∧
      built.lines.toList = [⟨0, 10⟩, ⟨1, 20⟩, ⟨1, 21⟩] := by
  obtain ⟨elements, decoded⟩ := exists_decode_namedTwice
  obtain ⟨session, built, took, finished, -, locals, -, lines, -⟩ :=
    rebuild_tables reachable_twiceNamed (by decide) rfl decoded
  refine ⟨elements, session, built, decoded, took, finished, ?_, ?_⟩
  · obtain ⟨row, rest, shared, none, same⟩ := List.forall₂_cons_left_iff.mp locals
    cases none
    refine ⟨row, same, ?_⟩
    obtain ⟨value, holds, least⟩ := shared.name
    cases holds
    have first : twiceNamed.Lowest (.text "x") 1 := by
      refine ⟨rfl, fun other holds => ?_⟩
      by_cases zero : other = 0
      · rw [zero] at holds
        cases holds
      · have positive : other.toNat ≠ 0 := fun none => zero (UInt16.toNat.inj none)
        exact UInt16.le_iff_toNat_le.mpr (Nat.pos_of_ne_zero positive)
    exact least.unique first
  · rw [lines]
    simp [namedTwice, List.mergeSort]

end CodeAttribute

end JvmCode
