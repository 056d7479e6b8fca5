import JvmCode.Proofs.Instruction.Remade
import Mathlib.Data.List.Nodup

/-! # Where the keys of a switch lead

A switch is made of cases in any order. The dense form has a target for every key between its bounds, the key form
has its cases sorted; both lead every key where the given cases lead it.

* **`SwitchCase.lead`** is where cases lead a key, and **`Operands.selects?`** is where a switch leads it.
* **`tableOf`** is the table of a dense switch when some cases are entered; `enterCase_tableOf` is the step and
  `foldlM_enterCase_tableOf` the run.
* `tableSwitch_eq_ok_iff` and `lookupSwitch_eq_ok_iff` say which switches are made, and of what.
* `switches_lead` puts them together. -/

namespace JvmCode

/-! ## Where keys lead -/

namespace SwitchCase

/-- The target of the first case that has a key. -/
def target? (cases : List SwitchCase) (key : Int32) : Option Label :=
  (cases.find? fun case => case.value == key).map target

/-- Where cases lead a key: to the target of the case that has it, and without one to the default. -/
def lead (cases : List SwitchCase) (default : Label) (key : Int32) : Label := (target? cases key).getD default

variable {cases other : List SwitchCase} {key : Int32}

/-- A key that no case has has no target. -/
theorem target?_of_not_mem (absent : key ∉ cases.map value) : target? cases key = none := by
  rw [target?, Option.map_eq_none_iff, List.find?_eq_none]
  intro case mem
  rw [beq_iff_eq]
  rintro rfl
  exact absent (List.mem_map_of_mem mem)

/-- If no two cases share a key, a case gives its key its target. -/
theorem target?_of_mem (distinct : (cases.map value).Nodup) {case : SwitchCase} (mem : case ∈ cases) :
    target? cases case.value = some case.target := by
  obtain ⟨found, first⟩ : ∃ found, (cases.find? fun other => other.value == case.value) = some found := by
    rw [← Option.isSome_iff_exists, List.find?_isSome]
    exact ⟨case, mem, beq_self_eq_true _⟩
  have same : found.value = case.value := by simpa using List.find?_some first
  obtain rfl := List.inj_on_of_nodup_map distinct (List.mem_of_find?_eq_some first) mem same
  rw [target?, first]
  rfl

/-- A case behind others gives its key a target if they do not. -/
theorem target?_concat (cases : List SwitchCase) (case : SwitchCase) (key : Int32) :
    target? (cases ++ [case]) key =
      (target? cases key).or (if case.value = key then some case.target else none) := by
  simp only [target?, List.find?_append, List.find?_singleton, beq_iff_eq]
  cases cases.find? fun case => case.value == key with
  | some found => rfl
  | none => split <;> rfl

/-- If no two cases share a key, their order does not matter. -/
theorem target?_of_perm (distinct : (cases.map value).Nodup) (perm : cases.Perm other) (key : Int32) :
    target? cases key = target? other key := by
  by_cases present : key ∈ cases.map value
  · obtain ⟨case, mem, rfl⟩ := List.mem_map.mp present
    have also := (perm.map value).nodup_iff.mp distinct
    rw [target?_of_mem distinct mem, target?_of_mem also (perm.mem_iff.mp mem)]
  · rw [target?_of_not_mem present, target?_of_not_mem (mt (perm.map value).mem_iff.mpr present)]

end SwitchCase

/-- Where a switch leads a key: a dense one by the place of the key behind the lower bound, or to the default if it
is out of bounds, and a key switch by the case that has the key. -/
def Operands.selects? : Operands → Int32 → Option Label
  | .table low high default targets, key =>
      if low ≤ key ∧ key ≤ high then targets[(key.toInt - low.toInt).toNat]? else some default
  | .lookup default cases, key => some (SwitchCase.lead cases default key)
  | _, _ => .none

namespace Instruction

/-! ## Dense switches -/

/-- The number of keys from one bound to the other. -/
def keyCount (low high : Int32) : Nat := (high.toInt - low.toInt + 1).toNat

/-- The key at a place behind the lower bound. -/
def keyAt (low : Int32) (place : Nat) : Int32 := Int32.ofInt (low.toInt + place)

/-- The place of a key between the bounds. -/
theorem keyAt_place {low high key : Int32} (above : low ≤ key) (below : key ≤ high) :
    (key.toInt - low.toInt).toNat < keyCount low high ∧ keyAt low (key.toInt - low.toInt).toNat = key := by
  rw [Int32.le_iff_toInt_le] at above below
  constructor
  · unfold keyCount
    omega
  · rw [keyAt, show low.toInt + (key.toInt - low.toInt).toNat = key.toInt by omega, Int32.ofInt_toInt]

/-- The key at a place is between the bounds. -/
theorem toInt_keyAt {low high : Int32} {place : Nat} (inside : place < keyCount low high) :
    (keyAt low place).toInt = low.toInt + place := by
  unfold keyCount at inside
  have within : low.toInt + place ≤ high.toInt := by omega
  exact toInt_key within

/-- The table of a dense switch with some cases entered. -/
def tableOf (low : Int32) (count : Nat) (entered : List SwitchCase) : Array (Option Label) :=
  ((List.range count).map fun place => SwitchCase.target? entered (keyAt low place)).toArray

/-- The table is empty before a case is entered. -/
theorem tableOf_nil (low : Int32) (count : Nat) : tableOf low count [] = Array.replicate count none := by
  simp [tableOf, SwitchCase.target?]

/-- A place of the table holds the target of its key. -/
theorem getElem?_tableOf {low : Int32} {count place : Nat} {entered : List SwitchCase} (inside : place < count) :
    (tableOf low count entered)[place]? = some (SwitchCase.target? entered (keyAt low place)) := by
  simp [tableOf, inside]

variable {low high : Int32} {default : Label} {cases entered : List SwitchCase}

/-- A case of a new key is entered at the place of its key. -/
theorem tableOf_concat {case : SwitchCase} (above : low ≤ case.value) (below : case.value ≤ high)
    (new : case.value ∉ entered.map SwitchCase.value) :
    tableOf low (keyCount low high) (entered ++ [case]) =
      (tableOf low (keyCount low high) entered).setIfInBounds (case.value.toInt - low.toInt).toNat
        (some case.target) := by
  obtain ⟨fits, itsKey⟩ := keyAt_place above below
  apply Array.ext_getElem?
  intro place
  rw [Array.getElem?_setIfInBounds]
  by_cases inside : place < keyCount low high
  · rw [getElem?_tableOf inside, getElem?_tableOf inside, SwitchCase.target?_concat]
    by_cases here : (case.value.toInt - low.toInt).toNat = place
    · rw [here] at itsKey
      rw [itsKey, SwitchCase.target?_of_not_mem new, if_pos rfl, if_pos here, if_pos]
      · rfl
      · simpa [tableOf, here] using inside
    · have elsewhere : case.value ≠ keyAt low place := by
        intro same
        rw [same, toInt_keyAt inside] at here
        omega
      rw [if_neg elsewhere, if_neg here, Option.or_none]
  · have outside : (case.value.toInt - low.toInt).toNat ≠ place := by omega
    rw [if_neg outside]
    simp [tableOf, inside]

/-- A case is entered exactly if its key is between the bounds and new. -/
theorem enterCase_tableOf {case : SwitchCase} {table : Array (Option Label)}
    (distinct : (entered.map SwitchCase.value).Nodup) :
    enterCase low high (tableOf low (keyCount low high) entered) case = .ok table ↔
      (low ≤ case.value ∧ case.value ≤ high) ∧ case.value ∉ entered.map SwitchCase.value ∧
        table = tableOf low (keyCount low high) (entered ++ [case]) := by
  unfold enterCase
  dsimp only
  by_cases within : low ≤ case.value ∧ case.value ≤ high
  · obtain ⟨fits, itsKey⟩ := keyAt_place within.1 within.2
    rw [if_neg (by rw [not_or, Int32.not_lt, Int32.not_lt]; exact within), getElem?_tableOf fits, itsKey]
    by_cases new : case.value ∈ entered.map SwitchCase.value
    · -- The place holds the target of the case that was entered before.
      obtain ⟨before, mem, same⟩ := List.mem_map.mp new
      rw [← same, SwitchCase.target?_of_mem distinct mem, same]
      exact ⟨fun h => (nomatch h), fun h => absurd new h.2.1⟩
    · rw [SwitchCase.target?_of_not_mem new, tableOf_concat within.1 within.2 new]
      constructor
      · intro h
        cases h
        exact ⟨within, new, rfl⟩
      · rintro ⟨-, -, rfl⟩
        rfl
  · rw [if_pos (by rw [← Int32.not_le, ← Int32.not_le]; exact not_and_or.mp within)]
    exact ⟨fun h => (nomatch h), fun h => absurd h.1 within⟩

/-- A case behind others shares no key with them exactly if its key is new. -/
theorem nodup_values_concat {case : SwitchCase} :
    ((entered ++ [case]).map SwitchCase.value).Nodup ↔
      (entered.map SwitchCase.value).Nodup ∧ case.value ∉ entered.map SwitchCase.value := by
  rw [List.map_append, List.map_singleton, ← List.concat_eq_append, List.nodup_concat, and_comm]

/-- Cases are entered exactly if all their keys are between the bounds and no two are the same. -/
theorem foldlM_enterCase_tableOf {table : Array (Option Label)}
    (distinct : (entered.map SwitchCase.value).Nodup) :
    cases.foldlM (enterCase low high) (tableOf low (keyCount low high) entered) = .ok table ↔
      (∀ case ∈ cases, low ≤ case.value ∧ case.value ≤ high) ∧
        ((entered ++ cases).map SwitchCase.value).Nodup ∧
        table = tableOf low (keyCount low high) (entered ++ cases) := by
  induction cases generalizing entered with
  | nil =>
      rw [List.foldlM_nil, Outcome.pure_eq_ok_iff, List.append_nil]
      exact ⟨fun h => ⟨nofun, distinct, h.symm⟩, fun h => h.2.2.symm⟩
  | cons case rest ih =>
      have regroup : entered ++ case :: rest = (entered ++ [case]) ++ rest := by simp
      rw [List.foldlM_cons, Outcome.bind_eq_ok_iff, regroup, List.forall_mem_cons]
      constructor
      · rintro ⟨_, first, others⟩
        obtain ⟨within, new, rfl⟩ := (enterCase_tableOf distinct).mp first
        have still := nodup_values_concat.mpr ⟨distinct, new⟩
        obtain ⟨inside, all, same⟩ := (ih still).mp others
        exact ⟨⟨within, inside⟩, all, same⟩
      · rintro ⟨⟨within, inside⟩, all, same⟩
        have still : ((entered ++ [case]).map SwitchCase.value).Nodup := by
          rw [List.map_append] at all
          exact (List.nodup_append.mp all).1
        have entering := (enterCase_tableOf distinct).mpr ⟨within, (nodup_values_concat.mp still).2, rfl⟩
        exact ⟨_, entering, (ih still).mpr ⟨inside, all, same⟩⟩

/-- The targets of a dense switch: where its cases lead the keys from one bound to the other. -/
def targetsOf (low high : Int32) (default : Label) (cases : List SwitchCase) : List Label :=
  (List.range (keyCount low high)).map fun place => SwitchCase.lead cases default (keyAt low place)

/-- A dense switch is made exactly of few enough keys in order and cases for different ones of them. -/
theorem tableSwitch_eq_ok_iff {i : Instruction} :
    tableSwitch low high default cases = .ok i ↔
      (low ≤ high ∧ keyCount low high ≤ maxTargets ∧ (∀ case ∈ cases, low ≤ case.value ∧ case.value ≤ high) ∧
        (cases.map SwitchCase.value).Nodup) ∧
      i = ⟨.tableswitch, .table low high default (targetsOf low high default cases)⟩ := by
  have targets : ((tableOf low (keyCount low high) cases).toList.map fun target => target.getD default) =
      targetsOf low high default cases := by
    simp [tableOf, targetsOf, SwitchCase.lead, Function.comp_def]
  have entering (table : Array (Option Label)) :
      cases.foldlM (enterCase low high) (Array.replicate (keyCount low high) none) = .ok table ↔
        (∀ case ∈ cases, low ≤ case.value ∧ case.value ≤ high) ∧ (cases.map SwitchCase.value).Nodup ∧
          table = tableOf low (keyCount low high) cases := by
    rw [← tableOf_nil low]
    exact foldlM_enterCase_tableOf List.nodup_nil
  unfold tableSwitch
  refine refuse_else_eq_ok_iff.trans ?_
  rw [Int32.not_lt, and_assoc]
  refine and_congr_right fun _ => refuse_else_eq_ok_iff.trans ?_
  rw [Nat.not_lt, and_assoc]
  refine and_congr_right fun _ => Outcome.bind_eq_ok_iff.trans ?_
  constructor
  · rintro ⟨table, entered, made⟩
    obtain ⟨inside, distinct, rfl⟩ := (entering table).mp entered
    rw [Outcome.pure_eq_ok_iff, targets] at made
    exact ⟨⟨inside, distinct⟩, made.symm⟩
  · rintro ⟨⟨inside, distinct⟩, rfl⟩
    refine ⟨_, (entering _).mpr ⟨inside, distinct, rfl⟩, ?_⟩
    rw [Outcome.pure_eq_ok_iff, targets]

/-- Entering cases is never refused for their number. -/
theorem foldlM_enterCase_ne_tooMany (cases : List SwitchCase) (table : Array (Option Label)) :
    cases.foldlM (enterCase low high) table ≠ .error (.illegalOperand .tableswitch .tooManyCases) := by
  induction cases generalizing table with
  | nil => exact nofun
  | cons case rest ih =>
      rw [List.foldlM_cons, ne_eq, Outcome.bind_eq_error_iff]
      rintro (first | ⟨after, -, others⟩)
      · unfold enterCase at first
        dsimp only at first
        split at first
        · cases first
        · split at first <;> cases first
      · exact ih after others

/-- A dense switch is refused for its number of cases exactly if its bounds are in order and too far apart. -/
theorem tableSwitch_eq_tooMany_iff :
    tableSwitch low high default cases = .error (.illegalOperand .tableswitch .tooManyCases) ↔
      low ≤ high ∧ maxTargets < keyCount low high := by
  unfold tableSwitch
  refine refuse_else_eq_error_iff.trans ?_
  rw [Int32.not_lt]
  constructor
  · rintro (⟨-, ⟨⟩⟩ | ⟨ordered, refused⟩)
    refine ⟨ordered, ?_⟩
    obtain ⟨many, -⟩ | ⟨-, failed⟩ := refuse_else_eq_error_iff.mp refused
    · exact many
    · obtain failed | ⟨_, -, ⟨⟩⟩ := Outcome.bind_eq_error_iff.mp failed
      exact absurd failed (foldlM_enterCase_ne_tooMany cases _)
  · rintro ⟨ordered, many⟩
    exact .inr ⟨ordered, refuse_else_eq_error_iff.mpr (.inl ⟨many, rfl⟩)⟩

/-- A dense switch has a case for each key from one bound to the other, in order. -/
theorem cases_table :
    (Operands.table low high default (targetsOf low high default cases)).cases =
      (List.range (keyCount low high)).map fun place =>
        ⟨keyAt low place, SwitchCase.lead cases default (keyAt low place)⟩ := by
  apply List.ext_getElem
  · simp [Operands.cases, targetsOf]
  · intro place _ _
    simp [Operands.cases, targetsOf, keyAt]

/-- The keys from one bound to the other ascend. -/
theorem pairwise_keyAt :
    (List.range (keyCount low high)).Pairwise fun first second => keyAt low first < keyAt low second := by
  refine List.pairwise_lt_range.imp_of_mem ?_
  intro first second memFirst memSecond less
  rw [Int32.lt_iff_toInt_lt, toInt_keyAt (List.mem_range.mp memFirst), toInt_keyAt (List.mem_range.mp memSecond)]
  omega

/-- The keys from one bound to the other are those between them. -/
theorem mem_map_keyAt {key : Int32} :
    key ∈ (List.range (keyCount low high)).map (keyAt low) ↔ low ≤ key ∧ key ≤ high := by
  rw [List.mem_map]
  constructor
  · rintro ⟨place, mem, rfl⟩
    have inside := List.mem_range.mp mem
    rw [Int32.le_iff_toInt_le, Int32.le_iff_toInt_le, toInt_keyAt inside]
    unfold keyCount at inside
    omega
  · rintro ⟨above, below⟩
    obtain ⟨fits, itsKey⟩ := keyAt_place above below
    exact ⟨_, List.mem_range.mpr fits, itsKey⟩

/-- The order of the cases does not matter to a dense switch. -/
theorem tableSwitch_of_perm {other : List SwitchCase} {i : Instruction} (perm : cases.Perm other)
    (made : tableSwitch low high default cases = .ok i) : tableSwitch low high default other = .ok i := by
  obtain ⟨⟨ordered, few, inside, distinct⟩, rfl⟩ := tableSwitch_eq_ok_iff.mp made
  have targets : targetsOf low high default cases = targetsOf low high default other := by
    refine List.map_congr_left fun place _ => ?_
    rw [SwitchCase.lead, SwitchCase.lead, SwitchCase.target?_of_perm distinct perm]
  rw [targets]
  exact tableSwitch_eq_ok_iff.mpr ⟨⟨ordered, few, fun case mem => inside case (perm.mem_iff.mpr mem),
    (perm.map SwitchCase.value).nodup_iff.mp distinct⟩, rfl⟩

/-- A dense switch leads every key where its cases lead it. -/
theorem selects?_table (inside : ∀ case ∈ cases, low ≤ case.value ∧ case.value ≤ high) (key : Int32) :
    (Operands.table low high default (targetsOf low high default cases)).selects? key =
      some (SwitchCase.lead cases default key) := by
  unfold Operands.selects?
  dsimp only
  split
  · rename_i within
    obtain ⟨fits, itsKey⟩ := keyAt_place within.1 within.2
    rw [targetsOf, List.getElem?_map, List.getElem?_range fits, Option.map_some, itsKey]
  · rename_i without
    have absent : key ∉ cases.map SwitchCase.value := by
      intro present
      obtain ⟨case, mem, rfl⟩ := List.mem_map.mp present
      exact without (inside case mem)
    rw [SwitchCase.lead, SwitchCase.target?_of_not_mem absent]
    rfl

/-! ## Key switches -/

/-- Keys ascend exactly if each is smaller than all behind it. -/
theorem keysAscend_iff_pairwise :
    keysAscend cases = true ↔ cases.Pairwise fun first second => first.value < second.value := by
  constructor
  · intro ascending
    exact (pairwise_of_keysAscend ascending).imp Int32.lt_iff_toInt_lt.mpr
  · intro sorted
    induction cases with
    | nil => rfl
    | cons first rest ih =>
        obtain ⟨least, sorted⟩ := List.pairwise_cons.mp sorted
        cases rest with
        | nil => rfl
        | cons second others =>
            rw [keysAscend, Bool.and_eq_true, decide_eq_true_eq]
            exact ⟨least second (List.mem_cons_self ..), ih sorted⟩

/-- The cases by their keys. -/
def sortedCases (cases : List SwitchCase) : List SwitchCase := cases.mergeSort fun a b => a.value ≤ b.value

/-- Sorting keeps the cases. -/
theorem sortedCases_perm (cases : List SwitchCase) : (sortedCases cases).Perm cases := List.mergeSort_perm _ _

/-- Sorted cases have their keys in order. -/
theorem pairwise_sortedCases (cases : List SwitchCase) :
    (sortedCases cases).Pairwise fun first second => first.value ≤ second.value := by
  have trans (a b c : SwitchCase) (first : decide (a.value ≤ b.value) = true)
      (second : decide (b.value ≤ c.value) = true) : decide (a.value ≤ c.value) = true :=
    decide_eq_true (Int32.le_trans (of_decide_eq_true first) (of_decide_eq_true second))
  have total (a b : SwitchCase) : (decide (a.value ≤ b.value) || decide (b.value ≤ a.value)) = true := by
    rw [Bool.or_eq_true, decide_eq_true_eq, decide_eq_true_eq]
    exact Int32.le_total a.value b.value
  exact (List.pairwise_mergeSort trans total cases).imp of_decide_eq_true

/-- The keys of sorted cases ascend exactly if no two cases share a key. -/
theorem keysAscend_sortedCases : keysAscend (sortedCases cases) = true ↔ (cases.map SwitchCase.value).Nodup := by
  rw [keysAscend_iff_pairwise, ← ((sortedCases_perm cases).map SwitchCase.value).nodup_iff]
  unfold List.Nodup
  rw [List.pairwise_map]
  constructor
  · intro ascending
    exact ascending.imp Int32.ne_of_lt
  · intro distinct
    exact (pairwise_sortedCases cases).imp₂ (fun _ _ least differ => Int32.lt_of_le_of_ne least differ) distinct

/-- Cases without a shared key are sorted alike in every order. -/
theorem sortedCases_of_perm {other : List SwitchCase} (distinct : (cases.map SwitchCase.value).Nodup)
    (perm : cases.Perm other) : sortedCases cases = sortedCases other := by
  have same : (sortedCases cases).Perm (sortedCases other) :=
    (sortedCases_perm cases).trans (perm.trans (sortedCases_perm other).symm)
  refine same.eq_of_pairwise ?_ (pairwise_sortedCases cases) (pairwise_sortedCases other)
  intro first second memFirst memSecond less greater
  have memFirst := (sortedCases_perm cases).mem_iff.mp memFirst
  have memSecond := perm.mem_iff.mpr ((sortedCases_perm other).mem_iff.mp memSecond)
  exact List.inj_on_of_nodup_map distinct memFirst memSecond (Int32.le_antisymm less greater)

/-- A key switch is made exactly of few enough cases without a shared key. -/
theorem lookupSwitch_eq_ok_iff {i : Instruction} :
    lookupSwitch default cases = .ok i ↔
      (cases.length ≤ maxCases ∧ (cases.map SwitchCase.value).Nodup) ∧
      i = ⟨.lookupswitch, .lookup default (sortedCases cases)⟩ := by
  unfold lookupSwitch
  refine refuse_else_eq_ok_iff.trans ?_
  rw [Nat.not_lt, and_assoc]
  refine and_congr_right fun _ => refuse_else_eq_ok_iff.trans ?_
  rw [Bool.not_eq_true', Bool.not_eq_false, ← keysAscend_sortedCases, Outcome.pure_eq_ok_iff]
  exact and_congr_right fun _ => eq_comm

/-- A key switch is refused for its number of cases exactly if it has too many. -/
theorem lookupSwitch_eq_tooMany_iff :
    lookupSwitch default cases = .error (.illegalOperand .lookupswitch .tooManyCases) ↔
      maxCases < cases.length := by
  unfold lookupSwitch
  refine refuse_else_eq_error_iff.trans ?_
  constructor
  · rintro (⟨many, -⟩ | ⟨-, refused⟩)
    · exact many
    · obtain ⟨-, ⟨⟩⟩ | ⟨-, ⟨⟩⟩ := refuse_else_eq_error_iff.mp refused
  · intro many
    exact .inl ⟨many, rfl⟩

/-- The order of the cases does not matter to a key switch. -/
theorem lookupSwitch_of_perm {other : List SwitchCase} {i : Instruction} (perm : cases.Perm other)
    (made : lookupSwitch default cases = .ok i) : lookupSwitch default other = .ok i := by
  obtain ⟨⟨few, distinct⟩, rfl⟩ := lookupSwitch_eq_ok_iff.mp made
  rw [sortedCases_of_perm distinct perm]
  exact lookupSwitch_eq_ok_iff.mpr ⟨⟨perm.length_eq ▸ few, (perm.map SwitchCase.value).nodup_iff.mp distinct⟩, rfl⟩

/-- A key switch leads every key where its cases lead it. -/
theorem selects?_lookup (distinct : (cases.map SwitchCase.value).Nodup) (key : Int32) :
    (Operands.lookup default (sortedCases cases)).selects? key = some (SwitchCase.lead cases default key) := by
  rw [Operands.selects?, SwitchCase.lead, SwitchCase.lead,
    SwitchCase.target?_of_perm distinct (sortedCases_perm cases).symm]

/-! ## Both forms -/

/-- Switches keep where their cases lead. `tableSwitch` succeeds exactly for `low ≤ high`, at most 16383 keys and
cases for different keys between the bounds, and then has one case for each key, in order; `lookupSwitch`
succeeds exactly for at most 8191 cases for different keys, and then has them in order. In both, `selects?` leads
every key where `SwitchCase.lead` leads it among the given cases, and these may be given in any order. A switch
that is refused with `.tooManyCases` has a `size` of more than 65535 bytes. -/
theorem switches_lead (low high : Int32) (default : Label) (cases : List SwitchCase) :
    ((∃ i, tableSwitch low high default cases = .ok i) ↔
      low ≤ high ∧ high.toInt - low.toInt + 1 ≤ 16383 ∧
        (∀ case ∈ cases, low ≤ case.value ∧ case.value ≤ high) ∧ (cases.map SwitchCase.value).Nodup) ∧
    (∀ i, tableSwitch low high default cases = .ok i →
      (∃ targets, i = ⟨.tableswitch, .table low high default targets⟩) ∧
      i.operands.cases.Pairwise (fun first second => first.value < second.value) ∧
      (∀ key, key ∈ i.operands.cases.map SwitchCase.value ↔ low ≤ key ∧ key ≤ high) ∧
      (∀ case ∈ i.operands.cases, case.target = SwitchCase.lead cases default case.value) ∧
      ∀ key, i.operands.selects? key = some (SwitchCase.lead cases default key)) ∧
    ((∃ i, lookupSwitch default cases = .ok i) ↔
      cases.length ≤ 8191 ∧ (cases.map SwitchCase.value).Nodup) ∧
    (∀ i, lookupSwitch default cases = .ok i →
      (∃ sorted, i = ⟨.lookupswitch, .lookup default sorted⟩ ∧ sorted.Perm cases ∧
        sorted.Pairwise fun first second => first.value < second.value) ∧
      ∀ key, i.operands.selects? key = some (SwitchCase.lead cases default key)) ∧
    (∀ other, cases.Perm other →
      (∀ i, tableSwitch low high default cases = .ok i ↔ tableSwitch low high default other = .ok i) ∧
      ∀ i, lookupSwitch default cases = .ok i ↔ lookupSwitch default other = .ok i) ∧
    (tableSwitch low high default cases = .error (.illegalOperand .tableswitch .tooManyCases) →
      ∀ targets : List Label, (targets.length : Int) = high.toInt - low.toInt + 1 →
        ∀ bci, 65535 < (⟨.tableswitch, .table low high default targets⟩ : Instruction).size bci) ∧
    (lookupSwitch default cases = .error (.illegalOperand .lookupswitch .tooManyCases) →
      ∀ sorted, sorted.Perm cases →
        ∀ bci, 65535 < (⟨.lookupswitch, .lookup default sorted⟩ : Instruction).size bci) := by
  refine ⟨?_, ?_, ?_, ?_, ?_, ?_, ?_⟩
  · constructor
    · rintro ⟨i, made⟩
      obtain ⟨⟨ordered, few, rest⟩, -⟩ := tableSwitch_eq_ok_iff.mp made
      unfold keyCount maxTargets at few
      exact ⟨ordered, by omega, rest⟩
    · rintro ⟨ordered, few, rest⟩
      refine ⟨_, tableSwitch_eq_ok_iff.mpr ⟨⟨ordered, ?_, rest⟩, rfl⟩⟩
      unfold keyCount maxTargets
      omega
  · intro i made
    obtain ⟨⟨-, -, inside, -⟩, rfl⟩ := tableSwitch_eq_ok_iff.mp made
    refine ⟨⟨_, rfl⟩, ?_, ?_, ?_, selects?_table inside⟩
    · rw [cases_table, List.pairwise_map]
      exact pairwise_keyAt
    · intro key
      rw [cases_table, List.map_map]
      exact mem_map_keyAt
    · intro case mem
      rw [cases_table, List.mem_map] at mem
      obtain ⟨place, -, rfl⟩ := mem
      rfl
  · constructor
    · rintro ⟨i, made⟩
      exact (lookupSwitch_eq_ok_iff.mp made).1
    · intro accepted
      exact ⟨_, lookupSwitch_eq_ok_iff.mpr ⟨accepted, rfl⟩⟩
  · intro i made
    obtain ⟨⟨-, distinct⟩, rfl⟩ := lookupSwitch_eq_ok_iff.mp made
    have ascending := keysAscend_iff_pairwise.mp (keysAscend_sortedCases.mpr distinct)
    exact ⟨⟨_, rfl, sortedCases_perm cases, ascending⟩, selects?_lookup distinct⟩
  · intro other perm
    exact ⟨fun i => ⟨tableSwitch_of_perm perm, tableSwitch_of_perm perm.symm⟩,
      fun i => ⟨lookupSwitch_of_perm perm, lookupSwitch_of_perm perm.symm⟩⟩
  · intro refused targets full bci
    obtain ⟨-, many⟩ := tableSwitch_eq_tooMany_iff.mp refused
    unfold keyCount maxTargets at many
    change 65535 < 1 + switchPadding bci + 12 + 4 * targets.length
    omega
  · intro refused sorted perm bci
    have many := lookupSwitch_eq_tooMany_iff.mp refused
    unfold maxCases at many
    change 65535 < 1 + switchPadding bci + 8 + 8 * sorted.length
    rw [perm.length_eq]
    omega

/-- Cases for the outer of three keys, given in descending order. -/
def outerCases : List SwitchCase := [⟨1, .decoded 20⟩, ⟨-1, .decoded 10⟩]

/-- Both switches lead the outer keys to their cases and the one between them to the default. -/
theorem switches_lead_outerCases :
    (∃ i, tableSwitch (-1) 1 (.decoded 30) outerCases = .ok i ∧ i.operands.selects? (-1) = some (.decoded 10) ∧
      i.operands.selects? 0 = some (.decoded 30)) ∧
    ∃ i, lookupSwitch (.decoded 30) outerCases = .ok i ∧ i.operands.selects? 1 = some (.decoded 20) ∧
      i.operands.selects? 0 = some (.decoded 30) := by
  obtain ⟨dense, denseLeads, keyed, keyedLeads, -⟩ := switches_lead (-1) 1 (.decoded 30) outerCases
  obtain ⟨table, tableMade⟩ := dense.mpr (by decide)
  obtain ⟨lookup, lookupMade⟩ := keyed.mpr (by decide)
  have tableLeads := (denseLeads table tableMade).2.2.2.2
  have lookupLeads := (keyedLeads lookup lookupMade).2
  exact ⟨⟨table, tableMade, tableLeads (-1), tableLeads 0⟩, ⟨lookup, lookupMade, lookupLeads 1, lookupLeads 0⟩⟩

end Instruction

end JvmCode
