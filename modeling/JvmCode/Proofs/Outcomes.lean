import Mathlib.Data.List.Forall2

/-! # Programs that succeed

When a program that may fail succeeds, each of its steps succeeded.

* `bind_eq_ok_iff`, `bind_eq_error_iff`, `pure_eq_ok_iff` and `throw_eq_ok_iff` take a program apart.
* `forM_eq_ok_iff`, `mapM_eq_ok_iff` and `filterMapM_eq_ok_iff` are about all items of an array.
* `foldlM_congr` and `arrayFilterMapM_congr`: a loop only depends on what is done with its items.
* **`fault?`** is the fault of a program that fails; `fault?_bind`, `fault?_foldlM` and `fault?_filterMapM`
  find the first of several. -/

namespace JvmCode.Outcome

variable {ε α β : Type}

/-- A sequence of two programs succeeds exactly when both succeed in turn. -/
theorem bind_eq_ok_iff {first : Except ε α} {next : α → Except ε β} {b : β} :
    (first >>= next) = .ok b ↔ ∃ a, first = .ok a ∧ next a = .ok b := by
  cases first with
  | ok a => exact ⟨fun h => ⟨a, rfl, h⟩, fun ⟨_, same, h⟩ => by cases same; exact h⟩
  | error fault => simp [bind, Except.bind]

/-- A sequence of two programs fails exactly when the first fails, or succeeds and the second fails. -/
theorem bind_eq_error_iff {first : Except ε α} {next : α → Except ε β} {fault : ε} :
    (first >>= next) = .error fault ↔ first = .error fault ∨ ∃ a, first = .ok a ∧ next a = .error fault := by
  cases first <;> simp [bind, Except.bind]

/-- A program that only gives a value succeeds with that value. -/
theorem pure_eq_ok_iff {a b : α} : (pure a : Except ε α) = .ok b ↔ a = b := by
  simp [pure, Except.pure]

/-- A program that only fails does not succeed. -/
theorem throw_eq_ok_iff {fault : ε} {a : α} : (throw fault : Except ε α) = .ok a ↔ False := by
  simp [throw, throwThe, MonadExceptOf.throw]

/-- A lookup whose fault is renamed succeeds exactly when the lookup does. -/
theorem mapError_eq_ok_iff {ε' : Type} {rename : ε → ε'} {result : Except ε α} {a : α} :
    result.mapError rename = .ok a ↔ result = .ok a := by
  cases result <;> simp [Except.mapError]

/-- A program whose result is not used succeeds exactly when it gives one. -/
theorem discard_eq_ok_iff {result : Except ε α} : discard result = .ok () ↔ ∃ a, result = .ok a := by
  cases result with
  | ok a => exact ⟨fun _ => ⟨a, rfl⟩, fun _ => rfl⟩
  | error fault => exact ⟨fun h => (nomatch h), fun ⟨a, h⟩ => (nomatch h)⟩

/-- A check of all items of a list succeeds exactly when each check does. -/
theorem forM_eq_ok_iff {check : α → Except ε PUnit} {items : List α} :
    forM items check = .ok () ↔ ∀ item ∈ items, check item = .ok () := by
  induction items with
  | nil => simp [pure, Except.pure]
  | cons item rest ih =>
      rw [List.forM_cons, bind_eq_ok_iff, List.forall_mem_cons]
      constructor
      · rintro ⟨⟨⟩, first, others⟩
        exact ⟨first, ih.mp others⟩
      · rintro ⟨first, others⟩
        exact ⟨(), first, ih.mpr others⟩

/-- A check of all items of an array succeeds exactly when each check does. -/
theorem arrayForM_eq_ok_iff {check : α → Except ε PUnit} {items : Array α} :
    items.forM check = .ok () ↔ ∀ item ∈ items, check item = .ok () := by
  obtain ⟨items⟩ := items
  rw [Array.forM_eq_forM, List.forM_toArray, List.forM_eq_forM, forM_eq_ok_iff]
  simp only [List.mem_toArray]

/-- A list is mapped exactly when each of its items is. -/
theorem mapM_eq_ok_iff {make : α → Except ε β} {items : List α} {made : List β} :
    items.mapM make = .ok made ↔
      List.Forall₂ (fun item result => make item = .ok result) items made := by
  induction items generalizing made with
  | nil => rw [List.mapM_nil, pure_eq_ok_iff, List.forall₂_nil_left_iff, eq_comm]
  | cons item rest ih =>
      rw [List.mapM_cons, List.forall₂_cons_left_iff]
      simp only [bind_eq_ok_iff, pure_eq_ok_iff, ih]
      constructor
      · rintro ⟨result, first, results, others, rfl⟩
        exact ⟨result, results, first, others, rfl⟩
      · rintro ⟨result, results, first, others, rfl⟩
        exact ⟨result, first, results, others, rfl⟩

/-- An array is mapped exactly when each of its items is. -/
theorem arrayMapM_eq_ok_iff {make : α → Except ε β} {items : Array α} {made : Array β} :
    items.mapM make = .ok made ↔
      List.Forall₂ (fun item result => make item = .ok result) items.toList made.toList := by
  rw [Array.mapM_eq_mapM_toList, ← mapM_eq_ok_iff]
  cases items.toList.mapM make with
  | error fault => simp [Functor.map, Except.map]
  | ok results =>
      simp only [Functor.map, Except.map, Except.ok.injEq]
      constructor
      · rintro rfl
        rfl
      · rintro rfl
        exact Array.toArray_toList

/-- Lists related through values that are made into others come from a list of these values. -/
theorem forall₂_exists_map {γ : Type} {related : α → γ → Prop} {make : γ → β} {items : List α}
    {made : List β} (h : List.Forall₂ (fun item result => ∃ value, related item value ∧
      result = make value) items made) :
    ∃ values, List.Forall₂ related items values ∧ made = values.map make := by
  induction h with
  | nil => exact ⟨[], .nil, rfl⟩
  | cons first _ ih =>
      obtain ⟨value, holds, rfl⟩ := first
      obtain ⟨values, others, rfl⟩ := ih
      exact ⟨value :: values, .cons holds others, rfl⟩

/-- Every item of the second of two related lists is related to one of the first. -/
theorem exists_of_forall₂_of_mem {related : α → β → Prop} {items : List α} {others : List β} {other : β}
    (h : List.Forall₂ related items others) (mem : other ∈ others) : ∃ item ∈ items, related item other := by
  induction h with
  | nil => cases mem
  | cons first _ ih =>
      obtain rfl | mem := List.mem_cons.mp mem
      · exact ⟨_, List.mem_cons_self .., first⟩
      · obtain ⟨item, within, holds⟩ := ih mem
        exact ⟨item, List.mem_cons_of_mem _ within, holds⟩

/-- Nothing is left out of results that are all there. -/
theorem exists_reduceOption {make : α → Except ε (Option β)} {items : List α} {made : List β}
    (h : List.Forall₂ (fun item result => make item = .ok (some result)) items made) :
    ∃ results, List.Forall₂ (fun item result => make item = .ok result) items results ∧
      made = results.reduceOption := by
  refine ⟨made.map some, List.forall₂_map_right_iff.mpr h, ?_⟩
  change made = (made.map some).filterMap id
  rw [List.filterMap_map]
  exact List.filterMap_some.symm

/-- Related lists are related item by item, with items of the lists. -/
theorem forall₂_mem {related : α → β → Prop} {items : List α} {others : List β}
    (h : List.Forall₂ related items others) :
    List.Forall₂ (fun item other => item ∈ items ∧ other ∈ others ∧ related item other) items others := by
  obtain ⟨length, zipped⟩ := List.forall₂_iff_zip.mp h
  refine List.forall₂_iff_zip.mpr ⟨length, fun {item other} mem => ?_⟩
  obtain ⟨left, right⟩ := List.of_mem_zip mem
  exact ⟨left, right, zipped mem⟩

/-- Items that are each related to something form a list related to another. -/
theorem exists_forall₂ {related : α → β → Prop} {items : List α}
    (h : ∀ item ∈ items, ∃ other, related item other) : ∃ others, List.Forall₂ related items others := by
  induction items with
  | nil => exact ⟨[], .nil⟩
  | cons item rest ih =>
      obtain ⟨other, first⟩ := h item (List.mem_cons_self ..)
      obtain ⟨others, more⟩ := ih fun item mem => h item (List.mem_cons_of_mem _ mem)
      exact ⟨other :: others, .cons first more⟩

/-- A list is mapped, with items left out, exactly when each of its items is. -/
theorem filterMapM_eq_ok_iff {make : α → Except ε (Option β)} {items : List α} {made : List β} :
    items.filterMapM make = .ok made ↔
      ∃ results, List.Forall₂ (fun item result => make item = .ok result) items results ∧
        made = results.reduceOption := by
  induction items generalizing made with
  | nil =>
      rw [List.filterMapM_nil, pure_eq_ok_iff]
      constructor
      · rintro rfl
        exact ⟨[], .nil, rfl⟩
      · rintro ⟨_, ⟨⟩, rfl⟩
        rfl
  | cons item rest ih =>
      rw [List.filterMapM_cons, bind_eq_ok_iff]
      constructor
      · rintro ⟨_ | result, first, h⟩
        · obtain ⟨results, others, rfl⟩ := ih.mp h
          exact ⟨none :: results, .cons first others, rfl⟩
        · obtain ⟨_, h, same⟩ := bind_eq_ok_iff.mp h
          obtain ⟨results, others, rfl⟩ := ih.mp h
          exact ⟨some result :: results, .cons first others, (pure_eq_ok_iff.mp same).symm⟩
      · rintro ⟨all, succeed, rfl⟩
        obtain ⟨result, results, first, others, rfl⟩ := List.forall₂_cons_left_iff.mp succeed
        refine ⟨result, first, ?_⟩
        cases result with
        | none => exact ih.mpr ⟨results, others, rfl⟩
        | some value =>
            exact bind_eq_ok_iff.mpr ⟨_, ih.mpr ⟨results, others, rfl⟩, rfl⟩

/-- An array is mapped, with items left out, exactly when each of its items is. -/
theorem arrayFilterMapM_eq_ok_iff {make : α → Except ε (Option β)} {items : Array α}
    {made : Array β} :
    items.filterMapM make = .ok made ↔
      ∃ results, List.Forall₂ (fun item result => make item = .ok result) items.toList results ∧
        made.toList = results.reduceOption := by
  rw [← filterMapM_eq_ok_iff, ← Array.toList_filterMapM]
  cases items.filterMapM make with
  | error fault => simp [Functor.map, Except.map]
  | ok results => simp [Functor.map, Except.map, Array.toList_inj]

/-- A fold over a list only depends on what its steps do with the items of the list. -/
theorem foldlM_congr {first second : β → α → Except ε β} {items : List α}
    (same : ∀ item ∈ items, ∀ b, first b item = second b item) (b : β) :
    items.foldlM first b = items.foldlM second b := by
  induction items generalizing b with
  | nil => rfl
  | cons item rest ih =>
      obtain ⟨head, others⟩ := List.forall_mem_cons.mp same
      rw [List.foldlM_cons, List.foldlM_cons, head, funext (ih others)]

/-- Mapping an array, with items left out, only depends on what becomes of its items. -/
theorem arrayFilterMapM_congr {first second : α → Except ε (Option β)} {items : Array α}
    (same : ∀ item ∈ items, first item = second item) :
    items.filterMapM first = items.filterMapM second := by
  obtain ⟨items⟩ := items
  have lists : items.filterMapM first = items.filterMapM second := by
    induction items with
    | nil => rfl
    | cons item rest ih =>
        simp only [List.mem_toArray, List.forall_mem_cons] at same ih
        rw [List.filterMapM_cons, List.filterMapM_cons, same.1, ih same.2]
  rw [List.filterMapM_toArray, List.filterMapM_toArray, lists]

/-! ## Faults -/

/-- The fault with which a program fails, if it does. -/
def fault? : Except ε α → Option ε
  | .ok _ => none
  | .error fault => some fault

/-- A program has a fault exactly when it fails with it. -/
theorem fault?_eq_some_iff {result : Except ε α} {fault : ε} :
    fault? result = some fault ↔ result = .error fault := by
  cases result <;> simp [fault?]

/-- A program has no fault exactly when it succeeds. -/
theorem fault?_eq_none_iff {result : Except ε α} : fault? result = none ↔ ∃ a, result = .ok a := by
  cases result <;> simp [fault?]

/-- The fault of two programs in turn is that of the first, or else that of the second. -/
theorem fault?_bind {first : Except ε α} {next : α → Except ε β} {later : Option ε}
    (second : ∀ a, first = .ok a → fault? (next a) = later) :
    fault? (first >>= next) = (fault? first).or later := by
  cases first with
  | ok a => exact second a rfl
  | error fault => rfl

/-- The fault of two programs in turn, from the faults of both. -/
theorem fault?_bind_of {first : Except ε α} {next : α → Except ε β} {found later : Option ε}
    (head : fault? first = found) (second : ∀ a, first = .ok a → fault? (next a) = later) :
    fault? (first >>= next) = found.or later := by
  rw [fault?_bind second, head]

/-- The fault of a fold whose steps fail for their items alone is that of the first item that has one. -/
theorem fault?_foldlM {step : β → α → Except ε β} {found : α → Option ε}
    (same : ∀ b a, fault? (step b a) = found a) (items : List α) (b : β) :
    fault? (items.foldlM step b) = items.findSome? found := by
  induction items generalizing b with
  | nil => rfl
  | cons item rest ih =>
      rw [List.foldlM_cons, fault?_bind fun b _ => ih b, same, List.findSome?_cons]
      cases found item <;> rfl

/-- The fault of mapping a list, with items left out, is that of the first item that has one. -/
theorem fault?_filterMapM {make : α → Except ε (Option β)} (items : List α) :
    fault? (items.filterMapM make) = items.findSome? fun item => fault? (make item) := by
  induction items with
  | nil => rfl
  | cons item rest ih =>
      have others : ∀ result, make item = .ok result → fault? (match result with
          | none => rest.filterMapM make
          | some value => do return value :: (← rest.filterMapM make)) =
            rest.findSome? fun item => fault? (make item) := by
        intro result _
        cases result with
        | none => exact ih
        | some value =>
            rw [@fault?_bind _ _ _ _ _ none fun _ _ => rfl, ih, Option.or_none]
      rw [List.filterMapM_cons, List.findSome?_cons]
      refine (fault?_bind others).trans ?_
      cases fault? (make item) <;> rfl

/-- The fault of mapping an array, with items left out, is that of the first item that has one. -/
theorem fault?_arrayFilterMapM {make : α → Except ε (Option β)} (items : Array α) :
    fault? (items.filterMapM make) = items.toList.findSome? fun item => fault? (make item) := by
  rw [← fault?_filterMapM, ← Array.toList_filterMapM]
  cases items.filterMapM make <;> rfl

end JvmCode.Outcome
