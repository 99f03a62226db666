import Mathlib.Data.List.Forall2
import Mathlib.Data.List.Nodup
import Mathlib.Data.List.Pairwise

/-
  Steps that can fail, one after the other, and lists that are
  mapped by a function that can fail.

  Main declarations:
    * `bind_eq_ok_iff`
    * `map_eq_ok_iff`
    * `foldlM_cons_eq_ok_iff`
    * `foldlM_preserves`
    * `mapM_eq_some_iff`
    * `mapM_eq_ok_iff`
    * `map_eq_ok_iff_forall₂`
    * `exists_forall₂`
    * `nodup_filterMap_iff`
-/

namespace GraphRewriting

variable {α β : Type}

/-
  Two steps succeed when the second one does on the
  result of the first.
-/
theorem bind_eq_ok_iff
    {ε : Type}
    {step : Except ε α}
    {next : α → Except ε β}
    {result : β} :
    step >>= next = .ok result ↔
      ∃ value : α,
        step = .ok value ∧ next value = .ok result := by
  cases step with
  | error error => simp [Bind.bind, Except.bind]
  | ok value => simp [Bind.bind, Except.bind]

/- A step that succeeds hands its value on. -/
theorem bind_of_eq_ok
    {ε : Type}
    {step : Except ε α}
    {next : α → Except ε β}
    {value : α}
    (h : step = .ok value) :
    step >>= next = next value := by
  rw [h]
  rfl

theorem map_eq_ok_iff
    {ε : Type}
    {f : α → β}
    {step : Except ε α}
    {result : β} :
    step.map f = .ok result ↔
      ∃ value : α, step = .ok value ∧ result = f value := by
  cases step with
  | error error => simp [Except.map]
  | ok value => simp [Except.map, eq_comm]

theorem foldlM_cons_eq_ok_iff
    {ε : Type}
    {step : β → α → Except ε β}
    {state final : β}
    {item : α}
    {items : List α} :
    (item :: items).foldlM step state = .ok final ↔
      ∃ next : β,
        step state item = .ok next ∧
          items.foldlM step next = .ok final := by
  rw [List.foldlM_cons, bind_eq_ok_iff]

/-
  What each step preserves holds at the end if it
  held at the start.
-/
theorem foldlM_preserves
    {ε : Type}
    {step : β → α → Except ε β}
    {holds : β → Prop}
    (hStep :
      ∀ (state next : β) (item : α),
        holds state → step state item = .ok next → holds next)
    {state final : β}
    {items : List α}
    (hState : holds state)
    (h : items.foldlM step state = .ok final) :
    holds final := by
  induction items generalizing state with
  | nil =>
      cases h
      exact hState
  | cons item items ih =>
      rcases foldlM_cons_eq_ok_iff.1 h with ⟨next, hNext, hRest⟩
      exact ih (hStep state next item hState hNext) hRest

/- Mapping succeeds when it does for each item. -/
theorem mapM_eq_some_iff
    {f : α → Option β}
    {items : List α}
    {results : List β} :
    items.mapM f = some results ↔
      (∀ item ∈ items, (f item).isSome = true) ∧
        items.filterMap f = results := by
  induction items generalizing results with
  | nil => simp
  | cons item items ih =>
      rw [List.mapM_cons, List.forall_mem_cons]
      cases hItem : f item with
      | none => simp
      | some result =>
          rw [List.filterMap_cons_some hItem]
          cases hItems : items.mapM f with
          | none =>
              have hNone :
                  ¬ ∀ other ∈ items, (f
                    other).isSome = true := by
                intro hAll
                have hSome := ih.2 ⟨hAll, rfl⟩
                rw [hItems] at hSome
                cases hSome
              simp [hNone]
          | some rest =>
              rcases ih.1 hItems with ⟨hAll, rfl⟩
              simpa using fun _ => hAll

/- Mapping succeeds with the results that the items have. -/
theorem mapM_eq_ok_iff
    {ε : Type}
    {f : α → Except ε β}
    {items : List α}
    {results : List β} :
    items.mapM f = .ok results ↔
      items.map f = results.map .ok := by
  induction items generalizing results with
  | nil =>
      rw [List.mapM_nil, List.map_nil]
      cases results <;> simp [pure, Except.pure]
  | cons item items ih =>
      rw [List.mapM_cons, List.map_cons]
      cases hItem : f item with
      | error error =>
          cases results <;> simp [Bind.bind, Except.bind]
      | ok result =>
          simp only [Bind.bind, Except.bind]
          cases hItems : items.mapM f with
          | error error =>
              cases results with
              | nil => simp
              | cons head tail =>
                  have hNone : items.map f ≠ tail.map .ok := by
                    intro hAll
                    rw [← ih, hItems] at hAll
                    cases hAll
                  simp [hNone]
          | ok rest =>
              have hRest := ih.1 hItems
              rw [hRest, ← List.map_cons]
              have hInjective :
                  Function.Injective
                    (Except.ok : β → Except ε β) :=
                fun _ _ h => Except.ok.inj h
              rw [(List.map_injective_iff.2 hInjective).eq_iff]
              exact
                ⟨fun h => Except.ok.inj h,
                  fun h => congrArg Except.ok h⟩

/- Each result in a list is that of some item. -/
theorem exists_of_mem_of_map_eq_ok
    {ε : Type}
    {f : α → Except ε β}
    {items : List α}
    {results : List β}
    (h : items.map f = results.map .ok)
    {result : β}
    (hResult : result ∈ results) :
    ∃ item ∈ items, f item = .ok result := by
  have hMem : (.ok result : Except ε β) ∈ items.map f := by
    rw [h]
    exact List.mem_map_of_mem hResult
  exact List.mem_map.1 hMem

theorem exists_of_mem_of_mapM_eq_ok
    {ε : Type}
    {f : α → Except ε β}
    {items : List α}
    {results : List β}
    (h : items.mapM f = .ok results)
    {result : β}
    (hResult : result ∈ results) :
    ∃ item ∈ items, f item = .ok result :=
  exists_of_mem_of_map_eq_ok (mapM_eq_ok_iff.1 h) hResult

/-
  The results in a list are those that the
  items have one by one.
-/
theorem map_eq_ok_iff_forall₂
    {ε : Type}
    {f : α → Except ε β}
    {isResult : α → β → Prop}
    (h :
      ∀ {item : α} {result : β},
        f item = .ok result ↔ isResult item result)
    {items : List α}
    {results : List β} :
    items.map f = results.map .ok ↔
      List.Forall₂ isResult items results := by
  rw [← List.forall₂_eq_eq_eq, List.forall₂_map_left_iff,
    List.forall₂_map_right_iff]
  simp only [h]

/- Items that each have a result have a list of results. -/
theorem exists_forall₂
    {isResult : α → β → Prop}
    {items : List α}
    (h : ∀ item ∈ items, ∃ result : β, isResult item result) :
    ∃ results : List β,
      List.Forall₂ isResult items results := by
  induction items with
  | nil => exact ⟨[], .nil⟩
  | cons item items ih =>
      rw [List.forall_mem_cons] at h
      rcases h.1 with ⟨result, hResult⟩
      rcases ih h.2 with ⟨results, hResults⟩
      exact ⟨result :: results, .cons hResult hResults⟩

/- Results are distinct when no two items share one. -/
theorem nodup_filterMap_iff
    {f : α → Option β}
    {items : List α}
    (hItems : items.Nodup) :
    (items.filterMap f).Nodup ↔
      ∀ x ∈ items, ∀ y ∈ items, ∀ result : β,
        f x = some result → f y = some result → x = y := by
  rw [List.Nodup, List.pairwise_filterMap]
  constructor
  · intro h x hx y hy result hfx hfy
    by_contra hNe
    have hSymmetric :
        Std.Symm fun a b : α =>
          ∀ v, f a = some v → ∀ w, f b = some w → v ≠ w :=
      ⟨fun _ _ hab v hv w hw hEq => hab w hw v hv hEq.symm⟩
    exact h.forall hx hy hNe result hfx result hfy rfl
  · intro h
    apply List.Pairwise.imp_of_mem _ hItems
    intro x y hx hy hNe v hv w hw hEq
    subst hEq
    exact hNe (h x hx y hy v hv hw)

end GraphRewriting
