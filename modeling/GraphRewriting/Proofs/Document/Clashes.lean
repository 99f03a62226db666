import GraphRewriting.Document.Description
import Mathlib.Data.List.Forall2
import Mathlib.Tactic.ByContra

/-
  Descriptions that fail over labels. A description fails
  exactly if it meets a label with the name of a key, and what
  it gives otherwise has some property.

  Main declarations:
    * `SucceedsUnless`
    * `SucceedsUnless.bind`
    * `SucceedsUnless.mapM`
    * `Labels.attributes_spec`
-/

------------------------------------------------------------
-- Steps
------------------------------------------------------------

namespace GraphRewriting

/-
  An attempt fails over a label if there is a clash, and has a
  good result otherwise.
-/
structure SucceedsUnless
    {α : Type}
    (clash : Prop)
    (good : α → Prop)
    (attempt : Except GrammarError α) : Prop where
  fails :
    clash →
      ∃ (item : ElementRef) (key : String),
        attempt = .error (.badDocument (.labelClash item key))
  succeeds :
    ¬ clash → ∃ value : α, attempt = .ok value ∧ good value

namespace SucceedsUnless

variable {α β : Type}
variable {clash other : Prop}
variable {good : α → Prop}
variable {attempt : Except GrammarError α}

theorem ok
    {value : α}
    (h : good value)
    (hClash : ¬ clash) :
    SucceedsUnless clash good (.ok value) where
  fails hc := absurd hc hClash
  succeeds _ := ⟨value, rfl, h⟩

/- A result that is given is a good one. -/
theorem good_of_eq_ok
    (h : SucceedsUnless clash good attempt)
    {value : α}
    (hValue : attempt = .ok value) :
    good value := by
  by_cases hClash : clash
  · rcases h.fails hClash with ⟨item, key, hError⟩
    rw [hError] at hValue
    cases hValue
  · rcases h.succeeds hClash with ⟨other, hOther, hGood⟩
    rw [hOther] at hValue
    cases hValue
    exact hGood

theorem congr
    (h : SucceedsUnless clash good attempt)
    (hClash : clash ↔ other) :
    SucceedsUnless other good attempt where
  fails hOther := h.fails (hClash.2 hOther)
  succeeds hOther := h.succeeds fun hc => hOther (hClash.1 hc)

/- Less may be asked of the value. -/
theorem imp
    (h : SucceedsUnless clash good attempt)
    {better : α → Prop}
    (hGood : ∀ value : α, good value → better value) :
    SucceedsUnless clash better attempt where
  fails := h.fails
  succeeds hClash := by
    rcases h.succeeds hClash with ⟨value, hValue, hGoodValue⟩
    exact ⟨value, hValue, hGood value hGoodValue⟩

/- Two steps fail if one of them does. -/
theorem bind
    (h : SucceedsUnless clash good attempt)
    {next : α → Except GrammarError β}
    {better : β → Prop}
    (hNext :
      ∀ value : α,
        good value → SucceedsUnless other better (next value)) :
    SucceedsUnless (clash ∨ other) better
      (attempt >>= next) := by
  by_cases hClash : clash
  · rcases h.fails hClash with ⟨item, key, rfl⟩
    refine ⟨fun _ => ⟨item, key, rfl⟩, ?_⟩
    intro hNone
    exact absurd (Or.inl hClash) hNone
  · rcases h.succeeds hClash with ⟨value, rfl, hGood⟩
    exact (hNext value hGood).congr (or_iff_right hClash).symm

/- The last step of a description. -/
theorem map
    (h : SucceedsUnless clash good attempt)
    {f : α → β}
    {better : β → Prop}
    (hf : ∀ value : α, good value → better (f value)) :
    SucceedsUnless clash better
      (attempt >>= fun value => .ok (f value)) :=
  (h.bind fun value hValue =>
      ok (hf value hValue) not_false).congr
    (or_iff_left not_false)

/- Steps for items fail if the step of one item does. -/
theorem mapM
    {f : α → Except GrammarError β}
    {clash : α → Prop}
    {good : α → β → Prop}
    {items : List α}
    (h :
      ∀ item ∈ items,
        SucceedsUnless (clash item) (good item) (f item)) :
    SucceedsUnless (∃ item ∈ items, clash item)
      (fun results => List.Forall₂ good items results)
        (items.mapM f) := by
  induction items with
  | nil => exact ok List.Forall₂.nil (by simp)
  | cons item items ih =>
      rw [List.forall_mem_cons] at h
      rw [List.mapM_cons]
      have hSteps :=
        h.1.bind fun result hResult =>
          (ih h.2).map (f := fun results => result :: results)
            fun results hResults =>
              List.Forall₂.cons hResult hResults
      exact hSteps.congr (by simp)

end SucceedsUnless

/-
  The attributes of labels without clash are the labels
  without their symbol.
-/
theorem Labels.attributes_spec
    (labels : Labels)
    (keys : List String)
    (item : ElementRef) :
    SucceedsUnless (∃ key ∈ keys, key ∈ labels)
      (fun attributes => attributes = labels.withoutSymbol)
      (Labels.attributes labels keys item) := by
  unfold Labels.attributes
  cases hFind : labels.keys.find? keys.contains with
  | none =>
      have hNone : ¬ ∃ key ∈ keys, key ∈ labels := by
        rintro ⟨key, hKey, hMem⟩
        have hContains :=
          List.find?_eq_none.1 hFind key
            (Std.ExtTreeMap.mem_keys.2 hMem)
        exact hContains (List.contains_iff_mem.2 hKey)
      exact .ok rfl hNone
  | some key =>
      have hMem :=
        Std.ExtTreeMap.mem_keys.1
          (List.mem_of_find?_eq_some hFind)
      have hKey :=
        List.contains_iff_mem.1 (List.find?_some hFind)
      refine ⟨fun _ => ⟨item, key, rfl⟩, ?_⟩
      intro hNone
      exact absurd ⟨key, hKey, hMem⟩ hNone

end GraphRewriting
