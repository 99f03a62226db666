import Mathlib.Data.List.Sort

/-
  Lists in ascending order. Such a list is told by what is in
  it. Lists of items that can be compared are themselves
  compared by their first difference, and an enumeration by
  first items and rests ascends when the first items and the
  rests do.

  Main declarations:
    * `eq_of_ascending`
    * `compare_eq_lt_iff_lex`
    * `pairwise_lex_flatMap_cons`
-/

namespace GraphRewriting

variable {α : Type}

------------------------------------------------------------
-- Members
------------------------------------------------------------

/-
  Lists that ascend by a key are the same when
  their members are.
-/
theorem eq_of_ascending
    {κ : Type}
    [Ord κ] [Std.OrientedOrd κ]
    {key : α → κ}
    {list other : List α}
    (hList :
      list.Pairwise fun a b => compare (key a) (key b) = .lt)
    (hOther :
      other.Pairwise fun a b => compare (key a) (key b) = .lt)
    (hMem : ∀ a : α, a ∈ list ↔ a ∈ other) :
    list = other := by
  have :
      Std.Asymm fun a b : α => compare (key a) (key b) = .lt :=
    ⟨fun _ _ => Std.OrientedCmp.not_lt_of_lt⟩
  exact hList.eq_of_mem_iff hOther hMem

------------------------------------------------------------
-- Lexicographic Order
------------------------------------------------------------

/- Lists compare by their first difference. -/
theorem compare_eq_lt_iff_lex
    [Ord α] [Std.LawfulEqOrd α]
    {list other : List α} :
    compare list other = .lt ↔
      List.Lex (fun a b : α => compare a b = .lt) list
        other := by
  induction list generalizing other with
  | nil =>
      cases other with
      | nil => simp
      | cons b other =>
          exact iff_of_true List.compare_nil_cons List.Lex.nil
  | cons a list ih =>
      cases other with
      | nil => simp
      | cons b other =>
          rw [List.compare_cons_cons, Ordering.then_eq_lt,
            Std.compare_eq_iff_eq, ih, List.cons_lex_cons_iff]

/-
  The lists with ascending first items, and ascending rests
  behind each of them.
-/
theorem pairwise_lex_flatMap_cons
    {r : α → α → Prop}
    {heads : List α}
    {tails : α → List (List α)}
    (hHeads : heads.Pairwise r)
    (hTails :
      ∀ head ∈ heads, (tails head).Pairwise (List.Lex r)) :
    (heads.flatMap fun head =>
        (tails head).map (head :: ·)).Pairwise
      (List.Lex r) := by
  rw [List.pairwise_flatMap]
  constructor
  · intro head hHead
    rw [List.pairwise_map]
    exact (hTails head hHead).imp List.Lex.cons
  · apply hHeads.imp
    intro first second hLt list hList other hOther
    rcases List.mem_map.1 hList with ⟨_, _, rfl⟩
    rcases List.mem_map.1 hOther with ⟨_, _, rfl⟩
    exact List.Lex.rel hLt

end GraphRewriting
