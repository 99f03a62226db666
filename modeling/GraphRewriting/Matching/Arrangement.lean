import Std.Data.ExtTreeSet

/-
  This file defines the arrangements of a pool of items: the
  lists of a given length whose items are drawn from distinct
  positions of the pool. Equal lists count once, and the
  arrangements come in ascending lexicographic order.

  Key definitions include:
    * `distinctItems`
    * `arrangements`

  Main statements:
    * `mem_distinctItems`
    * `length_of_mem_arrangements`
-/

namespace GraphRewriting

variable {α : Type}
variable [Ord α] [Std.TransOrd α]

/- The items of a pool, ascending and each once. -/
def distinctItems (pool : List α) : List α :=
  (Std.ExtTreeSet.ofList pool).toList

/-
  The arrangements of `length` items of a pool. The first item
  is any item of the pool, the others are an arrangement of
  what is left when one occurrence of it is taken away.
-/
def arrangements
    [DecidableEq α]
    (pool : List α) :
    Nat → List (List α)
  | 0 => [[]]
  | length + 1 =>
      (distinctItems pool).flatMap fun first =>
        (arrangements (pool.erase first) length).map
          (first :: ·)

@[simp]
theorem mem_distinctItems
    [Std.LawfulEqOrd α]
    [DecidableEq α]
    {pool : List α}
    {item : α} :
    item ∈ distinctItems pool ↔ item ∈ pool := by
  unfold distinctItems
  rw [Std.ExtTreeSet.mem_toList, Std.ExtTreeSet.mem_ofList,
    List.contains_iff_mem]

/- An arrangement has the length asked for. -/
theorem length_of_mem_arrangements
    [DecidableEq α]
    {pool list : List α}
    {length : Nat}
    (h : list ∈ arrangements pool length) :
    list.length = length := by
  induction length generalizing pool list with
  | zero =>
      simp only [arrangements, List.mem_singleton] at h
      rw [h]
      rfl
  | succ length ih =>
      simp only [arrangements, List.mem_flatMap,
        List.mem_map] at h
      rcases h with ⟨first, _, rest, hRest, rfl⟩
      rw [List.length_cons, ih hRest]

end GraphRewriting
