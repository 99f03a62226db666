import GraphRewriting.Matching.Arrangement
import GraphRewriting.Proofs.AscendingList
import Mathlib.Data.List.FinRange
import Mathlib.Data.List.Nodup
import Mathlib.Data.List.Perm.Subperm

/-
  The arrangements of a pool are the lists of the length asked
  for whose items can be taken from the pool, which is to say
  from distinct positions of it, in ascending order and each
  list once.

  Main declarations:
    * `mem_arrangements_iff`
    * `mem_arrangements_iff_perm`
    * `mem_arrangements_iff_isSelection`
    * `arrangements_nodup`
    * `arrangements_ascending`
-/

namespace GraphRewriting

variable {α : Type}
variable [Ord α] [Std.TransOrd α] [Std.LawfulEqOrd α]

/- Equal items are kept once. -/
theorem distinctItems_nodup
    (pool : List α) :
    (distinctItems pool).Nodup := by
  unfold distinctItems
  apply Std.ExtTreeSet.distinct_toList.imp
  intro a b hNe hEq
  exact hNe (Std.compare_eq_iff_eq.2 hEq)

variable [DecidableEq α]

/-
  The arrangements are the lists of the given length that take
  no item more often than the pool has it.
-/
theorem mem_arrangements_iff
    {pool list : List α}
    {length : Nat} :
    list ∈ arrangements pool length ↔
      list.length = length ∧ list.Subperm pool := by
  induction length generalizing pool list with
  | zero =>
      rw [arrangements, List.mem_singleton,
        List.length_eq_zero_iff]
      constructor
      · rintro rfl
        exact ⟨rfl, List.nil_subperm⟩
      · exact And.left
  | succ length ih =>
      simp only [arrangements, List.mem_flatMap, List.mem_map,
        mem_distinctItems]
      constructor
      · rintro ⟨first, hFirst, rest, hRest, rfl⟩
        rw [ih] at hRest
        have hPool : (first :: pool.erase first).Perm pool :=
          (List.perm_cons_erase hFirst).symm
        refine ⟨by rw [List.length_cons, hRest.1], ?_⟩
        exact ((List.subperm_cons first).2 hRest.2).trans
          hPool.subperm
      · rintro ⟨hLength, hSubperm⟩
        cases list with
        | nil => exact absurd hLength (by simp)
        | cons first rest =>
            have hRest : rest.Subperm (pool.erase first) := by
              have hErase := hSubperm.erase first
              rwa [List.erase_cons_head] at hErase
            refine
              ⟨first, hSubperm.subset (by simp), rest, ?_, rfl⟩
            rw [ih]
            exact ⟨Nat.succ.inj hLength, hRest⟩

/- The arrangements of a whole pool are its permutations. -/
theorem mem_arrangements_iff_perm
    {pool list : List α}
    {length : Nat}
    (hPool : pool.length = length) :
    list ∈ arrangements pool length ↔ list.Perm pool := by
  rw [mem_arrangements_iff]
  constructor
  · rintro ⟨hLength, hSubperm⟩
    exact hSubperm.perm_of_length_le (by omega)
  · intro hPerm
    exact ⟨hPerm.length_eq.trans hPool, hPerm.subperm⟩

/-
  The list has the items at distinct positions of a pool, as
  many as asked for.
-/
def IsSelection
    {α : Type}
    (pool : List α)
    (length : Nat)
    (list : List α) : Prop :=
  ∃ positions : List (Fin pool.length),
    positions.length = length ∧ positions.Nodup ∧
      positions.map pool.get = list

/-
  The arrangements are what distinct positions
  of the pool select.
-/
theorem mem_arrangements_iff_isSelection
    {pool list : List α}
    {length : Nat} :
    list ∈ arrangements pool length ↔
      IsSelection pool length list := by
  rw [mem_arrangements_iff]
  constructor
  · rintro ⟨rfl, hSubperm⟩
    refine
      ⟨(List.finRange list.length).map hSubperm.idxInj, by simp,
        ?_, ?_⟩
    · exact
        (List.nodup_finRange _).map hSubperm.idxInj_injective
    · rw [List.map_map]
      apply List.ext_getElem (by simp)
      intro index _ _
      simp
  · rintro ⟨positions, rfl, hNodup, rfl⟩
    refine ⟨List.length_map .., ?_⟩
    obtain ⟨sorted, hPerm, hSublist⟩ :=
      hNodup.subperm fun position _ =>
        List.mem_finRange position
    refine ⟨sorted.map pool.get, hPerm.map pool.get, ?_⟩
    have hMap := hSublist.map pool.get
    rwa [List.map_get_finRange] at hMap

/-
  No arrangement is listed twice, even if the
  pool has equal items.
-/
theorem arrangements_nodup
    (pool : List α)
    (length : Nat) :
    (arrangements pool length).Nodup := by
  induction length generalizing pool with
  | zero => exact List.nodup_singleton []
  | succ length ih =>
      rw [arrangements, List.nodup_flatMap]
      constructor
      · intro first _
        exact (ih _).map (List.cons_injective)
      · apply (distinctItems_nodup pool).imp
        intro first second hNe list hFirst hSecond
        rcases List.mem_map.1 hFirst with ⟨_, _, rfl⟩
        rcases List.mem_map.1 hSecond with ⟨_, _, hEq⟩
        exact hNe (List.cons.inj hEq).1.symm

/- The arrangements come in lexicographic order. -/
omit [Std.LawfulEqOrd α] in
theorem arrangements_ascending
    (pool : List α)
    (length : Nat) :
    (arrangements pool length).Pairwise
      (List.Lex fun a b : α => compare a b = .lt) := by
  induction length generalizing pool with
  | zero => exact List.pairwise_singleton _ _
  | succ length ih =>
      apply pairwise_lex_flatMap_cons
      · exact Std.ExtTreeSet.ordered_toList
      · exact fun first _ => ih (pool.erase first)

end GraphRewriting
