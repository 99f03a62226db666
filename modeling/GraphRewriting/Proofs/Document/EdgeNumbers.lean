import GraphRewriting.Document.Description
import Mathlib.Data.List.Nodup
import Std.Data.String.ToNat

/-
  The numbers that edges without a document id take.

  Main declarations:
    * `numberedEdgeId_injective`
    * `freshEdgeNumber_spec`
-/

namespace GraphRewriting

theorem numberedEdgeId_injective :
    Function.Injective numberedEdgeId := by
  intro a b h
  unfold numberedEdgeId at h
  exact Nat.repr_injective ((String.append_right_inj "e").1 h)

/-
  The ids of the numbers that are tried for an edge, of
  which there are enough.
-/
private theorem exists_numberedEdgeId_notMem
    (taken : Std.ExtTreeSet String)
    (last : Nat) :
    ∃ number ∈ List.range' (last + 1) (taken.size + 1),
      numberedEdgeId number ∉ taken := by
  by_contra hAll
  have hTaken :
      ∀ number ∈ List.range' (last + 1) (taken.size + 1),
        numberedEdgeId number ∈ taken := by
    intro number hNumber
    by_contra hFree
    exact hAll ⟨number, hNumber, hFree⟩
  have hNodup :
      ((List.range' (last + 1) (taken.size + 1)).map
        numberedEdgeId).Nodup :=
    List.Nodup.map numberedEdgeId_injective List.nodup_range'
  have hSubset :
      (List.range' (last + 1) (taken.size + 1)).map
          numberedEdgeId ⊆
        taken.toList := by
    intro id hId
    rcases List.mem_map.1 hId with ⟨number, hNumber, rfl⟩
    exact Std.ExtTreeSet.mem_toList.2 (hTaken number hNumber)
  have hLength := hNodup.length_le_of_subset hSubset
  rw [List.length_map, List.length_range',
    Std.ExtTreeSet.length_toList] at hLength
  omega

/-
  The next free number is free, and past the
  numbers given so far.
-/
theorem freshEdgeNumber_spec
    (taken : Std.ExtTreeSet String)
    (last : Nat) :
    last < freshEdgeNumber taken last ∧
      numberedEdgeId (freshEdgeNumber taken last) ∉ taken := by
  rcases exists_numberedEdgeId_notMem taken last with
    ⟨free, hFree, hNot⟩
  unfold freshEdgeNumber
  dsimp only
  cases hFind :
      (List.range' (last + 1) (taken.size + 1)).find?
        fun number =>
          !taken.contains (numberedEdgeId number) with
  | none =>
      have hContains := List.find?_eq_none.1 hFind free hFree
      rw [Bool.not_eq_true', Bool.not_eq_false,
        Std.ExtTreeSet.contains_iff_mem] at hContains
      exact absurd hContains hNot
  | some number =>
      have hNumber := List.mem_of_find?_eq_some hFind
      have hPred := List.find?_some hFind
      rw [Bool.not_eq_true', ← Bool.not_eq_true,
        Std.ExtTreeSet.contains_iff_mem] at hPred
      rw [List.mem_range'_1] at hNumber
      exact ⟨by rw [Option.getD_some]; omega, hPred⟩

end GraphRewriting
