/-
  This file defines the tuples of indices into several lists:
  the readings of a counter whose positions have radices of
  their own, from all zeros on, with the last position moving
  fastest.

  Key definitions include:
    * `indexTuples`

  Main statements:
    * `mem_indexTuples`
    * `length_indexTuples`
-/

namespace GraphRewriting

/-
  All tuples with one index below each radix, in ascending
  lexicographic order. Without radices there is one empty
  tuple, with a radix of zero there is none.
-/
def indexTuples : List Nat → List (List Nat)
  | [] => [[]]
  | radix :: radices =>
      let tails := indexTuples radices
      (List.range radix).flatMap fun index =>
        tails.map (index :: ·)

/- The tuples stay below their radices. -/
theorem mem_indexTuples
    {radices tuple : List Nat} :
    tuple ∈ indexTuples radices ↔
      tuple.length = radices.length ∧
        ∀ position ∈ tuple.zip radices,
          position.1 < position.2 := by
  induction radices generalizing tuple with
  | nil =>
      cases tuple <;> simp [indexTuples]
  | cons radix radices ih =>
      cases tuple with
      | nil => simp [indexTuples]
      | cons index tuple =>
          simp only [indexTuples, List.mem_flatMap,
            List.mem_map, List.mem_range, List.cons.injEq,
            List.length_cons, List.zip_cons_cons, List.mem_cons,
            Nat.add_right_cancel_iff]
          constructor
          · rintro ⟨index', hLt, tail, hTail, rfl, rfl⟩
            rw [ih] at hTail
            refine ⟨hTail.1, ?_⟩
            rintro position (rfl | hMem)
            · exact hLt
            · exact hTail.2 position hMem
          · rintro ⟨hLength, hBelow⟩
            refine
              ⟨index, hBelow (index, radix) (Or.inl rfl), tuple,
                ?_, rfl, rfl⟩
            rw [ih]
            exact
              ⟨hLength,
                fun position hMem =>
                  hBelow position (Or.inr hMem)⟩

/- There are as many tuples as the product of the radices. -/
theorem length_indexTuples
    (radices : List Nat) :
    (indexTuples radices).length = radices.foldr (· * ·) 1 := by
  induction radices with
  | nil => rfl
  | cons radix radices ih =>
      simp only [indexTuples, List.length_flatMap,
        List.length_map, List.foldr_cons, ih]
      rw [List.map_const', List.length_range,
        List.sum_replicate_nat]

end GraphRewriting
