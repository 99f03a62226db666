import GraphRewriting.Matching.IndexCounter
import GraphRewriting.Matching.Slot
import GraphRewriting.Proofs.AscendingList
import Mathlib.Algebra.Group.Nat.Defs
import Mathlib.Data.List.GetD
import Mathlib.Data.List.Induction
import Mathlib.Data.List.Nodup

/-
  A counter gives out all tuples of indices, one with each call.
  A tuple is told by its rank, the number of the tuples before
  it, and a call moves the counter from one rank to the next.

  Main declarations:
    * `tupleRank`
    * `map_tupleRank_indexTuples`
    * `map_tupleRank_raiseBefore`
    * `indexTuples_ascending`
    * `IndexCounter.next_after`
-/

------------------------------------------------------------
-- Tuples
------------------------------------------------------------

namespace GraphRewriting

variable {radices tuple : List Nat}

/- Each index of a reading is below its own radix. -/
theorem isReading_cons
    {radix index : Nat} :
    IsReading (radix :: radices) (index :: tuple) ↔
      index < radix ∧ IsReading radices tuple := by
  unfold IsReading
  simp only [List.length_cons, Nat.add_right_cancel_iff]
  constructor
  · rintro ⟨hLength, hBelow⟩
    refine ⟨hBelow 0 (Nat.succ_pos _), hLength, ?_⟩
    intro position hPosition
    exact hBelow (position + 1) (Nat.succ_lt_succ hPosition)
  · rintro ⟨hIndex, hLength, hBelow⟩
    refine ⟨hLength, ?_⟩
    intro position hPosition
    cases position with
    | zero => exact hIndex
    | succ position =>
        exact hBelow position (Nat.lt_of_succ_lt_succ hPosition)

/- The index tuples are the readings. -/
theorem mem_indexTuples_iff_isReading :
    tuple ∈ indexTuples radices ↔ IsReading radices tuple := by
  induction radices generalizing tuple with
  | nil => simp [indexTuples, IsReading]
  | cons radix radices ih =>
      cases tuple with
      | nil => simp [indexTuples, IsReading]
      | cons index tuple =>
          simp [indexTuples, isReading_cons, ih]

/- The index tuples come in lexicographic order. -/
theorem indexTuples_ascending
    (radices : List Nat) :
    (indexTuples radices).Pairwise (· < ·) := by
  induction radices with
  | nil => exact List.pairwise_singleton _ _
  | cons radix radices ih =>
      exact pairwise_lex_flatMap_cons List.pairwise_lt_range
        fun _ _ => ih

------------------------------------------------------------
-- Ranks
------------------------------------------------------------

/- The number of tuples before a tuple. -/
def tupleRank : List Nat → List Nat → Nat
  | _ :: radices, index :: tuple =>
      index * radices.prod + tupleRank radices tuple
  | _, _ => 0

/- A range in blocks of one size. -/
private theorem flatMap_range_blocks
    (count size : Nat) :
    ((List.range count).flatMap fun block =>
      (List.range size).map (block * size + ·)) =
      List.range (count * size) := by
  induction count with
  | zero => simp
  | succ count ih =>
      rw [List.range_succ, List.flatMap_append, ih,
        List.flatMap_singleton, Nat.succ_mul, List.range_add]

/- The rank of a tuple is its place in the listing. -/
theorem map_tupleRank_indexTuples
    (radices : List Nat) :
    (indexTuples radices).map (tupleRank radices) =
      List.range radices.prod := by
  induction radices with
  | nil => rfl
  | cons radix radices ih =>
      have hBlock :
          ∀ index : Nat,
            ((indexTuples radices).map (index :: ·)).map
              (tupleRank (radix :: radices)) =
              (List.range radices.prod).map
                (index * radices.prod + ·) := by
        intro index
        rw [← ih, List.map_map, List.map_map]
        rfl
      rw [indexTuples, List.map_flatMap, List.prod_cons]
      simp only [hBlock]
      exact flatMap_range_blocks radix radices.prod

/-
  There are as many tuples as the product of the radices says.
-/
theorem length_indexTuples_eq_prod
    (radices : List Nat) :
    (indexTuples radices).length = radices.prod := by
  rw [length_indexTuples, List.prod_eq_foldr]

/- The rank of a reading stays below the number of tuples. -/
theorem IsReading.tupleRank_lt
    (h : IsReading radices tuple) :
    tupleRank radices tuple < radices.prod := by
  have hMem :=
    List.mem_map_of_mem (f := tupleRank radices)
      (mem_indexTuples_iff_isReading.2 h)
  rwa [map_tupleRank_indexTuples, List.mem_range] at hMem

/- A tuple stands where its rank says. -/
theorem IsReading.getElem?_tupleRank
    (h : IsReading radices tuple) :
    (indexTuples radices)[tupleRank radices tuple]? =
      some tuple := by
  have hRanks :
      ((indexTuples radices).map
        (tupleRank radices)).Nodup := by
    rw [map_tupleRank_indexTuples]
    exact List.nodup_range
  have hThere := List.getElem?_range h.tupleRank_lt
  rw [← map_tupleRank_indexTuples, List.getElem?_map,
    Option.map_eq_some_iff] at hThere
  rcases hThere with ⟨other, hOther, hRank⟩
  have hEq :=
    List.inj_on_of_nodup_map hRanks
      (List.mem_of_getElem? hOther)
      (mem_indexTuples_iff_isReading.2 h) hRank
  rw [hOther, hEq]

/- The front digits count in units of all tuples behind them. -/
theorem tupleRank_append
    {before behind front back : List Nat}
    (hLength : front.length = before.length) :
    tupleRank (before ++ behind) (front ++ back) =
      tupleRank before front * behind.prod +
        tupleRank behind back := by
  induction before generalizing front with
  | nil =>
      rw [List.length_eq_zero_iff.1 hLength]
      simp [tupleRank]
  | cons radix before ih =>
      cases front with
      | nil => exact absurd hLength (by simp)
      | cons index front =>
          rw [List.cons_append, List.cons_append, tupleRank,
            tupleRank, ih (Nat.succ.inj hLength),
            List.prod_append_nat, Nat.add_mul, Nat.mul_assoc,
            Nat.add_assoc]

/- The tuple of zeros is the first one. -/
theorem tupleRank_zeros
    (radices : List Nat)
    (count : Nat) :
    tupleRank radices (List.replicate count 0) = 0 := by
  induction radices generalizing count with
  | nil => cases count <;> rfl
  | cons radix radices ih =>
      cases count with
      | zero => rfl
      | succ count =>
          rw [List.replicate_succ, tupleRank, ih]
          simp

------------------------------------------------------------
-- Raising
------------------------------------------------------------

/- A reading of one more radix has one more index. -/
theorem IsReading.exists_append_singleton
    {before reading : List Nat}
    {radix : Nat}
    (h : IsReading (before ++ [radix]) reading) :
    ∃ (front : List Nat) (index : Nat),
      reading = front ++ [index] ∧ IsReading before front ∧
        index < radix := by
  rcases h with ⟨hLength, hBelow⟩
  rw [List.length_append,
    List.length_singleton] at hLength hBelow
  rcases reading.eq_nil_or_concat with rfl | ⟨front, index, rfl⟩
  · cases hLength
  · rw [List.concat_eq_append] at hLength hBelow ⊢
    have hFront : front.length = before.length := by
      simpa using hLength
    refine ⟨front, index, rfl, ⟨hFront, ?_⟩, ?_⟩
    · intro position hPosition
      have hLt := hBelow position (Nat.lt_succ_of_lt hPosition)
      rwa [List.getD_append _ _ _ _ (hFront ▸ hPosition),
        List.getD_append _ _ _ _ hPosition] at hLt
    · have hLast :=
        hBelow before.length (Nat.lt_succ_self _)
      simpa [← hFront] using hLast

/-
  An index is raised, or it is wrapped and the one
  before it has its turn.
-/
private theorem raiseBefore_append
    {before behind front back : List Nat}
    {radix index : Nat}
    (hLength : front.length = before.length) :
    raiseBefore (before ++ radix :: behind) (front.length + 1)
      (front ++ index :: back) =
      if index + 1 < radix then
        some (front ++ (index + 1) :: back)
      else
        raiseBefore (before ++ radix :: behind) front.length
          (front ++ 0 :: back) := by
  have hRadix :
      (before ++ radix :: behind).getD front.length 0 =
        radix := by
    simp [hLength]
  have hIndex :
      (front ++ index :: back).getD front.length 0 = index := by
    simp
  have hSet (value : Nat) :
      (front ++ index :: back).set front.length value =
        front ++ value :: back := by
    simp
  rw [raiseBefore, hRadix, hIndex, hSet, hSet]

/-
  Raising the index before zeros adds one to the rank of the
  indices up to there. The induction wraps the last of them,
  which is one more zero for those before it.
-/
theorem map_tupleRank_raiseBefore
    {before front : List Nat}
    (behind : List Nat)
    (hFront : IsReading before front) :
    (raiseBefore (before ++ behind) front.length
      (front ++ List.replicate behind.length 0)).map
        (tupleRank (before ++ behind)) =
      if tupleRank before front + 1 < before.prod then
        some ((tupleRank before front + 1) * behind.prod)
      else
        none := by
  induction before using List.reverseRecOn generalizing front
    behind with
  | nil =>
      rw [List.length_eq_zero_iff.1 hFront.1]
      simp [raiseBefore, tupleRank]
  | append_singleton before radix ih =>
      rcases hFront.exists_append_singleton with
        ⟨front, index, rfl, hFront, hIndex⟩
      have hRank :
          tupleRank (before ++ [radix]) (front ++ [index]) =
            tupleRank before front * radix + index := by
        rw [tupleRank_append hFront.1]
        simp [tupleRank]
      have hProd :
          (before ++ [radix]).prod = before.prod * radix := by
        simp
      rw [hRank, hProd, List.append_assoc, List.append_assoc,
        List.singleton_append, List.singleton_append,
        List.length_append, List.length_singleton,
        raiseBefore_append hFront.1]
      by_cases hRaised : index + 1 < radix
      · have hLevel :=
          Nat.mul_le_mul_right radix hFront.tupleRank_lt
        rw [Nat.succ_mul] at hLevel
        rw [if_pos hRaised, if_pos (by omega), Option.map_some,
          tupleRank_append hFront.1,
          List.prod_cons, tupleRank, tupleRank_zeros,
          Nat.add_zero, ← Nat.mul_assoc,
          ← Nat.add_mul, Nat.add_assoc]
      · have hWrapped :
            tupleRank before front * radix + index + 1 =
              (tupleRank before front + 1) * radix := by
          rw [Nat.succ_mul]
          omega
        have hZeros :
            0 :: List.replicate behind.length 0 =
              List.replicate (radix :: behind).length 0 := rfl
        rw [if_neg hRaised, hZeros, ih _ hFront, hWrapped,
          List.prod_cons, Nat.mul_assoc]
        simp only [Nat.mul_lt_mul_right
          (Nat.zero_lt_of_lt hIndex)]

end GraphRewriting

------------------------------------------------------------
-- Calls
------------------------------------------------------------

namespace GraphRewriting

namespace IndexCounter

/-
  The present reading has a given number of tuples before it. If
  there are no more than so many tuples, the counter is off.
-/
def StandsAt
    (c : IndexCounter)
    (number : Nat) : Prop :=
  c.reading?.map (tupleRank c.radices) =
    if number < c.radices.prod then some number else none

/- A new counter stands at the first tuple. -/
theorem standsAt_ofRadices
    (radices : List Nat) :
    (ofRadices radices).StandsAt 0 := by
  unfold StandsAt
  rw [radices_ofRadices, reading?_ofRadices]
  by_cases hZero : 0 ∈ radices
  · have hProd : radices.prod = 0 :=
      List.prod_eq_zero_iff_exists_zero_nat.2 ⟨0, hZero, rfl⟩
    rw [if_pos hZero, hProd]
    rfl
  · have hPos : 0 < radices.prod := by
      rw [List.prod_pos_iff_forall_pos_nat]
      exact fun radix hRadix =>
        Nat.pos_of_ne_zero (ne_of_mem_of_not_mem hRadix hZero)
    rw [if_neg hZero, if_pos hPos, Option.map_some,
      tupleRank_zeros]

/- A call moves the counter by one tuple. -/
theorem StandsAt.next
    {c : IndexCounter}
    {number : Nat}
    (h : c.StandsAt number) :
    c.next.2.StandsAt (number + 1) := by
  unfold StandsAt at h ⊢
  rw [radices_next, reading?_next]
  cases hReading : c.reading? with
  | none =>
      rw [hReading, Option.map_none, eq_comm,
        ite_eq_right_iff] at h
      rw [if_neg fun hLt =>
        absurd (h (Nat.lt_of_succ_lt hLt))
          (Option.some_ne_none number)]
      rfl
  | some reading =>
      have hRaise :=
        map_tupleRank_raiseBefore []
          (c.isReading reading hReading)
      rw [hReading, Option.map_some, eq_comm,
        Option.ite_none_right_eq_some] at h
      rw [← Option.some.inj h.2] at hRaise
      simpa using hRaise

/- Each call moves the counter on by one tuple. -/
theorem standsAt_after
    (radices : List Nat)
    (calls : Nat) :
    ((ofRadices radices).after calls).StandsAt calls := by
  induction calls with
  | zero => exact standsAt_ofRadices radices
  | succ calls ih => exact ih.next

/- A counter gives the tuple where it stands. -/
theorem StandsAt.reading?_eq
    {c : IndexCounter}
    {number : Nat}
    (h : c.StandsAt number) :
    c.reading? = (indexTuples c.radices)[number]? := by
  unfold StandsAt at h
  split at h
  · rcases Option.map_eq_some_iff.1 h with
      ⟨reading, hReading, rfl⟩
    rw [(c.isReading reading hReading).getElem?_tupleRank,
      hReading]
  · rename_i hOff
    rw [Option.map_eq_none_iff.1 h, List.getElem?_eq_none]
    rw [length_indexTuples_eq_prod]
    exact Nat.le_of_not_lt hOff

/-
  Called again and again, a counter gives the tuples below its
  radices, each once and in ascending order, as many as the
  product of the radices, and none from then on. Where the
  radices count the choices of slots, each index is that of a
  choice, and the bindings that extend others by one choice per
  slot are those that the tuples choose.
-/
theorem next_after
    (radices : List Nat) :
    (∀ calls : Nat,
      ((ofRadices radices).after calls).next.1 =
        (indexTuples radices)[calls]?) ∧
      (∀ calls : Nat,
        ((ofRadices radices).after calls).next.1 = none ↔
          radices.prod ≤ calls) ∧
        (indexTuples radices).Pairwise (· < ·) ∧
          (∀ tuple : List Nat,
            tuple ∈ indexTuples radices ↔
              tuple.length = radices.length ∧
                ∀ position ∈ tuple.zip radices,
                  position.1 < position.2) ∧
            (indexTuples radices).length = radices.prod ∧
              (radices = [] → indexTuples radices = [[]]) ∧
                (0 ∈ radices → indexTuples radices = []) ∧
                  ∀ slots : List Slot,
                    slots.map
                        (fun slot => slot.choices.length) =
                      radices →
                      (∀ tuple ∈ indexTuples radices,
                        tuple.length = slots.length ∧
                          ∀ position ∈ tuple.zip slots,
                            position.1 <
                              position.2.choices.length) ∧
                        ∀ b : Bindings,
                          b.extensions slots =
                            (indexTuples radices).filterMap
                              fun tuple =>
                                (chosenPairs slots tuple).foldlM
                                  Bindings.add? b := by
  have hNext (calls : Nat) :
      ((ofRadices radices).after calls).next.1 =
        (indexTuples radices)[calls]? := by
    have hReading := (standsAt_after radices calls).reading?_eq
    rwa [radices_after, radices_ofRadices] at hReading
  have hLength := length_indexTuples_eq_prod radices
  refine
    ⟨hNext, ?_, indexTuples_ascending radices,
      fun tuple => mem_indexTuples, hLength, ?_, ?_, ?_⟩
  · intro calls
    rw [hNext, List.getElem?_eq_none_iff, hLength]
  · rintro rfl
    rfl
  · intro hZero
    rw [← List.length_eq_zero_iff, hLength]
    exact
      List.prod_eq_zero_iff_exists_zero_nat.2 ⟨0, hZero, rfl⟩
  · rintro slots rfl
    refine ⟨?_, fun b => b.extensions_eq_filterMap slots⟩
    intro tuple hTuple
    rcases mem_indexTuples.1 hTuple with ⟨hSize, hBelow⟩
    refine ⟨by rw [hSize, List.length_map], ?_⟩
    intro position hPosition
    rw [List.zip_map_right, List.forall_mem_map] at hBelow
    exact hBelow position hPosition

/- Two choices in one slot and three in the next. -/
theorem next_after_twoByThree :
    ((ofRadices [2, 3]).after 5).next.1 = some [1, 2] ∧
      ((ofRadices [2, 3]).after 6).next.1 = none ∧
        indexTuples [2, 3] =
          [[0, 0], [0, 1], [0, 2], [1, 0], [1, 1], [1, 2]] ∧
          (indexTuples [2, 0]).length = [2, 0].prod ∧
            ((ofRadices []).after 0).next.1 = some [] := by
  have hExact := next_after [2, 3]
  exact ⟨hExact.1 5, (hExact.2.1 6).2 (by decide), by decide,
    (next_after [2, 0]).2.2.2.2.1,
    (next_after []).1 0⟩

end IndexCounter

end GraphRewriting
