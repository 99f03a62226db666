import GraphRewriting.Matching.Basic
import GraphRewriting.Proofs.Matching.IndexCounter
import GraphRewriting.Proofs.Matching.PositionSearch

/-
  The matches of an exotic graph, by the loops that go through
  them: the choices of a slot are searched for by positions, a
  counter gives one tuple of indices after the other, and each
  tuple makes a match or none.

  Main declarations:
    * `ExoticGraph.searchedSlot`
    * `ExoticGraph.matchOfTuple?`
    * `ExoticGraph.matchesOfCalls`
    * `ExoticGraph.matchesAt_eq_matchesOfCalls`
    * `ExoticGraph.matchList_eq_flatMap_matchesOfCalls`
-/

namespace GraphRewriting

namespace ExoticGraph

variable (p : ExoticGraph)
variable (target : Graph)
variable (e : Embedding)

------------------------------------------------------------
-- Slots
------------------------------------------------------------

/-
  The slot of one side, with the choices that
  the search finds.
-/
def searchedSlot (side : Side) : Slot :=
  let beside :=
    e.images[side.node]?.elim [] (target.beside side.direction)
  let candidates := beside.filter fun id => !e.isImage id
  let wanted := side.exotics.length
  ⟨side.exotics,
    selections (p.pool candidates wanted) wanted⟩

/- The search finds the choices of the slot. -/
private theorem searchedSlot_eq
    (side : Side) :
    p.searchedSlot target e side = p.slot target e side := by
  unfold searchedSlot slot
  simp only [selections_eq_arrangements]

------------------------------------------------------------
-- Tuples
------------------------------------------------------------

/-
  The match that the choices of a tuple make, unless they
  disagree or leave an anchor out.
-/
def matchOfTuple?
    (slots : List Slot)
    (tuple : List Nat) : Option Morphism :=
  ((chosenPairs slots tuple).foldlM Bindings.add?
    Bindings.empty).bind (p.morphism? e)

/-
  The matches that a counter leads to. A bounded number of
  calls is made, but none once the counter is off.
-/
def matchesOfCalls (slots : List Slot) :
    Nat → IndexCounter → List Morphism
  | 0, _ => []
  | calls + 1, c =>
      match c.next.1 with
      | none => []
      | some tuple =>
          (p.matchOfTuple? e slots tuple).toList ++
            matchesOfCalls slots calls c.next.2

variable {e}

/-
  The tuples that a counter goes through are those from where it
  stands on. The induction is on the calls that are left.
-/
private theorem matchesOfCalls_of_standsAt
    (slots : List Slot)
    {c : IndexCounter}
    {number : Nat}
    (h : c.StandsAt number)
    (calls : Nat) :
    p.matchesOfCalls e slots calls c =
      (((indexTuples c.radices).drop number).take
        calls).filterMap (p.matchOfTuple? e slots) := by
  induction calls generalizing c number with
  | zero =>
      rw [List.take_zero]
      rfl
  | succ calls ih =>
      have hReading := h.reading?_eq
      unfold matchesOfCalls
      rw [IndexCounter.fst_next, hReading]
      cases hTuple : (indexTuples c.radices)[number]? with
      | none =>
          have hLength := List.getElem?_eq_none_iff.1 hTuple
          rw [List.drop_eq_nil_of_le hLength]
          rfl
      | some tuple =>
          rcases List.getElem?_eq_some_iff.1 hTuple with
            ⟨hNumber, rfl⟩
          rw [List.drop_eq_getElem_cons hNumber,
            List.take_succ_cons, ← List.singleton_append,
            List.filterMap_append, ih h.next,
            IndexCounter.radices_next]
          simp only [List.filterMap_cons, List.filterMap_nil]
          cases
            p.matchOfTuple? e slots
              (indexTuples c.radices)[number] with
          | none => rfl
          | some m => rfl

/-
  The choices of all slots, one after the other as a counter
  gives them out, make the matches that extend an embedding.
  Further calls add nothing.
-/
theorem matchesAt_eq_matchesOfCalls
    (sides : List Side)
    {calls : Nat} :
    let slots := sides.map (p.searchedSlot target e)
    let radices := slots.map fun slot => slot.choices.length
    radices.prod ≤ calls →
      p.matchesAt target sides e =
        p.matchesOfCalls e slots calls
          (.ofRadices radices) := by
  intro slots radices hCalls
  have hSlots : slots = sides.map (p.slot target e) :=
    List.map_congr_left fun side _ =>
      p.searchedSlot_eq target e side
  have hAll : (indexTuples radices).length ≤ calls := by
    rw [length_indexTuples_eq_prod]
    exact hCalls
  rw [p.matchesOfCalls_of_standsAt slots
      (IndexCounter.standsAt_ofRadices radices),
    IndexCounter.radices_ofRadices, List.drop_zero,
    List.take_of_length_le hAll]
  unfold matchesAt
  rw [← hSlots, Bindings.extensions_eq_filterMap,
    List.filterMap_filterMap]
  rfl

/-
  All matches are those that the counters lead to, embedding by
  embedding.
-/
theorem matchList_eq_flatMap_matchesOfCalls :
    p.matchList target =
      (p.graph.embeddings target fun wanted found =>
        decide (p.kind.AdmitsDegree wanted found)).flatMap
          fun e =>
            let slots := p.sides.map (p.searchedSlot target e)
            let radices :=
              slots.map fun slot => slot.choices.length
            p.matchesOfCalls e slots radices.prod
              (.ofRadices radices) := by
  unfold matchList
  refine congrArg (List.flatMap · _) ?_
  funext e
  exact
    p.matchesAt_eq_matchesOfCalls target p.sides (Nat.le_refl _)

end ExoticGraph

end GraphRewriting
