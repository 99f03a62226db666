import GraphRewriting.Matching.IndexTuple
import GraphRewriting.NodeId
import Std.Data.ExtTreeMap
import Std.Data.ExtTreeSet

/-
  This file defines the ways to bind the exotic nodes of a
  pattern when each of several slots offers choices.

  The slots are gone through one after the other. A choice that
  disagrees with an earlier one, or that gives two exotic nodes
  the same target, is dropped together with all that would come
  after it.

  Key definitions include:
    * `Slot`
    * `Bindings`
    * `Bindings.add?`
    * `Bindings.extensions`

  Main statements:
    * `Bindings.extensions_eq_filterMap`
-/

namespace GraphRewriting

------------------------------------------------------------
-- Slots
------------------------------------------------------------

/-
  Some exotic nodes, with all ways to give each of them a target
  or none.
-/
structure Slot where
  exotics : List NodeId
  choices : List (List (Option NodeId))

/- Exotic nodes with what one choice of the slot gives them. -/
def Slot.pairs
    (slot : Slot)
    (choice : List (Option NodeId)) :
      List (NodeId × Option NodeId) :=
  slot.exotics.zip choice

/- Exotic nodes with what one choice per slot gives them. -/
def chosenPairs
    (slots : List Slot)
    (tuple : List Nat) : List (NodeId × Option NodeId) :=
  (slots.zip tuple).flatMap fun (slot, index) =>
    slot.pairs (slot.choices.getD index [])

------------------------------------------------------------
-- Bindings
------------------------------------------------------------

/-
  Exotic nodes with a target or none, and the
  set of the targets.
-/
structure Bindings where
  targets : Std.ExtTreeMap NodeId (Option NodeId)
  taken : Std.ExtTreeSet NodeId

namespace Bindings

/- No exotic node is bound. -/
def empty : Bindings :=
  ⟨∅, ∅⟩

/-
  Bind an exotic node, unless it is bound otherwise already or
  its target belongs to another one.
-/
def add?
    (b : Bindings)
    (pair : NodeId × Option NodeId) : Option Bindings :=
  match b.targets[pair.1]?, pair.2 with
  | some known, target =>
      if known = target then some b else none
  | none, none => some ⟨b.targets.insert pair.1 none, b.taken⟩
  | none, some target =>
      if target ∈ b.taken then
        none
      else
        some ⟨b.targets.insert pair.1 (some target),
          b.taken.insert target⟩

/- All ways to extend bindings by one choice per slot. -/
def extensions (b : Bindings) : List Slot → List Bindings
  | [] => [b]
  | slot :: slots =>
      slot.choices.flatMap fun choice =>
        match (slot.pairs choice).foldlM add? b with
        | none => []
        | some next => next.extensions slots

end Bindings

------------------------------------------------------------
-- Completeness
------------------------------------------------------------

theorem chosenPairs_cons
    (slot : Slot)
    (slots : List Slot)
    (index : Nat)
    (tuple : List Nat) :
    chosenPairs (slot :: slots) (index :: tuple) =
      slot.pairs (slot.choices.getD index []) ++
        chosenPairs slots tuple := by
  unfold chosenPairs
  rw [List.zip_cons_cons, List.flatMap_cons]

/- Going through indices is going through the items. -/
private theorem flatMap_range_getD
    {α β : Type}
    (list : List α)
    (default : α)
    (f : α → List β) :
    ((List.range list.length).flatMap fun index =>
      f (list.getD index default)) =
      list.flatMap f := by
  induction list with
  | nil => rfl
  | cons head tail ih =>
      rw [List.length_cons, List.range_succ_eq_map,
        List.flatMap_cons, List.flatMap_map, List.flatMap_cons,
        ← ih]
      rfl

/-
  Going through all index tuples finds the same bindings, in the
  same order.
-/
theorem Bindings.extensions_eq_filterMap
    (b : Bindings)
    (slots : List Slot) :
    b.extensions slots =
      (indexTuples
          (slots.map fun slot => slot.choices.length)).filterMap
        fun tuple =>
          (chosenPairs slots tuple).foldlM add? b := by
  induction slots generalizing b with
  | nil => rfl
  | cons slot slots ih =>
      rw [List.map_cons, indexTuples, extensions,
        List.filterMap_flatMap,
        ← flatMap_range_getD slot.choices []]
      congr 1
      funext index
      rw [List.filterMap_map]
      simp only [Function.comp_def, chosenPairs_cons,
        List.foldlM_append]
      cases (slot.pairs (slot.choices.getD index [])).foldlM
        add? b with
      | none =>
          exact
            (List.filterMap_eq_nil_iff.2 fun _ _ => rfl).symm
      | some next => exact ih next

end GraphRewriting
