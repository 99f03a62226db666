import GraphRewriting.NodeId
import Std.Data.ExtTreeMap

/-
  This file defines partial maps from the nodes of a pattern to
  the nodes of a target graph. A pattern node that found no
  target is kept as an unmatched entry.

  Key definitions include:
    * `Morphism`
    * `Morphism.target?`
    * `Morphism.ofList`
    * `Morphism.targets`
    * `RuleMatch`
    * `sortAscending`
-/

namespace GraphRewriting

------------------------------------------------------------
-- Morphisms
------------------------------------------------------------

/-
  Pattern nodes with their targets; unmatched ones have none.
-/
structure Morphism where
  bindings : Std.ExtTreeMap NodeId (Option NodeId)
  deriving DecidableEq

namespace Morphism

/- The morphism of no pattern node. -/
def empty : Morphism :=
  ⟨∅⟩

instance : EmptyCollection Morphism := ⟨empty⟩

instance : Inhabited Morphism := ⟨empty⟩

/- Map a pattern node to a target. -/
def bind
    (m : Morphism)
    (pattern target : NodeId) : Morphism :=
  ⟨m.bindings.insert pattern (some target)⟩

/- Keep a pattern node without a target. -/
def unmatch
    (m : Morphism)
    (pattern : NodeId) : Morphism :=
  ⟨m.bindings.insert pattern none⟩

/-
  The target of a pattern node; unmatched and
  unknown ones have none.
-/
def target?
    (m : Morphism)
    (pattern : NodeId) : Option NodeId :=
  m.bindings[pattern]?.join

/- Whether a pattern node is an entry, matched or not. -/
def contains
    (m : Morphism)
    (pattern : NodeId) : Bool :=
  m.bindings.contains pattern

/- Whether a pattern node is an entry without a target. -/
def isUnmatched
    (m : Morphism)
    (pattern : NodeId) : Bool :=
  m.bindings[pattern]? == some none

/- The entries, by ascending pattern node. -/
def toList (m : Morphism) : List (NodeId × Option NodeId) :=
  m.bindings.toList

/- A morphism from its entries; later ones win. -/
def ofList
    (entries : List (NodeId × Option NodeId)) : Morphism :=
  ⟨Std.ExtTreeMap.ofList entries⟩

/-
  The targets of the matched entries, by
  ascending pattern node.
-/
def targets (m : Morphism) : List NodeId :=
  m.bindings.values.filterMap id

/- The number of entries. -/
def size (m : Morphism) : Nat :=
  m.bindings.size

end Morphism

------------------------------------------------------------
-- Matches
------------------------------------------------------------

/-
  A place where a rule applies: one node, or a morphism of the
  left-hand side.
-/
inductive RuleMatch where
  | node (id : NodeId)
  | morphism (m : Morphism)
  deriving DecidableEq

------------------------------------------------------------
-- Orders
------------------------------------------------------------

/-
  Entries compare by pattern node, then by target, none first.
-/
def compareEntries :
    NodeId × Option NodeId → NodeId × Option NodeId →
      Ordering :=
  compareLex (compareOn Prod.fst) (compareOn Prod.snd)

/- Morphisms compare as the lists of their entries. -/
instance : Ord Morphism :=
  ⟨fun m n => List.compareLex compareEntries m.toList n.toList⟩

/- Single nodes come before morphisms. -/
instance : Ord RuleMatch :=
  ⟨fun
    | .node a, .node b => compare a b
    | .node _, .morphism _ => .lt
    | .morphism _, .node _ => .gt
    | .morphism m, .morphism n => compare m n⟩

/- The items of a list in ascending order, equal ones kept. -/
def sortAscending
    {α : Type}
    [Ord α]
    (items : List α) : List α :=
  items.mergeSort fun a b => (compare a b).isLE

end GraphRewriting
