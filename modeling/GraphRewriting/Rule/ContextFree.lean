import GraphRewriting.Rule.FreshId

/-
  This file defines context-free rules. Such a rule rewrites a
  node with the symbol of its left-hand side into a copy of its
  replacement graph, whose node `base` takes over every edge of
  the rewritten node.

  Key definitions include:
    * `ContextFreeRule`
    * `ContextFreeRule.make`
    * `ContextFreeRule.findMatches`
    * `ContextFreeRule.apply`
-/

namespace GraphRewriting

------------------------------------------------------------
-- Rules
------------------------------------------------------------

/-
  A context-free rule. The left-hand side has a symbol and keeps
  all labels written next to it.
-/
structure ContextFreeRule where
  name : String
  lhs : Labels
  rhs : Graph
  nameKey_mem : Labels.nameKey ∈ lhs
  base_mem : NodeId.base ∈ rhs.nodes
  deriving DecidableEq

namespace ContextFreeRule

/-
  A rule from its parts. The left-hand side gets the empty
  symbol if it has none, and the replacement must have a node
  `base`.
-/
def make
    (name : String)
    (lhs : Labels)
    (rhs : Graph) : Except GrammarError ContextFreeRule :=
  if h : NodeId.base ∈ rhs.nodes then
    .ok
      ⟨name, lhs.fillSymbol, rhs, lhs.nameKey_mem_fillSymbol, h⟩
  else
    .error (.baseAbsent name)

/- The symbol that the rule rewrites. -/
def symbol (r : ContextFreeRule) : String :=
  r.lhs.symbol

/- The same rule without document ids. -/
def plain (r : ContextFreeRule) : ContextFreeRule :=
  ⟨r.name, r.lhs, r.rhs.plain, r.nameKey_mem, r.base_mem⟩

/-
  The nodes with the symbol of the left-hand side, ascending.
-/
def findMatches
    (r : ContextFreeRule)
    (target : Graph) : List NodeId :=
  target.nodeIds.filter fun id =>
    target.symbol? id == some r.symbol

end ContextFreeRule

------------------------------------------------------------
-- Application
------------------------------------------------------------

namespace ContextFreeRule

/- An id, with the rewritten node replaced by the new base. -/
def redirect
    (node base id : NodeId) : NodeId :=
  if id = node then base else id

/-
  The edges that a rewrite adds: those of the replacement, then
  those into the rewritten node, then those out of it, with the
  new base in the place of the rewritten node.
-/
def newEdges
    (r : ContextFreeRule)
    (fresh : FreshIds)
    (node : NodeId)
    (target : Graph) : List (Except GrammarError Edge) :=
  let base := fresh.getD NodeId.base NodeId.base
  let adopt := fun edge : Edge =>
    .ok
      (edge.moved (redirect node base edge.start)
        (redirect node base edge.stop))
  r.rhs.edges.toList.map fresh.renameEdge ++
    ((target.incoming node).map adopt ++
      (target.outgoing node).map adopt)

/-
  Put a copy of the replacement, under the ids drawn for it, in
  the place of a node. The first edge that cannot be added ends
  the rewrite where it stands.
-/
def replace
    (r : ContextFreeRule)
    (fresh : FreshIds)
    (node : NodeId)
    (target : Graph) : Graph × Except GrammarError Rewrite :=
  let widened :=
    target.addNodes (fresh.rename r.rhs.nodes.nodes)
  match advance addRenamed widened
    (r.newEdges fresh node target) with
  | (reached, some error) => (reached, .error error)
  | (reached, none) =>
      match reached.removeNode node with
      | .ok result => (result, .ok ⟨fresh.values, [node]⟩)
      | .error error => (reached, .error error)

/-
  Rewrite a node. The node and its symbol are checked before
  any id is drawn, and ids are drawn before the graph changes.
-/
def apply
    {σ : Type}
    (r : ContextFreeRule)
    (source : IdSource σ)
    (node : NodeId)
    (target : Graph)
    (supply : σ) : Outcome σ :=
  match target.symbol? node with
  | none =>
      ⟨target, supply, .error (.ruleNodeAbsent r.name node)⟩
  | some symbol =>
      if symbol ≠ r.symbol then
        ⟨target, supply,
          .error
            (.badMatch r.name
              (.otherSymbol r.symbol node symbol))⟩
      else
        match drawIds r.name target source ∅ r.rhs.nodeIds
          supply with
        | (.error error, supply) =>
            ⟨target, supply, .error error⟩
        | (.ok fresh, supply) =>
            let (graph, result) := r.replace fresh node target
            ⟨graph, supply, result⟩

end ContextFreeRule

end GraphRewriting
