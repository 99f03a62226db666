import GraphRewriting.Proofs.Grammar.Start
import GraphRewriting.Proofs.Rewriting.Effect

/-
  The symbols of a graph that a rule rewrites. Wherever an
  application stops, they are symbols of the graph before it and
  of the replacement.

  Main declarations:
    * `Graph.IsKept.replaceNode`
    * `Graph.IsKept.replaceRegion`
    * `Graph.IsKept.apply`
    * `Grammar.Knows.apply`
-/

------------------------------------------------------------
-- New Edges
------------------------------------------------------------

namespace GraphRewriting

namespace Graph

variable {onNodes onEdges : String → Prop}
variable {target : Graph}
variable {fresh : FreshIds}

/- Edges are copied or adopted, and keep their symbols. -/
theorem Carries.newEdges_node
    {r : ContextFreeRule}
    (hRhs : r.rhs.Carries onNodes onEdges)
    (hTarget :
      ∀ edge ∈ target.edges.toList, onEdges edge.symbol)
    {node : NodeId}
    {edge : Edge}
    (hEdge : .ok edge ∈ r.newEdges fresh node target) :
    onEdges edge.symbol := by
  unfold ContextFreeRule.newEdges at hEdge
  rw [List.mem_append, List.mem_append] at hEdge
  rcases hEdge with hCopied | hAdopted | hAdopted
  · exact hRhs.renameEdge hCopied
  · rcases List.mem_map.1 hAdopted with ⟨old, hOld, hMoved⟩
    cases hMoved
    exact hTarget old (EdgeStore.mem_incoming.1 hOld).1
  · rcases List.mem_map.1 hAdopted with ⟨old, hOld, hMoved⟩
    cases hMoved
    exact hTarget old (EdgeStore.mem_outgoing.1 hOld).1

/- The edges added carry the symbols of the right-hand side. -/
theorem Carries.newEdges_region
    {r : ExoticRule}
    (hRhs : r.rhs.graph.Carries onNodes onEdges)
    {m : Morphism}
    {edge : Edge}
    (hEdge : edge ∈ r.newEdges m fresh) :
    onEdges edge.symbol := by
  unfold ExoticRule.newEdges at hEdge
  rcases List.mem_filterMap.1 hEdge with ⟨old, hOld, hMoved⟩
  split at hMoved
  · cases hMoved
    exact hRhs.edges old hOld
  · cases hMoved

end Graph

end GraphRewriting

------------------------------------------------------------
-- Rule Applications
------------------------------------------------------------

namespace GraphRewriting

namespace Graph

namespace IsKept

variable {holds : Graph → Prop}
variable {onNodes onEdges : String → Prop}
variable {target : Graph}

/- What all steps keep, a context-free rewrite keeps. -/
theorem replaceNode
    (h : IsKept holds onNodes onEdges)
    (hTarget : holds target)
    {r : ContextFreeRule}
    (hRhs : r.rhs.Carries onNodes onEdges)
    (fresh : FreshIds)
    (node : NodeId) :
    holds (r.replace fresh node target).1 := by
  have hEdges :
      ∀ edge : Edge,
        .ok edge ∈ r.newEdges fresh node target →
          onEdges edge.symbol :=
    fun _ => hRhs.newEdges_node (h.edges hTarget)
  have hJoined :=
    h.addRenamed (h.addNodes hTarget (hRhs.rename fresh)) hEdges
  unfold ContextFreeRule.replace
  dsimp only
  split
  · rename_i reached error hRun
    rw [hRun] at hJoined
    exact hJoined
  · rename_i reached hRun
    rw [hRun] at hJoined
    split
    · rename_i result hRemove
      exact h.removeNode hJoined hRemove
    · exact hJoined

/- What all steps keep, a rewrite with exotic nodes keeps. -/
theorem replaceRegion
    (h : IsKept holds onNodes onEdges)
    (hTarget : holds target)
    {r : ExoticRule}
    (hRhs : r.rhs.graph.Carries onNodes onEdges)
    (m : Morphism)
    (fresh : FreshIds)
    (matched : List NodeId) :
    holds (r.replace m fresh matched target).1 := by
  have hEdges :
      ∀ edge ∈ r.newEdges m fresh, onEdges edge.symbol :=
    fun _ => hRhs.newEdges_region
  have hJoined :=
    h.addEdges (h.addNodes hTarget (hRhs.rename fresh)) hEdges
  have hRemoved := h.removeNodes hJoined matched
  unfold ExoticRule.replace
  dsimp only
  split
  · rename_i reached error hRun
    rw [hRun] at hJoined
    exact hJoined
  · rename_i joined hRun
    rw [hRun] at hRemoved
    split
    · rename_i reached error hLeft
      rw [hLeft] at hRemoved
      exact hRemoved
    · rename_i result hLeft
      rw [hLeft] at hRemoved
      exact hRemoved

/-
  A rule keeps such a property at any match, with any ids, and
  wherever its application stops.
-/
theorem apply
    (h : IsKept holds onNodes onEdges)
    (hTarget : holds target)
    {rule : Rule}
    (hRule : rule.replacement.Carries onNodes onEdges)
    {σ : Type}
    (source : IdSource σ)
    (found : RuleMatch)
    (supply : σ) :
    holds (rule.apply source found target supply).graph := by
  cases rule <;> cases found
  case node.node r node =>
    unfold Rule.apply ContextFreeRule.apply
    dsimp only
    split
    · exact hTarget
    · split
      · exact hTarget
      · split
        · exact hTarget
        · exact h.replaceNode hTarget hRule _ node
  case region.morphism r m =>
    unfold Rule.apply ExoticRule.apply
    dsimp only
    split
    · exact hTarget
    · split
      · exact hTarget
      · exact h.replaceRegion hTarget hRule m _ _
  all_goals exact hTarget

end IsKept

end Graph

end GraphRewriting

------------------------------------------------------------
-- Known Symbols
------------------------------------------------------------

namespace GraphRewriting

namespace Grammar

variable {g : Grammar}

theorem KnowsRule.carries_replacement
    {rule : Rule}
    (h : g.KnowsRule rule) :
    rule.replacement.Carries g.NodeSymbol g.EdgeSymbol := by
  cases rule with
  | node r => exact knows_iff_carries.1 h.2
  | region r => exact knows_iff_carries.1 h.2

/- A rule over the vocabulary leads to no other symbols. -/
theorem Knows.apply
    {graph : Graph}
    (h : g.Knows graph)
    {rule : Rule}
    (hRule : g.KnowsRule rule)
    {σ : Type}
    (source : IdSource σ)
    (found : RuleMatch)
    (supply : σ) :
    g.Knows (rule.apply source found graph supply).graph := by
  rw [knows_iff_carries] at h ⊢
  exact Graph.isKept_carries.apply h hRule.carries_replacement
    source found supply

end Grammar

end GraphRewriting
