import GraphRewriting.Proofs.Digraph.Ascending
import GraphRewriting.Proofs.Exotic.Built
import Mathlib.Combinatorics.SimpleGraph.Acyclic

/-
  Graphs that are trees when the directions of edges are left
  out of account: edges lead from every node to every other, and
  there are no more of them than that takes.

  Main declarations:
    * `Graph.Touches`
    * `Graph.IsWeaklyConnected`
    * `Graph.IsTree`
    * `Graph.IsWeaklyConnected.size_nodes_le`
    * `Graph.isTree_of_size_edges_le`
    * `Graph.path_map`
-/

------------------------------------------------------------
-- Trees
------------------------------------------------------------

namespace GraphRewriting

namespace Graph

/-
  There is an edge between two nodes, in one
  direction or the other.
-/
def Touches
    (g : Graph)
    (a b : NodeId) : Prop :=
  (g.edges.get? a b).isSome = true ∨
    (g.edges.get? b a).isSome = true

/-
  Edges lead from every node to every other,
  whatever their directions.
-/
def IsWeaklyConnected (g : Graph) : Prop :=
  ∀ a ∈ g.nodes,
    ∀ b ∈ g.nodes, Relation.ReflTransGen g.Touches a b

/-
  Every edge has its ends, edges lead everywhere, and there is
  one edge less than there are nodes.
-/
structure IsTree (g : Graph) : Prop where
  integrity : g.HasIntegrity
  connected : g.IsWeaklyConnected
  count : g.edges.size + 1 = g.nodes.size

end Graph

end GraphRewriting

------------------------------------------------------------
-- Counting
------------------------------------------------------------

namespace GraphRewriting

namespace Graph

variable {g : Graph}

/- The nodes of a graph. -/
def nodeSet (g : Graph) : Finset NodeId :=
  g.nodeIds.toFinset

/- The ends of the edges of a graph. -/
def endPairs (g : Graph) : Finset (NodeId × NodeId) :=
  (g.edges.toList.map fun edge =>
    (edge.start, edge.stop)).toFinset

theorem mem_nodeSet
    {id : NodeId} :
    id ∈ g.nodeSet ↔ id ∈ g.nodes := by
  unfold nodeSet
  rw [List.mem_toFinset, mem_nodeIds]

theorem card_nodeSet
    (g : Graph) :
    g.nodeSet.card = g.nodes.size := by
  unfold nodeSet
  rw [List.toFinset_card_of_nodup g.nodeIds_nodup]
  exact Std.ExtTreeMap.length_keys

/- A pair of ends stands for the edge between them. -/
theorem mem_endPairs
    {a b : NodeId} :
    (a, b) ∈ g.endPairs ↔ (g.edges.get? a b).isSome = true := by
  unfold endPairs
  rw [List.mem_toFinset, List.mem_map, Option.isSome_iff_exists]
  constructor
  · rintro ⟨edge, hEdge, hEq⟩
    cases hEq
    exact ⟨_, EdgeStore.mem_toList.1 hEdge⟩
  · rintro ⟨info, hInfo⟩
    exact ⟨⟨info, a, b⟩, EdgeStore.mem_toList.2 hInfo, rfl⟩

theorem card_endPairs
    (g : Graph) :
    g.endPairs.card = g.edges.size := by
  unfold endPairs
  rw [List.toFinset_card_of_nodup g.edges.ends_nodup,
    List.length_map, EdgeStore.length_toList]

end Graph

end GraphRewriting

------------------------------------------------------------
-- Paths
------------------------------------------------------------

namespace GraphRewriting

namespace Graph

variable {g other : Graph}
variable {a b : NodeId}

private theorem Touches.symm
    (h : g.Touches a b) :
    g.Touches b a :=
  Or.symm h

theorem path_symm
    (h : Relation.ReflTransGen g.Touches a b) :
    Relation.ReflTransGen g.Touches b a := by
  induction h with
  | refl => exact .refl
  | tail _ hLast ih => exact .head hLast.symm ih

/- Paths go over to another graph if edges do. -/
theorem path_map
    {f : NodeId → NodeId}
    (hEdges :
      ∀ a b : NodeId,
        (g.edges.get? a b).isSome = true →
          Relation.ReflTransGen other.Touches (f a) (f b))
    (h : Relation.ReflTransGen g.Touches a b) :
    Relation.ReflTransGen other.Touches (f a) (f b) := by
  induction h with
  | refl => exact .refl
  | tail _ hLast ih =>
      rcases hLast with hForth | hBack
      · exact ih.trans (hEdges _ _ hForth)
      · exact ih.trans (path_symm (hEdges _ _ hBack))

/- It is enough that every node is led to one and the same. -/
theorem isWeaklyConnected_of_hub
    (hub : NodeId)
    (h : ∀ a ∈ g.nodes, Relation.ReflTransGen g.Touches a hub) :
    g.IsWeaklyConnected :=
  fun a ha b hb => (h a ha).trans (path_symm (h b hb))

/-
  A graph whose nodes all have an edge with
  the hub is connected.
-/
theorem isWeaklyConnected_of_star
    (hub : NodeId)
    (h :
      ∀ a ∈ g.nodeIds,
        a = hub ∨ (g.edges.get? a hub).isSome = true ∨
          (g.edges.get? hub a).isSome = true) :
    g.IsWeaklyConnected := by
  apply isWeaklyConnected_of_hub hub
  intro a ha
  rcases h a (mem_nodeIds.2 ha) with rfl | hTouches
  · exact .refl
  · exact .single hTouches

end Graph

end GraphRewriting

------------------------------------------------------------
-- Least Numbers Of Edges
------------------------------------------------------------

namespace GraphRewriting

namespace Graph

variable {g : Graph}

/- The graph without directions, self loops and labels. -/
def skeleton (g : Graph) : SimpleGraph {id // id ∈ g.nodes} :=
  SimpleGraph.fromRel fun a b =>
    (g.edges.get? a b).isSome = true

/- A path of the graph is one of its skeleton. -/
theorem reachable_of_path
    (hg : g.HasIntegrity)
    {a b : NodeId}
    (ha : a ∈ g.nodes)
    (h : Relation.ReflTransGen g.Touches a b) :
    ∃ hb : b ∈ g.nodes,
      g.skeleton.Reachable ⟨a, ha⟩ ⟨b, hb⟩ := by
  induction h with
  | refl => exact ⟨ha, .rfl⟩
  | @tail b c _ hLast ih =>
      rcases ih with ⟨hb, hReachable⟩
      have hc : c ∈ g.nodes := by
        rcases hLast with hForth | hBack
        · exact (hasIntegrity_iff.1 hg b c hForth).2
        · exact (hasIntegrity_iff.1 hg c b hBack).1
      refine ⟨hc, hReachable.trans ?_⟩
      by_cases hNe : b = c
      · subst hNe
        exact .rfl
      · apply SimpleGraph.Adj.reachable
        rw [skeleton, SimpleGraph.fromRel_adj]
        exact ⟨fun hEq => hNe (congrArg Subtype.val hEq), hLast⟩

/- The skeleton has no more edges than the graph. -/
private theorem card_edgeSet_skeleton_le
    (hg : g.HasIntegrity) :
    Nat.card g.skeleton.edgeSet ≤ g.edges.size := by
  have hEnds :
      ∀ ends : {ends // ends ∈ g.endPairs},
        ends.1.1 ∈ g.nodes ∧ ends.1.2 ∈ g.nodes :=
    fun ends =>
      hasIntegrity_iff.1 hg _ _ (mem_endPairs.1 ends.2)
  -- Both directions of an edge, and none of a self loop, come
  -- to one edge of the skeleton.
  let join :
      {ends // ends ∈ g.endPairs} → Sym2 {id // id ∈ g.nodes} :=
    fun ends =>
      s(⟨ends.1.1, (hEnds ends).1⟩, ⟨ends.1.2, (hEnds ends).2⟩)
  have hSubset : g.skeleton.edgeSet ⊆ Set.range join := by
    intro pair
    induction pair using Sym2.ind with
    | _ a b =>
        intro hPair
        rw [SimpleGraph.mem_edgeSet, skeleton,
          SimpleGraph.fromRel_adj] at hPair
        rcases hPair.2 with hForth | hBack
        · exact ⟨⟨(a, b), mem_endPairs.2 hForth⟩, rfl⟩
        · exact ⟨⟨(b, a), mem_endPairs.2 hBack⟩, Sym2.eq_swap⟩
  calc
    Nat.card g.skeleton.edgeSet ≤ Nat.card (Set.range join) :=
      Nat.card_mono (Set.finite_range join) hSubset
    _ ≤ Nat.card {ends // ends ∈ g.endPairs} :=
  Finite.card_range_le join
    _ = g.edges.size := by
      rw [Nat.subtype_card g.endPairs fun _ => Iff.rfl,
        card_endPairs]

/- A connected graph has one edge less than nodes at least. -/
theorem IsWeaklyConnected.size_nodes_le
    (h : g.IsWeaklyConnected)
    (hg : g.HasIntegrity) :
    g.nodes.size ≤ g.edges.size + 1 := by
  have hCard :
      Nat.card {id // id ∈ g.nodes} = g.nodes.size := by
    rw [Nat.subtype_card g.nodeSet fun _ => mem_nodeSet,
      card_nodeSet]
  rcases isEmpty_or_nonempty {id // id ∈ g.nodes} with
    hEmpty | hNonempty
  · rw [← hCard, Nat.card_of_isEmpty]
    exact Nat.zero_le _
  · have hConnected : g.skeleton.Connected := by
      refine (SimpleGraph.connected_iff _).2 ⟨?_, hNonempty⟩
      rintro ⟨a, ha⟩ ⟨b, hb⟩
      exact (reachable_of_path hg ha (h a ha b hb)).2
    have hLe := hConnected.card_vert_le_card_edgeSet_add_one
    rw [hCard] at hLe
    exact hLe.trans
      (Nat.add_le_add_right (card_edgeSet_skeleton_le hg) 1)

/-
  A connected graph is a tree if it does not
  have too many edges.
-/
theorem isTree_of_size_edges_le
    (hg : g.HasIntegrity)
    (h : g.IsWeaklyConnected)
    (hLe : g.edges.size + 1 ≤ g.nodes.size) :
    g.IsTree where
  integrity := hg
  connected := h
  count := Nat.le_antisymm hLe (h.size_nodes_le hg)

end Graph

end GraphRewriting
