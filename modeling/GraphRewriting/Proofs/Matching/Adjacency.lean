import GraphRewriting.Matching.Basic
import GraphRewriting.Proofs.FiniteMap

/-
  Neighbours of a node, the ties between two nodes, and the
  counts that go with them.

  Main declarations:
    * `Graph.mem_beside_outgoing`
    * `Graph.beside_nodup`
    * `Graph.neighbours_nodup`
    * `Graph.tie?_eq_tie?_iff`
-/

------------------------------------------------------------
-- Neighbours
------------------------------------------------------------

namespace GraphRewriting

namespace Graph

/- A symbol is looked up just for the nodes of the graph. -/
theorem isSome_symbol?
    (g : Graph)
    (id : NodeId) :
    (g.symbol? id).isSome = true ↔ id ∈ g.nodes := by
  unfold symbol?
  rw [Option.isSome_map, Std.ExtTreeMap.mem_iff_isSome_getElem?]

/- An edge symbol is looked up just where there is an edge. -/
theorem isSome_edgeSymbol?
    (g : Graph)
    (a b : NodeId) :
    (g.edgeSymbol? a b).isSome = (g.edges.get? a b).isSome := by
  unfold edgeSymbol?
  rw [Option.isSome_map]

/-
  No node is a successor twice: the edges from a node
  differ in their ends.
-/
theorem successors_nodup
    (g : Graph)
    (id : NodeId) :
    (g.successors id).Nodup := by
  unfold successors outgoing EdgeStore.outgoing
  rw [List.map_map]
  have hKeys :
      (Edge.stop ∘ fun (entry : NodeId × EdgeInfo) =>
        (⟨entry.2, id, entry.1⟩ : Edge)) = Prod.fst := rfl
  rw [hKeys, Std.ExtTreeMap.map_fst_toList_eq_keys]
  exact Std.ExtTreeMap.nodup_keys

/- The predecessors are the keys of the row backward. -/
private theorem predecessors_eq_keys
    (g : Graph)
    (id : NodeId) :
    g.predecessors id = (g.edges.backward.row id).keys := by
  have hEdge :
      ∀ start ∈ (g.edges.backward.row id).keys,
        (g.edges.edge? start id).map Edge.start =
          some start := by
    intro start hMem
    rw [Std.ExtTreeMap.mem_keys,
      Std.ExtTreeMap.mem_iff_isSome_getElem?] at hMem
    have hBack : (g.edges.get? start id).isSome = true :=
      (g.edges.consistent start id).symm.trans hMem
    rcases Option.isSome_iff_exists.1 hBack with ⟨info, hInfo⟩
    unfold EdgeStore.edge?
    rw [hInfo]
    rfl
  unfold predecessors incoming EdgeStore.incoming
  rw [List.map_filterMap]
  calc
    _ = (g.edges.backward.row id).keys.filterMap some :=
        List.filterMap_congr hEdge
    _ = _ := List.filterMap_some

theorem predecessors_nodup
    (g : Graph)
    (id : NodeId) :
    (g.predecessors id).Nodup := by
  rw [predecessors_eq_keys]
  exact Std.ExtTreeMap.nodup_keys

theorem mem_beside_incoming
    {g : Graph}
    {a b : NodeId} :
    b ∈ g.beside .incoming a ↔
      (g.edges.get? b a).isSome = true :=
  mem_predecessors

theorem mem_beside_outgoing
    {g : Graph}
    {a b : NodeId} :
    b ∈ g.beside .outgoing a ↔
      (g.edges.get? a b).isSome = true :=
  mem_successors

/- On each side a neighbour is listed once. -/
theorem beside_nodup
    (g : Graph)
    (direction : Direction)
    (id : NodeId) :
    (g.beside direction id).Nodup := by
  cases direction with
  | incoming => exact g.predecessors_nodup id
  | outgoing => exact g.successors_nodup id

/- With integrity, neighbours are nodes of the graph. -/
theorem mem_nodes_of_mem_beside
    {g : Graph}
    (hg : g.HasIntegrity)
    {direction : Direction}
    {a b : NodeId}
    (h : b ∈ g.beside direction a) :
    b ∈ g.nodes := by
  rw [hasIntegrity_iff] at hg
  cases direction with
  | incoming => exact (hg b a (mem_beside_incoming.1 h)).1
  | outgoing => exact (hg a b (mem_beside_outgoing.1 h)).2

/- The number of edges on one side of a node. -/
def degree
    (g : Graph)
    (direction : Direction)
    (id : NodeId) : Nat :=
  match direction with
  | .incoming => g.inDegree id
  | .outgoing => g.outDegree id

/- The degree that is kept is the number of neighbours. -/
theorem length_beside
    (g : Graph)
    (direction : Direction)
    (id : NodeId) :
    (g.beside direction id).length = g.degree direction id := by
  cases direction with
  | incoming =>
      unfold beside degree predecessors inDegree incoming
      rw [List.length_map, EdgeStore.inDegree_eq_length]
  | outgoing =>
      unfold beside degree successors outDegree outgoing
      rw [List.length_map, EdgeStore.outDegree_eq_length]

/- A node with edges both ways is one neighbour, not two. -/
theorem neighbours_nodup
    (g : Graph)
    (id : NodeId) :
    (g.neighbours id).Nodup := by
  unfold neighbours
  apply List.Nodup.filter
  rw [List.nodup_append]
  refine
    ⟨g.successors_nodup id, (g.predecessors_nodup id).filter _,
      ?_⟩
  rintro a ha b hb rfl
  have hFree := (List.mem_filter.1 hb).2
  rw [mem_successors] at ha
  unfold EdgeStore.contains at hFree
  rw [ha] at hFree
  exact Bool.noConfusion hFree

end Graph

end GraphRewriting

------------------------------------------------------------
-- Ties
------------------------------------------------------------

namespace GraphRewriting

namespace Graph

/- Two ties agree when the edges do, in both directions. -/
theorem tie?_eq_tie?_iff
    {g h : Graph}
    {a b c d : NodeId} :
    g.tie? a b = h.tie? c d ↔
      g.edgeSymbol? a b = h.edgeSymbol? c d ∧
        g.edgeSymbol? b a = h.edgeSymbol? d c := by
  unfold tie?
  cases g.edgeSymbol? a b <;> cases g.edgeSymbol? b a <;>
    cases h.edgeSymbol? c d <;> cases h.edgeSymbol? d c <;> simp

/- Whether two nodes are tied does not depend on their order. -/
theorem isSome_tie?_comm
    (g : Graph)
    (a b : NodeId) :
    (g.tie? a b).isSome = (g.tie? b a).isSome := by
  unfold tie?
  cases g.edgeSymbol? a b <;> cases g.edgeSymbol? b a <;> rfl

end Graph

end GraphRewriting
