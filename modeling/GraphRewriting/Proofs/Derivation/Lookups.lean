import GraphRewriting.Proofs.Derivation.Actions
import GraphRewriting.Proofs.Rewriting.Atomicity

/-
  The ids that are looked up when a rule is applied or a
  derivation starts. Where every edge has its ends, one was
  drawn for each of them.

  Main declarations:
    * `Rule.lookedUp`
    * `Rule.mem_fresh_of_mem_lookedUp`
    * `Derivation.exists_start_eq_ok_iff`
-/

------------------------------------------------------------
-- Rules
------------------------------------------------------------

namespace GraphRewriting

/- The ends of some edges. -/
def endsOf (edges : List Edge) : List NodeId :=
  edges.flatMap fun edge => [edge.start, edge.stop]

theorem mem_endsOf
    {edges : List Edge}
    {id : NodeId} :
    id ∈ endsOf edges ↔
      ∃ edge ∈ edges, id = edge.start ∨ id = edge.stop := by
  unfold endsOf
  simp only [List.mem_flatMap, List.mem_cons, List.not_mem_nil,
    or_false]

namespace Rule

/-
  The local ids that an application looks up among those that
  ids were drawn for. Exotic nodes are looked up in the match.
-/
def lookedUp : Rule → List NodeId
  | node r =>
      NodeId.base ::
        (r.rhs.nodeIds ++ endsOf r.rhs.edges.toList)
  | region r =>
      r.rhs.graph.nodeIds ++
        (endsOf r.rhs.edges).filter fun id => !r.rhs.isExotic id

variable {rule : Rule}

/-
  Where the edges of a replacement have their ends, only its
  nodes are looked up.
-/
private theorem mem_copiedIds_of_mem_lookedUp
    (hRule : rule.HasSoundReplacement)
    {id : NodeId}
    (hId : id ∈ rule.lookedUp) :
    id ∈ rule.copiedIds := by
  cases rule with
  | node r =>
      have hId :
          id ∈ NodeId.base ::
            (r.rhs.nodeIds ++ endsOf r.rhs.edges.toList) :=
        hId
      show id ∈ r.rhs.nodeIds
      rw [List.mem_cons, List.mem_append, mem_endsOf] at hId
      rcases hId with rfl | hNode | ⟨edge, hEdge, hEnd⟩
      · exact Graph.mem_nodeIds.2 r.base_mem
      · exact hNode
      · have hJoined := hRule edge hEdge
        rw [Graph.mem_nodeIds]
        rcases hEnd with rfl | rfl
        · exact hJoined.1
        · exact hJoined.2
  | region r =>
      have hId :
          id ∈ r.rhs.graph.nodeIds ++
            (endsOf r.rhs.edges).filter fun id =>
              !r.rhs.isExotic id := hId
      show id ∈ r.rhs.graph.nodeIds
      rw [List.mem_append, List.mem_filter, mem_endsOf] at hId
      rcases hId with hNode | ⟨⟨edge, hEdge, hEnd⟩, hOrdinary⟩
      · exact hNode
      · have hContains : r.rhs.contains id = true := by
          have hJoined := hRule.1 edge hEdge
          rcases hEnd with rfl | rfl
          · exact hJoined.1
          · exact hJoined.2
        rw [Bool.not_eq_true', ← Bool.not_eq_true,
          ExoticGraph.isExotic_iff] at hOrdinary
        rw [Graph.mem_nodeIds]
        exact (ExoticGraph.contains_iff.1
            hContains).resolve_right
          hOrdinary

/-
  Every id that an application looks up has one drawn for it.
-/
theorem mem_fresh_of_mem_lookedUp
    (hRule : rule.HasSoundReplacement)
    {σ : Type}
    {source : IdSource σ}
    {target : Graph}
    {supply rest : σ}
    {fresh : FreshIds}
    (hDraw :
      drawIds rule.name target source ∅ rule.copiedIds supply =
        (.ok fresh, rest))
    {id : NodeId}
    (hId : id ∈ rule.lookedUp) :
    id ∈ fresh :=
  ((drawIds_isFresh hDraw).keys id).2
    (mem_copiedIds_of_mem_lookedUp hRule hId)

end Rule

end GraphRewriting

------------------------------------------------------------
-- Start Graphs
------------------------------------------------------------

namespace GraphRewriting

/- The local ids that are numbered have an id. -/
theorem mem_numberNodes
    {fresh : FreshIds}
    {pool : IdPool}
    {ids : List NodeId}
    {id : NodeId} :
    id ∈ (numberNodes fresh pool ids).1 ↔
      id ∈ ids ∨ id ∈ fresh := by
  induction ids generalizing fresh pool with
  | nil => simp [numberNodes]
  | cons localId ids ih =>
      unfold numberNodes
      dsimp only
      rw [ih, Std.ExtTreeMap.mem_insert, Std.compare_eq_iff_eq,
        List.mem_cons, or_left_comm, or_assoc, eq_comm]

/-
  Copies of the nodes and edges of a graph can be
  put together anew.
-/
theorem FreshIds.exists_advance_renameEdge_eq
    {graph : Graph}
    (hGraph : graph.HasIntegrity)
    {fresh : FreshIds}
    (hFresh : ∀ id ∈ graph.nodes, id ∈ fresh) :
    ∃ copy : Graph,
      advance addRenamed
        ((∅ : Graph).addNodes (fresh.rename graph.nodes.nodes))
        (graph.edges.toList.map fresh.renameEdge) =
          (copy, none) := by
  rw [renameEdges_eq hFresh hGraph,
    ContextFreeRule.advance_addRenamed_map_ok,
    Graph.addEdges_of_ends]
  · exact ⟨_, rfl⟩
  · exact ends_copyEdges hGraph

namespace Derivation

variable {g : Grammar}
variable {chunkSize : Nat}

/-
  A derivation starts exactly if there is a
  graph to start from.
-/
theorem exists_start_eq_ok_iff
    (hGraph :
      ∀ graph : Graph,
        g.startGraph = some graph → graph.HasIntegrity) :
    (∃ d : Derivation, start g chunkSize = .ok d) ↔
      ∃ graph : Graph, g.startGraph = some graph := by
  constructor
  · rintro ⟨d, hd⟩
    rcases start_eq_ok_iff.1 hd with ⟨graph, copy, hStart, -, -⟩
    exact ⟨graph, hStart⟩
  · rintro ⟨graph, hStart⟩
    have hFresh :
        ∀ id ∈ graph.nodes,
          id ∈
            (numberNodes ∅ (.ofChunkSize chunkSize)
              graph.nodeIds).1 :=
      fun id hId =>
        mem_numberNodes.2 (Or.inl (Graph.mem_nodeIds.2 hId))
    rcases
        FreshIds.exists_advance_renameEdge_eq
          (hGraph graph hStart) hFresh with
      ⟨copy, hCopy⟩
    exact
      ⟨_, start_eq_ok_iff.2 ⟨graph, copy, hStart, hCopy, rfl⟩⟩

end Derivation

end GraphRewriting
