import GraphRewriting.Proofs.Digraph.Runs
import GraphRewriting.Rule.FreshId

/-
  Sound graphs: every edge has its ends, and nodes and edges
  carry symbols of some kinds. Changes that bring such symbols
  keep a graph sound, wherever they stop, and keep its symbols
  of these kinds also where edges lack their ends.

  Main declarations:
    * `Graph.Carries`
    * `Graph.IsSound`
    * `Graph.IsKept`
    * `Graph.IsKept.addRenamed`
-/

------------------------------------------------------------
-- Symbols
------------------------------------------------------------

namespace GraphRewriting

namespace Graph

/-
  The symbols of all nodes are of one kind, and those of
  all edges of another.
-/
structure Carries
    (graph : Graph)
    (onNodes onEdges : String → Prop) : Prop where
  nodes : ∀ node ∈ graph.nodes.nodes, onNodes node.symbol
  edges : ∀ edge ∈ graph.edges.toList, onEdges edge.symbol

/- Every edge has its ends, and the symbols are of two kinds. -/
structure IsSound
    (graph : Graph)
    (onNodes onEdges : String → Prop) : Prop where
  integrity : graph.HasIntegrity
  symbols : graph.Carries onNodes onEdges

variable {graph : Graph}
variable {onNodes onEdges : String → Prop}

/- Symbols can be checked by looking up nodes and edges. -/
theorem carries_iff :
    graph.Carries onNodes onEdges ↔
      (∀ (id : NodeId) (labels : Labels),
          graph.nodes[id]? = some labels →
            onNodes labels.symbol) ∧
        ∀ (a b : NodeId) (info : EdgeInfo),
          graph.edges.get? a b = some info →
            onEdges info.symbol := by
  constructor
  · rintro ⟨hNodes, hEdges⟩
    constructor
    · intro id labels hLabels
      exact hNodes ⟨id, labels⟩ (NodeStore.mem_nodes.2 hLabels)
    · intro a b info hInfo
      exact hEdges ⟨info, a, b⟩ (EdgeStore.mem_toList.2 hInfo)
  · rintro ⟨hNodes, hEdges⟩
    constructor
    · intro node hNode
      exact
        hNodes node.id node.labels (NodeStore.mem_nodes.1 hNode)
    · intro edge hEdge
      exact hEdges edge.start edge.stop _
        (EdgeStore.mem_toList.1 hEdge)

/- Nodes under other ids keep their symbols. -/
theorem Carries.rename
    (h : graph.Carries onNodes onEdges)
    (fresh : FreshIds) :
    ∀ node ∈ fresh.rename graph.nodes.nodes,
      onNodes node.symbol := by
  intro node hNode
  unfold FreshIds.rename at hNode
  rcases List.mem_map.1 hNode with ⟨old, hOld, rfl⟩
  exact h.nodes old hOld

/- So do edges between other ends. -/
theorem Carries.renameEdge
    (h : graph.Carries onNodes onEdges)
    {fresh : FreshIds}
    {edge : Edge}
    (hEdge :
      .ok edge ∈ graph.edges.toList.map fresh.renameEdge) :
    onEdges edge.symbol := by
  rcases List.mem_map.1 hEdge with ⟨old, hOld, hRenamed⟩
  unfold FreshIds.renameEdge at hRenamed
  split at hRenamed
  · cases hRenamed
    exact h.edges old hOld
  · cases hRenamed

theorem isSound_empty :
    (∅ : Graph).IsSound onNodes onEdges where
  integrity := hasIntegrity_empty
  symbols := by
    rw [carries_iff]
    constructor
    · intro id labels hLabels
      have hNone : (∅ : Graph).nodes[id]? = none :=
        Std.ExtTreeMap.getElem?_empty
      rw [hNone] at hLabels
      cases hLabels
    · intro a b info hInfo
      have hNone : (∅ : Graph).edges.get? a b = none :=
        EdgeStore.get?_empty a b
      rw [hNone] at hInfo
      cases hInfo

end Graph

end GraphRewriting

------------------------------------------------------------
-- Single Changes
------------------------------------------------------------

namespace GraphRewriting

namespace Graph

variable {graph next : Graph}
variable {onNodes onEdges : String → Prop}

namespace Carries

/- Another node needs an admitted symbol of its own. -/
theorem addNode
    (h : graph.Carries onNodes onEdges)
    {node : Node}
    (hNode : onNodes node.symbol) :
    (graph.addNode node).Carries onNodes onEdges := by
  rcases carries_iff.1 h with ⟨hNodes, hEdges⟩
  rw [carries_iff]
  constructor
  · intro id labels hLabels
    rw [getElem?_nodes_addNode] at hLabels
    split at hLabels
    · cases hLabels
      exact hNode
    · exact hNodes id labels hLabels
  · intro a b info hInfo
    rw [get?_edges_addNode] at hInfo
    split at hInfo
    · cases hInfo
    · exact hEdges a b info hInfo

/- Another edge needs an admitted symbol of its own. -/
theorem addEdge
    (h : graph.Carries onNodes onEdges)
    {edge : Edge}
    (hEdge : onEdges edge.symbol)
    (hAdd : graph.addEdge edge = .ok next) :
    next.Carries onNodes onEdges := by
  rcases carries_iff.1 h with ⟨hNodes, hEdges⟩
  rcases addEdge_eq_ok.1 hAdd with ⟨-, -, rfl⟩
  rw [carries_iff]
  refine ⟨hNodes, ?_⟩
  intro a b info hInfo
  rw [get?_edges_putEdge] at hInfo
  split at hInfo
  · cases hInfo
    exact hEdge
  · exact hEdges a b info hInfo

/- Removing a node brings no symbol in. -/
theorem removeNode
    (h : graph.Carries onNodes onEdges)
    {id : NodeId}
    (hRemove : graph.removeNode id = .ok next) :
    next.Carries onNodes onEdges := by
  rcases carries_iff.1 h with ⟨hNodes, hEdges⟩
  rcases removeNode_eq_ok.1 hRemove with ⟨-, rfl⟩
  rw [carries_iff]
  constructor
  · intro other labels hLabels
    rw [Std.ExtTreeMap.getElem?_erase] at hLabels
    split at hLabels
    · cases hLabels
    · exact hNodes other labels hLabels
  · intro a b info hInfo
    rw [EdgeStore.get?_detach] at hInfo
    split at hInfo
    · cases hInfo
    · exact hEdges a b info hInfo

/- Removing an edge brings no symbol in. -/
theorem removeEdge
    (h : graph.Carries onNodes onEdges)
    {start stop : NodeId}
    (hRemove : graph.removeEdge start stop = .ok next) :
    next.Carries onNodes onEdges := by
  rcases carries_iff.1 h with ⟨hNodes, hEdges⟩
  rcases removeEdge_eq_ok.1 hRemove with ⟨-, rfl⟩
  rw [carries_iff]
  refine ⟨hNodes, ?_⟩
  intro a b info hInfo
  rw [EdgeStore.get?_erase] at hInfo
  split at hInfo
  · cases hInfo
  · exact hEdges a b info hInfo

end Carries

namespace IsSound

theorem addNode
    (h : graph.IsSound onNodes onEdges)
    {node : Node}
    (hNode : onNodes node.symbol) :
    (graph.addNode node).IsSound onNodes onEdges :=
  ⟨h.integrity.addNode node, h.symbols.addNode hNode⟩

theorem addEdge
    (h : graph.IsSound onNodes onEdges)
    {edge : Edge}
    (hEdge : onEdges edge.symbol)
    (hAdd : graph.addEdge edge = .ok next) :
    next.IsSound onNodes onEdges :=
  ⟨h.integrity.addEdge hAdd, h.symbols.addEdge hEdge hAdd⟩

theorem removeNode
    (h : graph.IsSound onNodes onEdges)
    {id : NodeId}
    (hRemove : graph.removeNode id = .ok next) :
    next.IsSound onNodes onEdges :=
  ⟨h.integrity.removeNode hRemove, h.symbols.removeNode hRemove⟩

theorem removeEdge
    (h : graph.IsSound onNodes onEdges)
    {start stop : NodeId}
    (hRemove : graph.removeEdge start stop = .ok next) :
    next.IsSound onNodes onEdges :=
  ⟨h.integrity.removeEdge hRemove, h.symbols.removeEdge hRemove⟩

end IsSound

end Graph

end GraphRewriting

------------------------------------------------------------
-- Runs Of Changes
------------------------------------------------------------

namespace GraphRewriting

namespace Graph

/-
  A property of graphs that tells of what kind the symbols of
  edges are, and that changes keep which bring symbols of the
  right kinds.
-/
structure IsKept
    (holds : Graph → Prop)
    (onNodes onEdges : String → Prop) : Prop where
  edges :
    ∀ {graph : Graph},
      holds graph →
        ∀ edge ∈ graph.edges.toList, onEdges edge.symbol
  addNode :
    ∀ {graph : Graph} {node : Node},
      holds graph → onNodes node.symbol →
        holds (graph.addNode node)
  addEdge :
    ∀ {graph next : Graph} {edge : Edge},
      holds graph → onEdges edge.symbol →
        graph.addEdge edge = .ok next → holds next
  removeNode :
    ∀ {graph next : Graph} {id : NodeId},
      holds graph → graph.removeNode id = .ok next → holds next

variable {onNodes onEdges : String → Prop}

/- The symbols of a graph are kept by all checked changes. -/
theorem isKept_carries :
    IsKept (fun graph => graph.Carries onNodes onEdges) onNodes
      onEdges where
  edges h := h.edges
  addNode h := h.addNode
  addEdge h := h.addEdge
  removeNode h := h.removeNode

/- Symbols and ends together are kept by all checked changes. -/
theorem isKept_isSound :
    IsKept (fun graph => graph.IsSound onNodes onEdges) onNodes
      onEdges where
  edges h := h.symbols.edges
  addNode h := h.addNode
  addEdge h := h.addEdge
  removeNode h := h.removeNode

namespace IsKept

variable {holds : Graph → Prop}
variable {graph : Graph}

/- What one node keeps, many nodes keep. -/
theorem addNodes
    (h : IsKept holds onNodes onEdges)
    (hGraph : holds graph)
    {nodes : List Node}
    (hNodes : ∀ node ∈ nodes, onNodes node.symbol) :
    holds (graph.addNodes nodes) := by
  induction nodes generalizing graph with
  | nil => exact hGraph
  | cons node nodes ih =>
      rw [List.forall_mem_cons] at hNodes
      rw [addNodes_cons]
      exact ih (h.addNode hGraph hNodes.1) hNodes.2

/- What one edge keeps, many edges keep, also when one fails. -/
theorem addEdges
    (h : IsKept holds onNodes onEdges)
    (hGraph : holds graph)
    {edges : List Edge}
    (hEdges : ∀ edge ∈ edges, onEdges edge.symbol) :
    holds (graph.addEdges edges).1 := by
  have hStep :
      ∀ (reached next : Graph), ∀ edge ∈ edges,
        holds reached → reached.addEdge edge = .ok next →
          holds next :=
    fun _ _ edge hEdge hReached hNext =>
      h.addEdge hReached (hEdges edge hEdge) hNext
  exact advance_preserves_of_mem hStep hGraph

/- What one removal keeps, many removals keep. -/
theorem removeNodes
    (h : IsKept holds onNodes onEdges)
    (hGraph : holds graph)
    (ids : List NodeId) :
    holds (graph.removeNodes ids).1 := by
  have hStep :
      ∀ (reached next : Graph) (id : NodeId),
        holds reached → reached.removeNode id = .ok next →
          holds next :=
    fun _ _ _ hReached hNext => h.removeNode hReached hNext
  exact advance_preserves hStep hGraph ids

/-
  An edge that cannot be renamed ends a run, with no
  harm to the graph.
-/
theorem addRenamed
    (h : IsKept holds onNodes onEdges)
    (hGraph : holds graph)
    {edges : List (Except GrammarError Edge)}
    (hEdges :
      ∀ edge : Edge, .ok edge ∈ edges → onEdges edge.symbol) :
    holds
      (advance GraphRewriting.addRenamed graph edges).1 := by
  have hStep :
      ∀ (reached next : Graph), ∀ edge ∈ edges,
        holds reached →
          GraphRewriting.addRenamed reached edge = .ok next →
            holds next := by
    intro reached next edge hEdge hReached hNext
    cases edge with
    | error error => cases hNext
    | ok edge =>
        exact h.addEdge hReached (hEdges edge hEdge) hNext
  exact advance_preserves_of_mem hStep hGraph

end IsKept

end Graph

end GraphRewriting
