import GraphRewriting.Digraph.EdgeStore
import GraphRewriting.Digraph.NodeStore
import GraphRewriting.Error

/-
  This file defines labelled digraphs with at most one edge per
  ordered pair of nodes.

  `Graph.addEdge` only joins nodes of the graph, and removing a
  node removes the edges at it, so these operations keep every
  end of an edge inside the graph. `Graph.putEdge` does not look
  at the ends.

  Key definitions include:
    * `Graph`
    * `Graph.HasIntegrity`
    * `Graph.addNode`
    * `Graph.removeNode`
    * `Graph.addEdge`
    * `Graph.putEdge`
    * `Graph.removeEdge`
    * `advance`
    * `Graph.addEdges`
    * `Graph.removeNodes`
    * `Graph.plain`

  Main statements:
    * `Graph.ext_get?`
    * `Graph.HasIntegrity.addNode`
    * `Graph.HasIntegrity.addEdge`
    * `Graph.HasIntegrity.removeNode`
    * `Graph.HasIntegrity.removeEdge`
-/

namespace GraphRewriting

------------------------------------------------------------
-- Graphs
------------------------------------------------------------

/- A labelled digraph. -/
structure Graph where
  nodes : NodeStore
  edges : EdgeStore
  deriving DecidableEq

namespace Graph

/- The graph without nodes and edges. -/
def empty : Graph :=
  ⟨∅, ∅⟩

instance : EmptyCollection Graph := ⟨empty⟩

instance : Inhabited Graph := ⟨empty⟩

/- The same graph without document ids on its edges. -/
def plain (g : Graph) : Graph :=
  ⟨g.nodes, g.edges.plain⟩

/-
  Graphs are equivalent when they differ in
  document ids at most.
-/
instance : HasEquiv Graph :=
  ⟨fun g h => g.plain = h.plain⟩

instance (g h : Graph) : Decidable (g ≈ h) :=
  inferInstanceAs (Decidable (g.plain = h.plain))

/- The node with an id. -/
def node?
    (g : Graph)
    (id : NodeId) : Option Node :=
  g.nodes.node? id

/- The edge between two ends. -/
def edge?
    (g : Graph)
    (start stop : NodeId) : Option Edge :=
  g.edges.edge? start stop

/- The symbol of the node with an id. -/
def symbol?
    (g : Graph)
    (id : NodeId) : Option String :=
  g.nodes[id]?.map Labels.symbol

/- The symbol of the edge between two ends. -/
def edgeSymbol?
    (g : Graph)
    (start stop : NodeId) : Option String :=
  (g.edges.get? start stop).map EdgeInfo.symbol

/- A label of the node with an id. -/
def label?
    (g : Graph)
    (id : NodeId)
    (key : String) : Option String :=
  (g.node? id).bind fun node => node.label? key

/- The ids of the nodes, ascending. -/
def nodeIds (g : Graph) : List NodeId :=
  g.nodes.keys

/- The edges that end at a node. -/
def incoming
    (g : Graph)
    (id : NodeId) : List Edge :=
  g.edges.incoming id

/- The edges that start at a node. -/
def outgoing
    (g : Graph)
    (id : NodeId) : List Edge :=
  g.edges.outgoing id

/- The starts of the edges that end at a node, ascending. -/
def predecessors
    (g : Graph)
    (id : NodeId) : List NodeId :=
  (g.incoming id).map Edge.start

/- The ends of the edges that start at a node, ascending. -/
def successors
    (g : Graph)
    (id : NodeId) : List NodeId :=
  (g.outgoing id).map Edge.stop

/- The number of edges that end at a node. -/
def inDegree
    (g : Graph)
    (id : NodeId) : Nat :=
  g.edges.inDegree id

/- The number of edges that start at a node. -/
def outDegree
    (g : Graph)
    (id : NodeId) : Nat :=
  g.edges.outDegree id

/- The edges that start and end at nodes of the graph. -/
def innerEdges (g : Graph) : List Edge :=
  g.edges.toList.filter fun edge =>
    g.nodes.contains edge.start && g.nodes.contains edge.stop

/- Every edge starts and ends at a node of the graph. -/
def HasIntegrity (g : Graph) : Prop :=
  ∀ edge ∈ g.edges.toList,
    edge.start ∈ g.nodes ∧ edge.stop ∈ g.nodes

instance (g : Graph) : Decidable g.HasIntegrity :=
  inferInstanceAs (Decidable (∀ edge ∈ g.edges.toList, _))

/- Whether a node or an edge carries a symbol. -/
def containsSymbol
    (g : Graph)
    (symbol : String) : Bool :=
  g.nodes.nodes.any (fun node => node.symbol == symbol) ||
    g.edges.toList.any (fun edge => edge.symbol == symbol)

end Graph

------------------------------------------------------------
-- Changes
------------------------------------------------------------

namespace Graph

/-
  Add a node. A node that holds the id already goes first,
  together with its edges.
-/
def addNode
    (g : Graph)
    (node : Node) : Graph where
  nodes := g.nodes.put node
  edges :=
    if node.id ∈ g.nodes then
      g.edges.detach node.id
    else
      g.edges

/- Add nodes one after the other. -/
def addNodes
    (g : Graph)
    (nodes : List Node) : Graph :=
  nodes.foldl addNode g

/- Remove a node together with the edges at it. -/
def removeNode
    (g : Graph)
    (id : NodeId) : Except GrammarError Graph :=
  if id ∈ g.nodes then
    .ok ⟨g.nodes.erase id, g.edges.detach id⟩
  else
    .error (.nodeAbsent id)

/- Store an edge whose ends need not be nodes of the graph. -/
def putEdge
    (g : Graph)
    (edge : Edge) : Graph :=
  ⟨g.nodes, g.edges.insert edge⟩

/-
  Add an edge between two nodes in place of an edge with the
  same ends. The start is looked up before the end.
-/
def addEdge
    (g : Graph)
    (edge : Edge) : Except GrammarError Graph :=
  if edge.start ∉ g.nodes then
    .error (.endAbsent edge.start edge.start edge.stop)
  else if edge.stop ∉ g.nodes then
    .error (.endAbsent edge.stop edge.start edge.stop)
  else
    .ok (g.putEdge edge)

/- Remove the edge between two ends. -/
def removeEdge
    (g : Graph)
    (start stop : NodeId) : Except GrammarError Graph :=
  if g.edges.contains start stop then
    .ok ⟨g.nodes, g.edges.erase start stop⟩
  else
    .error (.edgeAbsent start stop)

end Graph

------------------------------------------------------------
-- Runs of changes
------------------------------------------------------------

/-
  Take one step per item until a step fails. The result is the
  state before the failing step, with its error.
-/
def advance
    {σ α ε : Type}
    (step : σ → α → Except ε σ) :
    σ → List α → σ × Option ε
  | state, [] => (state, none)
  | state, item :: items =>
      match step state item with
      | .ok next => advance step next items
      | .error error => (state, some error)

namespace Graph

/-
  Add edges one after the other, up to the
  first that has no node.
-/
def addEdges
    (g : Graph)
    (edges : List Edge) : Graph × Option GrammarError :=
  advance addEdge g edges

/-
  Remove nodes one after the other, up to the
  first that is absent.
-/
def removeNodes
    (g : Graph)
    (ids : List NodeId) : Graph × Option GrammarError :=
  advance removeNode g ids

end Graph

end GraphRewriting

------------------------------------------------------------
-- Lookups
------------------------------------------------------------

namespace GraphRewriting

namespace Graph

/- Graphs with the same nodes and the same edges are equal. -/
theorem ext_get?
    {g h : Graph}
    (hNodes : ∀ id : NodeId, g.nodes[id]? = h.nodes[id]?)
    (hEdges :
      ∀ a b : NodeId, g.edges.get? a b = h.edges.get? a b) :
    g = h := by
  cases g
  cases h
  congr
  · exact Std.ExtTreeMap.ext_getElem? hNodes
  · exact EdgeStore.ext_get? hEdges

/- Integrity, edge by edge. -/
theorem hasIntegrity_iff
    {g : Graph} :
    g.HasIntegrity ↔
      ∀ a b : NodeId,
        (g.edges.get? a b).isSome →
          a ∈ g.nodes ∧ b ∈ g.nodes := by
  constructor
  · intro h a b hSome
    rcases Option.isSome_iff_exists.1 hSome with ⟨info, hInfo⟩
    exact h ⟨info, a, b⟩ (EdgeStore.mem_toList.2 hInfo)
  · intro h edge hMem
    apply h
    rw [EdgeStore.mem_toList.1 hMem]
    rfl

theorem getElem?_nodes_addNode
    (g : Graph)
    (node : Node)
    (id : NodeId) :
    (g.addNode node).nodes[id]? =
      if node.id = id then
        some node.labels
      else
        g.nodes[id]? := by
  unfold addNode NodeStore.put
  rw [Std.ExtTreeMap.getElem?_insert]
  simp only [Std.compare_eq_iff_eq]

theorem mem_nodes_addNode
    {g : Graph}
    {node : Node}
    {id : NodeId} :
    id ∈ (g.addNode node).nodes ↔
      node.id = id ∨ id ∈ g.nodes := by
  rw [Std.ExtTreeMap.mem_iff_isSome_getElem?,
    Std.ExtTreeMap.mem_iff_isSome_getElem?,
    getElem?_nodes_addNode]
  by_cases h : node.id = id <;> simp [h]

/-
  A node that takes the place of another one
  loses the edges there.
-/
theorem get?_edges_addNode
    (g : Graph)
    (node : Node)
    (a b : NodeId) :
    (g.addNode node).edges.get? a b =
      if node.id ∈ g.nodes ∧ (a = node.id ∨ b = node.id) then
        none
      else g.edges.get? a b := by
  unfold addNode
  by_cases h : node.id ∈ g.nodes
  · simp only [h, if_true, true_and]
    exact EdgeStore.get?_detach g.edges node.id a b
  · simp only [h, if_false, false_and]

theorem get?_edges_putEdge
    (g : Graph)
    (edge : Edge)
    (a b : NodeId) :
    (g.putEdge edge).edges.get? a b =
      if edge.start = a ∧ edge.stop = b then
        some edge.toEdgeInfo
      else g.edges.get? a b :=
  EdgeStore.get?_insert g.edges edge a b

/- An edge is added exactly if both of its ends are there. -/
theorem addEdge_eq_ok
    {g h : Graph}
    {edge : Edge} :
    g.addEdge edge = .ok h ↔
      edge.start ∈ g.nodes ∧ edge.stop ∈ g.nodes ∧
        g.putEdge edge = h := by
  unfold addEdge
  by_cases hStart : edge.start ∈ g.nodes <;>
    by_cases hStop : edge.stop ∈ g.nodes <;>
    simp [hStart, hStop]

/- A node is removed exactly if it is there. -/
theorem removeNode_eq_ok
    {g h : Graph}
    {id : NodeId} :
    g.removeNode id = .ok h ↔
      id ∈ g.nodes ∧
        ⟨g.nodes.erase id, g.edges.detach id⟩ = h := by
  unfold removeNode
  by_cases hMem : id ∈ g.nodes <;> simp [hMem]

/- An edge is removed exactly if it is there. -/
theorem removeEdge_eq_ok
    {g h : Graph}
    {start stop : NodeId} :
    g.removeEdge start stop = .ok h ↔
      g.edges.contains start stop = true ∧
        ⟨g.nodes, g.edges.erase start stop⟩ = h := by
  unfold removeEdge
  by_cases hMem : g.edges.contains start stop = true <;>
    simp [hMem]

end Graph

end GraphRewriting

------------------------------------------------------------
-- Integrity
------------------------------------------------------------

namespace GraphRewriting

namespace Graph

theorem hasIntegrity_empty : (∅ : Graph).HasIntegrity := by
  rw [hasIntegrity_iff]
  intro a b hSome
  have hNone : (∅ : Graph).edges.get? a b = none :=
    EdgeStore.get?_empty a b
  rw [hNone] at hSome
  exact absurd hSome Bool.false_ne_true

/-
  A node that replaces another drops the edges at it, so
  none is left over.
-/
theorem HasIntegrity.addNode
    {g : Graph}
    (hg : g.HasIntegrity)
    (node : Node) :
    (g.addNode node).HasIntegrity := by
  rw [hasIntegrity_iff] at hg ⊢
  intro a b hSome
  rw [get?_edges_addNode] at hSome
  split at hSome
  · exact absurd hSome Bool.false_ne_true
  · have h := hg a b hSome
    exact
      ⟨mem_nodes_addNode.2 (Or.inr h.1),
        mem_nodes_addNode.2 (Or.inr h.2)⟩

/- The ends of an added edge are looked up first. -/
theorem HasIntegrity.addEdge
    {g h : Graph}
    (hg : g.HasIntegrity)
    {edge : Edge}
    (hAdd : g.addEdge edge = .ok h) :
    h.HasIntegrity := by
  rcases addEdge_eq_ok.1 hAdd with ⟨hStart, hStop, rfl⟩
  rw [hasIntegrity_iff] at hg ⊢
  intro a b hSome
  rw [get?_edges_putEdge] at hSome
  split at hSome
  · rename_i hEq
    rcases hEq with ⟨rfl, rfl⟩
    exact ⟨hStart, hStop⟩
  · exact hg a b hSome

/- A node that is removed takes the edges at it along. -/
theorem HasIntegrity.removeNode
    {g h : Graph}
    (hg : g.HasIntegrity)
    {id : NodeId}
    (hRemove : g.removeNode id = .ok h) :
    h.HasIntegrity := by
  rcases removeNode_eq_ok.1 hRemove with ⟨_, rfl⟩
  rw [hasIntegrity_iff] at hg ⊢
  intro a b hSome
  simp only [EdgeStore.get?_detach] at hSome
  split at hSome
  · exact absurd hSome Bool.false_ne_true
  · rename_i hNe
    have hEnds := hg a b hSome
    simp only [Std.ExtTreeMap.mem_erase, ne_eq,
      Std.compare_eq_iff_eq]
    exact
      ⟨⟨fun h => hNe (Or.inl h.symm), hEnds.1⟩,
        ⟨fun h => hNe (Or.inr h.symm), hEnds.2⟩⟩

/- The other edges keep their ends. -/
theorem HasIntegrity.removeEdge
    {g h : Graph}
    (hg : g.HasIntegrity)
    {start stop : NodeId}
    (hRemove : g.removeEdge start stop = .ok h) :
    h.HasIntegrity := by
  rcases removeEdge_eq_ok.1 hRemove with ⟨_, rfl⟩
  rw [hasIntegrity_iff] at hg ⊢
  intro a b hSome
  simp only [EdgeStore.get?_erase] at hSome
  split at hSome
  · exact absurd hSome Bool.false_ne_true
  · exact hg a b hSome

end Graph

end GraphRewriting
