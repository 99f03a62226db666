import GraphRewriting.Digraph.Basic

/-
  This file defines exotic graphs: digraphs with exotic nodes
  next to their ordinary ones.

  An exotic node stands for some neighbour of the ordinary
  nodes. Ordinary and exotic nodes share one id space, and no
  id is both. An edge may join two ordinary nodes, or an
  ordinary and an exotic one; `ExoticGraph.addEdge` and
  `ExoticGraph.putEdge` refuse an edge between exotic nodes.

  Key definitions include:
    * `ExoticGraph`
    * `ExoticGraph.addNode`
    * `ExoticGraph.addExotic`
    * `ExoticGraph.removeNode`
    * `ExoticGraph.addEdge`
    * `ExoticGraph.putEdge`
    * `ExoticGraph.removeEdge`
    * `EdgePartition`
    * `ExoticGraph.partition`
    * `ExoticGraph.ordinaryPart`
-/

namespace GraphRewriting

------------------------------------------------------------
-- Exotic graphs
------------------------------------------------------------

/-
  A digraph of ordinary nodes, with exotic nodes of one kind.
  The edges of the digraph may touch exotic nodes.
-/
structure ExoticGraph where
  kind : ExoticKind
  graph : Graph
  exotic : NodeStore
  disjoint : ∀ id : NodeId, id ∈ exotic → id ∉ graph.nodes
  deriving DecidableEq

namespace ExoticGraph

/- The exotic graph of a kind without nodes and edges. -/
def empty (kind : ExoticKind) : ExoticGraph where
  kind := kind
  graph := ∅
  exotic := ∅
  disjoint := by
    intro id h
    simp at h

/- The same exotic graph without document ids on its edges. -/
def plain (p : ExoticGraph) : ExoticGraph where
  kind := p.kind
  graph := p.graph.plain
  exotic := p.exotic
  disjoint := p.disjoint

/-
  Exotic graphs are equivalent when they differ in
  document ids at most.
-/
instance : HasEquiv ExoticGraph :=
  ⟨fun p q => p.plain = q.plain⟩

instance (p q : ExoticGraph) : Decidable (p ≈ q) :=
  inferInstanceAs (Decidable (p.plain = q.plain))

/- Whether an id is an ordinary or an exotic node. -/
def contains
    (p : ExoticGraph)
    (id : NodeId) : Bool :=
  p.graph.nodes.contains id || p.exotic.contains id

/- Whether an id is an exotic node. -/
def isExotic
    (p : ExoticGraph)
    (id : NodeId) : Bool :=
  p.exotic.contains id

/- The ids of the exotic nodes, ascending. -/
def exoticIds (p : ExoticGraph) : List NodeId :=
  p.exotic.keys

/- The edges, by ascending start and end. -/
def edges (p : ExoticGraph) : List Edge :=
  p.graph.edges.toList

/- The edges that end at a node. -/
def incoming
    (p : ExoticGraph)
    (id : NodeId) : List Edge :=
  p.graph.incoming id

/- The edges that start at a node. -/
def outgoing
    (p : ExoticGraph)
    (id : NodeId) : List Edge :=
  p.graph.outgoing id

/- Every edge starts and ends at an ordinary or exotic node. -/
def HasIntegrity (p : ExoticGraph) : Prop :=
  ∀ edge ∈ p.edges, p.contains edge.start ∧ p.contains edge.stop

instance (p : ExoticGraph) : Decidable p.HasIntegrity :=
  inferInstanceAs (Decidable (∀ edge ∈ p.edges, _))

/- No edge joins two exotic nodes. -/
def HasSeparateExotics (p : ExoticGraph) : Prop :=
  ∀ edge ∈ p.edges,
    ¬ (p.isExotic edge.start ∧ p.isExotic edge.stop)

instance (p : ExoticGraph) : Decidable p.HasSeparateExotics :=
  inferInstanceAs (Decidable (∀ edge ∈ p.edges, _))

end ExoticGraph

------------------------------------------------------------
-- Changes
------------------------------------------------------------

namespace ExoticGraph

/- The edges that are left once an id names a new node. -/
def edgesWithout
    (p : ExoticGraph)
    (id : NodeId) : EdgeStore :=
  if p.contains id then
    p.graph.edges.detach id
  else
    p.graph.edges

/-
  Add an ordinary node. An ordinary or exotic node that holds
  the id already goes first, together with its edges.
-/
def addNode
    (p : ExoticGraph)
    (node : Node) : ExoticGraph where
  kind := p.kind
  graph := ⟨p.graph.nodes.put node, p.edgesWithout node.id⟩
  exotic := p.exotic.erase node.id
  disjoint := by
    intro id hExotic hNodes
    rw [Std.ExtTreeMap.mem_erase] at hExotic
    unfold NodeStore.put at hNodes
    rw [Std.ExtTreeMap.mem_insert] at hNodes
    rcases hNodes with h | h
    · exact hExotic.1 h
    · exact p.disjoint id hExotic.2 h

/-
  Add an exotic node. An ordinary or exotic node that holds the
  id already goes first, together with its edges.
-/
def addExotic
    (p : ExoticGraph)
    (node : Node) : ExoticGraph where
  kind := p.kind
  graph := ⟨p.graph.nodes.erase node.id, p.edgesWithout node.id⟩
  exotic := p.exotic.put node
  disjoint := by
    intro id hExotic hNodes
    rw [Std.ExtTreeMap.mem_erase] at hNodes
    unfold NodeStore.put at hExotic
    rw [Std.ExtTreeMap.mem_insert] at hExotic
    rcases hExotic with h | h
    · exact hNodes.1 h
    · exact p.disjoint id h hNodes.2

/- Remove an ordinary or exotic node together with its edges. -/
def removeNode
    (p : ExoticGraph)
    (id : NodeId) : Except GrammarError ExoticGraph :=
  if p.contains id then
    .ok
      { kind := p.kind
        graph :=
          ⟨p.graph.nodes.erase id, p.graph.edges.detach id⟩
        exotic := p.exotic.erase id
        disjoint := by
          intro c hExotic hNodes
          rw [Std.ExtTreeMap.mem_erase] at hExotic hNodes
          exact p.disjoint c hExotic.2 hNodes.2 }
  else
    .error (.nodeAbsent id)

/- Replace the edges. -/
def withEdges
    (p : ExoticGraph)
    (edges : EdgeStore) : ExoticGraph where
  kind := p.kind
  graph := ⟨p.graph.nodes, edges⟩
  exotic := p.exotic
  disjoint := p.disjoint

/-
  Store an edge that does not join two exotic nodes. Its ends
  need not be there.
-/
def putEdge
    (p : ExoticGraph)
    (edge : Edge) : Except GrammarError ExoticGraph :=
  if p.isExotic edge.start && p.isExotic edge.stop then
    .error (.exoticEdge p.kind edge.start edge.stop)
  else
    .ok (p.withEdges (p.graph.edges.insert edge))

/-
  Add an edge between two ordinary nodes, or between an
  ordinary and an exotic one. Two exotic ends are refused
  before absent ends.
-/
def addEdge
    (p : ExoticGraph)
    (edge : Edge) : Except GrammarError ExoticGraph :=
  if p.isExotic edge.start && p.isExotic edge.stop then
    .error (.exoticEdge p.kind edge.start edge.stop)
  else if !p.contains edge.start then
    .error (.endAbsent edge.start edge.start edge.stop)
  else if !p.contains edge.stop then
    .error (.endAbsent edge.stop edge.start edge.stop)
  else
    .ok (p.withEdges (p.graph.edges.insert edge))

/- Remove the edge between two ends. -/
def removeEdge
    (p : ExoticGraph)
    (start stop : NodeId) : Except GrammarError ExoticGraph :=
  if p.graph.edges.contains start stop then
    .ok (p.withEdges (p.graph.edges.erase start stop))
  else
    .error (.edgeAbsent start stop)

end ExoticGraph

------------------------------------------------------------
-- Ordinary part
------------------------------------------------------------

/- Edges sorted by which of their ends are exotic. -/
structure EdgePartition where
  betweenOrdinary : List Edge
  exoticToOrdinary : List Edge
  ordinaryToExotic : List Edge
  betweenExotic : List Edge

namespace ExoticGraph

/- The edges sorted by which of their ends are exotic. -/
def partition (p : ExoticGraph) : EdgePartition where
  betweenOrdinary :=
    p.edges.filter fun edge =>
      !p.isExotic edge.start && !p.isExotic edge.stop
  exoticToOrdinary :=
    p.edges.filter fun edge =>
      p.isExotic edge.start && !p.isExotic edge.stop
  ordinaryToExotic :=
    p.edges.filter fun edge =>
      !p.isExotic edge.start && p.isExotic edge.stop
  betweenExotic :=
    p.edges.filter fun edge =>
      p.isExotic edge.start && p.isExotic edge.stop

/- The graph without the exotic nodes and the edges at them. -/
def ordinaryPart (p : ExoticGraph) : Graph where
  nodes := p.graph.nodes
  edges := p.partition.betweenOrdinary.foldl EdgeStore.insert ∅

end ExoticGraph

end GraphRewriting
