import GraphRewriting.Labels
import GraphRewriting.NodeId

/-
  This file defines the nodes and edges of labelled digraphs.

  An edge may carry the id it has in a grammar document. That
  id tells edge elements of one document apart and is no part
  of what the edge is: two edges with the same ends and labels
  are equivalent.

  Key definitions include:
    * `Node`
    * `Node.ofLabels`
    * `EdgeInfo`
    * `Edge`
    * `Edge.ofLabels`
    * `Edge.moved`
    * `Edge.plain`
-/

namespace GraphRewriting

------------------------------------------------------------
-- Nodes
------------------------------------------------------------

/- A node with its labels. -/
structure Node where
  id : NodeId
  labels : Labels
  deriving DecidableEq

namespace Node

/-
  A node with the given labels and, failing
  one, the empty symbol.
-/
def ofLabels
    (id : NodeId)
    (labels : Labels) : Node :=
  ⟨id, labels.fillSymbol⟩

/- A node that carries a symbol and no other label. -/
def ofSymbol
    (id : NodeId)
    (symbol : String) : Node :=
  ⟨id, Labels.ofSymbol symbol⟩

/- The symbol of a node. -/
def symbol (node : Node) : String :=
  node.labels.symbol

/- One label of a node. -/
def label?
    (node : Node)
    (key : String) : Option String :=
  node.labels[key]?

end Node

------------------------------------------------------------
-- Edges
------------------------------------------------------------

/- What an edge carries besides its ends. -/
structure EdgeInfo where
  labels : Labels
  documentId : Option String
  deriving DecidableEq

/- The same information without a document id. -/
def EdgeInfo.plain (info : EdgeInfo) : EdgeInfo :=
  ⟨info.labels, none⟩

/- The symbol in the information of an edge. -/
def EdgeInfo.symbol (info : EdgeInfo) : String :=
  info.labels.symbol

/- An edge from one node to another. -/
structure Edge extends EdgeInfo where
  start : NodeId
  stop : NodeId
  deriving DecidableEq

namespace Edge

/-
  An edge with the given labels and, failing
  one, the empty symbol.
-/
def ofLabels
    (start stop : NodeId)
    (labels : Labels) : Edge :=
  ⟨⟨labels.fillSymbol, none⟩, start, stop⟩

/- The edge under a document id. -/
def withDocumentId
    (edge : Edge)
    (documentId : String) : Edge :=
  { edge with documentId := some documentId }

/- The symbol of an edge. -/
def symbol (edge : Edge) : String :=
  edge.labels.symbol

/- The edge between other ends. -/
def moved
    (edge : Edge)
    (start stop : NodeId) : Edge :=
  ⟨edge.toEdgeInfo, start, stop⟩

/- The edge without its document id. -/
def plain (edge : Edge) : Edge :=
  ⟨edge.toEdgeInfo.plain, edge.start, edge.stop⟩

/-
  Edges are equivalent when they differ in
  document ids at most.
-/
instance : HasEquiv Edge :=
  ⟨fun a b => a.plain = b.plain⟩

instance (a b : Edge) : Decidable (a ≈ b) :=
  inferInstanceAs (Decidable (a.plain = b.plain))

/- Equivalent edges agree in all but their document ids. -/
theorem equiv_iff (a b : Edge) :
    a ≈ b ↔
      a.start = b.start ∧ a.stop = b.stop ∧
        a.labels = b.labels := by
  rcases a with ⟨⟨labelsA, idA⟩, startA, stopA⟩
  rcases b with ⟨⟨labelsB, idB⟩, startB, stopB⟩
  show plain _ = plain _ ↔ _
  simp only [plain, EdgeInfo.plain, Edge.mk.injEq,
    EdgeInfo.mk.injEq]
  constructor
  · intro h
    exact ⟨h.2.1, h.2.2, h.1.1⟩
  · intro h
    exact ⟨⟨h.2.2, trivial⟩, h.1, h.2.1⟩

end Edge

end GraphRewriting
