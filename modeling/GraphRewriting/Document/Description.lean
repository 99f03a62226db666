import GraphRewriting.Document.Element
import GraphRewriting.Grammar.Basic

/-
  This file defines the document that describes a grammar.

  The empty symbol is implied and not listed. Labels are written
  next to the keys of their element, so a label with the name of
  such a key cannot be described. Edges without a document id
  get one that no other edge of their graph has.

  Key definitions include:
    * `Labels.attributes`
    * `freshEdgeNumber`
    * `GraphElement.ofParts`
    * `RuleElement.ofRule`
    * `GrammarDocument.ofGrammar`
-/

namespace GraphRewriting

------------------------------------------------------------
-- Attributes
------------------------------------------------------------

/-
  The labels to write next to the keys of an element. The first
  label with the name of such a key is at fault.
-/
def Labels.attributes
    (labels : Labels)
    (keys : List String)
    (item : ElementRef) : Except GrammarError Labels :=
  match labels.keys.find? keys.contains with
  | some key => .error (.badDocument (.labelClash item key))
  | none => .ok (Labels.withoutSymbol labels)

------------------------------------------------------------
-- Nodes
------------------------------------------------------------

/- The element of a node other than `base`. -/
def NodeElement.ofNode
    (node : Node) : Except GrammarError NodeElement := do
  let attributes ←
    Labels.attributes node.labels ["id"] (.node node.id)
  return ⟨some node.id, some node.symbol, attributes⟩

/- The elements of the nodes other than `base`. -/
def nodeElements
    (nodes : List Node) :
    Except GrammarError (List NodeElement) :=
  (nodes.filter fun node => !node.id.isBase).mapM
    NodeElement.ofNode

------------------------------------------------------------
-- Edges
------------------------------------------------------------

/- The id that numbers an edge. -/
def numberedEdgeId (number : Nat) : String :=
  "e" ++ toString number

/-
  The first number past `last` whose id is not taken. One of as
  many numbers as there are taken ids, and one more, is free.
-/
def freshEdgeNumber
    (taken : Std.ExtTreeSet String)
    (last : Nat) : Nat :=
  let candidates := List.range' (last + 1) (taken.size + 1)
  (candidates.find? fun number =>
      !taken.contains (numberedEdgeId number)).getD
    (last + 1)

/- The element of an edge under an id. -/
def EdgeElement.ofEdge
    (edge : Edge)
    (id : String) : Except GrammarError EdgeElement := do
  let attributes ←
    Labels.attributes edge.labels ["id", "from", "to"]
      (.edge edge.start edge.stop)
  return ⟨some (.name id), some edge.start, some edge.stop,
    some edge.symbol, attributes⟩

/-
  The elements of edges. An edge without a document id takes
  the next free number, past those given so far.
-/
def edgeElements
    (taken : Std.ExtTreeSet String)
    (last : Nat) :
    List Edge → Except GrammarError (List EdgeElement)
  | [] => .ok []
  | edge :: rest =>
      match edge.documentId with
      | some id => do
          let element ← EdgeElement.ofEdge edge id
          let elements ← edgeElements taken last rest
          return element :: elements
      | none => do
          let number := freshEdgeNumber taken last
          let id := numberedEdgeId number
          let element ← EdgeElement.ofEdge edge id
          let elements ←
            edgeElements (taken.insert id) number rest
          return element :: elements

/- The document ids that edges carry. -/
def documentIds (edges : List Edge) : Std.ExtTreeSet String :=
  Std.ExtTreeSet.ofList
    (edges.filterMap fun edge => edge.documentId)

------------------------------------------------------------
-- Graphs
------------------------------------------------------------

namespace GraphElement

/- The element of some nodes and edges, without exotic nodes. -/
def ofParts
    (nodes : List Node)
    (edges : List Edge) : Except GrammarError GraphElement := do
  let base := nodes.find? fun node => node.id.isBase
  let nodes ← nodeElements nodes
  let edges ← edgeElements (documentIds edges) 0 edges
  let baseLabels :=
    (base.map fun node => Labels.withoutSymbol node.labels).getD
      ∅
  return ⟨base.map Node.symbol, baseLabels, nodes, edges, [],
    []⟩

/- The element of a graph. -/
def ofGraph
    (graph : Graph) : Except GrammarError GraphElement :=
  ofParts graph.nodes.nodes graph.edges.toList

/-
  The element of an exotic graph whose exotic
  nodes are not declared.
-/
def ofReplacement
    (graph : ExoticGraph) : Except GrammarError GraphElement :=
  ofGraph graph.graph

/-
  The element of an exotic graph that
  declares its exotic nodes.
-/
def ofPattern
    (graph : ExoticGraph) :
    Except GrammarError GraphElement := do
  let element ← ofGraph graph.graph
  let exotics := graph.exoticIds.map fun id => ⟨some id⟩
  match graph.kind with
  | .anchor => return { element with anchors := exotics }
  | .wildcard => return { element with wildcards := exotics }

end GraphElement

------------------------------------------------------------
-- Rules and grammars
------------------------------------------------------------

/- The element of a rule. -/
def RuleElement.ofRule : Rule → Except GrammarError RuleElement
  | .node rule => do
      let graph ← GraphElement.ofGraph rule.rhs
      let lhs : SymbolElement :=
        ⟨some rule.symbol, Labels.withoutSymbol rule.lhs⟩
      return ⟨some rule.name, some lhs, none, none, some graph⟩
  | .region rule => do
      let lhs ← GraphElement.ofPattern rule.lhs
      let graph ← GraphElement.ofReplacement rule.rhs
      match rule.kind with
      | .anchor =>
          return ⟨some rule.name, none, some lhs, none,
            some graph⟩
      | .wildcard =>
          return ⟨some rule.name, none, none, some lhs,
            some graph⟩

namespace GrammarDocument

/- The labels next to the start symbol. -/
def startAttributes (g : Grammar) : Labels :=
  ((g.startGraph.bind fun graph => graph.node? NodeId.base).map
    fun node => Labels.withoutSymbol node.labels).getD ∅

/-
  The document of a grammar. A start that was made from a
  symbol is written as that symbol. Rules are described before
  the start graph.
-/
def ofGrammar
    (g : Grammar) : Except GrammarError GrammarDocument := do
  let rules ← g.rules.toList.mapM RuleElement.ofRule
  let document : GrammarDocument :=
    { terminals :=
      some (g.terminals.toList.filter fun symbol => symbol ≠ "")
      nonTerminals := some g.nonTerminals.toList
      startSymbol := none
      startGraphs := []
      rules := some rules }
  match g.startSymbol, g.startGraph with
  | some symbol, _ =>
      return { document with
        startSymbol := some ⟨some symbol, startAttributes g⟩ }
  | none, some graph => do
      let element ← GraphElement.ofGraph graph
      return { document with startGraphs := [element] }
  | none, none => return document

end GrammarDocument

end GraphRewriting
