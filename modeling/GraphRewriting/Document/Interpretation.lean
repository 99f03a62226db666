import GraphRewriting.Document.Element
import GraphRewriting.Grammar.Basic

/-
  This file defines the grammar that a document describes. The
  first element that is not well formed ends the reading, and
  no part of the grammar is kept.

  Key definitions include:
    * `NodeElement.toNode`
    * `EdgeElement.toEdge`
    * `GraphElement.fill`
    * `GraphElement.toGraph`
    * `GraphElement.toExoticGraph`
    * `RuleElement.toRule`
    * `GrammarDocument.toGrammar`
-/

namespace GraphRewriting

------------------------------------------------------------
-- Nodes and edges
------------------------------------------------------------

/- A part of an element that must be there. -/
def require
    {α : Type}
    (fault : DocumentFault) :
    Option α → Except GrammarError α
  | some value => .ok value
  | none => .error (.badDocument fault)

/- The node of an element. -/
def NodeElement.toNode
    (element : NodeElement) : Except GrammarError Node := do
  let id ← require .nodeIdMissing element.id
  return ⟨id,
    Labels.setSymbol element.attributes (element.name.getD "")⟩

/-
  The edge of an element, with the displayed id
  as its document id.
-/
def EdgeElement.toEdge
    (element : EdgeElement) : Except GrammarError Edge := do
  let id ← require .edgeIdMissing element.id
  let start ← require (.edgeStartMissing id.text) element.start
  let stop ← require (.edgeStopMissing id.text) element.stop
  let labels :=
    Labels.setSymbol element.attributes (element.name.getD "")
  return ⟨⟨labels, some id.text⟩, start, stop⟩

------------------------------------------------------------
-- Graphs
------------------------------------------------------------

namespace GraphElement

/- Add a declared node, whose id must be new. -/
def declareNode
    (graph : ExoticGraph)
    (node : Node) : Except GrammarError ExoticGraph :=
  if graph.contains node.id then
    .error (.badDocument (.nodeRedeclared node.id))
  else
    .ok (graph.addNode node)

/- Add the node `base`, if the element gives its symbol. -/
def declareBase
    (element : GraphElement)
    (requireBase : Bool)
    (graph : ExoticGraph) : Except GrammarError ExoticGraph :=
  match element.base with
  | some symbol =>
      declareNode graph
        ⟨NodeId.base,
          Labels.setSymbol element.baseLabels symbol⟩
  | none =>
      if requireBase then
        .error (.badDocument .baseSymbolMissing)
      else
        .ok graph

/-
  Add a declared edge. Its displayed id and its pair of ends
  must be new.
-/
def declareEdge
    (state : ExoticGraph × Std.ExtTreeSet String)
    (element : EdgeElement) :
    Except GrammarError
      (ExoticGraph × Std.ExtTreeSet String) := do
  let (graph, ids) := state
  let edge ← element.toEdge
  let id := edge.documentId.getD ""
  if ids.contains id then
    .error (.badDocument (.edgeIdRedeclared id))
  else if graph.graph.edges.contains edge.start edge.stop then
    .error (.badDocument (.edgeRedeclared edge.start edge.stop))
  else
    let graph ← graph.addEdge edge
    return (graph, ids.insert id)

/-
  Add the base, then the nodes, then the edges of an element.
-/
def fill
    (element : GraphElement)
    (requireBase : Bool)
    (graph : ExoticGraph) :
      Except GrammarError ExoticGraph := do
  let graph ← element.declareBase requireBase graph
  let graph ←
    element.nodes.foldlM
      (fun graph node => do declareNode graph (← node.toNode))
      graph
  let (graph, _) ← element.edges.foldlM declareEdge (graph, ∅)
  return graph

/-
  The plain graph of an element, which must
  declare no exotic node.
-/
def toGraph
    (element : GraphElement)
    (requireBase : Bool) : Except GrammarError Graph :=
  if element.anchors.isEmpty && element.wildcards.isEmpty then
    (element.fill requireBase (.empty .anchor)).map
      ExoticGraph.graph
  else
    .error (.badDocument .exoticInPlainGraph)

/- Add a declared exotic node, whose id must be new. -/
def declareExotic
    (graph : ExoticGraph)
    (element : ExoticElement) :
      Except GrammarError ExoticGraph := do
  let id ← require (.exoticIdMissing graph.kind) element.id
  if graph.contains id then
    .error (.badDocument (.exoticRedeclared graph.kind id))
  else
    return graph.addExotic ⟨id, ∅⟩

/- Add an exotic node unless its id is there. -/
def inherit
    (graph : ExoticGraph)
    (node : Node) : ExoticGraph :=
  if graph.contains node.id then graph else graph.addExotic node

/- The exotic kind that elements of a kind must not declare. -/
def otherKind : ExoticKind → ExoticKind
  | .anchor => .wildcard
  | .wildcard => .anchor

/-
  The exotic graph of an element, with inherited exotic nodes
  that it need not declare again.
-/
def toExoticGraph
    (element : GraphElement)
    (kind : ExoticKind)
    (inherited : List Node) : Except GrammarError ExoticGraph :=
  if (element.exotics (otherKind kind)).isEmpty then do
    let graph ←
      (element.exotics kind).foldlM declareExotic (.empty kind)
    element.fill false (inherited.foldl inherit graph)
  else
    .error (.badDocument (.exoticOfOtherKind kind))

end GraphElement

------------------------------------------------------------
-- Rules
------------------------------------------------------------

namespace RuleElement

/- The replacement graph of a rule element. -/
def replacement
    (element : RuleElement)
    (name : String) : Except GrammarError GraphElement :=
  require (.replacementMissing name) element.graph

/- A context-free rule from its left-hand side. -/
def toContextFree
    (element : RuleElement)
    (name : String)
    (lhs : SymbolElement) : Except GrammarError Rule := do
  let symbol ← require (.leftHandSideNameMissing name) lhs.name
  let replacement ← element.replacement name
  let rhs ← replacement.toGraph true
  Rule.contextFreeOfLabels name
    (Labels.setSymbol lhs.attributes symbol) rhs

/- A rule between exotic graphs from its left-hand side. -/
def toExotic
    (element : RuleElement)
    (kind : ExoticKind)
    (name : String)
    (lhs : GraphElement) : Except GrammarError Rule := do
  let lhs ← lhs.toExoticGraph kind []
  let replacement ← element.replacement name
  let rhs ← replacement.toExoticGraph kind lhs.exotic.nodes
  Rule.exotic name lhs rhs

/-
  The rule that an element describes as a rule of
  a kind, if it does.
-/
def ofKind?
    (element : RuleElement)
    (name : String) :
    RuleKind → Option (Except GrammarError Rule)
  | .contextFree =>
      element.symbol.map (element.toContextFree name)
  | .anchor =>
      element.anchorGraph.map (element.toExotic .anchor name)
  | .wildcard =>
      element.wildcardGraph.map
        (element.toExotic .wildcard name)

/-
  The rule of an element: the first of the given kinds whose
  left-hand side is there decides.
-/
def toRule
    (element : RuleElement)
    (kinds : List RuleKind) : Except GrammarError Rule := do
  let name ← require .ruleNameMissing element.name
  match kinds.findSome? (element.ofKind? name) with
  | some rule => rule
  | none => .error (.badDocument (.ruleUnsupported name))

end RuleElement

------------------------------------------------------------
-- Grammars
------------------------------------------------------------

namespace GrammarDocument

/-
  Define the start of a grammar. A start symbol without a name
  leaves the grammar without a start.
-/
def defineStart
    (document : GrammarDocument)
    (g : Grammar) : Except GrammarError Grammar :=
  match document.startSymbol, document.startGraphs with
  | some _, _ :: _ => .error (.badDocument .startSymbolAndGraph)
  | some element, [] =>
      match element.name with
      | some symbol =>
          g.defineStartSymbol symbol element.attributes
      | none => .ok g
  | none, [] => .ok g
  | none, [element] => do
      let graph ← element.toGraph false
      g.defineStartGraph graph
  | none, elements =>
      .error (.badDocument (.startGraphs elements.length))

/- Add the rule of an element. -/
def addRule
    (g : Grammar)
    (element : RuleElement) : Except GrammarError Grammar := do
  let rule ← element.toRule g.config.acceptableKinds
  g.addRule rule

/-
  The grammar of a document: its symbols, its
  start, then its rules.
-/
def toGrammar
    (document : GrammarDocument)
    (config : GrammarConfig) : Except GrammarError Grammar := do
  let terminals ←
    require (.sectionMissing "terminal_symbols")
      document.terminals
  let nonTerminals ←
    require (.sectionMissing "non_terminal_symbols")
      document.nonTerminals
  let g ←
    terminals.foldlM Grammar.defineTerminal
      (Grammar.ofConfig config)
  let g ← nonTerminals.foldlM Grammar.defineNonTerminal g
  let g ← document.defineStart g
  let rules ←
    require (.sectionMissing "production_rules") document.rules
  rules.foldlM addRule g

end GrammarDocument

end GraphRewriting
