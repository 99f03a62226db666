import GraphRewriting.Grammar.Basic
import GraphRewriting.IdPool

/-
  This file defines derivations: a grammar with a working graph
  that its rules rewrite step by step, and a pool for the ids
  of new nodes. Ids of removed nodes go back to the pool. Nodes
  and edges can be edited by hand under the same vocabulary
  checks.

  Key definitions include:
    * `Derivation`
    * `Derivation.start`
    * `Derivation.continueFrom`
    * `Derivation.addNode`
    * `Derivation.removeNode`
    * `Derivation.addEdge`
    * `Derivation.removeEdge`
    * `Derivation.applyRule`
    * `Derivation.reset`
-/

namespace GraphRewriting

------------------------------------------------------------
-- Derivations
------------------------------------------------------------

/-
  A grammar, a pool, the graph at the start and
  the working graph.
-/
structure Derivation where
  grammar : Grammar
  pool : IdPool
  initial : Graph
  graph : Graph

/- Draw an id from a pool for each local id. -/
def numberNodes
    (fresh : FreshIds)
    (pool : IdPool) :
    List NodeId → FreshIds × IdPool
  | [] => (fresh, pool)
  | localId :: rest =>
      let (id, pool) := pool.pop
      numberNodes (fresh.insert localId id) pool rest

namespace Derivation

/-
  Start from the start graph of a grammar, under
  ids from the pool.
-/
def start
    (grammar : Grammar)
    (chunkSize : Nat) : Except GrammarError Derivation :=
  match grammar.startGraph with
  | none => .error .startGraphAbsent
  | some start =>
      let (fresh, pool) :=
        numberNodes ∅ (.ofChunkSize chunkSize) start.nodeIds
      let nodes :=
        (∅ : Graph).addNodes (fresh.rename start.nodes.nodes)
      match advance addRenamed nodes
        (start.edges.toList.map fresh.renameEdge) with
      | (_, some error) => .error error
      | (graph, none) => .ok ⟨grammar, pool, graph, graph⟩

/-
  Start from a graph over the vocabulary,
  whose ids are in use.
-/
def continueFrom
    (grammar : Grammar)
    (graph : Graph)
    (chunkSize : Nat) : Except GrammarError Derivation :=
  match grammar.graphFault? graph .workingGraph with
  | some error => .error error
  | none =>
      let pool :=
        (IdPool.ofChunkSize chunkSize).reserveAll graph.nodeIds
      .ok ⟨grammar, pool, graph, graph⟩

end Derivation

------------------------------------------------------------
-- Edits
------------------------------------------------------------

namespace Derivation

/-
  Add a node with a symbol under an id from the pool. The id
  goes back if the symbol is not in the vocabulary.
-/
def addNode
    (d : Derivation)
    (symbol : String)
    (labels : Labels) :
      Derivation × Except GrammarError NodeId :=
  let (id, pool) := d.pool.pop
  let node : Node := ⟨id, labels.setSymbol symbol⟩
  match d.grammar.elementFault? [node] [] .workingGraph with
  | some error =>
      ({ d with pool := pool.push id }, .error error)
  | none =>
      ({ d with pool := pool, graph := d.graph.addNode node },
        .ok id)

/-
  Remove a node with its edges. Its id goes back to the pool.
-/
def removeNode
    (d : Derivation)
    (id : NodeId) : Except GrammarError Derivation :=
  (d.graph.removeNode id).map fun graph =>
    { d with pool := d.pool.push id, graph := graph }

/-
  Add an edge over the vocabulary between nodes of
  the working graph.
-/
def addEdge
    (d : Derivation)
    (edge : Edge) : Except GrammarError Derivation :=
  match d.grammar.elementFault? [] [edge] .workingGraph with
  | some error => .error error
  | none =>
      (d.graph.addEdge edge).map fun graph =>
        { d with graph := graph }

/- Remove the edge between two nodes. -/
def removeEdge
    (d : Derivation)
    (start stop : NodeId) : Except GrammarError Derivation :=
  (d.graph.removeEdge start stop).map fun graph =>
    { d with graph := graph }

/- Return to the graph at the start. -/
def reset (d : Derivation) : Derivation :=
  { d with
    graph := d.initial
    pool := d.pool.reset.reserveAll d.initial.nodeIds }

end Derivation

------------------------------------------------------------
-- Rewriting
------------------------------------------------------------

namespace Derivation

/-
  The rules that apply to the working graph,
  with their matches.
-/
def applicableRules
    (d : Derivation) :
      Except GrammarError (List (String × List RuleMatch)) :=
  d.grammar.applicableRules d.graph

/- Whether some rule applies to the working graph. -/
def hasApplicableRule
    (d : Derivation) : Except GrammarError Bool :=
  d.applicableRules.map fun rules => !rules.isEmpty

/- Draw from a pool, keeping the ids drawn in their order. -/
def drawFromPool : IdSource (IdPool × List NodeId) :=
  fun _ (pool, drawn) =>
    let (id, pool) := pool.pop
    (id, pool, drawn ++ [id])

/-
  Rewrite the working graph with the rule of a name. The ids of
  removed nodes go back to the pool and, if the rewrite fails,
  those ids drawn that did not make it into the graph.
-/
def applyRule
    (d : Derivation)
    (name : String)
    (found : RuleMatch) :
      Derivation × Except GrammarError Rewrite :=
  let outcome :=
    d.grammar.applyRule drawFromPool name found d.graph
      (d.pool, [])
  let (pool, drawn) := outcome.supply
  match outcome.result with
  | .ok rewrite =>
      ({ d with
          pool := pool.pushAll rewrite.removed
          graph := outcome.graph },
        .ok rewrite)
  | .error error =>
      let unused :=
        drawn.filter fun id => !outcome.graph.nodes.contains id
      ({ d with
          pool := pool.pushAll unused,
          graph := outcome.graph },
        .error error)

end Derivation

------------------------------------------------------------
-- Queries
------------------------------------------------------------

namespace Derivation

/-
  Whether every node of the working graph carries a terminal.
-/
def isSentence (d : Derivation) : Bool :=
  d.grammar.isSentence d.graph

/- The nodes whose symbols satisfy a test, ascending. -/
def nodesWhere
    (d : Derivation)
    (test : String → Bool) : List NodeId :=
  (d.graph.nodes.nodes.filter fun node => test node.symbol).map
    Node.id

/- The nodes that carry terminals. -/
def terminalNodes (d : Derivation) : List NodeId :=
  d.nodesWhere d.grammar.isTerminal

/- The nodes that carry non-terminals. -/
def nonTerminalNodes (d : Derivation) : List NodeId :=
  d.nodesWhere d.grammar.isNonTerminal

end Derivation

end GraphRewriting
