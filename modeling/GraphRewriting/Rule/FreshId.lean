import GraphRewriting.Digraph.Basic

/-
  This file defines how rules draw ids for the nodes that they
  add, and what a rule application leaves behind.

  An id source answers one local id at a time and keeps a state
  of its own. Ids are drawn before anything else happens, so a
  source that repeats itself, or that returns an id of the
  target graph, leaves that graph as it was.

  Key definitions include:
    * `IdSource`
    * `FreshIds`
    * `drawIds`
    * `FreshIds.rename`
    * `FreshIds.renameEdge`
    * `Rewrite`
    * `Outcome`
-/

namespace GraphRewriting

------------------------------------------------------------
-- Fresh ids
------------------------------------------------------------

/-
  A source of ids with a state: the id for a local id,
  and the next state.
-/
abbrev IdSource (σ : Type) :=
  NodeId → σ → NodeId × σ

/- Local ids with the ids drawn for them. -/
abbrev FreshIds :=
  Std.ExtTreeMap NodeId NodeId

/-
  Draw one id per local id, up to the first that the target
  graph holds or that was drawn before.
-/
def drawIds
    {σ : Type}
    (rule : String)
    (target : Graph)
    (source : IdSource σ)
    (fresh : FreshIds) :
    List NodeId → σ → Except GrammarError FreshIds × σ
  | [], supply => (.ok fresh, supply)
  | localId :: rest, supply =>
      let (id, supply) := source localId supply
      if id ∈ target.nodes ∨ id ∈ fresh.values then
        (.error (.idInUse rule id localId), supply)
      else
        drawIds rule target source (fresh.insert localId id)
          rest supply

/- The nodes of a graph under the ids drawn for them. -/
def FreshIds.rename
    (fresh : FreshIds)
    (nodes : List Node) : List Node :=
  nodes.map fun node =>
    ⟨fresh.getD node.id node.id, node.labels⟩

/-
  An edge between the ids drawn for its ends. An end for which
  no id was drawn leaves the edge dangling.
-/
def FreshIds.renameEdge
    (fresh : FreshIds)
    (edge : Edge) : Except GrammarError Edge :=
  match fresh[edge.start]?, fresh[edge.stop]? with
  | some start, some stop => .ok (edge.moved start stop)
  | _, _ => .error (.danglingEdge edge.start edge.stop)

/- Add an edge, if it could be renamed. -/
def addRenamed
    (g : Graph)
    (edge : Except GrammarError Edge) :
      Except GrammarError Graph :=
  edge.bind g.addEdge

------------------------------------------------------------
-- Outcomes
------------------------------------------------------------

/- The node ids that a rule application added and removed. -/
structure Rewrite where
  added : List NodeId
  removed : List NodeId
  deriving DecidableEq

/-
  What a rule application leaves behind: the graph and the
  state of the id source, also when it fails.
-/
structure Outcome (σ : Type) where
  graph : Graph
  supply : σ
  result : Except GrammarError Rewrite

end GraphRewriting
