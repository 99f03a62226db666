import GraphRewriting.Matching.Basic
import GraphRewriting.Rule.FreshId

/-
  This file defines rules between exotic graphs. The exotic
  nodes are bound to nodes of the target graph that survive the
  rewrite; the images of the ordinary nodes of the left-hand
  side give way to fresh copies of the ordinary nodes of the
  replacement.

  Key definitions include:
    * `ExoticRule`
    * `ExoticRule.make`
    * `ExoticRule.checkMorphism`
    * `ExoticRule.apply`
-/

namespace GraphRewriting

------------------------------------------------------------
-- Rules
------------------------------------------------------------

/-
  A rule whose sides have exotic nodes of one kind
  with the same ids.
-/
structure ExoticRule where
  name : String
  lhs : ExoticGraph
  rhs : ExoticGraph
  kind_eq : lhs.kind = rhs.kind
  exoticIds_eq : lhs.exoticIds = rhs.exoticIds
  deriving DecidableEq

namespace ExoticRule

/-
  A rule from its parts. The kinds are
  compared before the ids.
-/
def make
    (name : String)
    (lhs rhs : ExoticGraph) : Except GrammarError ExoticRule :=
  if hKind : lhs.kind = rhs.kind then
    if hIds : lhs.exoticIds = rhs.exoticIds then
      .ok ⟨name, lhs, rhs, hKind, hIds⟩
    else
      .error
        (.exoticIdsDiffer name lhs.kind lhs.exoticIds
          rhs.exoticIds)
  else
    .error (.sidesOfTwoKinds name lhs.kind rhs.kind)

/- The kind of the exotic nodes. -/
def kind (r : ExoticRule) : ExoticKind :=
  r.lhs.kind

/- The same rule without document ids. -/
def plain (r : ExoticRule) : ExoticRule :=
  ⟨r.name, r.lhs.plain, r.rhs.plain, r.kind_eq, r.exoticIds_eq⟩

/- The matches of the left-hand side. -/
def findMatches
    (r : ExoticRule)
    (target : Graph) : Except GrammarError (List Morphism) :=
  r.lhs.findMatches target

end ExoticRule

------------------------------------------------------------
-- Checks
------------------------------------------------------------

namespace ExoticRule

/- A target of the match must still be a node of the graph. -/
def checkLive
    (r : ExoticRule)
    (target : Graph)
    (id : NodeId) : Except GrammarError Unit :=
  if id ∈ target.nodes then
    .ok ()
  else
    .error (.matchedNodeAbsent r.name id)

/-
  The targets of ordinary nodes, in the order of the nodes. All
  of them must be nodes of the graph, and distinct.
-/
def matchedTargets
    (r : ExoticRule)
    (m : Morphism)
    (target : Graph)
    (seen : List NodeId) :
    List NodeId → Except GrammarError (List NodeId)
  | [] => .ok seen
  | id :: rest =>
      match m.target? id with
      | none => .error (.badMatch r.name (.nodeUnmatched id))
      | some bound => do
          r.checkLive target bound
          if bound ∈ seen then
            .error (.badMatch r.name (.targetTwice bound))
          else
            matchedTargets r m target (seen ++ [bound]) rest

/-
  Every exotic node must be an entry of the match, and an
  anchor must have a target. Targets must be nodes of the graph
  and differ from the targets of ordinary nodes and from each
  other.
-/
def checkExotics
    (r : ExoticRule)
    (m : Morphism)
    (target : Graph)
    (matched context : List NodeId) :
    List NodeId → Except GrammarError Unit
  | [] => .ok ()
  | id :: rest =>
      if !m.contains id then
        .error (.badMatch r.name (.exoticMissing r.kind id))
      else
        match m.target? id, r.kind with
        | none, .anchor =>
            .error (.badMatch r.name (.anchorUnmatched id))
        | none, .wildcard =>
            checkExotics r m target matched context rest
        | some bound, kind => do
            r.checkLive target bound
            if bound ∈ matched then
              .error
                (.badMatch r.name
                  (.exoticOnMatched kind id bound))
            else if bound ∈ context then
              .error
                (.badMatch r.name (.exoticShared kind id bound))
            else
              checkExotics r m target matched (bound :: context)
                rest

/-
  The targets of the ordinary nodes of a match that fits the
  left-hand side and the graph. Ordinary nodes are checked
  before exotic ones.
-/
def checkMorphism
    (r : ExoticRule)
    (m : Morphism)
    (target : Graph) : Except GrammarError (List NodeId) := do
  let matched ← r.matchedTargets m target [] r.lhs.graph.nodeIds
  r.checkExotics m target matched [] r.lhs.exoticIds
  return matched

end ExoticRule

------------------------------------------------------------
-- Application
------------------------------------------------------------

namespace ExoticRule

/-
  The node of the graph that an end in the
  replacement stands for.
-/
def resolve
    (r : ExoticRule)
    (m : Morphism)
    (fresh : FreshIds)
    (id : NodeId) : Option NodeId :=
  if r.rhs.isExotic id then m.target? id else fresh[id]?

/-
  The edges that a rewrite adds. An unmatched wildcard takes
  its edges with it.
-/
def newEdges
    (r : ExoticRule)
    (m : Morphism)
    (fresh : FreshIds) : List Edge :=
  r.rhs.edges.filterMap fun edge =>
    match r.resolve m fresh edge.start,
      r.resolve m fresh edge.stop with
    | some start, some stop => some (edge.moved start stop)
    | _, _ => none

/-
  Put a copy of the replacement, under the ids drawn for it, in
  the place of the matched nodes. The first step that cannot be
  taken ends the rewrite where it stands.
-/
def replace
    (r : ExoticRule)
    (m : Morphism)
    (fresh : FreshIds)
    (matched : List NodeId)
    (target : Graph) : Graph × Except GrammarError Rewrite :=
  let widened :=
    target.addNodes (fresh.rename r.rhs.graph.nodes.nodes)
  match widened.addEdges (r.newEdges m fresh) with
  | (reached, some error) => (reached, .error error)
  | (joined, none) =>
      match joined.removeNodes matched with
      | (reached, some error) => (reached, .error error)
      | (result, none) => (result, .ok ⟨fresh.values, matched⟩)

/-
  Rewrite at a match. The match is checked before any id is
  drawn, and ids are drawn before the graph changes.
-/
def apply
    {σ : Type}
    (r : ExoticRule)
    (source : IdSource σ)
    (m : Morphism)
    (target : Graph)
    (supply : σ) : Outcome σ :=
  match r.checkMorphism m target with
  | .error error => ⟨target, supply, .error error⟩
  | .ok matched =>
      match drawIds r.name target source ∅ r.rhs.graph.nodeIds
        supply with
      | (.error error, supply) => ⟨target, supply, .error error⟩
      | (.ok fresh, supply) =>
          let (graph, result) :=
            r.replace m fresh matched target
          ⟨graph, supply, result⟩

end ExoticRule

end GraphRewriting
