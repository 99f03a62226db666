import GraphRewriting.Matching.Placement
import GraphRewriting.Matching.Profile

/-
  This file defines the plan by which a pattern is placed in a
  target: one step per node, with the profile of the node among
  the nodes placed before it, and the profiles that its
  neighbours have once it is placed.

  In a plan the nodes of the pattern go by their own names.

  Key definitions include:
    * `Graph.tally`
    * `Step`
    * `Graph.step`
    * `Graph.plan`
    * `Graph.firstSteps`
-/

namespace GraphRewriting

------------------------------------------------------------
-- Tallies
------------------------------------------------------------

/-
  The profiles of some nodes, each with the number of
  nodes that have it.
-/
def Graph.tally
    (g : Graph)
    (placed : Std.ExtTreeMap NodeId NodeId)
    (ids : List NodeId) : List (Profile × Nat) :=
  (g.groupBySymbol ids).values.flatMap fun group =>
    let profiles := group.map (g.profile placed)
    profiles.eraseDups.map fun profile =>
      (profile, profiles.count profile)

------------------------------------------------------------
-- Steps
------------------------------------------------------------

/-
  The placement of a node: its profile before, and the tally of
  its neighbours that are left to be placed after it.
-/
structure Step where
  node : NodeId
  profile : Profile
  left : List (Profile × Nat)

namespace Graph

/- The placement of a node after some others. -/
def step
    (g : Graph)
    (placed : Std.ExtTreeMap NodeId NodeId)
    (node : NodeId) : Step :=
  let after := placed.insert node node
  { node := node
    profile := g.profile placed node
    left :=
      g.tally after
        ((g.neighbours node).filter
          fun other => !after.contains other) }

/- The placements of further nodes, one after the other. -/
def stepsFrom
    (g : Graph)
    (placed : Std.ExtTreeMap NodeId NodeId) :
      List NodeId → List Step
  | [] => []
  | node :: rest =>
      g.step placed node ::
        g.stepsFrom (placed.insert node node) rest

/- The placements of all nodes, in the order of placement. -/
def plan (g : Graph) : List Step :=
  g.stepsFrom ∅ g.placementOrder

/- The placements of single nodes, by symbol. -/
def firstSteps
    (g : Graph) : Std.ExtTreeMap (Option String) (List Step) :=
  (g.groupBySymbol g.nodeIds).map fun _ ids =>
    ids.map (g.step ∅)

end Graph

end GraphRewriting
