import GraphRewriting.Exotic.Basic
import GraphRewriting.Matching.Arrangement
import GraphRewriting.Matching.Embedding
import GraphRewriting.Matching.Morphism
import GraphRewriting.Matching.Slot

/-
  This file defines the matches of an exotic graph in a target
  graph.

  A match embeds the ordinary nodes and binds the exotic
  neighbours on each side of an ordinary node to neighbours of
  its image outside the embedding. Around an ordinary node
  every target neighbour is bound: for anchors the degrees
  agree, for wildcards the target degree is no larger, and the
  wildcards to spare stay unmatched.

  Matches are not listed for a pattern that can be embedded and
  whose ordinary nodes are as many as `unlistedSize`.

  Key definitions include:
    * `Side`
    * `ExoticGraph.sides`
    * `ExoticGraph.slot`
    * `ExoticGraph.morphism?`
    * `ExoticGraph.matchList`
    * `ExoticGraph.findMatches`
-/

namespace GraphRewriting

------------------------------------------------------------
-- Sides
------------------------------------------------------------

/-
  The sides of a node: where edges come from,
  and where they go.
-/
inductive Direction where
  | incoming
  | outgoing
  deriving DecidableEq

/- The neighbours on one side of a node. -/
def Graph.beside
    (g : Graph)
    (direction : Direction)
    (id : NodeId) : List NodeId :=
  match direction with
  | .incoming => g.predecessors id
  | .outgoing => g.successors id

/- One side of an ordinary node, with the exotic nodes there. -/
structure Side where
  node : NodeId
  direction : Direction
  exotics : List NodeId

namespace ExoticGraph

/-
  The sides of ordinary nodes on which there are exotic nodes.
-/
def sides (p : ExoticGraph) : List Side :=
  p.graph.nodeIds.flatMap fun node =>
    [Direction.incoming, Direction.outgoing].filterMap
      fun direction =>
        let exotics :=
          (p.graph.beside direction node).filter p.isExotic
        if exotics.isEmpty then
          none
        else
          some ⟨node, direction, exotics⟩

/-
  What `wanted` exotic neighbours can be bound to: the
  candidates and, where wildcards outnumber them, no target.
-/
def pool
    (p : ExoticGraph)
    (candidates : List NodeId)
    (wanted : Nat) : List (Option NodeId) :=
  match p.kind with
  | .anchor => candidates.map some
  | .wildcard =>
      candidates.map some ++
        List.replicate (wanted - candidates.length) none

/-
  The slot of one side: its exotic nodes are bound to the nodes
  on that side of the image which are no images themselves.
-/
def slot
    (p : ExoticGraph)
    (target : Graph)
    (e : Embedding)
    (side : Side) : Slot :=
  let beside :=
    e.images[side.node]?.elim [] (target.beside side.direction)
  let candidates := beside.filter fun id => !e.isImage id
  let wanted := side.exotics.length
  ⟨side.exotics, arrangements (p.pool candidates wanted) wanted⟩

end ExoticGraph

------------------------------------------------------------
-- Matches
------------------------------------------------------------

namespace ExoticGraph

/-
  The entry of an exotic node. A node that no slot speaks of is
  unmatched if it is a wildcard, and spoils the match if it is
  an anchor.
-/
def exoticEntry?
    (p : ExoticGraph)
    (b : Bindings)
    (exotic : NodeId) : Option (NodeId × Option NodeId) :=
  match b.targets[exotic]?, p.kind with
  | some target, _ => some (exotic, target)
  | none, .wildcard => some (exotic, none)
  | none, .anchor => none

/-
  The morphism that an embedding and the bindings of exotic
  nodes make, unless an anchor is left out.
-/
def morphism?
    (p : ExoticGraph)
    (e : Embedding)
    (b : Bindings) : Option Morphism := do
  let exotics ← p.exoticIds.mapM (p.exoticEntry? b)
  return Morphism.ofList (e.entries ++ exotics)

/-
  The matches that extend an embedding, given the
  sides of the pattern.
-/
def matchesAt
    (p : ExoticGraph)
    (target : Graph)
    (sides : List Side)
    (e : Embedding) : List Morphism :=
  (Bindings.empty.extensions
      (sides.map (p.slot target e))).filterMap
    (p.morphism? e)

/- All matches. Without ordinary nodes there is none. -/
def matchList
    (p : ExoticGraph)
    (target : Graph) : List Morphism :=
  let admits := fun wanted found =>
    decide (p.kind.AdmitsDegree wanted found)
  (p.graph.embeddings target admits).flatMap
    (p.matchesAt target p.sides)

end ExoticGraph

------------------------------------------------------------
-- Listing
------------------------------------------------------------

/-
  The number of ordinary nodes at which matches are not listed.
  The library that finds the embeddings gives them out one by
  one, and is asked for a hint of how many are left when the
  first one is there to be put into a list. The hint is the
  factorial of the number of nodes, from a table of those that
  fit into 64 bits, 0! to 20!. Only for more than 21 nodes is
  the table left alone, so that the hint for 21 nodes reads
  behind its end and the program fails.
-/
def unlistedSize : Nat :=
  21

namespace ExoticGraph

/-
  A pattern of the unlisted size that can be embedded,
  in whatever degrees.
-/
def IsUnlisted
    (p : ExoticGraph)
    (target : Graph) : Prop :=
  p.graph.nodes.size = unlistedSize ∧
    p.graph.embeds target = true

instance
    (p : ExoticGraph)
    (target : Graph) :
    Decidable (p.IsUnlisted target) := by
  unfold IsUnlisted
  infer_instance

/- The list of all matches, where matches are listed. -/
def findMatches
    (p : ExoticGraph)
    (target : Graph) : Except GrammarError (List Morphism) :=
  if p.IsUnlisted target then
    .error (.matchesUnlisted p.graph.nodes.size)
  else
    .ok (p.matchList target)

end ExoticGraph

end GraphRewriting
