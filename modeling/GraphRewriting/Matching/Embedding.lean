import GraphRewriting.Matching.Plan

/-
  This file defines the embeddings of a pattern graph into a
  target graph: injective maps of the pattern nodes that keep
  the symbols of nodes, and that make an edge of the target run
  between two images exactly where an edge of the pattern runs
  between the nodes, with the same symbol. Edges with an end
  outside their graph count in degrees only.

  Pattern nodes are placed one by one, each on a free target
  node that fits its profile. A node is not placed where too
  few free neighbours fit the neighbours that are left, and on
  no target node on which none can be placed first.

  Key definitions include:
    * `Embedding`
    * `Search`
    * `Search.Fits`
    * `Search.hasRoom`
    * `Search.place?`
    * `Search.between`
    * `Search.embeddingsFrom`
    * `Graph.embeddings`
    * `Graph.embeds`

  Main statements:
    * `Graph.embeds_eq_true`
-/

namespace GraphRewriting

------------------------------------------------------------
-- Embeddings
------------------------------------------------------------

/-
  The images of some pattern nodes, and the owners of these
  images.
-/
structure Embedding where
  images : Std.ExtTreeMap NodeId NodeId
  owners : Std.ExtTreeMap NodeId NodeId

namespace Embedding

/- The embedding of no node. -/
def empty : Embedding :=
  ⟨∅, ∅⟩

/- Place one more node. -/
def put
    (e : Embedding)
    (node image : NodeId) : Embedding :=
  ⟨e.images.insert node image, e.owners.insert image node⟩

/- Whether a target node is an image. -/
def isImage
    (e : Embedding)
    (id : NodeId) : Bool :=
  e.owners.contains id

/- An embedding as entries of a morphism. -/
def entries (e : Embedding) : List (NodeId × Option NodeId) :=
  e.images.toList.map fun (node, image) => (node, some image)

end Embedding

------------------------------------------------------------
-- Searches
------------------------------------------------------------

/-
  A target to embed into, with the degrees that an image may
  have for each degree of a pattern node, and the target nodes
  that may be images, all together and by symbol.
-/
structure Search where
  target : Graph
  admits : Nat → Nat → Bool
  eligible : Std.ExtTreeSet NodeId
  eligibleBySymbol :
    Std.ExtTreeMap (Option String) (List NodeId)

namespace Search

/- The search for embeddings on some of the target nodes. -/
def among
    (target : Graph)
    (admits : Nat → Nat → Bool)
    (ids : List NodeId) : Search where
  target := target
  admits := admits
  eligible := .ofList ids
  eligibleBySymbol := target.groupBySymbol ids

/-
  A target node fits a profile: its signature is admitted, and
  it is tied to the images as the profile demands.
-/
def Fits
    (s : Search)
    (e : Embedding)
    (profile : Profile)
    (id : NodeId) : Prop :=
  profile.signature.Admits s.admits (s.target.signature id) ∧
    s.target.ties e.owners id = profile.ties

instance
    (s : Search)
    (e : Embedding)
    (profile : Profile)
    (id : NodeId) :
    Decidable (s.Fits e profile id) := by
  unfold Fits
  infer_instance

/-
  Among some target nodes there are as many that fit each
  profile as there are nodes to place of that profile.
-/
def hasRoom
    (s : Search)
    (e : Embedding)
    (left : List (Profile × Nat))
    (free : List NodeId) : Bool :=
  let groups := s.target.groupBySymbol free
  left.all fun (profile, count) =>
    let group := groups.getD profile.signature.symbol []
    count ≤ group.countP fun id => s.Fits e profile id

/-
  The free neighbours of an image have room for
  those left to a step.
-/
def hasRoomAround
    (s : Search)
    (e : Embedding)
    (step : Step)
    (image : NodeId) : Bool :=
  step.left.isEmpty ||
    s.hasRoom e step.left
      ((s.target.neighbours image).filter fun id =>
        s.eligible.contains id && !e.isImage id)

/-
  Take a step on a free eligible node that fits, if there
  is room around it.
-/
def place?
    (s : Search)
    (e : Embedding)
    (step : Step)
    (image : NodeId) : Option Embedding :=
  if
    image ∈ s.eligible ∧ e.isImage image = false ∧
      s.Fits e step.profile image
  then
    let next := e.put step.node image
    if s.hasRoomAround next step image then some next else none
  else
    none

/-
  The target nodes on which a step can be taken at most: the
  eligible ones of the same symbol, or the neighbours of an
  image that the node is tied to, whichever are fewer.
-/
def places
    (s : Search)
    (e : Embedding)
    (step : Step) : List NodeId :=
  let degree := fun id =>
    s.target.inDegree id + s.target.outDegree id
  let alike :=
    s.eligibleBySymbol.getD step.profile.signature.symbol []
  let images :=
    step.profile.ties.keys.filterMap fun node => e.images[node]?
  match images.minOn? degree with
  | none => alike
  | some image =>
      if degree image < alike.length then
        s.target.neighbours image
      else
        alike

/-
  The search for embeddings on those of the target nodes on
  which some step can be taken first.
-/
def between
    (pattern target : Graph)
    (admits : Nat → Nat → Bool) : Search :=
  let s := among target admits target.nodeIds
  let steps := pattern.firstSteps
  among target admits <| target.nodeIds.filter fun id =>
    (steps.getD (target.symbol? id) []).any fun step =>
      (s.place? .empty step id).isSome

/-
  The pattern has no more edges between nodes than the target,
  there is room for its nodes, and each can be placed first.
-/
def canStart
    (s : Search)
    (pattern : Graph) : Bool :=
  pattern.innerEdges.length ≤ s.target.innerEdges.length &&
    s.hasRoom .empty (pattern.tally ∅ pattern.nodeIds)
      s.eligible.toList &&
    pattern.nodeIds.all fun node =>
      let step := pattern.step ∅ node
      (s.places .empty step).any fun image =>
        (s.place? .empty step image).isSome

/- All ways to take further steps. -/
def embeddingsFrom
    (s : Search)
    (e : Embedding) : List Step → List Embedding
  | [] => [e]
  | step :: rest =>
      (s.places e step).flatMap fun image =>
        match s.place? e step image with
        | none => []
        | some next => s.embeddingsFrom next rest

/- Whether there is a way to take further steps. -/
def succeedsFrom
    (s : Search)
    (e : Embedding) : List Step → Bool
  | [] => true
  | step :: rest =>
      (s.places e step).any fun image =>
        match s.place? e step image with
        | none => false
        | some next => s.succeedsFrom next rest

end Search

namespace Graph

/-
  The embeddings of a pattern on images of admitted degrees. A
  pattern without nodes has none.
-/
def embeddings
    (pattern target : Graph)
    (admits : Nat → Nat → Bool) : List Embedding :=
  let s := Search.between pattern target admits
  if !pattern.nodes.isEmpty && s.canStart pattern then
    s.embeddingsFrom .empty pattern.plan
  else
    []

/-
  Whether a pattern with nodes has an embedding, on
  images of any degrees.
-/
def embeds (pattern target : Graph) : Bool :=
  let s := Search.between pattern target fun _ _ => true
  !pattern.nodes.isEmpty && s.canStart pattern &&
    s.succeedsFrom .empty pattern.plan

end Graph

------------------------------------------------------------
-- Existence
------------------------------------------------------------

/-
  The test stops at the first embedding, and
  fails if there is none.
-/
private theorem Search.succeedsFrom_eq_true
    {s : Search}
    {e : Embedding}
    {steps : List Step} :
    s.succeedsFrom e steps = true ↔
      s.embeddingsFrom e steps ≠ [] := by
  induction steps generalizing e with
  | nil => simp [succeedsFrom, embeddingsFrom]
  | cons step rest ih =>
      unfold succeedsFrom embeddingsFrom
      rw [List.any_eq_true, ne_eq, List.flatMap_eq_nil_iff,
        Classical.not_forall]
      apply exists_congr
      intro image
      rw [Classical.not_imp]
      apply and_congr_right
      intro _
      split
      · simp
      · exact ih

/- A pattern embeds exactly if it has an embedding. -/
theorem Graph.embeds_eq_true
    {pattern target : Graph} :
    pattern.embeds target = true ↔
      pattern.embeddings target (fun _ _ => true) ≠ [] := by
  unfold embeds embeddings
  rw [Bool.and_eq_true, Search.succeedsFrom_eq_true]
  dsimp only
  split
  · rename_i h
    exact and_iff_right h
  · rename_i h
    exact
      ⟨fun hBoth => absurd hBoth.1 h, fun hNe => absurd rfl hNe⟩

end GraphRewriting
