import GraphRewriting.Digraph.Basic

/-
  This file defines what a node of a pattern asks of its image
  while the pattern is placed in a target: the signature of the
  node, and its ties to the nodes placed before.

  Edges with an end outside their graph count in degrees, and
  tie no nodes.

  Key definitions include:
    * `Signature`
    * `Graph.signature`
    * `Graph.neighbours`
    * `Tie` and `Ties`
    * `Graph.ties`
    * `Profile`
    * `Graph.profile`
    * `Graph.groupBySymbol`

  Main statements:
    * `Graph.mem_neighbours`
    * `Graph.getD_groupBySymbol`
-/

namespace GraphRewriting

------------------------------------------------------------
-- Signatures
------------------------------------------------------------

/-
  The symbols of a node and of the edge from it to
  itself, and its degrees.
-/
structure Signature where
  symbol : Option String
  loop : Option String
  inDegree : Nat
  outDegree : Nat
  deriving DecidableEq

/-
  An image has the same symbols, and degrees
  that are admitted.
-/
def Signature.Admits
    (admits : Nat → Nat → Bool)
    (s t : Signature) : Prop :=
  s.symbol = t.symbol ∧
    s.loop = t.loop ∧
    admits s.inDegree t.inDegree = true ∧
    admits s.outDegree t.outDegree = true

instance
    (admits : Nat → Nat → Bool)
    (s t : Signature) :
    Decidable (s.Admits admits t) := by
  unfold Signature.Admits
  infer_instance

/- The signature of a node. -/
def Graph.signature
    (g : Graph)
    (id : NodeId) : Signature where
  symbol := g.symbol? id
  loop := g.edgeSymbol? id id
  inDegree := g.inDegree id
  outDegree := g.outDegree id

------------------------------------------------------------
-- Ties
------------------------------------------------------------

/-
  The symbols of the edges between two nodes,
  in either direction.
-/
abbrev Tie :=
  Option String × Option String

/- The ties of a node to named nodes. -/
abbrev Ties :=
  Std.ExtTreeMap NodeId Tie

instance : DecidableEq Ties :=
  inferInstanceAs (DecidableEq (Std.ExtTreeMap NodeId Tie))

namespace Graph

/-
  The nodes at the other end of the edges at
  a node, each once.
-/
def neighbours
    (g : Graph)
    (id : NodeId) : List NodeId :=
  let others :=
    (g.predecessors id).filter fun other =>
      !g.edges.contains id other
  (g.successors id ++ others).filter fun other =>
    g.nodes.contains other

/-
  The symbols of the edges from one node to another and
  back, if there are any.
-/
def tie?
    (g : Graph)
    (a b : NodeId) : Option Tie :=
  match g.edgeSymbol? a b, g.edgeSymbol? b a with
  | none, none => none
  | there, back => some (there, back)

/-
  The ties of a node to the nodes that have a name, by name.
  They are read off the neighbours of the node or off the nodes
  with a name, whichever are fewer.
-/
def ties
    (g : Graph)
    (names : Std.ExtTreeMap NodeId NodeId)
    (id : NodeId) : Ties :=
  let others :=
    if names.size < g.inDegree id + g.outDegree id then
      names.keys
    else
      g.neighbours id
  .ofList (others.filterMap fun other => do
    let name ← names[other]?
    let tie ← g.tie? id other
    return (name, tie))

end Graph

------------------------------------------------------------
-- Profiles
------------------------------------------------------------

/- The signature of a node, with its ties to named nodes. -/
structure Profile where
  signature : Signature
  ties : Ties
  deriving DecidableEq

namespace Graph

/- The profile of a node while some nodes have a name. -/
def profile
    (g : Graph)
    (names : Std.ExtTreeMap NodeId NodeId)
    (id : NodeId) : Profile :=
  ⟨g.signature id, g.ties names id⟩

/- Nodes by their symbol, in the given order. -/
def groupBySymbol
    (g : Graph)
    (ids : List NodeId) :
      Std.ExtTreeMap (Option String) (List NodeId) :=
  ids.foldr
    (fun id groups =>
      groups.insert (g.symbol? id)
        (id :: groups.getD (g.symbol? id) []))
    ∅

end Graph

------------------------------------------------------------
-- Membership
------------------------------------------------------------

namespace Graph

/- An edge leads to each successor. -/
theorem mem_successors
    {g : Graph}
    {a b : NodeId} :
    b ∈ g.successors a ↔ (g.edges.get? a b).isSome = true := by
  unfold successors
  rw [List.mem_map, Option.isSome_iff_exists]
  constructor
  · rintro ⟨edge, hMem, rfl⟩
    rcases EdgeStore.mem_outgoing.1 hMem with ⟨hList, rfl⟩
    exact ⟨edge.toEdgeInfo, EdgeStore.mem_toList.1 hList⟩
  · rintro ⟨info, hInfo⟩
    exact
      ⟨⟨info, a, b⟩,
        EdgeStore.mem_outgoing.2
          ⟨EdgeStore.mem_toList.2 hInfo, rfl⟩,
        rfl⟩

/- An edge leads from each predecessor. -/
theorem mem_predecessors
    {g : Graph}
    {a b : NodeId} :
    b ∈ g.predecessors a ↔
      (g.edges.get? b a).isSome = true := by
  unfold predecessors
  rw [List.mem_map, Option.isSome_iff_exists]
  constructor
  · rintro ⟨edge, hMem, rfl⟩
    rcases EdgeStore.mem_incoming.1 hMem with ⟨hList, rfl⟩
    exact ⟨edge.toEdgeInfo, EdgeStore.mem_toList.1 hList⟩
  · rintro ⟨info, hInfo⟩
    exact
      ⟨⟨info, b, a⟩,
        EdgeStore.mem_incoming.2
          ⟨EdgeStore.mem_toList.2 hInfo, rfl⟩,
        rfl⟩

/- Neighbours are the nodes with an edge in some direction. -/
theorem mem_neighbours
    {g : Graph}
    {a b : NodeId} :
    b ∈ g.neighbours a ↔
      b ∈ g.nodes ∧ (g.tie? a b).isSome = true := by
  unfold neighbours tie? edgeSymbol?
  rw [List.mem_filter, Std.ExtTreeMap.contains_iff_mem,
    and_comm, List.mem_append, List.mem_filter, mem_successors,
    mem_predecessors]
  apply and_congr_right
  intro _
  unfold EdgeStore.contains
  cases g.edges.get? a b <;> cases g.edges.get? b a <;> simp

/- The group of a symbol holds the nodes with that symbol. -/
theorem getD_groupBySymbol
    (g : Graph)
    (ids : List NodeId)
    (symbol : Option String) :
    (g.groupBySymbol ids).getD symbol [] =
      ids.filter fun id => g.symbol? id == symbol := by
  unfold groupBySymbol
  induction ids with
  | nil => simp
  | cons id ids ih =>
      rw [List.foldr_cons, List.filter_cons, ← ih,
        Std.ExtTreeMap.getD_insert]
      simp only [Std.compare_eq_iff_eq]
      by_cases hEq : g.symbol? id = symbol
      · simp [hEq]
      · simp [hEq]

end Graph

end GraphRewriting
