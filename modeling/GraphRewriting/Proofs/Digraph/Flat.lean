import GraphRewriting.Proofs.Digraph.Ascending
import GraphRewriting.Proofs.FiniteMap

/-
  Graphs as two finite maps, from ids to labels and from ends
  to what edges carry. A graph and these maps stay alike under
  every change, and alike they tell the same: each index of the
  graph is the map of edges row by row, and all lists, degrees
  and counts are read off it.

  Main declarations:
    * `FlatGraph`
    * `Graph.Change`
    * `Graph.Shows`
    * `Graph.Shows.perform`
    * `Graph.Mirrors`
    * `Graph.Shows.mirrors`
    * `Graph.mirrors_after`
-/

------------------------------------------------------------
-- Flat Graphs
------------------------------------------------------------

namespace GraphRewriting

/- Nodes by id and edges by ends, in one finite map each. -/
structure FlatGraph where
  nodes : Std.ExtTreeMap NodeId Labels
  edges : Std.ExtTreeMap EdgeEnds EdgeInfo

namespace FlatGraph

/- No nodes and no edges. -/
def empty : FlatGraph :=
  ⟨∅, ∅⟩

/- All edges, by ascending ends. -/
def edgeList (f : FlatGraph) : List Edge :=
  f.edges.toList.map fun (ends, info) =>
    ⟨info, ends.start, ends.stop⟩

/- The edges that neither start nor end at a node. -/
def edgesWithout
    (f : FlatGraph)
    (id : NodeId) : Std.ExtTreeMap EdgeEnds EdgeInfo :=
  f.edges.filter fun ends _ =>
    ends.start != id && ends.stop != id

/-
  Add a node, in place of the one under its id and
  of all edges there.
-/
def addNode
    (f : FlatGraph)
    (node : Node) : FlatGraph where
  nodes := f.nodes.insert node.id node.labels
  edges :=
    if node.id ∈ f.nodes then
      f.edgesWithout node.id
    else
      f.edges

/- Remove a node and all edges there. -/
def removeNode
    (f : FlatGraph)
    (id : NodeId) : Except GrammarError FlatGraph :=
  if id ∈ f.nodes then
    .ok ⟨f.nodes.erase id, f.edgesWithout id⟩
  else
    .error (.nodeAbsent id)

/- Store an edge, wherever it starts and ends. -/
def putEdge
    (f : FlatGraph)
    (edge : Edge) : FlatGraph :=
  ⟨f.nodes, f.edges.insert edge.ends edge.toEdgeInfo⟩

/- Store an edge between two nodes. -/
def addEdge
    (f : FlatGraph)
    (edge : Edge) : Except GrammarError FlatGraph :=
  if edge.start ∉ f.nodes then
    .error (.endAbsent edge.start edge.start edge.stop)
  else if edge.stop ∉ f.nodes then
    .error (.endAbsent edge.stop edge.start edge.stop)
  else
    .ok (f.putEdge edge)

/- Remove the edge with some ends. -/
def removeEdge
    (f : FlatGraph)
    (start stop : NodeId) : Except GrammarError FlatGraph :=
  if ⟨start, stop⟩ ∈ f.edges then
    .ok ⟨f.nodes, f.edges.erase ⟨start, stop⟩⟩
  else
    .error (.edgeAbsent start stop)

end FlatGraph

end GraphRewriting

------------------------------------------------------------
-- Changes
------------------------------------------------------------

namespace GraphRewriting

/- Something that can be done to a graph. -/
inductive Graph.Change where
  | addNode (node : Node)
  | removeNode (id : NodeId)
  | removeNodes (ids : List NodeId)
  | addEdge (edge : Edge)
  | putEdge (edge : Edge)
  | addEdges (edges : List Edge)
  | removeEdge (start stop : NodeId)

/- The change looks at the ends of the edges that it stores. -/
def Graph.Change.IsChecked : Change → Prop
  | .putEdge _ => False
  | _ => True

instance
    (change : Graph.Change) : Decidable change.IsChecked := by
  cases change <;>
    unfold Graph.Change.IsChecked <;>
    infer_instance

namespace Graph

/- Make a change, with the error that ends it. -/
def perform
    (g : Graph) :
    Change → Graph × Option GrammarError
  | .addNode node => (g.addNode node, none)
  | .removeNode id => settle g (g.removeNode id)
  | .removeNodes ids => g.removeNodes ids
  | .addEdge edge => settle g (g.addEdge edge)
  | .putEdge edge => (g.putEdge edge, none)
  | .addEdges edges => g.addEdges edges
  | .removeEdge start stop => settle g (g.removeEdge start stop)

/- The graph after some changes. -/
def after
    (g : Graph)
    (changes : List Change) : Graph :=
  changes.foldl (fun g change => (g.perform change).1) g

/- The errors of some changes, one after the other. -/
def errors
    (g : Graph) :
    List Change → List (Option GrammarError)
  | [] => []
  | change :: changes =>
      (g.perform change).2 ::
        (g.perform change).1.errors changes

end Graph

namespace FlatGraph

/- Make a change, with the error that ends it. -/
def perform
    (f : FlatGraph) :
    Graph.Change → FlatGraph × Option GrammarError
  | .addNode node => (f.addNode node, none)
  | .removeNode id => settle f (f.removeNode id)
  | .removeNodes ids => advance removeNode f ids
  | .addEdge edge => settle f (f.addEdge edge)
  | .putEdge edge => (f.putEdge edge, none)
  | .addEdges edges => advance addEdge f edges
  | .removeEdge start stop => settle f (f.removeEdge start stop)

/- The flat graph after some changes. -/
def after
    (f : FlatGraph)
    (changes : List Graph.Change) : FlatGraph :=
  changes.foldl (fun f change => (f.perform change).1) f

/- The errors of some changes, one after the other. -/
def errors
    (f : FlatGraph) :
    List Graph.Change → List (Option GrammarError)
  | [] => []
  | change :: changes =>
      (f.perform change).2 ::
        (f.perform change).1.errors changes

end FlatGraph

end GraphRewriting

------------------------------------------------------------
-- Steps
------------------------------------------------------------

namespace GraphRewriting

/- A graph and a flat graph have the same nodes and edges. -/
structure Graph.Shows
    (g : Graph)
    (f : FlatGraph) : Prop where
  nodes : g.nodes = f.nodes
  edges :
    ∀ a b : NodeId,
      g.edges.get? a b = f.edges[(⟨a, b⟩ : EdgeEnds)]?

/-
  Two steps fail with the same error, or lead to the
  same nodes and edges.
-/
inductive Graph.StepsShow :
    Except GrammarError Graph → Except GrammarError FlatGraph →
      Prop where
  | ok
      {g : Graph}
      {f : FlatGraph}
      (h : g.Shows f) :
      StepsShow (.ok g) (.ok f)
  | error
      (error : GrammarError) :
      StepsShow (.error error) (.error error)

/- What is left are the edges that do not touch the node. -/
theorem FlatGraph.getElem?_edgesWithout
    (f : FlatGraph)
    (id : NodeId)
    (ends : EdgeEnds) :
    (f.edgesWithout id)[ends]? =
      if ends.start = id ∨ ends.stop = id then
        none
      else
        f.edges[ends]? := by
  have hKept :
      (ends.start != id && ends.stop != id) = true ↔
        ¬ (ends.start = id ∨ ends.stop = id) := by
    rw [Bool.and_eq_true, bne_iff_ne, bne_iff_ne, not_or]
  unfold edgesWithout
  rw [Std.ExtTreeMap.getElem?_filter']
  cases f.edges[ends]? with
  | none => exact (ite_self none).symm
  | some info =>
      by_cases hTouches : ends.start = id ∨ ends.stop = id
      · rw [if_pos hTouches]
        exact Option.filter_some_neg
          (Bool.eq_false_iff.2 fun h => hKept.1 h hTouches)
      · rw [if_neg hTouches]
        exact Option.filter_some_pos (hKept.2 hTouches)

namespace Graph

variable {g : Graph}
variable {f : FlatGraph}

/- The empty graph is shown by empty maps. -/
theorem shows_empty : (∅ : Graph).Shows .empty where
  nodes := rfl
  edges a b := by
    have hNone :
        (FlatGraph.empty.edges)[(⟨a, b⟩ : EdgeEnds)]? = none :=
      Std.ExtTreeMap.getElem?_empty
    rw [hNone]
    exact EdgeStore.get?_empty a b

namespace Shows

/- Both add the node and drop the edges at its id. -/
theorem addNode
    (h : g.Shows f)
    (node : Node) :
    (g.addNode node).Shows (f.addNode node) where
  nodes :=
    congrArg (fun nodes => nodes.insert node.id node.labels)
      h.nodes
  edges a b := by
    rw [get?_edges_addNode, h.nodes, h.edges]
    unfold FlatGraph.addNode
    by_cases hMem : node.id ∈ f.nodes
    · simp only [hMem, if_true, true_and]
      rw [FlatGraph.getElem?_edgesWithout]
    · simp only [hMem, if_false, false_and]

/- Both remove the node, or fail with the same error. -/
theorem removeNode
    (h : g.Shows f)
    (id : NodeId) :
    StepsShow (g.removeNode id) (f.removeNode id) := by
  unfold Graph.removeNode FlatGraph.removeNode
  rw [h.nodes]
  split
  · refine .ok ⟨rfl, ?_⟩
    intro a b
    rw [EdgeStore.get?_detach, FlatGraph.getElem?_edgesWithout,
      h.edges]
  · exact .error _

/- Both put the edge in without a look at its ends. -/
theorem putEdge
    (h : g.Shows f)
    (edge : Edge) :
    (g.putEdge edge).Shows (f.putEdge edge) where
  nodes := h.nodes
  edges a b := by
    rw [get?_edges_putEdge, h.edges]
    unfold FlatGraph.putEdge
    rw [Std.ExtTreeMap.getElem?_insert]
    simp only [Std.compare_eq_iff_eq, Edge.ends,
      EdgeEnds.mk.injEq]

/- Both check the ends in the same order. -/
theorem addEdge
    (h : g.Shows f)
    (edge : Edge) :
    StepsShow (g.addEdge edge) (f.addEdge edge) := by
  unfold Graph.addEdge FlatGraph.addEdge
  rw [h.nodes]
  split
  · exact .error _
  · split
    · exact .error _
    · exact .ok (h.putEdge edge)

/- Both remove the edge, or fail with the same error. -/
theorem removeEdge
    (h : g.Shows f)
    (start stop : NodeId) :
    StepsShow (g.removeEdge start stop)
      (f.removeEdge start stop) := by
  have hContains :
      g.edges.contains start stop = true ↔
        (⟨start, stop⟩ : EdgeEnds) ∈ f.edges := by
    unfold EdgeStore.contains
    rw [h.edges, Std.ExtTreeMap.mem_iff_isSome_getElem?]
  unfold Graph.removeEdge FlatGraph.removeEdge
  simp only [hContains]
  split
  · refine .ok ⟨h.nodes, ?_⟩
    intro a b
    rw [EdgeStore.get?_erase, Std.ExtTreeMap.getElem?_erase,
      h.edges]
    simp only [Std.compare_eq_iff_eq, EdgeEnds.mk.injEq]
  · exact .error _

/-
  A step that is taken, or not, leads to what the
  flat step leads to.
-/
theorem settle
    (h : g.Shows f)
    {next : Except GrammarError Graph}
    {flatNext : Except GrammarError FlatGraph}
    (hNext : StepsShow next flatNext) :
    (GraphRewriting.settle g next).1.Shows
      (GraphRewriting.settle f flatNext).1 ∧
      (GraphRewriting.settle g next).2 =
        (GraphRewriting.settle f flatNext).2 := by
  cases hNext with
  | ok hNext => exact ⟨hNext, rfl⟩
  | error error => exact ⟨h, rfl⟩

/- Runs of steps stop at the same item, with the same error. -/
theorem advance
    {α : Type}
    {step : Graph → α → Except GrammarError Graph}
    {flatStep : FlatGraph → α → Except GrammarError FlatGraph}
    (hStep :
      ∀ {g : Graph} {f : FlatGraph},
        g.Shows f →
          ∀ item : α, StepsShow (step g item) (flatStep f item))
    (h : g.Shows f)
    (items : List α) :
    (GraphRewriting.advance step g items).1.Shows
        (GraphRewriting.advance flatStep f items).1 ∧
      (GraphRewriting.advance step g items).2 =
        (GraphRewriting.advance flatStep f items).2 := by
  induction items generalizing g f with
  | nil => exact ⟨h, rfl⟩
  | cons item items ih =>
      unfold GraphRewriting.advance
      have hItem := hStep h item
      generalize step g item = next at hItem
      generalize flatStep f item = flatNext at hItem
      cases hItem with
      | ok hNext => exact ih hNext
      | error error => exact ⟨h, rfl⟩

/-
  A change keeps a graph and a flat graph alike, and fails
  on both or on none.
-/
theorem perform
    (h : g.Shows f)
    (change : Change) :
    (g.perform change).1.Shows (f.perform change).1 ∧
      (g.perform change).2 = (f.perform change).2 := by
  cases change with
  | addNode node => exact ⟨h.addNode node, rfl⟩
  | removeNode id => exact h.settle (h.removeNode id)
  | removeNodes ids => exact h.advance Shows.removeNode ids
  | addEdge edge => exact h.settle (h.addEdge edge)
  | putEdge edge => exact ⟨h.putEdge edge, rfl⟩
  | addEdges edges => exact h.advance Shows.addEdge edges
  | removeEdge start stop =>
      exact h.settle (h.removeEdge start stop)

/-
  A graph and its maps stay alike under all changes. The
  induction is on the changes.
-/
theorem after
    (h : g.Shows f)
    (changes : List Change) :
    (g.after changes).Shows (f.after changes) ∧
      g.errors changes = f.errors changes := by
  induction changes generalizing g f with
  | nil => exact ⟨h, rfl⟩
  | cons change changes ih =>
      rcases h.perform change with ⟨hNext, hError⟩
      rcases ih hNext with ⟨hAfter, hErrors⟩
      refine ⟨hAfter, ?_⟩
      unfold Graph.errors FlatGraph.errors
      rw [hError, hErrors]

end Shows

end Graph

end GraphRewriting

------------------------------------------------------------
-- Reading
------------------------------------------------------------

namespace GraphRewriting

/-
  A kept row is not empty, and holds the values at its pairs.
-/
theorem PairTable.getElem?_rows_eq_some_iff
    {α : Type}
    {t : PairTable α}
    {a : NodeId}
    {row : Std.ExtTreeMap NodeId α} :
    t.rows[a]? = some row ↔
      row ≠ ∅ ∧ ∀ b : NodeId, row[b]? = t.get? a b := by
  have hRow :
      (∀ b : NodeId, row[b]? = t.get? a b) ↔ t.row a = row := by
    constructor
    · intro h
      exact Std.ExtTreeMap.ext_getElem? fun b => (h b).symm
    · rintro rfl b
      rfl
  rw [hRow, getElem?_rows]
  by_cases hEmpty : (t.row a).isEmpty
  · rw [if_pos hEmpty]
    constructor
    · rintro ⟨⟩
    · rintro ⟨hNe, rfl⟩
      exact absurd (Std.ExtTreeMap.isEmpty_iff.1 hEmpty) hNe
  · rw [if_neg hEmpty, Option.some.injEq]
    constructor
    · rintro rfl
      exact
        ⟨fun h => hEmpty (Std.ExtTreeMap.isEmpty_iff.2 h), rfl⟩
    · exact And.right

theorem FlatGraph.edgeList_ascending
    (f : FlatGraph) :
    Ascending f.edgeList := by
  unfold Ascending edgeList
  rw [List.pairwise_map]
  exact f.edges.ordered_keys_toList

/- The edges listed are those found under their ends. -/
theorem FlatGraph.mem_edgeList
    {f : FlatGraph}
    {edge : Edge} :
    edge ∈ f.edgeList ↔
      f.edges[edge.ends]? = some edge.toEdgeInfo := by
  unfold edgeList
  rw [List.mem_map]
  constructor
  · rintro ⟨⟨ends, info⟩, hMem, rfl⟩
    exact Std.ExtTreeMap.mem_toList_iff_getElem?_eq_some.1 hMem
  · intro h
    exact ⟨(edge.ends, edge.toEdgeInfo),
      Std.ExtTreeMap.mem_toList_iff_getElem?_eq_some.2 h, rfl⟩

namespace Graph

/-
  What a graph tells is what two finite maps tell. A row of an
  index holds the edges that start, or end, at one node, and
  there is none for a node without such edges. The edges on a
  side of a node are listed once, by ascending other end.
-/
structure Mirrors
    (g : Graph)
    (f : FlatGraph) : Prop where
  nodes : g.nodes = f.nodes
  forward :
    ∀ (a : NodeId) (row : Std.ExtTreeMap NodeId EdgeInfo),
      g.edges.forward.rows[a]? = some row ↔
        row ≠ ∅ ∧
          ∀ b : NodeId, row[b]? = f.edges[(⟨a, b⟩ : EdgeEnds)]?
  backward :
    ∀ (b : NodeId) (row : Std.ExtTreeMap NodeId Unit),
      g.edges.backward.rows[b]? = some row ↔
        row ≠ ∅ ∧
          ∀ a : NodeId, a ∈ row ↔ (⟨a, b⟩ : EdgeEnds) ∈ f.edges
  edge :
    ∀ a b : NodeId,
      g.edge? a b =
        f.edges[(⟨a, b⟩ : EdgeEnds)]?.map fun info =>
          ⟨info, a, b⟩
  contains :
    ∀ a b : NodeId,
      g.edges.contains a b = f.edges.contains ⟨a, b⟩
  edges : g.edges.toList = f.edgeList
  count : g.edges.size = f.edges.size
  outgoing :
    ∀ id : NodeId,
      g.outgoing id =
        f.edgeList.filter (fun edge => edge.start == id) ∧
        (g.outgoing id).Pairwise fun first second =>
          compare first.stop second.stop = .lt
  incoming :
    ∀ id : NodeId,
      g.incoming id =
        f.edgeList.filter (fun edge => edge.stop == id) ∧
        (g.incoming id).Pairwise fun first second =>
          compare first.start second.start = .lt
  outDegree :
    ∀ id : NodeId,
      g.outDegree id =
        (f.edges.filter fun ends _ => ends.start == id).size
  inDegree :
    ∀ id : NodeId,
      g.inDegree id =
        (f.edges.filter fun ends _ => ends.stop == id).size

variable {g h : Graph}
variable {f k : FlatGraph}

/- Edges can be counted in the map as in the list. -/
theorem length_filter_edgeList
    (f : FlatGraph)
    (keep : EdgeEnds → Bool) :
    (f.edgeList.filter fun edge => keep edge.ends).length =
      (f.edges.filter fun ends _ => keep ends).size := by
  rw [← Std.ExtTreeMap.length_toList,
    Std.ExtTreeMap.toList_filter]
  unfold FlatGraph.edgeList
  rw [List.filter_map, List.length_map]
  rfl

/- A graph lists the edges of its maps, in the same order. -/
private theorem Shows.toList_edges
    (hf : g.Shows f) :
    g.edges.toList = f.edgeList := by
  apply
    g.edges.toList_ascending.eq_of_mem_iff f.edgeList_ascending
  intro edge
  rw [EdgeStore.mem_toList, hf.edges, FlatGraph.mem_edgeList]
  rfl

/- All that can be asked of a graph is answered by its maps. -/
theorem Shows.mirrors
    (hf : g.Shows f) :
    g.Mirrors f where
  nodes := hf.nodes
  forward a row := by
    rw [PairTable.getElem?_rows_eq_some_iff]
    simp only [← hf.edges]
    rfl
  backward b row := by
    rw [PairTable.getElem?_rows_eq_some_iff]
    refine and_congr_right fun _ => forall_congr' fun a => ?_
    have hPair :
        (g.edges.backward.get? b a).isSome = true ↔
          (⟨a, b⟩ : EdgeEnds) ∈ f.edges := by
      rw [g.edges.consistent,
        Std.ExtTreeMap.mem_iff_isSome_getElem?, ← hf.edges]
      rfl
    rw [← hPair, Std.ExtTreeMap.mem_iff_isSome_getElem?]
    cases row[a]? <;> cases g.edges.backward.get? b a <;> simp
  edge a b := by
    rw [← hf.edges]
    rfl
  contains a b := by
    rw [Std.ExtTreeMap.contains_eq_isSome_getElem?, ← hf.edges]
    rfl
  edges := hf.toList_edges
  count := by
    rw [← EdgeStore.length_toList, hf.toList_edges]
    unfold FlatGraph.edgeList
    rw [List.length_map, Std.ExtTreeMap.length_toList]
  outgoing id := by
    refine ⟨?_, g.edges.stops_ascending id⟩
    rw [← hf.toList_edges]
    exact g.edges.outgoing_eq_filter id
  incoming id := by
    refine ⟨?_, g.edges.starts_ascending id⟩
    rw [← hf.toList_edges]
    exact g.edges.incoming_eq_filter id
  outDegree id := by
    rw [← length_filter_edgeList f fun ends => ends.start == id,
      ← hf.toList_edges]
    exact (g.edges.outDegree_eq_length id).trans
      (congrArg List.length (g.edges.outgoing_eq_filter id))
  inDegree id := by
    rw [← length_filter_edgeList f fun ends => ends.stop == id,
      ← hf.toList_edges]
    exact (g.edges.inDegree_eq_length id).trans
      (congrArg List.length (g.edges.incoming_eq_filter id))

end Graph

end GraphRewriting

------------------------------------------------------------
-- Runs
------------------------------------------------------------

namespace GraphRewriting

namespace Graph

variable {g h next : Graph}
variable {f k : FlatGraph}

/-
  Graphs are equivalent when their maps agree
  but for document ids.
-/
theorem Shows.equiv_iff
    (hf : g.Shows f)
    (hk : h.Shows k) :
    g ≈ h ↔
      f.nodes = k.nodes ∧
        ∀ ends : EdgeEnds,
          f.edges[ends]?.map EdgeInfo.plain =
            k.edges[ends]?.map EdgeInfo.plain := by
  have hEdges :
      ∀ a b : NodeId,
        (g.plain.edges.get? a b =
          f.edges[(⟨a, b⟩ : EdgeEnds)]?.map EdgeInfo.plain) ∧
          h.plain.edges.get? a b =
            k.edges[(⟨a, b⟩ : EdgeEnds)]?.map
              EdgeInfo.plain := by
    intro a b
    rw [← hf.edges, ← hk.edges]
    exact
      ⟨EdgeStore.get?_plain g.edges a b,
        EdgeStore.get?_plain h.edges a b⟩
  rw [← hf.nodes, ← hk.nodes]
  constructor
  · intro hEquiv
    have hPlain : g.plain = h.plain := hEquiv
    refine ⟨nodes_eq_of_equiv hEquiv, ?_⟩
    rintro ⟨a, b⟩
    rw [← (hEdges a b).1, ← (hEdges a b).2, hPlain]
  · rintro ⟨hNodes, hSame⟩
    apply ext_get?
    · intro id
      exact
        congrArg (fun nodes : NodeStore => nodes[id]?) hNodes
    · intro a b
      rw [(hEdges a b).1, (hEdges a b).2, hSame ⟨a, b⟩]

/- The node that a change takes out if it is there. -/
def Change.evicted? : Change → Option NodeId
  | .addNode node => some node.id
  | .removeNode id => some id
  | _ => none

/- The node that goes takes along the edges that touch it. -/
theorem edges_perform_of_evicted?
    {change : Change}
    {id : NodeId}
    (hChange : change.evicted? = some id)
    (hId : id ∈ g.nodes) :
    (g.perform change).1.edges = g.edges.detach id := by
  cases change with
  | addNode node =>
      cases hChange
      exact if_pos hId
  | removeNode other =>
      cases hChange
      show
        (settle g (g.removeNode id)).1.edges = g.edges.detach id
      rw [removeNode_eq_ok.2 ⟨hId, rfl⟩]
      rfl
  | _ => cases hChange

/-
  A change that looks at the ends of edges leaves
  none without its ends.
-/
theorem HasIntegrity.perform
    (hg : g.HasIntegrity)
    {change : Change}
    (hChange : change.IsChecked) :
    (g.perform change).1.HasIntegrity := by
  cases change with
  | addNode node => exact hg.addNode node
  | removeNode id =>
      exact
        settle_preserves hg fun _ hNext => hg.removeNode hNext
  | removeNodes ids =>
      exact advance_preserves
        (fun _ _ _ hState hNext => hState.removeNode hNext) hg
        ids
  | addEdge edge =>
      exact settle_preserves hg fun _ hNext => hg.addEdge hNext
  | putEdge edge => exact hChange.elim
  | addEdges edges =>
      exact advance_preserves
        (fun _ _ _ hState hNext => hState.addEdge hNext) hg
        edges
  | removeEdge start stop =>
      exact
        settle_preserves hg fun _ hNext => hg.removeEdge hNext

/- Checked changes leave no edge without its ends. -/
theorem HasIntegrity.after
    (hg : g.HasIntegrity)
    {changes : List Change}
    (hChanges : ∀ change ∈ changes, change.IsChecked) :
    (g.after changes).HasIntegrity := by
  induction changes generalizing g with
  | nil => exact hg
  | cons change changes ih =>
      rw [List.forall_mem_cons] at hChanges
      exact ih (hg.perform hChanges.1) hChanges.2

/-
  Whatever is done to a graph, two finite maps tell all that it
  tells, and the errors that came up. A node that goes takes
  along the edges that touch it and no others, an edge to itself
  once. Graphs with the same maps are equivalent, however they
  were made, and only unchecked edges lack their ends.
-/
theorem mirrors_after
    (changes : List Change) :
    let g := (∅ : Graph).after changes
    let f := FlatGraph.empty.after changes
    (g.Mirrors f ∧
      (∅ : Graph).errors changes =
        FlatGraph.empty.errors changes) ∧
      (∀ (change : Change) (id : NodeId),
        change.evicted? = some id → id ∈ g.nodes →
          (g.perform change).1.edges.toList =
              g.edges.toList.filter
                (fun edge =>
                  edge.start != id && edge.stop != id) ∧
            (g.perform change).1.edges.size +
              (g.inDegree id + g.outDegree id) =
              g.edges.size +
                if g.edges.contains id id then 1 else 0) ∧
      (∀ others : List Change,
        g ≈ (∅ : Graph).after others ↔
          f.nodes = (FlatGraph.empty.after others).nodes ∧
            ∀ ends : EdgeEnds,
              f.edges[ends]?.map EdgeInfo.plain =
                (FlatGraph.empty.after others).edges[ends]?.map
                  EdgeInfo.plain) ∧
      ((∀ change ∈ changes, change.IsChecked) →
        g.HasIntegrity) := by
  intro g f
  rcases shows_empty.after changes with ⟨hShows, hErrors⟩
  refine ⟨⟨hShows.mirrors, hErrors⟩, ?_, ?_, ?_⟩
  · intro change id hChange hId
    rw [edges_perform_of_evicted? hChange hId]
    exact ⟨g.edges.toList_detach id, g.edges.size_detach id⟩
  · intro others
    exact hShows.equiv_iff (shows_empty.after others).1
  · exact hasIntegrity_empty.after

/-
  Two nodes that point to each other, the first one
  to itself as well.
-/
def tangle : List Change :=
  [.addNode (.ofSymbol (.num 0) "knot"),
    .addNode (.ofSymbol (.num 1) "end"),
    .addEdges
      [.ofLabels (.num 0) (.num 0) ∅,
        .ofLabels (.num 0) (.num 1) ∅,
        .ofLabels (.num 1) (.num 0) ∅]]

/-
  Two nodes with edges both ways and a loop,
  built step by step.
-/
theorem mirrors_after_tangle :
    let g := (∅ : Graph).after tangle
    ((∀ change ∈ tangle, change.IsChecked) ∧ g.HasIntegrity) ∧
      (.num 0 ∈ g.nodes ∧
        g.edges.contains (.num 0) (.num 0) = true) ∧
        (g.perform (.removeNode (.num 0))).1.edges.size +
            (g.inDegree (.num 0) + g.outDegree (.num 0)) =
          g.edges.size + 1 := by
  intro g
  have hChecked : ∀ change ∈ tangle, change.IsChecked := by
    decide +kernel
  have hMem : NodeId.num 0 ∈ g.nodes := by decide +kernel
  have hLoop : g.edges.contains (.num 0) (.num 0) = true := by
    decide +kernel
  rcases mirrors_after tangle with ⟨-, hEvicted, -, hIntegrity⟩
  have hSize :=
    (hEvicted (.removeNode (.num 0)) (.num 0) rfl hMem).2
  rw [if_pos hLoop] at hSize
  exact ⟨⟨hChecked, hIntegrity hChecked⟩, ⟨hMem, hLoop⟩, hSize⟩

end Graph

end GraphRewriting
