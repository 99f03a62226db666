import GraphRewriting.Proofs.Document.Describing
import GraphRewriting.Proofs.Document.Exotics
import GraphRewriting.Proofs.Grammar.Vocabulary

/-
  Graphs that are read back from their elements. They come back
  as they were, up to the document ids of their edges.

  Main declarations:
    * `ExoticGraph.IsDescribable`
    * `GraphElement.IsOf.fill`
    * `GraphElement.toGraph_of_isOf`
    * `GraphElement.toExoticGraph_of_isPatternOf`
    * `GraphElement.toExoticGraph_of_inherited`
-/

------------------------------------------------------------
-- Content Up To Document Ids
------------------------------------------------------------

namespace GraphRewriting

namespace ExoticGraph

private theorem mem_edges_plain
    {p : ExoticGraph}
    {edge : Edge} :
    edge ∈ p.plain.edges ↔
      ∃ other ∈ p.edges, other.plain = edge :=
  EdgeStore.mem_toList_plain

/- Exotic graphs with the same content are equivalent. -/
theorem equiv_of_mem
    {p q : ExoticGraph}
    (hKind : p.kind = q.kind)
    (hExotic : p.exotic = q.exotic)
    (hNodes :
      ∀ node : Node,
        node ∈ p.graph.nodes.nodes ↔ node ∈ q.graph.nodes.nodes)
    (hEdges :
      ∀ edge : Edge,
        (∃ other ∈ p.edges, other.plain = edge) ↔
          ∃ other ∈ q.edges, other.plain = edge) :
    p ≈ q := by
  refine eq_of_mem (p := p.plain) (q := q.plain) hKind hExotic
    hNodes ?_
  intro edge
  rw [mem_edges_plain, mem_edges_plain]
  exact hEdges edge

/- A graph without exotic nodes. -/
def ofGraph
    (kind : ExoticKind)
    (g : Graph) : ExoticGraph where
  kind := kind
  graph := g
  exotic := ∅
  disjoint := by
    intro id h
    exact absurd h Std.ExtTreeMap.not_mem_empty

end ExoticGraph

/-
  Edges that have their ends join properly where there
  are no exotic nodes.
-/
theorem ExoticGraph.joinsProperly_ofGraph
    {kind : ExoticKind}
    {g : Graph}
    (hg : g.HasIntegrity) :
    (ofGraph kind g).JoinsProperly := by
  intro a b hSome
  rcases Graph.hasIntegrity_iff.1 hg a b hSome with ⟨ha, hb⟩
  refine
    ⟨⟨contains_iff.2 (Or.inl ha), contains_iff.2 (Or.inl hb)⟩,
      ?_⟩
  rintro ⟨hExotic, -⟩
  exact
    absurd (isExotic_iff.1 hExotic) Std.ExtTreeMap.not_mem_empty

/-
  Edges that are the same but for document ids
  have the same ends.
-/
theorem map_ends_eq_of_map_plain_eq
    {edges others : List Edge}
    (h : edges.map Edge.plain = others.map Edge.plain) :
    (edges.map fun edge => (edge.start, edge.stop)) =
      others.map fun edge => (edge.start, edge.stop) := by
  have hMap :=
    congrArg
      (List.map fun edge : Edge => (edge.start, edge.stop)) h
  rw [List.map_map, List.map_map] at hMap
  exact hMap

/- Proper edges stay proper under other document ids. -/
theorem ExoticGraph.JoinsProperly.of_map_plain_eq
    {p : ExoticGraph}
    (hp : p.JoinsProperly)
    {edges : List Edge}
    (hPlain : edges.map Edge.plain = p.edges.map Edge.plain) :
    ∀ edge ∈ edges,
      (p.contains edge.start ∧ p.contains edge.stop) ∧
        ¬ (p.isExotic edge.start ∧ p.isExotic edge.stop) := by
  intro edge hEdge
  have hEnds :
      (edge.start, edge.stop) ∈
        p.edges.map fun other => (other.start, other.stop) := by
    rw [← map_ends_eq_of_map_plain_eq hPlain]
    exact List.mem_map.2 ⟨edge, hEdge, rfl⟩
  rcases List.mem_map.1 hEnds with ⟨other, hOther, hSame⟩
  rw [Prod.mk.injEq] at hSame
  have hGet := EdgeStore.mem_toList.1 hOther
  rw [hSame.1, hSame.2] at hGet
  exact hp edge.start edge.stop (by rw [hGet]; rfl)

section

variable {p : ExoticGraph}
variable {nodes : List Node}
variable {edges : List Edge}

/- The nodes of a graph fit next to its exotic nodes. -/
theorem ExoticGraph.fitNodes_of_mem
    (hNodup : (nodes.map Node.id).Nodup)
    (hNodes :
      ∀ node : Node,
        node ∈ nodes ↔ node ∈ p.graph.nodes.nodes) :
    FitNodes (.ofExotics p.kind p.exotic) nodes := by
  refine fitNodes_ofExotics.2 ⟨hNodup, ?_⟩
  intro node hNode hExotic
  have hOrdinary :=
    NodeStore.mem_iff_exists_node.2
      ⟨node, (hNodes node).1 hNode, rfl⟩
  exact p.disjoint node.id hExotic hOrdinary

/-
  Between its nodes, a graph admits its proper edges,
  under whatever ids.
-/
theorem ExoticGraph.JoinsProperly.admits
    (hp : p.JoinsProperly)
    (hNodup : (nodes.map Node.id).Nodup)
    (hNodes :
      ∀ node : Node, node ∈ nodes ↔ node ∈ p.graph.nodes.nodes)
    (hPlain : edges.map Edge.plain = p.edges.map Edge.plain) :
    ∀ edge ∈ edges,
      ((ofExotics p.kind p.exotic).addNodes nodes).Admits
        edge := by
  have hFit := fitNodes_of_mem hNodup hNodes
  have hContains :
      ∀ id : NodeId,
        p.contains id = true →
          ((ofExotics p.kind p.exotic).addNodes nodes).contains
              id = true := by
    intro id hId
    rw [hFit.contains_addNodes]
    rcases ExoticGraph.contains_iff.1 hId with
      hOrdinary | hExotic
    · rcases NodeStore.mem_iff_exists_node.1 hOrdinary with
        ⟨node, hNode, rfl⟩
      exact Or.inl (List.mem_map_of_mem ((hNodes node).2 hNode))
    · exact Or.inr hExotic
  intro edge hEdge
  rcases hp.of_map_plain_eq hPlain edge hEdge with
    ⟨⟨hStart, hStop⟩, hSeparate⟩
  refine
    ⟨⟨hContains edge.start hStart, hContains edge.stop hStop⟩,
      ?_⟩
  rw [ExoticGraph.isExotic_iff, ExoticGraph.isExotic_iff,
    hFit.addNodes.2.2]
  rwa [ExoticGraph.isExotic_iff,
    ExoticGraph.isExotic_iff] at hSeparate

/-
  The nodes of a graph with proper edges, and its edges under
  distinct ids, are acceptable next to its exotic nodes.
-/
theorem ExoticGraph.JoinsProperly.isAcceptable
    (hp : p.JoinsProperly)
    (hNodup : (nodes.map Node.id).Nodup)
    (hNodes :
      ∀ node : Node, node ∈ nodes ↔ node ∈ p.graph.nodes.nodes)
    (hIds : (edges.map Edge.displayedId).Nodup)
    (hPlain : edges.map Edge.plain = p.edges.map Edge.plain) :
    IsAcceptable p.exotic nodes edges := by
  have hFit := fitNodes_of_mem hNodup hNodes
  refine isAcceptable_iff_fit.2
    ⟨hFit, hIds, ?_, ?_, ?_, hp.admits hNodup hNodes hPlain⟩
  · intro edge _
    exact Std.ExtTreeSet.not_mem_empty
  · rw [map_ends_eq_of_map_plain_eq hPlain]
    exact EdgeStore.ends_nodup p.graph.edges
  · intro edge _
    exact hFit.get?_edges_addNodes edge.start edge.stop

end

namespace GraphElement

variable {element : GraphElement}
variable {p : ExoticGraph}

/-
  Next to the exotic nodes of a graph with proper edges, what
  an element of the graph declares gives the graph back.
-/
theorem IsOf.fill
    (h : element.IsOf p.graph)
    (hp : p.JoinsProperly)
    (requireBase : Bool)
    (hBase : requireBase = true → NodeId.base ∈ p.graph.nodes) :
    ∃ q : ExoticGraph,
      element.fill requireBase (.ofExotics p.kind p.exotic) =
          .ok q ∧
        q ≈ p := by
  rcases h.declares with
    ⟨nodes, edges, hDeclares, hNodup, hNodes, hIds, hPlain⟩
  have hAcceptable : IsAcceptable p.exotic nodes edges :=
    hp.isAcceptable hNodup hNodes hIds hPlain
  refine
    ⟨.assemble p.kind p.exotic nodes edges,
      fill_ofExotics_eq_ok_iff.2
        ⟨fun hRequire => h.base (hBase hRequire), nodes, edges,
          hDeclares, hAcceptable, rfl⟩,
      ExoticGraph.equiv_of_mem hAcceptable.kind_assemble
        hAcceptable.exotic_assemble ?_ ?_⟩
  · intro node
    rw [hAcceptable.mem_nodes_assemble]
    exact hNodes node
  · intro edge
    have hEdges :
        (∃ other ∈ edges, other.plain = edge) ↔
          ∃ other ∈ p.edges, other.plain = edge := by
      unfold ExoticGraph.edges
      rw [← List.mem_map, ← List.mem_map, hPlain]
    rw [← hEdges]
    refine exists_congr fun other => and_congr_left fun _ => ?_
    exact hAcceptable.mem_edges_assemble

/- A plain graph comes back from its element. -/
theorem toGraph_of_isOf
    {g : Graph}
    (h : element.IsOf g)
    (hAnchors : element.anchors = [])
    (hWildcards : element.wildcards = [])
    (hg : g.HasIntegrity)
    (requireBase : Bool)
    (hBase : requireBase = true → NodeId.base ∈ g.nodes) :
    ∃ other : Graph,
      element.toGraph requireBase = .ok other ∧ other ≈ g := by
  have hJoins : (ExoticGraph.ofGraph .anchor g).JoinsProperly :=
    ExoticGraph.joinsProperly_ofGraph hg
  have hOf :
      element.IsOf (ExoticGraph.ofGraph .anchor g).graph :=
    h
  rcases hOf.fill hJoins requireBase hBase with ⟨q, hq, hEquiv⟩
  refine ⟨q.graph, ?_, congrArg ExoticGraph.graph hEquiv⟩
  exact toGraph_eq_ok_iff.2 ⟨⟨hAnchors, hWildcards⟩, q, hq, rfl⟩

end GraphElement

end GraphRewriting

------------------------------------------------------------
-- Exotic Graphs
------------------------------------------------------------

namespace GraphRewriting

/-
  An exotic graph that documents can hold: its edges join
  properly, its nodes and edges have symbols, no two edges
  carry the same document id, and exotic nodes no labels.
-/
structure ExoticGraph.IsDescribable
    (p : ExoticGraph) : Prop where
  integrity : p.HasIntegrity
  separate : p.HasSeparateExotics
  marked : p.graph.IsMarked
  bare : ∀ node ∈ p.exotic.nodes, node.labels = ∅

instance (p : ExoticGraph) : Decidable p.IsDescribable :=
  decidable_of_iff
    (p.HasIntegrity ∧ p.HasSeparateExotics ∧ p.graph.IsMarked ∧
      ∀ node ∈ p.exotic.nodes, node.labels = ∅)
    ⟨fun h => ⟨h.1, h.2.1, h.2.2.1, h.2.2.2⟩,
      fun h => ⟨h.integrity, h.separate, h.marked, h.bare⟩⟩

/- Bare nodes are restored from their ids. -/
theorem NodeStore.putBare_keys
    {store : NodeStore}
    (hBare : ∀ node ∈ store.nodes, node.labels = ∅) :
    (∅ : NodeStore).putBare store.keys = store := by
  apply Std.ExtTreeMap.ext_getElem?
  intro id
  rw [NodeStore.getElem?_putBare]
  simp only [Std.ExtTreeMap.mem_keys]
  cases hId : store[id]? with
  | none =>
      have hNot : id ∉ store := by
        intro hMem
        rcases mem_iff_exists_getElem?.1 hMem with
          ⟨labels, hLabels⟩
        rw [hId] at hLabels
        cases hLabels
      rw [if_neg hNot]
      exact Std.ExtTreeMap.getElem?_empty
  | some labels =>
      have hMem : id ∈ store :=
        mem_iff_exists_getElem?.2 ⟨labels, hId⟩
      have hLabels : labels = ∅ :=
        hBare ⟨id, labels⟩ (NodeStore.mem_nodes.2 hId)
      rw [if_pos hMem, hLabels]

theorem NodeStore.putMissing_nodes
    (store : NodeStore) :
    (∅ : NodeStore).putMissing store.nodes = store := by
  apply Std.ExtTreeMap.ext_getElem?
  intro id
  apply Option.ext
  intro labels
  rw [NodeStore.labels_putMissing_iff
      (NodeStore.ids_nodup store),
    NodeStore.mem_nodes]
  have hNot : id ∉ (∅ : NodeStore) :=
    Std.ExtTreeMap.not_mem_empty
  simp [hNot]

namespace GraphElement

/-
  An element that declares an exotic graph
  with its exotic nodes.
-/
structure IsPatternOf
    (element : GraphElement)
    (p : ExoticGraph) : Prop where
  isOf : element.IsOf p.graph
  exotics :
    element.exotics p.kind = p.exoticIds.map fun id => ⟨some id⟩
  others : element.exotics (otherKind p.kind) = []

/-
  The exotic nodes that an element declares do not matter to
  the graph it is of.
-/
theorem IsOf.withExotics
    {element : GraphElement}
    {g : Graph}
    (h : element.IsOf g)
    (anchors wildcards : List ExoticElement) :
    IsOf
      { element with
        anchors := anchors,
        wildcards := wildcards }
      g := by
  rcases h.declares with ⟨nodes, edges, hDeclares, hRest⟩
  exact
    ⟨h.base, nodes, edges, ⟨hDeclares.nodes, hDeclares.edges⟩,
      hRest⟩

/-
  A pattern is written unless it has a clash, and the
  element describes it.
-/
theorem ofPattern_spec
    {p : ExoticGraph}
    (hp : p.IsDescribable) :
    SucceedsUnless p.graph.HasClash
      (fun element => element.IsPatternOf p) (ofPattern p) := by
  unfold ofPattern
  cases hKind : p.kind with
  | anchor =>
      refine (ofGraph_spec hp.marked).map ?_
      rintro element ⟨hOf, -, hWildcards⟩
      refine ⟨hOf.withExotics _ element.wildcards, ?_, ?_⟩
      · rw [hKind]
        rfl
      · rw [hKind]
        exact hWildcards
  | wildcard =>
      refine (ofGraph_spec hp.marked).map ?_
      rintro element ⟨hOf, hAnchors, -⟩
      refine ⟨hOf.withExotics element.anchors _, ?_, ?_⟩
      · rw [hKind]
        rfl
      · rw [hKind]
        exact hAnchors

variable {element : GraphElement}
variable {p : ExoticGraph}

/- An exotic graph comes back from its element. -/
theorem toExoticGraph_of_isPatternOf
    (h : element.IsPatternOf p)
    (hp : p.IsDescribable) :
    ∃ q : ExoticGraph,
      element.toExoticGraph p.kind [] = .ok q ∧ q ≈ p := by
  have hJoins :=
    ExoticGraph.joinsProperly_iff.2 ⟨hp.integrity, hp.separate⟩
  rcases h.isOf.fill hJoins false (by simp) with ⟨q, hq, hEquiv⟩
  have hIds :
      element.exoticIds p.kind = p.exoticIds.map some := by
    unfold exoticIds
    rw [h.exotics, List.map_map]
    rfl
  have hExotic :
      ((∅ : NodeStore).putBare p.exoticIds).putMissing [] =
        p.exotic :=
    NodeStore.putBare_keys hp.bare
  refine
    ⟨q,
      toExoticGraph_eq_ok_iff.2 ⟨h.others, p.exoticIds, ?_, ?_⟩,
      hEquiv⟩
  · exact ⟨hIds, p.exoticIds_nodup⟩
  · rw [hExotic]
    exact hq

/-
  A replacement comes back next to the exotic
  nodes that it inherits.
-/
theorem toExoticGraph_of_inherited
    (h : element.IsOf p.graph)
    (hAnchors : element.anchors = [])
    (hWildcards : element.wildcards = [])
    (hp : p.IsDescribable) :
    ∃ q : ExoticGraph,
      element.toExoticGraph p.kind p.exotic.nodes = .ok q ∧
        q ≈ p := by
  have hJoins :=
    ExoticGraph.joinsProperly_iff.2 ⟨hp.integrity, hp.separate⟩
  rcases h.fill hJoins false (by simp) with ⟨q, hq, hEquiv⟩
  have hExotics :
      ∀ kind : ExoticKind, element.exotics kind = [] := by
    intro kind
    cases kind
    · exact hAnchors
    · exact hWildcards
  have hIds :
      element.exoticIds p.kind =
        ([] : List NodeId).map some := by
    unfold exoticIds
    rw [hExotics]
    rfl
  have hExotic :
      ((∅ : NodeStore).putBare []).putMissing p.exotic.nodes =
        p.exotic :=
    NodeStore.putMissing_nodes p.exotic
  refine
    ⟨q,
      toExoticGraph_eq_ok_iff.2
        ⟨hExotics _, [], ⟨hIds, List.nodup_nil⟩, ?_⟩,
      hEquiv⟩
  rw [hExotic]
  exact hq

end GraphElement

end GraphRewriting
