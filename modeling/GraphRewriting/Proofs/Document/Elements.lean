import GraphRewriting.Proofs.Document.Describing
import GraphRewriting.Proofs.Document.Exotics
import GraphRewriting.Proofs.Document.Loading
import Mathlib.Data.Option.Basic

/-
  Graph elements on their own. An element is accepted exactly if
  the ids and ends that it writes down are there, do not clash,
  and refer to each other. The graph of an accepted element has
  what the element writes down and nothing else.

  Main declarations:
    * `GraphElement.IsConsistent`
    * `NodeElement.Describes`
    * `EdgeElement.Describes`
    * `GraphElement.DescribesGraph`
    * `GraphElement.isConsistent_iff_isAcceptable`
    * `GraphElement.accepts_exactly`
-/

------------------------------------------------------------
-- Consistent Elements
------------------------------------------------------------

namespace GraphRewriting

namespace GraphElement

/-
  The nodes of an element, with `base` in front if
  its symbol is given.
-/
def declaredNodes (element : GraphElement) : List NodeElement :=
  match element.base with
  | some symbol =>
      ⟨some NodeId.base, some symbol, element.baseLabels⟩ ::
        element.nodes
  | none => element.nodes

/- The ids under which nodes are declared. -/
def nodeIds (element : GraphElement) : List (Option NodeId) :=
  element.declaredNodes.map NodeElement.id

/- The ids of edges as they are displayed. -/
def edgeIds (element : GraphElement) : List (Option String) :=
  element.edges.map fun edge => edge.id.map NodeId.text

/- Where edges start and where they end. -/
def edgeEnds
    (element : GraphElement) :
    List (Option NodeId × Option NodeId) :=
  element.edges.map fun edge => (edge.start, edge.stop)

/-
  Next to exotic nodes under some ids, nodes and edges have all
  their ids and ends, no two of them the same, and edges join
  declared nodes, of which one is not exotic.
-/
structure IsConsistent
    (element : GraphElement)
    (exotic : List (Option NodeId)) : Prop where
  nodesNamed : none ∉ element.nodeIds
  nodesDistinct : element.nodeIds.Nodup
  ordinary : ∀ id ∈ exotic, id ∉ element.nodeIds
  edgesNamed : none ∉ element.edgeIds
  edgesDistinct : element.edgeIds.Nodup
  endsGiven :
    ∀ ends ∈ element.edgeEnds, ends.1 ≠ none ∧ ends.2 ≠ none
  endsDistinct : element.edgeEnds.Nodup
  starts :
    ∀ ends ∈ element.edgeEnds,
      ends.1 ∈ element.nodeIds ∨ ends.1 ∈ exotic
  stops :
    ∀ ends ∈ element.edgeEnds,
      ends.2 ∈ element.nodeIds ∨ ends.2 ∈ exotic
  separate :
    ∀ ends ∈ element.edgeEnds,
      ¬ (ends.1 ∈ exotic ∧ ends.2 ∈ exotic)

end GraphElement

end GraphRewriting

------------------------------------------------------------
-- Described Nodes And Edges
------------------------------------------------------------

namespace GraphRewriting

/-
  Labels hold a symbol under its key, and some attributes
  under all other keys.
-/
def Labels.IsOf
    (labels attributes : Labels)
    (symbol : String) : Prop :=
  ∀ key : String,
    labels[key]? =
      if key = nameKey then some symbol else attributes[key]?

theorem Labels.isOf_iff
    {labels attributes : Labels}
    {symbol : String} :
    labels.IsOf attributes symbol ↔
      Labels.setSymbol attributes symbol = labels := by
  have hLookup :
      ∀ key : String,
        (Labels.setSymbol attributes symbol)[key]? =
          if key = nameKey then
            some symbol
          else
            attributes[key]? := by
    intro key
    unfold setSymbol
    rw [Std.ExtTreeMap.getElem?_insert]
    simp only [Std.compare_eq_iff_eq, eq_comm (a := key)]
  constructor
  · intro h
    apply Std.ExtTreeMap.ext_getElem?
    intro key
    rw [hLookup, h]
  · rintro rfl
    exact hLookup

/- A node has the id that an element gives, and the labels. -/
structure NodeElement.Describes
    (element : NodeElement)
    (node : Node) : Prop where
  id : element.id = some node.id
  labels :
    node.labels.IsOf element.attributes (element.name.getD "")

/-
  An edge has the displayed id that an element gives, its
  ends and the labels.
-/
structure EdgeElement.Describes
    (element : EdgeElement)
    (edge : Edge) : Prop where
  id :
    ∃ id : NodeId,
      element.id = some id ∧ edge.documentId = some id.text
  start : element.start = some edge.start
  stop : element.stop = some edge.stop
  labels :
    edge.labels.IsOf element.attributes (element.name.getD "")

/-
  A graph has the nodes and edges that an element declares,
  each once, and no others.
-/
structure GraphElement.DescribesGraph
    (element : GraphElement)
    (g : Graph) : Prop where
  nodes :
    ∃ nodes : List Node,
      List.Forall₂ NodeElement.Describes element.declaredNodes
          nodes ∧
        nodes.Perm g.nodes.nodes
  edges :
    ∃ edges : List Edge,
      List.Forall₂ EdgeElement.Describes element.edges edges ∧
        edges.Perm g.edges.toList

/- An element becomes a node that it describes. -/
theorem NodeElement.toNode_eq_ok_iff
    {element : NodeElement}
    {node : Node} :
    element.toNode = .ok node ↔ element.Describes node := by
  unfold toNode
  rw [bind_eq_ok_iff]
  constructor
  · rintro ⟨id, hId, h⟩
    cases h
    exact
      ⟨GrammarDocument.require_eq_ok_iff.1 hId,
        Labels.isOf_iff.2 rfl⟩
  · rintro ⟨hId, hLabels⟩
    refine
      ⟨node.id, GrammarDocument.require_eq_ok_iff.2 hId, ?_⟩
    rw [Labels.isOf_iff.1 hLabels]
    rfl

/- An element becomes an edge that it describes. -/
theorem EdgeElement.toEdge_eq_ok_iff
    {element : EdgeElement}
    {edge : Edge} :
    element.toEdge = .ok edge ↔ element.Describes edge := by
  unfold toEdge
  simp only [bind_eq_ok_iff, GrammarDocument.require_eq_ok_iff]
  constructor
  · rintro ⟨id, hId, start, hStart, stop, hStop, h⟩
    cases h
    exact ⟨⟨id, hId, rfl⟩, hStart, hStop, Labels.isOf_iff.2 rfl⟩
  · rintro ⟨⟨id, hId, hDocument⟩, hStart, hStop, hLabels⟩
    refine ⟨id, hId, edge.start, hStart, edge.stop, hStop, ?_⟩
    rw [Labels.isOf_iff.1 hLabels, ← hDocument]
    rfl

/- A node can be described exactly if there is an id for it. -/
theorem NodeElement.exists_describes
    {element : NodeElement}
    (h : element.id ≠ none) :
    ∃ node : Node, element.Describes node := by
  rcases Option.ne_none_iff_exists'.1 h with ⟨id, hId⟩
  exact
    ⟨⟨id,
        Labels.setSymbol element.attributes
          (element.name.getD "")⟩,
      hId, Labels.isOf_iff.2 rfl⟩

/- An edge element needs an id and both ends. -/
theorem EdgeElement.exists_describes
    {element : EdgeElement}
    (hId : element.id ≠ none)
    (hStart : element.start ≠ none)
    (hStop : element.stop ≠ none) :
    ∃ edge : Edge, element.Describes edge := by
  rcases Option.ne_none_iff_exists'.1 hId with ⟨id, hId⟩
  rcases Option.ne_none_iff_exists'.1 hStart with
    ⟨start, hStart⟩
  rcases Option.ne_none_iff_exists'.1 hStop with ⟨stop, hStop⟩
  exact
    ⟨⟨⟨Labels.setSymbol element.attributes
            (element.name.getD ""),
          some id.text⟩,
        start, stop⟩,
      ⟨id, hId, rfl⟩, hStart, hStop, Labels.isOf_iff.2 rfl⟩

namespace GraphElement

variable {element : GraphElement}
variable {nodes : List Node}
variable {edges : List Edge}

/-
  What is declared is what the nodes and edges of
  the element describe.
-/
theorem declares_iff :
    element.Declares nodes edges ↔
      List.Forall₂ NodeElement.Describes element.declaredNodes
        nodes ∧
        List.Forall₂ EdgeElement.Describes element.edges
          edges := by
  have hNodes :
      (∃ others : List Node,
          element.nodes.map NodeElement.toNode =
            others.map .ok ∧
            nodes = element.baseNodes ++ others) ↔
        List.Forall₂ NodeElement.Describes element.declaredNodes
          nodes := by
    rw [← map_eq_ok_iff_forall₂ NodeElement.toNode_eq_ok_iff]
    unfold declaredNodes baseNodes
    cases element.base with
    | none => simp only [List.nil_append, exists_eq_right']
    | some symbol =>
        constructor
        · rintro ⟨others, hOthers, rfl⟩
          rw [List.map_cons, hOthers]
          rfl
        · intro h
          cases nodes with
          | nil => cases h
          | cons node others =>
              rw [List.map_cons, List.map_cons,
                List.cons.injEq] at h
              rcases h with ⟨hBase, hOthers⟩
              cases hBase
              exact ⟨others, hOthers, rfl⟩
  rw [← hNodes,
    ← map_eq_ok_iff_forall₂ EdgeElement.toEdge_eq_ok_iff]
  exact ⟨fun h => ⟨h.nodes, h.edges⟩, fun h => ⟨h.1, h.2⟩⟩

end GraphElement

end GraphRewriting

------------------------------------------------------------
-- Accepted Elements
------------------------------------------------------------

namespace GraphRewriting

namespace GraphElement

variable {element : GraphElement}
variable {nodes : List Node}
variable {edges : List Edge}
variable {exotic : List (Option NodeId)}
variable {store : NodeStore}

/- The ids declared are those of the nodes. -/
private theorem nodeIds_eq
    (h :
      List.Forall₂ NodeElement.Describes element.declaredNodes
        nodes) :
    element.nodeIds = (nodes.map Node.id).map some := by
  rw [List.map_map]
  refine (map_eq_map_of_forall₂ (h.imp ?_)).symm
  intro declared node hNode
  exact hNode.id.symm

/- The edge ids declared are those shown. -/
private theorem edgeIds_eq
    (h :
      List.Forall₂ EdgeElement.Describes element.edges edges) :
    element.edgeIds =
      (edges.map Edge.displayedId).map some := by
  rw [List.map_map]
  refine (map_eq_map_of_forall₂ (h.imp ?_)).symm
  intro declared edge hEdge
  rcases hEdge.id with ⟨id, hId, hDocument⟩
  rw [hId, Function.comp_apply,
    Edge.displayedId_of_documentId hDocument]
  rfl

private theorem edgeEnds_eq
    (h :
      List.Forall₂ EdgeElement.Describes element.edges edges) :
    element.edgeEnds =
      (edges.map fun edge => (edge.start, edge.stop)).map
        (Prod.map some some) := by
  rw [List.map_map]
  refine (map_eq_map_of_forall₂ (h.imp ?_)).symm
  intro declared edge hEdge
  rw [hEdge.start, hEdge.stop]
  rfl

/-
  The ids that an element writes down clash exactly if those
  of its nodes and edges do.
-/
theorem isConsistent_iff_isAcceptable
    (hNodes :
      List.Forall₂ NodeElement.Describes element.declaredNodes
        nodes)
    (hEdges :
      List.Forall₂ EdgeElement.Describes element.edges edges)
    (hStore : ∀ id : NodeId, id ∈ store ↔ some id ∈ exotic) :
    element.IsConsistent exotic ↔
      IsAcceptable store nodes edges := by
  have hName :
      ∀ id : NodeId,
        some id ∈ element.nodeIds ↔ id ∈ nodes.map Node.id := by
    intro id
    rw [nodeIds_eq hNodes,
      List.mem_map_of_injective (Option.some_injective NodeId)]
  have hEnds :
      ∀ holds : Option NodeId × Option NodeId → Prop,
        (∀ ends ∈ element.edgeEnds, holds ends) ↔
          ∀ edge ∈ edges,
            holds (some edge.start, some edge.stop) := by
    intro holds
    rw [edgeEnds_eq hEdges, List.forall_mem_map,
      List.forall_mem_map]
    rfl
  have hPairs :
      Function.Injective
        (Prod.map some some : NodeId × NodeId → _) :=
    (Option.some_injective NodeId).prodMap
      (Option.some_injective NodeId)
  have hNodesDistinct :
      element.nodeIds.Nodup ↔ (nodes.map Node.id).Nodup := by
    rw [nodeIds_eq hNodes,
      List.nodup_map_iff (Option.some_injective NodeId)]
  have hOrdinary :
      (∀ id ∈ exotic, id ∉ element.nodeIds) ↔
        ∀ node ∈ nodes, node.id ∉ store := by
    have hSwap :
        (∀ id ∈ exotic, id ∉ element.nodeIds) ↔
          ∀ id ∈ element.nodeIds, id ∉ exotic :=
      ⟨fun h id hId hExotic => h id hExotic hId,
        fun h id hExotic hId => h id hId hExotic⟩
    rw [hSwap, nodeIds_eq hNodes, List.forall_mem_map,
      List.forall_mem_map]
    simp only [hStore]
  have hEdgesDistinct :
      element.edgeIds.Nodup ↔
        (edges.map Edge.displayedId).Nodup := by
    rw [edgeIds_eq hEdges,
      List.nodup_map_iff (Option.some_injective String)]
  have hEndsDistinct :
      element.edgeEnds.Nodup ↔
        (edges.map fun edge =>
          (edge.start, edge.stop)).Nodup := by
    rw [edgeEnds_eq hEdges, List.nodup_map_iff hPairs]
  have hStarts :
      (∀ ends ∈ element.edgeEnds,
        ends.1 ∈ element.nodeIds ∨ ends.1 ∈ exotic) ↔
        ∀ edge ∈ edges,
          edge.start ∈ nodes.map Node.id ∨
            edge.start ∈ store := by
    simp only [hEnds, hName, hStore]
  have hStops :
      (∀ ends ∈ element.edgeEnds,
        ends.2 ∈ element.nodeIds ∨ ends.2 ∈ exotic) ↔
        ∀ edge ∈ edges,
          edge.stop ∈ nodes.map Node.id ∨
            edge.stop ∈ store := by
    simp only [hEnds, hName, hStore]
  have hSeparate :
      (∀ ends ∈ element.edgeEnds,
        ¬ (ends.1 ∈ exotic ∧ ends.2 ∈ exotic)) ↔
        ∀ edge ∈ edges,
          ¬ (edge.start ∈ store ∧ edge.stop ∈ store) := by
    simp only [hEnds, hStore]
  constructor
  · intro h
    exact
      ⟨hNodesDistinct.1 h.nodesDistinct, hOrdinary.1 h.ordinary,
        hEdgesDistinct.1 h.edgesDistinct,
        hEndsDistinct.1 h.endsDistinct, hStarts.1 h.starts,
        hStops.1 h.stops, hSeparate.1 h.separate⟩
  · intro h
    constructor
    case nodesNamed => simp [nodeIds_eq hNodes]
    case nodesDistinct => exact hNodesDistinct.2 h.nodesNodup
    case ordinary => exact hOrdinary.2 h.ordinary
    case edgesNamed => simp [edgeIds_eq hEdges]
    case edgesDistinct => exact hEdgesDistinct.2 h.idsNodup
    case endsGiven =>
      exact (hEnds _).2 fun _ _ =>
        ⟨Option.some_ne_none _, Option.some_ne_none _⟩
    case endsDistinct => exact hEndsDistinct.2 h.endsNodup
    case starts => exact hStarts.2 h.starts
    case stops => exact hStops.2 h.stops
    case separate => exact hSeparate.2 h.separate

/-
  Nodes and edges with all their ids and ends
  describe something.
-/
theorem IsConsistent.exists_declares
    (h : element.IsConsistent exotic) :
    ∃ (nodes : List Node) (edges : List Edge),
      List.Forall₂ NodeElement.Describes element.declaredNodes
        nodes ∧
        List.Forall₂ EdgeElement.Describes element.edges
          edges := by
  have hNodes :
      ∀ declared ∈ element.declaredNodes,
        ∃ node, declared.Describes node := by
    intro declared hDeclared
    apply NodeElement.exists_describes
    intro hNone
    exact
      h.nodesNamed (List.mem_map.2 ⟨declared, hDeclared, hNone⟩)
  have hEdges :
      ∀ declared ∈ element.edges,
        ∃ edge, declared.Describes edge := by
    intro declared hDeclared
    rcases h.endsGiven _ (List.mem_map_of_mem hDeclared) with
      ⟨hStart, hStop⟩
    refine EdgeElement.exists_describes ?_ hStart hStop
    intro hNone
    exact h.edgesNamed
      (List.mem_map.2 ⟨declared, hDeclared, by rw [hNone]; rfl⟩)
  rcases exists_forall₂ hNodes with ⟨nodes, hNodes⟩
  rcases exists_forall₂ hEdges with ⟨edges, hEdges⟩
  exact ⟨nodes, edges, hNodes, hEdges⟩

end GraphElement

end GraphRewriting

------------------------------------------------------------
-- Graphs Of Accepted Elements
------------------------------------------------------------

namespace GraphRewriting

namespace GraphElement

variable {element : GraphElement}
variable {requireBase : Bool}
variable {kind : ExoticKind}
variable {exotic : List (Option NodeId)}
variable {store : NodeStore}

/-
  Next to exotic nodes, exactly the consistent
  elements are filled in.
-/
theorem exists_fill_eq_ok_iff
    (hStore : ∀ id : NodeId, id ∈ store ↔ some id ∈ exotic) :
    (∃ q : ExoticGraph,
      element.fill requireBase (.ofExotics kind store) =
        .ok q) ↔
      (requireBase = true → element.base.isSome = true) ∧
        element.IsConsistent exotic := by
  constructor
  · rintro ⟨q, hFill⟩
    rcases fill_ofExotics_eq_ok_iff.1 hFill with
      ⟨hBase, nodes, edges, hDeclares, hAcceptable, -⟩
    rcases declares_iff.1 hDeclares with ⟨hNodes, hEdges⟩
    exact
      ⟨hBase,
        (isConsistent_iff_isAcceptable hNodes hEdges hStore).2
          hAcceptable⟩
  · rintro ⟨hBase, hConsistent⟩
    rcases hConsistent.exists_declares with
      ⟨nodes, edges, hNodes, hEdges⟩
    have hAcceptable :=
      (isConsistent_iff_isAcceptable hNodes hEdges hStore).1
        hConsistent
    exact
      ⟨_,
        fill_ofExotics_eq_ok_iff.2
          ⟨hBase, nodes, edges, declares_iff.2 ⟨hNodes, hEdges⟩,
            hAcceptable, rfl⟩⟩

/-
  What is filled in is what the element describes, next to the
  same exotic nodes.
-/
theorem describesGraph_of_fill
    {q : ExoticGraph}
    (h :
      element.fill requireBase (.ofExotics kind store) =
        .ok q) :
    (q.kind = kind ∧ q.exotic = store) ∧
      element.DescribesGraph q.graph := by
  rcases fill_ofExotics_eq_ok_iff.1 h with
    ⟨-, nodes, edges, hDeclares, hAcceptable, rfl⟩
  rcases declares_iff.1 hDeclares with ⟨hNodes, hEdges⟩
  refine
    ⟨⟨hAcceptable.kind_assemble, hAcceptable.exotic_assemble⟩,
      ⟨nodes, hNodes, ?_⟩, ⟨edges, hEdges, ?_⟩⟩
  · rw [List.perm_ext_iff_of_nodup hAcceptable.nodesNodup.of_map
      (NodeStore.ids_nodup _).of_map]
    intro node
    exact hAcceptable.mem_nodes_assemble.symm
  · rw [List.perm_ext_iff_of_nodup hAcceptable.endsNodup.of_map
      (EdgeStore.ends_nodup _).of_map]
    intro edge
    exact hAcceptable.mem_edges_assemble.symm

end GraphElement

namespace GraphElement

variable {element : GraphElement}
variable {requireBase : Bool}
variable {kind : ExoticKind}
variable {inherited : List Node}

/-
  Declared exotic nodes have no labels,
  inherited ones keep theirs.
-/
theorem getElem?_exotics
    {ids : List NodeId}
    (hIds : element.exoticIds kind = ids.map some)
    (id : NodeId) :
    (((∅ : NodeStore).putBare ids).putMissing inherited)[id]? =
      if some id ∈ element.exoticIds kind then some ∅
      else (inherited.find? fun node => node.id == id).map
        Node.labels := by
  have hOwn : some id ∈ element.exoticIds kind ↔ id ∈ ids := by
    rw [hIds,
      List.mem_map_of_injective (Option.some_injective NodeId)]
  rw [NodeStore.getElem?_putMissing, NodeStore.getElem?_putBare]
  simp only [hOwn]
  split
  · rfl
  · rw [Std.ExtTreeMap.getElem?_empty, Option.none_or]

/- The exotic nodes are those declared and those inherited. -/
theorem mem_exotics_iff
    {ids : List NodeId}
    (hIds : element.exoticIds kind = ids.map some)
    (id : NodeId) :
    id ∈ ((∅ : NodeStore).putBare ids).putMissing inherited ↔
      some id ∈ element.exoticIds kind ++ inherited.map
        fun node => some node.id := by
  rw [Std.ExtTreeMap.mem_iff_isSome_getElem?,
    getElem?_exotics hIds, List.mem_append]
  split
  · rename_i hOwn
    simp [hOwn]
  · rename_i hOwn
    simp [hOwn]

/-
  A graph element is accepted if it has no exotic parts, a
  base when needed, and is consistent.
-/
theorem exists_toGraph_iff :
    (∃ g : Graph, element.toGraph requireBase = .ok g) ↔
      (element.anchors = [] ∧ element.wildcards = []) ∧
        (requireBase = true → element.base.isSome = true) ∧
          element.IsConsistent [] := by
  have hStore :
      ∀ id : NodeId,
        id ∈ (∅ : NodeStore) ↔
          some id ∈ ([] : List (Option NodeId)) := by
    intro id
    simp
  rw [← exists_fill_eq_ok_iff hStore]
  simp only [toGraph_eq_ok_iff]
  constructor
  · rintro ⟨g, hPlain, q, hFill, -⟩
    exact ⟨hPlain, q, hFill⟩
  · rintro ⟨hPlain, q, hFill⟩
    exact ⟨q.graph, hPlain, q, hFill, rfl⟩

/-
  A pattern element is accepted if its exotic parts are of its
  kind and distinct, and it is consistent.
-/
theorem exists_toExoticGraph_iff :
    (∃ q : ExoticGraph,
      element.toExoticGraph kind inherited = .ok q) ↔
      element.exotics (otherKind kind) = [] ∧
        (none ∉ element.exoticIds kind ∧
          (element.exoticIds kind).Nodup) ∧
          element.IsConsistent
            (element.exoticIds kind ++
              inherited.map fun node => some node.id) := by
  have hBase : false = true → element.base.isSome = true :=
    fun h => by cases h
  simp only [toExoticGraph_eq_ok_iff]
  constructor
  · rintro ⟨q, hOther, ids, ⟨hIds, hNodup⟩, hFill⟩
    refine
      ⟨hOther, ⟨?_, ?_⟩,
        ((exists_fill_eq_ok_iff (mem_exotics_iff hIds)).1
          ⟨q, hFill⟩).2⟩
    · simp [hIds]
    · rw [hIds]
      exact hNodup.map (Option.some_injective NodeId)
  · rintro ⟨hOther, ⟨hNamed, hNodup⟩, hConsistent⟩
    have hGiven :
        ∀ declared ∈ element.exoticIds kind,
          ∃ id : NodeId, declared = some id := by
      intro declared hDeclared
      refine Option.ne_none_iff_exists'.1 ?_
      rintro rfl
      exact hNamed hDeclared
    rcases exists_forall₂ hGiven with ⟨ids, hIds⟩
    rw [← List.forall₂_map_right_iff (f := some),
      List.forall₂_eq_eq_eq] at hIds
    rcases
        (exists_fill_eq_ok_iff (mem_exotics_iff hIds)).2
          ⟨hBase, hConsistent⟩ with
      ⟨q, hFill⟩
    rw [hIds] at hNodup
    exact ⟨q, hOther, ids, ⟨hIds, hNodup.of_map⟩, hFill⟩

/-
  A plain element is accepted exactly if it has no exotic nodes,
  its base if that is asked for, and is consistent. An element
  with exotic nodes is accepted exactly if these are of its kind
  and under distinct ids, and it is consistent next to them and
  the inherited ones. Either graph has what its element
  declares, each once, under the ids, ends and labels written
  there, and nothing else.
-/
theorem accepts_exactly
    (element : GraphElement)
    (requireBase : Bool)
    (kind : ExoticKind)
    (inherited : List Node) :
    (((∃ g : Graph, element.toGraph requireBase = .ok g) ↔
          (element.anchors = [] ∧ element.wildcards = []) ∧
            (requireBase = true → element.base.isSome = true) ∧
              element.IsConsistent []) ∧
        ∀ g : Graph,
          element.toGraph requireBase = .ok g →
            element.DescribesGraph g) ∧
      ((∃ q : ExoticGraph,
        element.toExoticGraph kind inherited = .ok q) ↔
          element.exotics (otherKind kind) = [] ∧
            (none ∉ element.exoticIds kind ∧
              (element.exoticIds kind).Nodup) ∧
              element.IsConsistent
                (element.exoticIds kind ++
                  inherited.map fun node => some node.id)) ∧
        ∀ q : ExoticGraph,
          element.toExoticGraph kind inherited = .ok q →
          (q.kind = kind ∧ element.DescribesGraph q.graph) ∧
            ∀ id : NodeId,
              q.exotic[id]? =
                if some id ∈ element.exoticIds kind then some ∅
                else
                  (inherited.find? fun node =>
                    node.id == id).map
                  Node.labels := by
  refine
    ⟨⟨exists_toGraph_iff, ?_⟩, exists_toExoticGraph_iff, ?_⟩
  · intro g h
    rcases toGraph_eq_ok_iff.1 h with ⟨-, q, hFill, rfl⟩
    exact (describesGraph_of_fill hFill).2
  · intro q h
    rcases toExoticGraph_eq_ok_iff.1 h with
      ⟨-, ids, ⟨hIds, -⟩, hFill⟩
    rcases describesGraph_of_fill hFill with
      ⟨⟨hKind, hExotic⟩, hGraph⟩
    refine ⟨⟨hKind, hGraph⟩, ?_⟩
    intro id
    rw [hExotic]
    exact getElem?_exotics hIds id

/-
  A base that points to a node, which points to an exotic node
  that is not declared. The first edge has the id 1.
-/
def links (second : NodeId) : GraphElement where
  base := some "A"
  baseLabels := ∅
  nodes := [⟨some (.name "x"), some "B", ∅⟩]
  edges :=
    [⟨some (.num 1), some NodeId.base, some (.name "x"), none,
      ∅⟩,
      ⟨some second, some (.name "x"), some (.name "w"), none,
        ∅⟩]
  anchors := []
  wildcards := [⟨some (.name "v")⟩]

/- The exotic node is inherited, and the ids 1 and "1" clash. -/
theorem accepts_links :
    let inherited : List Node := [.ofSymbol (.name "w") "C"]
    (∃ q : ExoticGraph,
        (links (.num 2)).toExoticGraph .wildcard inherited =
          .ok q ∧
          (links (.num 2)).DescribesGraph q.graph ∧
            q.exotic[NodeId.name "w"]? =
              some (Labels.ofSymbol "C")) ∧
      ¬ ∃ q : ExoticGraph, (links
        (.name
          "1")).toExoticGraph .wildcard inherited = .ok q := by
  intro inherited
  rcases
      accepts_exactly (links (.num 2)) false .wildcard
        inherited with
    ⟨-, hAccepts, hContent⟩
  rcases
      accepts_exactly (links (.name "1")) false .wildcard
        inherited with
    ⟨-, hClash, -⟩
  have hConsistent :
      (links (.num 2)).IsConsistent
        [some (.name "v"), some (.name "w")] := by
    constructor <;> decide +kernel
  constructor
  · rcases hAccepts.2 ⟨rfl, by decide +kernel, hConsistent⟩ with
      ⟨q, hq⟩
    rcases hContent q hq with ⟨⟨-, hGraph⟩, hExotic⟩
    refine ⟨q, hq, hGraph, ?_⟩
    rw [hExotic]
    decide +kernel
  · intro hRead
    have hDistinct := (hClash.1 hRead).2.2.edgesDistinct
    revert hDistinct
    decide +kernel

end GraphElement

end GraphRewriting
