import GraphRewriting.Proofs.Document.Clashes
import GraphRewriting.Proofs.Document.Content
import GraphRewriting.Proofs.Document.EdgeNumbers
import GraphRewriting.Proofs.FiniteMap

/-
  The elements that describe graphs. Each node and edge is read
  back from its element, and the edges of an element get
  distinct ids.

  Main declarations:
    * `Graph.HasClash`
    * `Graph.IsMarked`
    * `numberEdges`
    * `GraphElement.IsOf`
    * `GraphElement.ofGraph_describes`
    * `GraphElement.ofGraph_spec`
-/

------------------------------------------------------------
-- Nodes And Edges
------------------------------------------------------------

namespace GraphRewriting

/- The keys of an edge element that a label must not have. -/
def edgeKeys : List String :=
  ["id", "from", "to"]

/-
  A node that is written as a node element has a label with
  the key of its id.
-/
def Node.HasClash (node : Node) : Prop :=
  node.id.isBase = false ∧ "id" ∈ node.labels

/- An edge has a label with a key of its element. -/
def Edge.HasClash (edge : Edge) : Prop :=
  ∃ key ∈ edgeKeys, key ∈ edge.labels

instance (node : Node) : Decidable node.HasClash :=
  inferInstanceAs (Decidable (_ ∧ _))

instance (edge : Edge) : Decidable edge.HasClash :=
  inferInstanceAs
    (Decidable (∃ key ∈ edgeKeys, key ∈ edge.labels))

/- A node is read back from its element. -/
theorem NodeElement.ofNode_spec
    {node : Node}
    (hName : Labels.nameKey ∈ node.labels) :
    SucceedsUnless ("id" ∈ node.labels)
      (fun element => element.toNode = .ok node)
        (NodeElement.ofNode node) := by
  have hAttributes :=
    Labels.attributes_spec node.labels ["id"] (.node node.id)
  refine (hAttributes.map ?_).congr (by simp)
  rintro attributes rfl
  unfold NodeElement.toNode
  show Except.ok (Node.mk node.id _) = _
  rw [Option.getD_some]
  exact congrArg
    (fun labels => Except.ok (Node.mk node.id labels))
    (Labels.setSymbol_withoutSymbol hName)

/-
  An edge is read back from its element, under the id
  that it got there.
-/
theorem EdgeElement.ofEdge_spec
    {edge : Edge}
    (hName : Labels.nameKey ∈ edge.labels)
    (id : String) :
    SucceedsUnless edge.HasClash
      (fun element =>
        element.toEdge = .ok (edge.withDocumentId id))
      (EdgeElement.ofEdge edge id) := by
  refine (Labels.attributes_spec edge.labels edgeKeys
      (.edge edge.start edge.stop)).map
    ?_
  rintro attributes rfl
  unfold EdgeElement.toEdge
  show Except.ok (Edge.mk ⟨_, some id⟩ edge.start edge.stop) = _
  rw [Option.getD_some]
  exact congrArg
    (fun labels =>
      Except.ok
        (Edge.mk ⟨labels, some id⟩ edge.start edge.stop))
    (Labels.setSymbol_withoutSymbol hName)

end GraphRewriting

------------------------------------------------------------
-- Numbering
------------------------------------------------------------

namespace GraphRewriting

/-
  The document ids that edges carry, in the
  order of the edges.
-/
def carriedIds (edges : List Edge) : List String :=
  edges.filterMap fun edge => edge.documentId

/- Edges with the ids that they get in a document. -/
def numberEdges
    (taken : Std.ExtTreeSet String)
    (last : Nat) :
    List Edge → List Edge
  | [] => []
  | edge :: rest =>
      match edge.documentId with
      | some _ => edge :: numberEdges taken last rest
      | none =>
          let number := freshEdgeNumber taken last
          let id := numberedEdgeId number
          edge.withDocumentId id ::
            numberEdges (taken.insert id) number rest

variable {taken : Std.ExtTreeSet String}
variable {last : Nat}
variable {edges : List Edge}

theorem carriedIds_cons_some
    {edge : Edge}
    {id : String}
    (h : edge.documentId = some id) :
    carriedIds (edge :: edges) = id :: carriedIds edges :=
  List.filterMap_cons_some h

theorem carriedIds_cons_none
    {edge : Edge}
    (h : edge.documentId = none) :
    carriedIds (edge :: edges) = carriedIds edges :=
  List.filterMap_cons_none h

/- Numbering changes nothing but document ids. -/
theorem map_plain_numberEdges :
    (numberEdges taken last edges).map Edge.plain =
      edges.map Edge.plain := by
  induction edges generalizing taken last with
  | nil => rfl
  | cons edge edges ih =>
      unfold numberEdges
      cases edge.documentId with
      | some id =>
          dsimp only
          rw [List.map_cons, List.map_cons, ih]
      | none =>
          dsimp only
          rw [List.map_cons, List.map_cons, ih]
          rfl

/- An id is one that was there before, or new. -/
private theorem mem_displayedIds_numberEdges
    {id : String}
    (h :
      id ∈
        (numberEdges taken last edges).map Edge.displayedId) :
    id ∈ carriedIds edges ∨ id ∉ taken := by
  induction edges generalizing taken last with
  | nil => cases h
  | cons edge edges ih =>
      unfold numberEdges at h
      cases hId : edge.documentId with
      | some own =>
          rw [hId] at h
          rw [carriedIds_cons_some hId, List.mem_cons]
          rcases List.mem_cons.1 h with rfl | hRest
          · exact Or.inl
              (Or.inl (Edge.displayedId_of_documentId hId))
          · rw [or_assoc]
            exact Or.inr (ih hRest)
      | none =>
          rw [hId] at h
          rw [carriedIds_cons_none hId]
          rcases List.mem_cons.1 h with rfl | hRest
          · exact Or.inr (freshEdgeNumber_spec taken last).2
          · rcases ih hRest with hOld | hNew
            · exact Or.inl hOld
            · exact Or.inr fun hMem =>
                hNew (Std.ExtTreeSet.mem_insert.2 (Or.inr hMem))

/-
  Edges with distinct ids, as far as they have
  any, get distinct ids.
-/
theorem displayedIds_numberEdges_nodup
    (hNodup : (carriedIds edges).Nodup)
    (hTaken : ∀ id ∈ carriedIds edges, id ∈ taken) :
    ((numberEdges taken last edges).map
      Edge.displayedId).Nodup := by
  induction edges generalizing taken last with
  | nil => exact List.nodup_nil
  | cons edge edges ih =>
      unfold numberEdges
      cases hId : edge.documentId with
      | some own =>
          rw [carriedIds_cons_some hId] at hNodup hTaken
          rw [List.nodup_cons] at hNodup
          rw [List.forall_mem_cons] at hTaken
          dsimp only
          rw [List.map_cons, List.nodup_cons,
            Edge.displayedId_of_documentId hId]
          refine ⟨?_, ih hNodup.2 hTaken.2⟩
          intro hMem
          rcases mem_displayedIds_numberEdges hMem with
            hOld | hNew
          · exact hNodup.1 hOld
          · exact hNew hTaken.1
      | none =>
          rw [carriedIds_cons_none hId] at hNodup hTaken
          have hFree := (freshEdgeNumber_spec taken last).2
          have hSelf :
              numberedEdgeId (freshEdgeNumber taken last) ∈
                taken.insert
                  (numberedEdgeId
                    (freshEdgeNumber taken last)) :=
            Std.ExtTreeSet.mem_insert_self
          have hInsert :
              ∀ id ∈ carriedIds edges,
                id ∈ taken.insert
                  (numberedEdgeId
                    (freshEdgeNumber taken last)) := by
            intro id hMem
            exact Std.ExtTreeSet.mem_insert.2
              (Or.inr (hTaken id hMem))
          dsimp only
          rw [List.map_cons, List.nodup_cons]
          refine ⟨?_, ih hNodup hInsert⟩
          intro hMem
          rcases mem_displayedIds_numberEdges hMem with
            hOld | hNew
          · exact hFree (hTaken _ hOld)
          · exact hNew hSelf

/- The ids that edges carry are among those that they get. -/
private theorem carriedIds_sublist :
    (carriedIds edges).Sublist
      ((numberEdges taken last edges).map
        Edge.displayedId) := by
  induction edges generalizing taken last with
  | nil => exact List.Sublist.slnil
  | cons edge edges ih =>
      unfold numberEdges
      cases hId : edge.documentId with
      | some own =>
          dsimp only
          rw [carriedIds_cons_some hId, List.map_cons,
            Edge.displayedId_of_documentId hId]
          exact ih.cons_cons own
      | none =>
          dsimp only
          rw [carriedIds_cons_none hId, List.map_cons]
          exact ih.cons _

/-
  The ids that edges get are distinct exactly if those
  that they carry are.
-/
theorem displayedIds_documentIds_nodup_iff :
    ((numberEdges (documentIds edges) last edges).map
      Edge.displayedId).Nodup ↔
      (carriedIds edges).Nodup := by
  constructor
  · exact fun h => h.sublist carriedIds_sublist
  · intro h
    apply displayedIds_numberEdges_nodup h
    intro id hId
    exact
      Std.ExtTreeSet.mem_ofList.2 (List.contains_iff_mem.2 hId)

/-
  Edges are read back from their elements, with the
  ids they got there.
-/
theorem edgeElements_spec
    (hNames : ∀ edge ∈ edges, Labels.nameKey ∈ edge.labels) :
    SucceedsUnless (∃ edge ∈ edges, edge.HasClash)
      (fun elements =>
        elements.map EdgeElement.toEdge =
          (numberEdges taken last edges).map .ok)
      (edgeElements taken last edges) := by
  induction edges generalizing taken last with
  | nil =>
      have hNone :
          ¬ ∃ edge ∈ ([] : List Edge), edge.HasClash := by
        simp
      exact .ok rfl hNone
  | cons edge edges ih =>
      rw [List.forall_mem_cons] at hNames
      unfold edgeElements numberEdges
      cases hId : edge.documentId with
      | some own =>
          have hOwn : edge.withDocumentId own = edge := by
            unfold Edge.withDocumentId
            rw [← hId]
          have hElement := EdgeElement.ofEdge_spec hNames.1 own
          rw [hOwn] at hElement
          refine
            (hElement.bind fun element hOne =>
              (ih hNames.2).map
                (f := fun elements => element :: elements)
                  ?_).congr
              (by simp)
          intro elements hRest
          rw [List.map_cons, List.map_cons, hOne, hRest]
      | none =>
          refine ((EdgeElement.ofEdge_spec hNames.1 _).bind
            fun element hOne =>
              (ih hNames.2).map
                (f := fun elements => element :: elements)
                  ?_).congr
              (by simp)
          intro elements hRest
          rw [List.map_cons, List.map_cons, hOne, hRest]

end GraphRewriting

------------------------------------------------------------
-- Graphs
------------------------------------------------------------

namespace GraphRewriting

/-
  A node or an edge of a graph has a label with a
  key of its element.
-/
def Graph.HasClash (g : Graph) : Prop :=
  (∃ node ∈ g.nodes.nodes, node.HasClash) ∨
    ∃ edge ∈ g.edges.toList, edge.HasClash

instance (g : Graph) : Decidable g.HasClash :=
  inferInstanceAs (Decidable (_ ∨ _))

/-
  Nodes and edges have symbols, even if empty ones, and no two
  edges carry the same document id.
-/
structure Graph.IsMarked (g : Graph) : Prop where
  nodesNamed :
    ∀ node ∈ g.nodes.nodes, Labels.nameKey ∈ node.labels
  edgesNamed :
    ∀ edge ∈ g.edges.toList, Labels.nameKey ∈ edge.labels
  idsNodup : (carriedIds g.edges.toList).Nodup

instance (g : Graph) : Decidable g.IsMarked :=
  decidable_of_iff
    ((∀ node ∈ g.nodes.nodes, Labels.nameKey ∈ node.labels) ∧
      (∀ edge ∈ g.edges.toList, Labels.nameKey ∈ edge.labels) ∧
        (carriedIds g.edges.toList).Nodup)
    ⟨fun h => ⟨h.1, h.2.1, h.2.2⟩,
      fun h => ⟨h.nodesNamed, h.edgesNamed, h.idsNodup⟩⟩

/-
  An element declares the nodes and edges of a graph and no
  exotic node. Edges may come with other ids, which are
  distinct.
-/
structure GraphElement.IsOf
    (element : GraphElement)
    (g : Graph) : Prop where
  base : NodeId.base ∈ g.nodes → element.base.isSome = true
  declares :
    ∃ (nodes : List Node) (edges : List Edge),
      element.Declares nodes edges ∧
        (nodes.map Node.id).Nodup ∧
        (∀ node : Node, node ∈ nodes ↔ node ∈ g.nodes.nodes) ∧
        (edges.map Edge.displayedId).Nodup ∧
        edges.map Edge.plain = g.edges.toList.map Edge.plain

theorem map_eq_map_of_forall₂
    {α β γ : Type}
    {f : α → γ}
    {g : β → γ}
    {items : List α}
    {results : List β}
    (h :
      List.Forall₂ (fun item result => g result = f item) items
        results) :
    results.map g = items.map f := by
  induction h with
  | nil => rfl
  | cons head _ ih =>
      rw [List.map_cons, List.map_cons, head, ih]

/-
  Nodes other than the base are written unless
  one of them clashes.
-/
theorem nodeElements_spec
    {nodes : List Node}
    (hNames : ∀ node ∈ nodes, Labels.nameKey ∈ node.labels) :
    SucceedsUnless (∃ node ∈ nodes, node.HasClash)
      (fun elements =>
        elements.map NodeElement.toNode =
          (nodes.filter fun node => !node.id.isBase).map .ok)
      (nodeElements nodes) := by
  have hElements :
      ∀ node ∈ nodes.filter (fun node => !node.id.isBase),
        SucceedsUnless ("id" ∈ node.labels)
          (fun element => element.toNode = .ok node)
          (NodeElement.ofNode node) := by
    intro node hNode
    exact NodeElement.ofNode_spec
      (hNames node (List.mem_of_mem_filter hNode))
  refine ((SucceedsUnless.mapM hElements).imp ?_).congr ?_
  · intro elements hForall
    exact map_eq_map_of_forall₂ hForall
  · simp only [List.mem_filter, Bool.not_eq_true',
      Node.HasClash, and_assoc]

theorem NodeStore.ids_nodup
    (store : NodeStore) :
    (store.nodes.map Node.id).Nodup := by
  rw [store.map_id_nodes]
  exact Std.ExtTreeMap.nodup_keys

theorem NodeStore.mem_iff_exists_node
    {store : NodeStore}
    {id : NodeId} :
    id ∈ store ↔ ∃ node ∈ store.nodes, node.id = id := by
  rw [mem_iff_exists_getElem?]
  constructor
  · rintro ⟨labels, hLabels⟩
    exact ⟨⟨id, labels⟩, NodeStore.mem_nodes.2 hLabels, rfl⟩
  · rintro ⟨node, hNode, rfl⟩
    exact ⟨node.labels, NodeStore.mem_nodes.1 hNode⟩

/- The node `base` of a graph is found under its id. -/
theorem NodeStore.find?_isBase
    {store : NodeStore}
    {node : Node} :
    store.nodes.find? (fun node => node.id.isBase) = some node ↔
      node ∈ store.nodes ∧ node.id.isBase = true := by
  constructor
  · intro h
    exact
      ⟨List.mem_of_find?_eq_some h,
        List.find?_some (p := fun node : Node => node.id.isBase)
          h⟩
  · rintro ⟨hMem, hBase⟩
    cases hFind :
      store.nodes.find? fun node => node.id.isBase with
    | none =>
        exact
          absurd hBase (List.find?_eq_none.1 hFind node hMem)
    | some other =>
        have hOther := List.mem_of_find?_eq_some hFind
        have hOtherBase :=
          List.find?_some
            (p := fun node : Node => node.id.isBase) hFind
        unfold NodeId.isBase at hBase hOtherBase
        rw [beq_iff_eq] at hBase hOtherBase
        rw [List.inj_on_of_nodup_map (NodeStore.ids_nodup store)
          hOther hMem (hOtherBase.trans hBase.symm)]

/- The nodes of a store, `base` before the others. -/
def NodeStore.baseFirst (store : NodeStore) : List Node :=
  (store.nodes.find? fun node => node.id.isBase).toList ++
    store.nodes.filter fun node => !node.id.isBase

/- Putting the base first loses no node. -/
theorem NodeStore.mem_baseFirst
    {store : NodeStore}
    {node : Node} :
    node ∈ store.baseFirst ↔ node ∈ store.nodes := by
  unfold NodeStore.baseFirst
  rw [List.mem_append, Option.mem_toList,
    NodeStore.find?_isBase, List.mem_filter]
  cases node.id.isBase <;> simp

theorem NodeStore.baseFirst_nodup
    (store : NodeStore) :
    (store.baseFirst.map Node.id).Nodup := by
  have hIds := NodeStore.ids_nodup store
  have hOthers :
      ((store.nodes.filter fun node => !node.id.isBase).map
        Node.id).Nodup :=
    hIds.sublist (List.filter_sublist.map Node.id)
  unfold NodeStore.baseFirst
  cases hFind :
    store.nodes.find? fun node => node.id.isBase with
  | none => exact hOthers
  | some base =>
      have hBase := (NodeStore.find?_isBase.1 hFind).2
      rw [Option.toList_some, List.singleton_append,
        List.map_cons, List.nodup_cons]
      refine ⟨?_, hOthers⟩
      intro hMem
      rcases List.mem_map.1 hMem with ⟨other, hOther, hEq⟩
      have hOrdinary := (List.mem_filter.1 hOther).2
      rw [hEq, hBase] at hOrdinary
      cases hOrdinary

namespace GraphElement

/-
  The edges of a graph with the ids that they
  get in its element.
-/
def describedEdges (g : Graph) : List Edge :=
  numberEdges (documentIds g.edges.toList) 0 g.edges.toList

/-
  An element declares the nodes of a graph, the base before the
  others, and its edges under the ids that they get, which may
  repeat each other.
-/
structure Describes
    (element : GraphElement)
    (g : Graph) : Prop where
  base : NodeId.base ∈ g.nodes → element.base.isSome = true
  declares :
    element.Declares g.nodes.baseFirst (describedEdges g)
  anchors : element.anchors = []
  wildcards : element.wildcards = []

/- A description succeeds unless a label clashes. -/
theorem ofGraph_describes
    {g : Graph}
    (hNodeNames :
      ∀ node ∈ g.nodes.nodes, Labels.nameKey ∈ node.labels)
    (hEdgeNames :
      ∀ edge ∈ g.edges.toList, Labels.nameKey ∈ edge.labels) :
    SucceedsUnless g.HasClash
      (fun element => element.Describes g) (ofGraph g) := by
  unfold ofGraph ofParts
  refine (nodeElements_spec hNodeNames).bind fun nodes hNodes =>
    (edgeElements_spec hEdgeNames).map fun edges hEdges => ?_
  refine ⟨?_, ⟨⟨_, hNodes, ?_⟩, hEdges⟩, rfl, rfl⟩
  · intro hBase
    rcases mem_iff_exists_getElem?.1 hBase with
      ⟨labels, hLabels⟩
    have hFind :
        g.nodes.nodes.find? (fun node => node.id.isBase) =
          some ⟨NodeId.base, labels⟩ :=
      NodeStore.find?_isBase.2
        ⟨NodeStore.mem_nodes.2 hLabels, rfl⟩
    dsimp only
    rw [hFind]
    rfl
  · unfold NodeStore.baseFirst baseNodes
    dsimp only
    cases hFind :
      g.nodes.nodes.find? fun node => node.id.isBase with
    | none => rfl
    | some base =>
        rcases NodeStore.find?_isBase.1 hFind with ⟨hMem, hBase⟩
        unfold NodeId.isBase at hBase
        rw [beq_iff_eq] at hBase
        have hLabels :=
          Labels.setSymbol_withoutSymbol (hNodeNames base hMem)
        rcases base with ⟨id, labels⟩
        cases hBase
        exact congrArg
          (fun labels => [Node.mk NodeId.base labels] ++ _)
          hLabels.symm

/-
  A description of a graph whose edges carry distinct ids
  declares the graph.
-/
theorem ofGraph_spec
    {g : Graph}
    (hg : g.IsMarked) :
    SucceedsUnless g.HasClash
      (fun element =>
        element.IsOf g ∧ element.anchors = [] ∧
          element.wildcards = [])
      (ofGraph g) := by
  refine (ofGraph_describes hg.nodesNamed hg.edgesNamed).imp
    fun element h => ?_
  refine ⟨⟨h.base, ?_⟩, h.anchors, h.wildcards⟩
  exact
    ⟨_, _, h.declares, NodeStore.baseFirst_nodup g.nodes,
      fun _ => NodeStore.mem_baseFirst,
      displayedIds_documentIds_nodup_iff.2 hg.idsNodup,
      map_plain_numberEdges⟩

end GraphElement

end GraphRewriting
