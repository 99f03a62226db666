import GraphRewriting.Proofs.Document.Declaring

/-
  The graphs that graph elements describe. An element is
  accepted exactly if its nodes and edges are complete, do not
  clash with each other, and the edges join what is there; its
  graph then holds what it declares and nothing else.

  Main declarations:
    * `IsAcceptable`
    * `ExoticGraph.assemble`
    * `GraphElement.Declares`
    * `GraphElement.fill_ofExotics_eq_ok_iff`
-/

------------------------------------------------------------
-- Accepted Elements
------------------------------------------------------------

namespace GraphRewriting

/-
  Nodes and edges that make a graph together with some exotic
  nodes.
-/
structure IsAcceptable
    (exotic : NodeStore)
    (nodes : List Node)
    (edges : List Edge) : Prop where
  nodesNodup : (nodes.map Node.id).Nodup
  ordinary : ∀ node ∈ nodes, node.id ∉ exotic
  idsNodup : (edges.map Edge.displayedId).Nodup
  endsNodup :
    (edges.map fun edge => (edge.start, edge.stop)).Nodup
  starts :
    ∀ edge ∈ edges,
      edge.start ∈ nodes.map Node.id ∨ edge.start ∈ exotic
  stops :
    ∀ edge ∈ edges,
      edge.stop ∈ nodes.map Node.id ∨ edge.stop ∈ exotic
  separate :
    ∀ edge ∈ edges, ¬ (edge.start ∈ exotic ∧ edge.stop ∈ exotic)

/- The exotic graph of some exotic nodes, nodes and edges. -/
def ExoticGraph.assemble
    (kind : ExoticKind)
    (exotic : NodeStore)
    (nodes : List Node)
    (edges : List Edge) : ExoticGraph :=
  ((ofExotics kind exotic).addNodes nodes).withEdges
    ((∅ : EdgeStore).insertAll edges)

section

variable {kind : ExoticKind}
variable {exotic : NodeStore}
variable {nodes : List Node}
variable {edges : List Edge}

theorem ExoticGraph.contains_ofExotics_eq_false_iff
    {id : NodeId} :
    (ofExotics kind exotic).contains id = false ↔
      id ∉ exotic := by
  rw [← Bool.not_eq_true, contains_iff]
  show ¬ (id ∈ (∅ : NodeStore) ∨ id ∈ exotic) ↔ _
  rw [or_iff_right Std.ExtTreeMap.not_mem_empty]

/-
  Among exotic nodes alone, nodes fit if their ids are
  distinct and not exotic.
-/
theorem fitNodes_ofExotics :
    FitNodes (.ofExotics kind exotic) nodes ↔
      (nodes.map Node.id).Nodup ∧
        ∀ node ∈ nodes, node.id ∉ exotic := by
  constructor
  · rintro ⟨hNodup, hNew⟩
    refine ⟨hNodup, fun node hNode => ?_⟩
    exact ExoticGraph.contains_ofExotics_eq_false_iff.1
      (hNew node hNode)
  · rintro ⟨hNodup, hNew⟩
    refine ⟨hNodup, fun node hNode => ?_⟩
    exact ExoticGraph.contains_ofExotics_eq_false_iff.2
      (hNew node hNode)

theorem FitNodes.graph_ofExotics
    (h : FitNodes (.ofExotics kind exotic) nodes) :
    ((ExoticGraph.ofExotics kind exotic).addNodes nodes).graph =
        (∅ : Graph).addNodes nodes ∧
      ((∅ : Graph).addNodes nodes).edges = ∅ := by
  have hEmpty : ∀ node ∈ nodes, node.id ∉ (∅ : Graph).nodes :=
    fun _ _ => Std.ExtTreeMap.not_mem_empty
  exact ⟨h.addNodes.2.1, Graph.edges_addNodes h.nodup hEmpty⟩

theorem FitNodes.get?_edges_addNodes
    (h : FitNodes (.ofExotics kind exotic) nodes)
    (a b : NodeId) :
    ((ExoticGraph.ofExotics kind exotic).addNodes
          nodes).graph.edges.get?
        a b = none := by
  rcases h.graph_ofExotics with ⟨hGraph, hEmpty⟩
  rw [hGraph, hEmpty]
  exact EdgeStore.get?_empty a b

/-
  By then the ids are those of the nodes and the exotic ones.
-/
theorem FitNodes.contains_addNodes
    (h : FitNodes (.ofExotics kind exotic) nodes)
    {id : NodeId} :
    ((ExoticGraph.ofExotics kind exotic).addNodes
          nodes).contains
        id = true ↔
      id ∈ nodes.map Node.id ∨ id ∈ exotic := by
  have hEmpty : id ∉ (∅ : Graph).nodes :=
    Std.ExtTreeMap.not_mem_empty
  rw [ExoticGraph.contains_iff, h.addNodes.2.1, h.addNodes.2.2]
  show id ∈ ((∅ : Graph).addNodes nodes).nodes ∨ id ∈ exotic ↔ _
  rw [Graph.mem_nodes_addNodes, or_iff_left hEmpty]

/- Acceptable content is what fits step by step. -/
theorem isAcceptable_iff_fit :
    IsAcceptable exotic nodes edges ↔
      FitNodes (.ofExotics kind exotic) nodes ∧
        FitEdges
          ((ExoticGraph.ofExotics kind exotic).addNodes nodes) ∅
          edges := by
  constructor
  · intro h
    have hNodes : FitNodes (.ofExotics kind exotic) nodes :=
      fitNodes_ofExotics.2 ⟨h.nodesNodup, h.ordinary⟩
    refine ⟨hNodes, h.idsNodup, ?_, h.endsNodup, ?_, ?_⟩
    · intro edge _
      exact Std.ExtTreeSet.not_mem_empty
    · intro edge _
      exact hNodes.get?_edges_addNodes edge.start edge.stop
    · intro edge hEdge
      refine ⟨⟨?_, ?_⟩, ?_⟩
      · exact hNodes.contains_addNodes.2 (h.starts edge hEdge)
      · exact hNodes.contains_addNodes.2 (h.stops edge hEdge)
      · rw [ExoticGraph.isExotic_iff, ExoticGraph.isExotic_iff,
          hNodes.addNodes.2.2]
        exact h.separate edge hEdge
  · rintro ⟨hNodes, hEdges⟩
    refine
      ⟨hNodes.nodup, (fitNodes_ofExotics.1 hNodes).2,
        hEdges.idsNodup, hEdges.endsNodup, ?_, ?_, ?_⟩
    · intro edge hEdge
      exact hNodes.contains_addNodes.1
        (hEdges.admitted edge hEdge).1.1
    · intro edge hEdge
      exact hNodes.contains_addNodes.1
        (hEdges.admitted edge hEdge).1.2
    · intro edge hEdge
      have hSeparate := (hEdges.admitted edge hEdge).2
      rw [ExoticGraph.isExotic_iff, ExoticGraph.isExotic_iff,
        hNodes.addNodes.2.2] at hSeparate
      exact hSeparate

end

namespace GraphElement

/- The node `base` of an element, if it gives its symbol. -/
def baseNodes (element : GraphElement) : List Node :=
  match element.base with
  | some symbol =>
      [⟨NodeId.base,
        Labels.setSymbol element.baseLabels symbol⟩]
  | none => []

/-
  The nodes and edges that an element declares are
  complete, and are these.
-/
structure Declares
    (element : GraphElement)
    (nodes : List Node)
    (edges : List Edge) : Prop where
  nodes :
    ∃ others : List Node,
      element.nodes.map NodeElement.toNode = others.map .ok ∧
        nodes = element.baseNodes ++ others
  edges : element.edges.map EdgeElement.toEdge = edges.map .ok

variable {element : GraphElement}
variable {requireBase : Bool}
variable {p q : ExoticGraph}

theorem fitNodes_nil : FitNodes p [] :=
  ⟨List.nodup_nil, by simp⟩

/-
  The base is declared if it is there when it
  has to be, and fits.
-/
theorem declareBase_eq_ok_iff :
    element.declareBase requireBase p = .ok q ↔
      (requireBase = true → element.base.isSome) ∧
        FitNodes p element.baseNodes ∧
          q = p.addNodes element.baseNodes := by
  unfold declareBase baseNodes
  cases element.base with
  | none =>
      cases requireBase with
      | true => simp
      | false =>
          simp [fitNodes_nil, ExoticGraph.addNodes, eq_comm]
  | some symbol =>
      dsimp only
      rw [declareNode_eq_ok_iff, fitNodes_cons,
        eq_comm (a := q)]
      simp [fitNodes_nil, ExoticGraph.addNodes]

/-
  Nodes fit in two parts if the second fits with
  the first one there.
-/
theorem fitNodes_append
    {first second : List Node} :
    FitNodes p (first ++ second) ↔
      FitNodes p first ∧
        FitNodes (p.addNodes first) second := by
  induction first generalizing p with
  | nil => exact (and_iff_right fitNodes_nil).symm
  | cons node first ih =>
      rw [List.cons_append, fitNodes_cons, fitNodes_cons, ih,
        and_assoc]
      rfl

/-
  An element is taken in if its base is there when needed and
  all its nodes and edges fit.
-/
theorem fill_eq_ok_iff :
    element.fill requireBase p = .ok q ↔
      (requireBase = true → element.base.isSome) ∧
        ∃ (nodes : List Node) (edges : List Edge),
          element.Declares nodes edges ∧
            FitNodes p nodes ∧
              FitEdges (p.addNodes nodes) ∅ edges ∧
            q = (p.addNodes nodes).withEdges
              ((p.addNodes nodes).graph.edges.insertAll
                edges) := by
  unfold fill
  rw [bind_eq_ok_iff]
  constructor
  · rintro ⟨withBase, hBase, hRest⟩
    rcases bind_eq_ok_iff.1 hRest with
      ⟨withNodes, hNodes, hRest⟩
    rcases bind_eq_ok_iff.1 hRest with ⟨final, hEdges, hFinal⟩
    rcases declareBase_eq_ok_iff.1 hBase with
      ⟨hSome, hFitBase, rfl⟩
    rcases foldlM_declareNode_eq_ok_iff.1 hNodes with
      ⟨others, hOthers, hFit, rfl⟩
    rcases foldlM_declareEdge_eq_ok_iff.1 hEdges with
      ⟨edges, hMap, hFitEdges, rfl⟩
    have hAppend :
        (p.addNodes element.baseNodes).addNodes others =
          p.addNodes (element.baseNodes ++ others) :=
      List.foldl_append.symm
    rw [hAppend] at hFitEdges hFinal
    refine
      ⟨hSome, element.baseNodes ++ others, edges,
        ⟨⟨others, hOthers, rfl⟩, hMap⟩,
        fitNodes_append.2 ⟨hFitBase, hFit⟩, hFitEdges, ?_⟩
    rw [← ExoticGraph.fst_foldl_declared _ ∅ edges]
    exact (Except.ok.inj hFinal).symm
  · rintro ⟨hSome, nodes, edges, ⟨⟨others, hOthers, rfl⟩, hMap⟩,
      hFit, hFitEdges, rfl⟩
    rcases fitNodes_append.1 hFit with ⟨hFitBase, hFitOthers⟩
    have hAppend :
        (p.addNodes element.baseNodes).addNodes others =
          p.addNodes (element.baseNodes ++ others) :=
      List.foldl_append.symm
    rw [← hAppend] at hFitEdges ⊢
    refine ⟨p.addNodes element.baseNodes,
      declareBase_eq_ok_iff.2 ⟨hSome, hFitBase, rfl⟩, ?_⟩
    rw [bind_eq_ok_iff]
    refine
      ⟨_,
        foldlM_declareNode_eq_ok_iff.2
          ⟨others, hOthers, hFitOthers, rfl⟩,
        ?_⟩
    rw [bind_eq_ok_iff]
    refine
      ⟨_,
        foldlM_declareEdge_eq_ok_iff.2
          ⟨edges, hMap, hFitEdges, rfl⟩,
        ?_⟩
    rw [← ExoticGraph.fst_foldl_declared _ ∅ edges]
    rfl

/-
  An element whose nodes fit and whose edges can join them is
  refused over an id alone.
-/
theorem exists_idRedeclared_of_fill
    {nodes : List Node}
    {edges : List Edge}
    (hBase : requireBase = true → element.base.isSome)
    (hDeclares : element.Declares nodes edges)
    (hNodes : FitNodes p nodes)
    (hEndsNodup :
      (edges.map fun edge => (edge.start, edge.stop)).Nodup)
    (hEndsNew :
      ∀ edge ∈ edges,
        (p.addNodes nodes).graph.edges.get? edge.start
          edge.stop = none)
    (hAdmitted : ∀ edge ∈ edges, (p.addNodes nodes).Admits edge)
    (hIds : ¬ FitEdges (p.addNodes nodes) ∅ edges) :
    ∃ id : String,
      element.fill requireBase p =
        .error (.badDocument (.edgeIdRedeclared id)) := by
  rcases hDeclares with ⟨⟨others, hOthers, rfl⟩, hMap⟩
  rcases fitNodes_append.1 hNodes with ⟨hFitBase, hFitOthers⟩
  have hAppend :
      (p.addNodes element.baseNodes).addNodes others =
        p.addNodes (element.baseNodes ++ others) :=
    List.foldl_append.symm
  rw [← hAppend] at hEndsNew hAdmitted hIds
  have hDeclareBase :
      element.declareBase requireBase p =
        .ok (p.addNodes element.baseNodes) :=
    declareBase_eq_ok_iff.2 ⟨hBase, hFitBase, rfl⟩
  have hDeclareNodes :=
    foldlM_declareNode_eq_ok_iff.2
      ⟨others, hOthers, hFitOthers, rfl⟩
  rcases
      exists_idRedeclared_of_not_fitEdges hMap hEndsNodup
        hEndsNew hAdmitted hIds with
    ⟨id, hError⟩
  refine ⟨id, ?_⟩
  unfold fill
  rw [bind_of_eq_ok hDeclareBase, bind_of_eq_ok hDeclareNodes,
    hError]
  rfl

/-
  Next to exotic nodes alone, an element is accepted exactly if
  what it declares is complete and acceptable.
-/
theorem fill_ofExotics_eq_ok_iff
    {kind : ExoticKind}
    {exotic : NodeStore} :
    element.fill requireBase (.ofExotics kind exotic) = .ok q ↔
      (requireBase = true → element.base.isSome) ∧
        ∃ (nodes : List Node) (edges : List Edge),
          element.Declares nodes edges ∧
            IsAcceptable exotic nodes edges ∧
              q = .assemble kind exotic nodes edges := by
  rw [fill_eq_ok_iff]
  refine and_congr_right fun _ =>
    exists_congr fun nodes => exists_congr fun edges =>
      and_congr_right fun _ => ?_
  rw [@isAcceptable_iff_fit kind exotic nodes edges, and_assoc]
  refine
    and_congr_right fun hNodes => and_congr_right fun _ => ?_
  rcases hNodes.graph_ofExotics with ⟨hGraph, hEmpty⟩
  rw [hGraph, hEmpty]
  rfl

end GraphElement

end GraphRewriting

------------------------------------------------------------
-- Content
------------------------------------------------------------

namespace GraphRewriting

namespace IsAcceptable

variable {kind : ExoticKind}
variable {exotic : NodeStore}
variable {nodes : List Node}
variable {edges : List Edge}

theorem kind_assemble
    (h : IsAcceptable exotic nodes edges) :
    (ExoticGraph.assemble kind exotic nodes edges).kind =
      kind :=
  (isAcceptable_iff_fit.1 h).1.addNodes.1

theorem exotic_assemble
    (h : IsAcceptable exotic nodes edges) :
    (ExoticGraph.assemble kind exotic nodes edges).exotic =
      exotic :=
  (isAcceptable_iff_fit.1 h).1.addNodes.2.2

/-
  The ordinary nodes of the graph are those that went into it.
-/
theorem mem_nodes_assemble
    (h : IsAcceptable exotic nodes edges)
    {node : Node} :
    node ∈
      (ExoticGraph.assemble kind exotic nodes
        edges).graph.nodes.nodes ↔
      node ∈ nodes := by
  have hEmpty : (∅ : Graph).nodes[node.id]? = none :=
    Std.ExtTreeMap.getElem?_empty
  show
    node ∈
        ((ExoticGraph.ofExotics kind exotic).addNodes
          nodes).graph.nodes.nodes ↔
      _
  rw [(isAcceptable_iff_fit.1 h).1.graph_ofExotics.1,
    NodeStore.mem_nodes, Graph.labels_addNodes_iff h.nodesNodup,
    hEmpty]
  simp

/- The edges of the graph are those that went into it. -/
theorem mem_edges_assemble
    (h : IsAcceptable exotic nodes edges)
    {edge : Edge} :
    edge ∈
        (ExoticGraph.assemble kind exotic nodes edges).edges ↔
      edge ∈ edges := by
  unfold ExoticGraph.edges
  rw [EdgeStore.mem_toList]
  show
    ((∅ : EdgeStore).insertAll edges).get? edge.start
          edge.stop = _ ↔
      _
  rw [EdgeStore.get?_insertAll_iff h.endsNodup,
    EdgeStore.get?_empty]
  simp

end IsAcceptable

/-
  Exotic graphs with the same kind, nodes and edges are equal.
-/
theorem ExoticGraph.eq_of_mem
    {p q : ExoticGraph}
    (hKind : p.kind = q.kind)
    (hExotic : p.exotic = q.exotic)
    (hNodes :
      ∀ node : Node,
        node ∈ p.graph.nodes.nodes ↔ node ∈ q.graph.nodes.nodes)
    (hEdges : ∀ edge : Edge, edge ∈ p.edges ↔ edge ∈ q.edges) :
    p = q := by
  apply eq_of_parts hKind _ hExotic
  apply Graph.ext_get?
  · intro id
    apply Option.ext
    intro labels
    have h := hNodes ⟨id, labels⟩
    rwa [NodeStore.mem_nodes, NodeStore.mem_nodes] at h
  · intro a b
    apply Option.ext
    intro info
    have h := hEdges ⟨info, a, b⟩
    unfold edges at h
    rwa [EdgeStore.mem_toList, EdgeStore.mem_toList] at h

end GraphRewriting
