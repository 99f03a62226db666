import GraphRewriting.Document.Interpretation
import GraphRewriting.Proofs.Digraph.Runs
import GraphRewriting.Proofs.Exotic.Built
import GraphRewriting.Proofs.Traversal

/-
  The nodes and edges that a graph element declares, added one
  after the other. Each is refused exactly if it is not
  complete or clashes with what is already there.

  Main declarations:
    * `FitNodes`
    * `FitEdges`
    * `GraphElement.foldlM_declareNode_eq_ok_iff`
    * `GraphElement.foldlM_declareEdge_eq_ok_iff`
-/

------------------------------------------------------------
-- Adding Nodes
------------------------------------------------------------

namespace GraphRewriting

namespace ExoticGraph

variable {p : ExoticGraph}

theorem eq_of_parts
    {p q : ExoticGraph}
    (hKind : p.kind = q.kind)
    (hGraph : p.graph = q.graph)
    (hExotic : p.exotic = q.exotic) :
    p = q := by
  cases p
  cases q
  cases hKind
  cases hGraph
  cases hExotic
  rfl

/- The exotic graph that has exotic nodes and nothing else. -/
def ofExotics
    (kind : ExoticKind)
    (exotic : NodeStore) : ExoticGraph where
  kind := kind
  graph := ∅
  exotic := exotic
  disjoint := by
    intro id _ h
    have hNot : id ∉ (∅ : NodeStore) :=
      Std.ExtTreeMap.not_mem_empty
    exact hNot h

/- Add nodes one after the other. -/
def addNodes
    (p : ExoticGraph)
    (nodes : List Node) : ExoticGraph :=
  nodes.foldl addNode p

/- A node under a new id is added to the ordinary nodes. -/
theorem addNode_of_new
    {node : Node}
    (hNew : p.contains node.id = false) :
    (p.addNode node).graph = p.graph.addNode node ∧
      (p.addNode node).exotic = p.exotic := by
  have hNot :
      ¬ (node.id ∈ p.graph.nodes ∨ node.id ∈ p.exotic) := by
    rw [← contains_iff, hNew]
    exact Bool.false_ne_true
  rw [not_or] at hNot
  constructor
  · unfold addNode edgesWithout Graph.addNode
    rw [hNew, if_neg Bool.false_ne_true, if_neg hNot.1]
  · apply Std.ExtTreeMap.ext_getElem?
    intro id
    show (p.exotic.erase node.id)[id]? = _
    rw [Std.ExtTreeMap.getElem?_erase]
    split
    · rename_i hEq
      rw [Std.compare_eq_iff_eq] at hEq
      rw [← hEq, Std.ExtTreeMap.getElem?_eq_none hNot.2]
    · rfl

/-
  An id is new behind a node if it is another one
  and was new before.
-/
theorem contains_addNode_eq_false_iff
    {node : Node}
    {id : NodeId} :
    (p.addNode node).contains id = false ↔
      node.id ≠ id ∧ p.contains id = false := by
  rw [← Bool.not_eq_true, ← Bool.not_eq_true, contains_iff,
    contains_iff]
  show
    ¬ (id ∈ p.graph.nodes.put node ∨
        id ∈ p.exotic.erase node.id) ↔
      _
  unfold NodeStore.put
  rw [Std.ExtTreeMap.mem_insert, Std.ExtTreeMap.mem_erase,
    ne_eq, Std.compare_eq_iff_eq]
  by_cases h : node.id = id <;> simp [h]

end ExoticGraph

/- Nodes whose ids are new and distinct. -/
structure FitNodes
    (p : ExoticGraph)
    (nodes : List Node) : Prop where
  nodup : (nodes.map Node.id).Nodup
  isNew : ∀ node ∈ nodes, p.contains node.id = false

/-
  The first node fits if its id is free, the
  others once it is there.
-/
theorem fitNodes_cons
    {p : ExoticGraph}
    {node : Node}
    {nodes : List Node} :
    FitNodes p (node :: nodes) ↔
      p.contains node.id = false ∧
        FitNodes (p.addNode node) nodes := by
  constructor
  · rintro ⟨hNodup, hNew⟩
    rw [List.map_cons, List.nodup_cons] at hNodup
    rw [List.forall_mem_cons] at hNew
    refine ⟨hNew.1, hNodup.2, ?_⟩
    intro other hOther
    refine ExoticGraph.contains_addNode_eq_false_iff.2
      ⟨?_, hNew.2 other hOther⟩
    intro hEq
    exact hNodup.1 (hEq ▸ List.mem_map_of_mem hOther)
  · rintro ⟨hNode, hNodup, hNew⟩
    constructor
    · rw [List.map_cons, List.nodup_cons]
      refine ⟨?_, hNodup⟩
      intro hMem
      rcases List.mem_map.1 hMem with ⟨other, hOther, hEq⟩
      have hFree :=
        ExoticGraph.contains_addNode_eq_false_iff.1
          (hNew other hOther)
      exact hFree.1 hEq.symm
    · rw [List.forall_mem_cons]
      refine ⟨hNode, ?_⟩
      intro other hOther
      exact (ExoticGraph.contains_addNode_eq_false_iff.1
        (hNew other hOther)).2

/-
  Nodes under new ids are all added, and nothing else changes.
-/
theorem FitNodes.addNodes
    {p : ExoticGraph}
    {nodes : List Node}
    (h : FitNodes p nodes) :
    (p.addNodes nodes).kind = p.kind ∧
      (p.addNodes nodes).graph = p.graph.addNodes nodes ∧
        (p.addNodes nodes).exotic = p.exotic := by
  induction nodes generalizing p with
  | nil => exact ⟨rfl, rfl, rfl⟩
  | cons node nodes ih =>
      rcases fitNodes_cons.1 h with ⟨hNew, hRest⟩
      rcases ExoticGraph.addNode_of_new hNew with
        ⟨hGraph, hExotic⟩
      rcases ih hRest with ⟨hKind, hGraphs, hExotics⟩
      refine ⟨hKind, ?_, hExotics.trans hExotic⟩
      rw [Graph.addNodes_cons, ← hGraph]
      exact hGraphs

end GraphRewriting

------------------------------------------------------------
-- Declared Nodes
------------------------------------------------------------

namespace GraphRewriting

namespace GraphElement

variable {p q : ExoticGraph}

/- A declared node is added exactly if its id is new. -/
theorem declareNode_eq_ok_iff
    {node : Node} :
    declareNode p node = .ok q ↔
      p.contains node.id = false ∧ p.addNode node = q := by
  unfold declareNode
  cases p.contains node.id <;> simp

/-
  Node elements are taken in if each of them is a
  node and they fit.
-/
theorem foldlM_declareNode_eq_ok_iff
    {elements : List NodeElement} :
    elements.foldlM
        (fun graph node => do declareNode graph (← node.toNode))
        p = .ok q ↔
      ∃ nodes : List Node,
        elements.map NodeElement.toNode = nodes.map .ok ∧
          FitNodes p nodes ∧ q = p.addNodes nodes := by
  induction elements generalizing p with
  | nil =>
      constructor
      · intro h
        cases h
        exact ⟨[], rfl, ⟨List.nodup_nil, by simp⟩, rfl⟩
      · rintro ⟨nodes, hNodes, -, rfl⟩
        rw [List.map_nil, eq_comm,
          List.map_eq_nil_iff] at hNodes
        subst hNodes
        rfl
  | cons element elements ih =>
      rw [foldlM_cons_eq_ok_iff]
      constructor
      · rintro ⟨next, hNext, hRest⟩
        rcases bind_eq_ok_iff.1 hNext with
          ⟨node, hNode, hDeclare⟩
        rcases declareNode_eq_ok_iff.1 hDeclare with ⟨hNew, rfl⟩
        rcases ih.1 hRest with ⟨nodes, hNodes, hFit, rfl⟩
        refine
          ⟨node :: nodes, ?_, fitNodes_cons.2 ⟨hNew, hFit⟩, rfl⟩
        rw [List.map_cons, List.map_cons, hNode, hNodes]
      · rintro ⟨nodes, hNodes, hFit, rfl⟩
        cases nodes with
        | nil => cases hNodes
        | cons node nodes =>
            rw [List.map_cons, List.map_cons,
              List.cons.injEq] at hNodes
            rcases fitNodes_cons.1 hFit with ⟨hNew, hRest⟩
            refine
              ⟨p.addNode node, ?_,
                ih.2 ⟨nodes, hNodes.2, hRest, rfl⟩⟩
            rw [hNodes.1]
            exact declareNode_eq_ok_iff.2 ⟨hNew, rfl⟩

end GraphElement

end GraphRewriting

------------------------------------------------------------
-- Declared Edges
------------------------------------------------------------

namespace GraphRewriting

/- The id of an edge as its document displays it. -/
def Edge.displayedId (edge : Edge) : String :=
  edge.documentId.getD ""

theorem Edge.displayedId_of_documentId
    {edge : Edge}
    {id : String}
    (h : edge.documentId = some id) :
    edge.displayedId = id := by
  unfold displayedId
  rw [h, Option.getD_some]

/- The edge can join its ends, of which one must be ordinary. -/
def ExoticGraph.Admits
    (p : ExoticGraph)
    (edge : Edge) : Prop :=
  (p.contains edge.start ∧ p.contains edge.stop) ∧
    ¬ (p.isExotic edge.start ∧ p.isExotic edge.stop)

/-
  Edges whose displayed ids and pairs of ends are new and
  distinct, and that can join their ends.
-/
structure FitEdges
    (p : ExoticGraph)
    (ids : Std.ExtTreeSet String)
    (edges : List Edge) : Prop where
  idsNodup : (edges.map Edge.displayedId).Nodup
  idsNew : ∀ edge ∈ edges, edge.displayedId ∉ ids
  endsNodup :
    (edges.map fun edge => (edge.start, edge.stop)).Nodup
  endsNew :
    ∀ edge ∈ edges,
      p.graph.edges.get? edge.start edge.stop = none
  admitted : ∀ edge ∈ edges, p.Admits edge

/- The state behind a declared edge. -/
def ExoticGraph.declared
    (state : ExoticGraph × Std.ExtTreeSet String)
    (edge : Edge) : ExoticGraph × Std.ExtTreeSet String :=
  (state.1.withEdges (state.1.graph.edges.insert edge),
    state.2.insert edge.displayedId)

/-
  Edges keep clear of a larger store when they do of the old
  one and of its edge.
-/
theorem forall_get?_insert_eq_none_iff
    {store : EdgeStore}
    {edge : Edge}
    {edges : List Edge} :
    (∀ other ∈ edges,
      (store.insert edge).get? other.start other.stop = none) ↔
      (edge.start, edge.stop) ∉
        edges.map (fun other => (other.start, other.stop)) ∧
        ∀ other ∈ edges,
          store.get? other.start other.stop = none := by
  constructor
  · intro h
    constructor
    · intro hMem
      rcases List.mem_map.1 hMem with ⟨other, hOther, hEq⟩
      rw [Prod.mk.injEq] at hEq
      have hNone := h other hOther
      rw [EdgeStore.get?_insert,
        if_pos ⟨hEq.1.symm, hEq.2.symm⟩] at hNone
      cases hNone
    · intro other hOther
      have hNone := h other hOther
      rw [EdgeStore.get?_insert] at hNone
      split at hNone
      · cases hNone
      · exact hNone
  · rintro ⟨hFree, hOld⟩ other hOther
    rw [EdgeStore.get?_insert, if_neg, hOld other hOther]
    rintro ⟨hStart, hStop⟩
    apply hFree
    rw [hStart, hStop]
    exact List.mem_map.2 ⟨other, hOther, rfl⟩

/-
  The first edge fits if its id and ends are free and its ends
  known, the others once it is there.
-/
theorem fitEdges_cons
    {p : ExoticGraph}
    {ids : Std.ExtTreeSet String}
    {edge : Edge}
    {edges : List Edge} :
    FitEdges p ids (edge :: edges) ↔
      (edge.displayedId ∉ ids ∧
          p.graph.edges.get? edge.start edge.stop = none ∧
            p.Admits edge) ∧
        FitEdges (ExoticGraph.declared (p, ids) edge).1
          (ExoticGraph.declared (p, ids) edge).2 edges := by
  have hIds :
      (∀ other ∈ edges,
        other.displayedId ∉ ids.insert edge.displayedId) ↔
        edge.displayedId ∉ edges.map Edge.displayedId ∧
          ∀ other ∈ edges, other.displayedId ∉ ids := by
    simp only [Std.ExtTreeSet.mem_insert, Std.compare_eq_iff_eq,
      not_or, List.mem_map, not_exists, not_and,
      eq_comm (a := edge.displayedId), forall_and]
  constructor
  · rintro ⟨hIdsNodup, hIdsNew, hEndsNodup, hEndsNew, hAdmitted⟩
    rw [List.map_cons, List.nodup_cons] at hIdsNodup hEndsNodup
    rw [List.forall_mem_cons] at hIdsNew hEndsNew hAdmitted
    exact
      ⟨⟨hIdsNew.1, hEndsNew.1, hAdmitted.1⟩, hIdsNodup.2,
        hIds.2 ⟨hIdsNodup.1, hIdsNew.2⟩, hEndsNodup.2,
        forall_get?_insert_eq_none_iff.2
          ⟨hEndsNodup.1, hEndsNew.2⟩,
        hAdmitted.2⟩
  · rintro ⟨⟨hId, hEnd, hJoin⟩, hIdsNodup, hIdsNew, hEndsNodup,
      hEndsNew, hAdmitted⟩
    rcases hIds.1 hIdsNew with ⟨hIdFree, hIdsOld⟩
    rcases forall_get?_insert_eq_none_iff.1 hEndsNew with
      ⟨hEndFree, hEndsOld⟩
    constructor
    · rw [List.map_cons, List.nodup_cons]
      exact ⟨hIdFree, hIdsNodup⟩
    · exact List.forall_mem_cons.2 ⟨hId, hIdsOld⟩
    · rw [List.map_cons, List.nodup_cons]
      exact ⟨hEndFree, hEndsNodup⟩
    · exact List.forall_mem_cons.2 ⟨hEnd, hEndsOld⟩
    · exact List.forall_mem_cons.2 ⟨hJoin, hAdmitted⟩

namespace GraphElement

variable {p : ExoticGraph}
variable {ids : Std.ExtTreeSet String}
variable {next : ExoticGraph × Std.ExtTreeSet String}

/-
  A declared edge is added exactly if it is complete and fits.
-/
theorem declareEdge_eq_ok_iff
    {element : EdgeElement} :
    declareEdge (p, ids) element = .ok next ↔
      ∃ edge : Edge,
        element.toEdge = .ok edge ∧
          (edge.displayedId ∉ ids ∧
            p.graph.edges.get? edge.start edge.stop = none ∧
              p.Admits edge) ∧
          next = ExoticGraph.declared (p, ids) edge := by
  unfold declareEdge
  rw [bind_eq_ok_iff]
  refine exists_congr fun edge => and_congr_right fun _ => ?_
  unfold EdgeStore.contains
  dsimp only
  by_cases hId : edge.displayedId ∈ ids
  · have hContains :
        ids.contains (edge.documentId.getD "") = true :=
      hId
    simp [hId, hContains]
  have hContains :
      ids.contains (edge.documentId.getD "") = false :=
    Bool.eq_false_iff.2 hId
  rw [hContains, if_neg Bool.false_ne_true]
  cases p.graph.edges.get? edge.start edge.stop with
  | some info => simp
  | none =>
      rw [Option.isSome_none, if_neg Bool.false_ne_true,
        bind_eq_ok_iff]
      constructor
      · rintro ⟨q, hq, hNext⟩
        rcases ExoticGraph.addEdge_eq_ok.1 hq with
          ⟨hJoined, hSeparate, rfl⟩
        cases hNext
        exact ⟨⟨hId, rfl, hJoined, hSeparate⟩, rfl⟩
      · rintro ⟨⟨-, -, hJoined, hSeparate⟩, rfl⟩
        exact
          ⟨_,
            ExoticGraph.addEdge_eq_ok.2
              ⟨hJoined, hSeparate, rfl⟩,
            rfl⟩

/-
  Edge elements are taken in if each of them is an
  edge and they fit.
-/
theorem foldlM_declareEdge_eq_ok_iff
    {elements : List EdgeElement} :
    elements.foldlM declareEdge (p, ids) = .ok next ↔
      ∃ edges : List Edge,
        elements.map EdgeElement.toEdge = edges.map .ok ∧
          FitEdges p ids edges ∧
            next =
              edges.foldl ExoticGraph.declared (p, ids) := by
  induction elements generalizing p ids with
  | nil =>
      constructor
      · intro h
        cases h
        exact ⟨[], rfl, by constructor <;> simp, rfl⟩
      · rintro ⟨edges, hEdges, -, rfl⟩
        rw [List.map_nil, eq_comm,
          List.map_eq_nil_iff] at hEdges
        subst hEdges
        rfl
  | cons element elements ih =>
      rw [foldlM_cons_eq_ok_iff]
      constructor
      · rintro ⟨state, hState, hRest⟩
        rcases declareEdge_eq_ok_iff.1 hState with
          ⟨edge, hEdge, hFit, rfl⟩
        rcases ih.1 hRest with ⟨edges, hEdges, hFits, rfl⟩
        refine
          ⟨edge :: edges, ?_, fitEdges_cons.2 ⟨hFit, hFits⟩,
            rfl⟩
        rw [List.map_cons, List.map_cons, hEdge, hEdges]
      · rintro ⟨edges, hEdges, hFit, rfl⟩
        cases edges with
        | nil => cases hEdges
        | cons edge edges =>
            rw [List.map_cons, List.map_cons,
              List.cons.injEq] at hEdges
            rcases fitEdges_cons.1 hFit with ⟨hEdge, hRest⟩
            refine ⟨ExoticGraph.declared (p, ids) edge, ?_,
              ih.2 ⟨edges, hEdges.2, hRest, rfl⟩⟩
            exact declareEdge_eq_ok_iff.2
              ⟨edge, hEdges.1, hEdge, rfl⟩

/- An id that was seen is refused. -/
private theorem declareEdge_of_mem
    {element : EdgeElement}
    {edge : Edge}
    (hEdge : element.toEdge = .ok edge)
    (hId : edge.displayedId ∈ ids) :
    declareEdge (p, ids) element =
      .error
        (.badDocument
          (.edgeIdRedeclared edge.displayedId)) := by
  have hContains :
      ids.contains (edge.documentId.getD "") = true :=
    hId
  unfold declareEdge
  rw [hEdge]
  exact if_pos hContains

/-
  Edges that are complete and can join their ends are
  refused over an id alone.
-/
theorem exists_idRedeclared_of_not_fitEdges
    {elements : List EdgeElement}
    {edges : List Edge}
    (hEdges : elements.map EdgeElement.toEdge = edges.map .ok)
    (hEndsNodup :
      (edges.map fun edge => (edge.start, edge.stop)).Nodup)
    (hEndsNew :
      ∀ edge ∈ edges,
        p.graph.edges.get? edge.start edge.stop = none)
    (hAdmitted : ∀ edge ∈ edges, p.Admits edge)
    (hIds : ¬ FitEdges p ids edges) :
    ∃ id : String,
      elements.foldlM declareEdge (p, ids) =
        .error (.badDocument (.edgeIdRedeclared id)) := by
  induction edges generalizing elements p ids with
  | nil => exact absurd (by constructor <;> simp) hIds
  | cons edge edges ih =>
      cases elements with
      | nil => cases hEdges
      | cons element elements =>
          rw [List.map_cons, List.map_cons,
            List.cons.injEq] at hEdges
          rw [List.map_cons, List.nodup_cons] at hEndsNodup
          rw [List.forall_mem_cons] at hEndsNew hAdmitted
          rw [List.foldlM_cons]
          by_cases hId : edge.displayedId ∈ ids
          · exact
              ⟨edge.displayedId,
                by rw [declareEdge_of_mem hEdges.1 hId]; rfl⟩
          · have hStep :
                declareEdge (p, ids) element =
                  .ok (ExoticGraph.declared (p, ids) edge) :=
              declareEdge_eq_ok_iff.2
                ⟨edge, hEdges.1, ⟨hId, hEndsNew.1, hAdmitted.1⟩,
                  rfl⟩
            have hRest :
                ¬ FitEdges
                  (ExoticGraph.declared (p, ids) edge).1
                (ExoticGraph.declared (p, ids) edge).2 edges :=
              fun hFit =>
                hIds
                  (fitEdges_cons.2
                    ⟨⟨hId, hEndsNew.1, hAdmitted.1⟩, hFit⟩)
            rw [hStep]
            exact ih hEdges.2 hEndsNodup.2
              (forall_get?_insert_eq_none_iff.2
                ⟨hEndsNodup.1, hEndsNew.2⟩)
              hAdmitted.2 hRest

end GraphElement

/- In the end all edges are inserted. -/
theorem ExoticGraph.fst_foldl_declared
    (p : ExoticGraph)
    (ids : Std.ExtTreeSet String)
    (edges : List Edge) :
    (edges.foldl declared (p, ids)).1 =
      p.withEdges (p.graph.edges.insertAll edges) := by
  induction edges generalizing p ids with
  | nil => rfl
  | cons edge edges ih =>
      rw [List.foldl_cons]
      exact ih _ _

end GraphRewriting
