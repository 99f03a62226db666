import GraphRewriting.Digraph.Basic
import Mathlib.Data.List.Nodup
import Mathlib.Data.Prod.Basic

/-
  Runs of changes to a graph: many nodes are added, many edges
  are added, and many nodes are removed. A run that stops
  halfway keeps what every step of it preserves.

  Main declarations:
    * `settle_preserves`
    * `advance_preserves_of_mem`
    * `advance_preserves`
    * `Graph.labels_addNodes_iff`
    * `EdgeStore.ends_nodup`
    * `EdgeStore.get?_insertAll_iff_of_ends`
    * `EdgeStore.get?_insertAll_iff`
    * `Graph.addEdges_of_ends`
    * `Graph.removeNodes_of_nodup`
-/

------------------------------------------------------------
-- Steps
------------------------------------------------------------

namespace GraphRewriting

variable {σ α ε : Type}
variable {step : σ → α → Except ε σ}

/-
  The next state, or the old one with the error
  of the step to it.
-/
def settle (state : σ) : Except ε σ → σ × Option ε
  | .ok next => (next, none)
  | .error error => (state, some error)

/- What a step preserves holds whether or not it is taken. -/
theorem settle_preserves
    {holds : σ → Prop}
    {state : σ}
    {next : Except ε σ}
    (hState : holds state)
    (hNext :
      ∀ reached : σ, next = .ok reached → holds reached) :
    holds (settle state next).1 := by
  cases next with
  | ok reached => exact hNext reached rfl
  | error error => exact hState

/-
  What the steps for some items preserve holds wherever a
  run over them stops.
-/
theorem advance_preserves_of_mem
    {holds : σ → Prop}
    {items : List α}
    (hStep :
      ∀ (state next : σ), ∀ item ∈ items,
        holds state → step state item = .ok next → holds next)
    {state : σ}
    (hState : holds state) :
    holds (advance step state items).1 := by
  induction items generalizing state with
  | nil => exact hState
  | cons item items ih =>
      unfold advance
      cases hNext : step state item with
      | error error => exact hState
      | ok next =>
          apply ih
          · intro state next other hOther
            exact hStep state next other
              (List.mem_cons_of_mem item hOther)
          · exact hStep state next item List.mem_cons_self
              hState hNext

/- What each step preserves holds wherever a run stops. -/
theorem advance_preserves
    {holds : σ → Prop}
    (hStep :
      ∀ (state next : σ) (item : α),
        holds state → step state item = .ok next → holds next)
    {state : σ}
    (hState : holds state)
    (items : List α) :
    holds (advance step state items).1 :=
  advance_preserves_of_mem
    (fun state next item _ => hStep state next item) hState

/- The error of a run is the error of one of its steps. -/
theorem exists_error_of_advance
    {state : σ}
    {items : List α}
    {error : ε}
    (h : (advance step state items).2 = some error) :
    ∃ (reached : σ) (item : α),
      item ∈ items ∧ step reached item = .error error := by
  induction items generalizing state with
  | nil => cases h
  | cons item items ih =>
      unfold advance at h
      cases hNext : step state item with
      | error other =>
          rw [hNext] at h
          cases h
          exact ⟨state, item, List.mem_cons_self, hNext⟩
      | ok next =>
          rw [hNext] at h
          rcases ih h with ⟨reached, other, hOther, hError⟩
          exact
            ⟨reached, other, List.mem_cons_of_mem item hOther,
              hError⟩

end GraphRewriting

------------------------------------------------------------
-- Adding Nodes
------------------------------------------------------------

namespace GraphRewriting

/- A node is told by its id and its labels. -/
theorem Node.labels_eq_iff
    {node : Node}
    {labels : Labels} :
    node.labels = labels ↔
      (⟨node.id, labels⟩ : Node) = node := by
  rcases node with ⟨id, own⟩
  simp [eq_comm]

theorem Node.mk_ne_of_id_ne
    {node : Node}
    {id : NodeId}
    (hId : node.id ≠ id)
    (labels : Labels) :
    (⟨id, labels⟩ : Node) ≠ node := by
  rintro rfl
  exact hId rfl

namespace Graph

theorem addNodes_cons
    (g : Graph)
    (node : Node)
    (nodes : List Node) :
    g.addNodes (node :: nodes) =
      (g.addNode node).addNodes nodes := rfl

/- The nodes added join those already there. -/
theorem mem_nodes_addNodes
    {g : Graph}
    {nodes : List Node}
    {id : NodeId} :
    id ∈ (g.addNodes nodes).nodes ↔
      id ∈ nodes.map Node.id ∨ id ∈ g.nodes := by
  induction nodes generalizing g with
  | nil => simp [addNodes]
  | cons node nodes ih =>
      rw [addNodes_cons, ih, mem_nodes_addNode, List.map_cons,
        List.mem_cons, ← or_assoc, eq_comm]
      exact or_congr_left or_comm

/-
  Nodes with distinct ids are added with their labels,
  next to the old ones.
-/
theorem labels_addNodes_iff
    {g : Graph}
    {nodes : List Node}
    (hNodup : (nodes.map Node.id).Nodup)
    {id : NodeId}
    {labels : Labels} :
    (g.addNodes nodes).nodes[id]? = some labels ↔
      ⟨id, labels⟩ ∈ nodes ∨
        id ∉ nodes.map Node.id ∧
          g.nodes[id]? = some labels := by
  induction nodes generalizing g with
  | nil => simp [addNodes]
  | cons node nodes ih =>
      rw [List.map_cons, List.nodup_cons] at hNodup
      rw [addNodes_cons, ih hNodup.2, getElem?_nodes_addNode,
        List.map_cons, List.mem_cons, List.mem_cons, not_or]
      by_cases hId : node.id = id
      · subst hId
        have hNot : ⟨node.id, labels⟩ ∉ nodes := by
          intro hMem
          exact hNodup.1 (List.mem_map.2 ⟨_, hMem, rfl⟩)
        simp [hNot, hNodup.1, Node.labels_eq_iff]
      · have hNe := Node.mk_ne_of_id_ne hId labels
        have hId' : id ≠ node.id := fun hEq => hId hEq.symm
        simp [hId, hId', hNe]

/- Nodes under new ids leave the edges as they are. -/
theorem edges_addNodes
    {g : Graph}
    {nodes : List Node}
    (hNodup : (nodes.map Node.id).Nodup)
    (hNew : ∀ node ∈ nodes, node.id ∉ g.nodes) :
    (g.addNodes nodes).edges = g.edges := by
  induction nodes generalizing g with
  | nil => rfl
  | cons node nodes ih =>
      rw [List.map_cons, List.nodup_cons] at hNodup
      have hNode : node.id ∉ g.nodes := hNew node (by simp)
      have hRest :
          ∀ other ∈ nodes,
            other.id ∉ (g.addNode node).nodes := by
        intro other hOther hMem
        rcases mem_nodes_addNode.1 hMem with hEq | hMem
        · exact hNodup.1 (hEq ▸ List.mem_map_of_mem hOther)
        · exact hNew other (by simp [hOther]) hMem
      rw [addNodes_cons, ih hNodup.2 hRest]
      unfold addNode
      exact if_neg hNode

end Graph

end GraphRewriting

------------------------------------------------------------
-- Adding Edges
------------------------------------------------------------

namespace GraphRewriting

/- No two edges have the same ends. -/
theorem EdgeStore.ends_nodup
    (store : EdgeStore) :
    (store.toList.map fun edge =>
      (edge.start, edge.stop)).Nodup := by
  unfold EdgeStore.toList PairTable.entries
  rw [List.map_map, List.map_flatMap, List.nodup_flatMap]
  constructor
  · rintro ⟨a, row⟩ _
    rw [List.map_map]
    have hEnds :
        ((fun edge : Edge => (edge.start, edge.stop)) ∘
            (fun entry : NodeId × NodeId × EdgeInfo =>
              (⟨entry.2.2, entry.1, entry.2.1⟩ : Edge))) ∘
          (fun entry : NodeId × EdgeInfo =>
            (a, entry.1, entry.2)) =
          (fun b : NodeId => (a, b)) ∘ Prod.fst := rfl
    rw [hEnds, ← List.map_map,
      Std.ExtTreeMap.map_fst_toList_eq_keys]
    exact
      Std.ExtTreeMap.nodup_keys.map (Prod.mk_right_injective a)
  · have hKeys :
        (store.forward.rows.toList.map Prod.fst).Nodup := by
      rw [Std.ExtTreeMap.map_fst_toList_eq_keys]
      exact Std.ExtTreeMap.nodup_keys
    apply (List.pairwise_map.1 hKeys).imp
    intro first second hNe ends hFirst hSecond
    have hStart :
        ∀ entry : NodeId × Std.ExtTreeMap NodeId EdgeInfo,
          ends ∈
              (entry.2.toList.map fun cell =>
                (entry.1, cell.1, cell.2)).map
                ((fun edge : Edge => (edge.start, edge.stop)) ∘
                  fun cell : NodeId × NodeId × EdgeInfo =>
                    (⟨cell.2.2, cell.1, cell.2.1⟩ : Edge)) →
            ends.1 = entry.1 := by
      intro entry hMem
      rw [List.map_map] at hMem
      rcases List.mem_map.1 hMem with ⟨cell, _, rfl⟩
      rfl
    exact hNe
      ((hStart first hFirst).symm.trans (hStart second hSecond))

/- Store edges one after the other. -/
def EdgeStore.insertAll
    (store : EdgeStore)
    (edges : List Edge) : EdgeStore :=
  edges.foldl EdgeStore.insert store

/-
  Edges that are told by their ends are all stored, in place of
  the old ones. An edge may come more than once.
-/
theorem EdgeStore.get?_insertAll_iff_of_ends
    {store : EdgeStore}
    {edges : List Edge}
    (hEnds :
      ∀ edge ∈ edges, ∀ other ∈ edges,
        edge.start = other.start → edge.stop = other.stop →
          edge = other)
    {a b : NodeId}
    {info : EdgeInfo} :
    (store.insertAll edges).get? a b = some info ↔
      ⟨info, a, b⟩ ∈ edges ∨
        (∀ edge ∈ edges, ¬ (edge.start = a ∧ edge.stop = b)) ∧
          store.get? a b = some info := by
  induction edges generalizing store with
  | nil => simp [EdgeStore.insertAll]
  | cons edge edges ih =>
      have hTail :
          ∀ old ∈ edges, ∀ other ∈ edges,
            old.start = other.start → old.stop = other.stop →
              old = other := by
        intro old hOld other hOther
        exact hEnds old (List.mem_cons_of_mem _ hOld) other
          (List.mem_cons_of_mem _ hOther)
      show
        ((store.insert edge).insertAll edges).get? a b = _ ↔ _
      rw [ih hTail, EdgeStore.get?_insert, List.mem_cons,
        List.forall_mem_cons]
      by_cases hHead : edge.start = a ∧ edge.stop = b
      · have hSame :
            ∀ other ∈ edges,
              other.start = a ∧ other.stop = b →
                other = edge := by
          intro other hOther hAt
          exact hEnds other (List.mem_cons_of_mem _ hOther) edge
            List.mem_cons_self (hAt.1.trans hHead.1.symm)
            (hAt.2.trans hHead.2.symm)
        rw [if_pos hHead]
        constructor
        · rintro (hMem | ⟨-, hInfo⟩)
          · exact Or.inl (Or.inr hMem)
          · rcases edge with ⟨own, start, stop⟩
            rcases hHead with ⟨rfl, rfl⟩
            cases hInfo
            exact Or.inl (Or.inl rfl)
        · rintro ((hEq | hMem) | ⟨hOther, -⟩)
          · subst hEq
            by_cases hMem : (⟨info, a, b⟩ : Edge) ∈ edges
            · exact Or.inl hMem
            · refine Or.inr ⟨?_, rfl⟩
              intro other hOther hAt
              exact hMem (hSame other hOther hAt ▸ hOther)
          · exact Or.inl hMem
          · exact absurd hHead hOther.1
      · have hNe : (⟨info, a, b⟩ : Edge) ≠ edge := by
          rintro rfl
          exact hHead ⟨rfl, rfl⟩
        simp [hHead, hNe]

/-
  Edges with distinct ends are all stored, in
  place of the old ones.
-/
theorem EdgeStore.get?_insertAll_iff
    {store : EdgeStore}
    {edges : List Edge}
    (hNodup :
      (edges.map fun edge => (edge.start, edge.stop)).Nodup)
    {a b : NodeId}
    {info : EdgeInfo} :
    (store.insertAll edges).get? a b = some info ↔
      ⟨info, a, b⟩ ∈ edges ∨
        (∀ edge ∈ edges, ¬ (edge.start = a ∧ edge.stop = b)) ∧
          store.get? a b = some info := by
  apply get?_insertAll_iff_of_ends
  intro edge hEdge other hOther hStart hStop
  exact List.inj_on_of_nodup_map hNodup hEdge hOther
    (Prod.ext hStart hStop)

namespace Graph

/- Edges between nodes of the graph are all added. -/
theorem addEdges_of_ends
    {g : Graph}
    {edges : List Edge}
    (hEnds :
      ∀ edge ∈ edges,
        edge.start ∈ g.nodes ∧ edge.stop ∈ g.nodes) :
    g.addEdges edges =
      (⟨g.nodes, g.edges.insertAll edges⟩, none) := by
  induction edges generalizing g with
  | nil => rfl
  | cons edge edges ih =>
      rw [List.forall_mem_cons] at hEnds
      have hAdd : g.addEdge edge = .ok (g.putEdge edge) :=
        addEdge_eq_ok.2 ⟨hEnds.1.1, hEnds.1.2, rfl⟩
      unfold addEdges advance
      rw [hAdd]
      exact ih hEnds.2

end Graph

end GraphRewriting

------------------------------------------------------------
-- Removing Nodes
------------------------------------------------------------

namespace GraphRewriting

namespace Graph

/- The graph without some nodes and the edges at them. -/
def without
    (g : Graph)
    (ids : List NodeId) : Graph :=
  ids.foldl (fun g id => ⟨g.nodes.erase id, g.edges.detach id⟩)
    g

/- Only the named nodes are gone. -/
theorem getElem?_nodes_without
    (g : Graph)
    (ids : List NodeId)
    (id : NodeId) :
    (g.without ids).nodes[id]? =
      if id ∈ ids then none else g.nodes[id]? := by
  induction ids generalizing g with
  | nil => simp [without]
  | cons first ids ih =>
      show
        (without ⟨g.nodes.erase first, g.edges.detach first⟩
            ids).nodes[id]? =
          _
      rw [ih, Std.ExtTreeMap.getElem?_erase]
      by_cases hFirst : first = id
      · simp [hFirst]
      · have hNe : id ≠ first := fun hEq => hFirst hEq.symm
        simp [hFirst, hNe]

/- Only the edges at the named nodes are gone. -/
theorem get?_edges_without
    (g : Graph)
    (ids : List NodeId)
    (a b : NodeId) :
    (g.without ids).edges.get? a b =
      if a ∈ ids ∨ b ∈ ids then none else g.edges.get? a b := by
  induction ids generalizing g with
  | nil => simp [without]
  | cons first ids ih =>
      show
        (without ⟨g.nodes.erase first, g.edges.detach first⟩
              ids).edges.get?
            a b = _
      rw [ih, EdgeStore.get?_detach]
      by_cases ha : a = first <;> by_cases hb : b = first <;>
        simp [ha, hb]

/- Distinct nodes of the graph are all removed. -/
theorem removeNodes_of_nodup
    {g : Graph}
    {ids : List NodeId}
    (hNodup : ids.Nodup)
    (hMem : ∀ id ∈ ids, id ∈ g.nodes) :
    g.removeNodes ids = (g.without ids, none) := by
  induction ids generalizing g with
  | nil => rfl
  | cons first ids ih =>
      rw [List.nodup_cons] at hNodup
      rw [List.forall_mem_cons] at hMem
      have hRemove :
          g.removeNode first =
            .ok ⟨g.nodes.erase first, g.edges.detach first⟩ :=
        removeNode_eq_ok.2 ⟨hMem.1, rfl⟩
      unfold removeNodes advance
      rw [hRemove]
      apply ih hNodup.2
      intro id hId
      rw [Std.ExtTreeMap.mem_erase, ne_eq,
        Std.compare_eq_iff_eq]
      refine ⟨?_, hMem.2 id hId⟩
      rintro rfl
      exact hNodup.1 hId

end Graph

end GraphRewriting
