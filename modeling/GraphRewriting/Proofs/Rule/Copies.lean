import GraphRewriting.Proofs.Digraph.Runs
import GraphRewriting.Proofs.Exotic.Built
import GraphRewriting.Proofs.Rule.Drawing

/-
  Copies of the nodes of a graph under fresh ids, next to the
  nodes of a target graph, and copies of its edges between them.

  Main declarations:
    * `Graph.widen`
    * `FreshIds.IsFresh.labels_widen_iff`
    * `FreshIds.IsFresh.edges_widen`
    * `FreshIds.copyEdges`
    * `FreshIds.renameEdges_eq`
    * `FreshIds.IsFresh.mem_copyEdges_iff`
-/

------------------------------------------------------------
-- Copies Of Nodes
------------------------------------------------------------

namespace GraphRewriting

/-
  The target graph with copies of nodes under the
  ids drawn for them.
-/
def Graph.widen
    (target : Graph)
    (fresh : FreshIds)
    (nodes : NodeStore) : Graph :=
  target.addNodes (fresh.rename nodes.nodes)

namespace FreshIds

variable {fresh : FreshIds}
variable {target : Graph}
variable {g : Graph}

theorem IsFresh.mem_of_mem_nodes
    (h : fresh.IsFresh target g.nodeIds)
    {a : NodeId}
    (ha : a ∈ g.nodes) :
    a ∈ fresh :=
  (h.keys a).2 (Graph.mem_nodeIds.2 ha)

theorem IsFresh.exists_id
    (h : fresh.IsFresh target g.nodeIds)
    {a : NodeId}
    (ha : a ∈ g.nodes) :
    ∃ id : NodeId, fresh[a]? = some id :=
  mem_iff_exists_getElem?.1 (h.mem_of_mem_nodes ha)

theorem IsFresh.mem_nodes_of_getElem?
    (h : fresh.IsFresh target g.nodeIds)
    {a id : NodeId}
    (ha : fresh[a]? = some id) :
    a ∈ g.nodes :=
  Graph.mem_nodeIds.1
    ((h.keys a).1 (mem_iff_exists_getElem?.2 ⟨id, ha⟩))

theorem getD_eq_of_getElem?
    {a id : NodeId}
    (ha : fresh[a]? = some id)
    (default : NodeId) :
    fresh.getD a default = id := by
  rw [Std.ExtTreeMap.getD_eq_getD_getElem?, ha]
  rfl

/- An edge is renamed if an id was drawn for either end. -/
theorem renameEdge_eq_ok
    {edge : Edge}
    (hStart : edge.start ∈ fresh)
    (hStop : edge.stop ∈ fresh) :
    fresh.renameEdge edge =
      .ok
        (edge.moved (fresh.getD edge.start edge.start)
          (fresh.getD edge.stop edge.stop)) := by
  rcases mem_iff_exists_getElem?.1 hStart with ⟨start, hStart⟩
  rcases mem_iff_exists_getElem?.1 hStop with ⟨stop, hStop⟩
  unfold renameEdge
  rw [hStart, hStop, getD_eq_of_getElem? hStart,
    getD_eq_of_getElem? hStop]

/-
  The copies are the nodes under their drawn ids,
  with the same labels.
-/
theorem IsFresh.mem_rename_iff
    (h : fresh.IsFresh target g.nodeIds)
    {id : NodeId}
    {labels : Labels} :
    ⟨id, labels⟩ ∈ fresh.rename g.nodes.nodes ↔
      ∃ a : NodeId,
        fresh[a]? = some id ∧ g.nodes[a]? = some labels := by
  unfold rename
  rw [List.mem_map]
  constructor
  · rintro ⟨⟨a, nodeLabels⟩, hNode, hEq⟩
    have hLabels := NodeStore.mem_nodes.1 hNode
    have ha : a ∈ g.nodes :=
      mem_iff_exists_getElem?.2 ⟨_, hLabels⟩
    rcases h.exists_id ha with ⟨drawn, hDrawn⟩
    rw [getD_eq_of_getElem? hDrawn] at hEq
    cases hEq
    exact ⟨a, hDrawn, hLabels⟩
  · rintro ⟨a, ha, hLabels⟩
    refine ⟨⟨a, labels⟩, NodeStore.mem_nodes.2 hLabels, ?_⟩
    rw [getD_eq_of_getElem? ha]

/- Copies have their ids in order of the nodes. -/
theorem ids_rename
    (nodes : NodeStore) :
    (fresh.rename nodes.nodes).map Node.id =
      nodes.keys.map fun a => fresh.getD a a := by
  unfold rename NodeStore.nodes
  rw [List.map_map, List.map_map,
    ← Std.ExtTreeMap.map_fst_toList_eq_keys, List.map_map]
  rfl

theorem getD_mem_widen
    {nodes : NodeStore}
    {id : NodeId}
    (hId : id ∈ nodes) :
    fresh.getD id id ∈ (target.widen fresh nodes).nodes := by
  unfold Graph.widen
  rw [Graph.mem_nodes_addNodes, ids_rename, List.mem_map]
  exact Or.inl ⟨id, Std.ExtTreeMap.mem_keys.2 hId, rfl⟩

/- The ids of copies are just those drawn. -/
theorem IsFresh.mem_ids_rename_iff
    (h : fresh.IsFresh target g.nodeIds)
    {id : NodeId} :
    id ∈ (fresh.rename g.nodes.nodes).map Node.id ↔
      ∃ a : NodeId, fresh[a]? = some id := by
  rw [ids_rename, List.mem_map]
  constructor
  · rintro ⟨a, ha, rfl⟩
    rcases h.exists_id (Std.ExtTreeMap.mem_keys.1 ha) with
      ⟨drawn, hDrawn⟩
    rw [getD_eq_of_getElem? hDrawn]
    exact ⟨a, hDrawn⟩
  · rintro ⟨a, ha⟩
    refine
      ⟨a,
        Std.ExtTreeMap.mem_keys.2 (h.mem_nodes_of_getElem? ha),
        ?_⟩
    exact getD_eq_of_getElem? ha a

/- No two copies share an id. -/
theorem IsFresh.ids_rename_nodup
    (h : fresh.IsFresh target g.nodeIds) :
    ((fresh.rename g.nodes.nodes).map Node.id).Nodup := by
  rw [ids_rename]
  apply List.Nodup.map_on _ Std.ExtTreeMap.nodup_keys
  intro a ha b hb hEq
  rcases h.exists_id (Std.ExtTreeMap.mem_keys.1 ha) with ⟨x, hx⟩
  rcases h.exists_id (Std.ExtTreeMap.mem_keys.1 hb) with ⟨y, hy⟩
  rw [getD_eq_of_getElem? hx, getD_eq_of_getElem? hy] at hEq
  exact h.injective a b x hx (hEq ▸ hy)

/- Copies stand next to the nodes of the target graph. -/
theorem IsFresh.labels_widen_iff
    (h : fresh.IsFresh target g.nodeIds)
    {id : NodeId}
    {labels : Labels} :
    (target.widen fresh g.nodes).nodes[id]? = some labels ↔
      target.nodes[id]? = some labels ∨
        ∃ a : NodeId,
          fresh[a]? = some id ∧ g.nodes[a]? = some labels := by
  unfold Graph.widen
  rw [Graph.labels_addNodes_iff h.ids_rename_nodup,
    h.mem_rename_iff, or_comm]
  apply or_congr_left
  apply and_iff_right_of_imp
  intro hLabels hId
  rcases h.mem_ids_rename_iff.1 hId with ⟨a, ha⟩
  exact h.absent a id ha
    (mem_iff_exists_getElem?.2 ⟨labels, hLabels⟩)

theorem IsFresh.mem_nodes_widen_iff
    (h : fresh.IsFresh target g.nodeIds)
    {id : NodeId} :
    id ∈ (target.widen fresh g.nodes).nodes ↔
      id ∈ target.nodes ∨
        ∃ a : NodeId, fresh[a]? = some id := by
  unfold Graph.widen
  rw [Graph.mem_nodes_addNodes, h.mem_ids_rename_iff, or_comm]

/-
  Where some old nodes stay and the copies
  come, so do their ids.
-/
theorem IsFresh.mem_nodes_iff_of_labels
    (h : fresh.IsFresh target g.nodeIds)
    {result : Graph}
    {id : NodeId}
    {stays : Prop}
    (hLabels :
      ∀ labels : Labels,
        result.nodes[id]? = some labels ↔
          (stays ∧ target.nodes[id]? = some labels) ∨
            ∃ a : NodeId,
              fresh[a]? = some id ∧ g.nodes[a]? = some labels) :
    id ∈ result.nodes ↔
      (stays ∧ id ∈ target.nodes) ∨
        ∃ a : NodeId, fresh[a]? = some id := by
  rw [mem_iff_exists_getElem?, mem_iff_exists_getElem?]
  simp only [hLabels, exists_or, exists_and_left]
  apply or_congr_right
  rw [exists_comm]
  apply exists_congr
  intro a
  rw [exists_and_left]
  apply and_iff_left_of_imp
  intro ha
  exact mem_iff_exists_getElem?.1 (h.mem_nodes_of_getElem? ha)

/- Copies come without edges and take none away. -/
theorem IsFresh.edges_widen
    (h : fresh.IsFresh target g.nodeIds) :
    (target.widen fresh g.nodes).edges = target.edges := by
  apply Graph.edges_addNodes h.ids_rename_nodup
  intro node hNode hMem
  rcases h.mem_ids_rename_iff.1 (List.mem_map_of_mem hNode) with
    ⟨a, ha⟩
  exact h.absent a node.id ha hMem

end FreshIds

end GraphRewriting

------------------------------------------------------------
-- Copies Of Edges
------------------------------------------------------------

namespace GraphRewriting

namespace FreshIds

/-
  The edges of a graph, between the ids drawn for their ends.
-/
def copyEdges
    (fresh : FreshIds)
    (g : Graph) : List Edge :=
  g.edges.toList.map fun edge =>
    edge.moved (fresh.getD edge.start edge.start)
      (fresh.getD edge.stop edge.stop)

variable {fresh : FreshIds}
variable {target : Graph}
variable {g : Graph}

/-
  Edges between nodes that ids were drawn for
  can all be renamed.
-/
theorem renameEdges_eq
    (hFresh : ∀ id ∈ g.nodes, id ∈ fresh)
    (hg : g.HasIntegrity) :
    g.edges.toList.map fresh.renameEdge =
      (fresh.copyEdges g).map .ok := by
  unfold copyEdges
  rw [List.map_map]
  apply List.map_congr_left
  intro edge hEdge
  rcases hg edge hEdge with ⟨hStart, hStop⟩
  exact renameEdge_eq_ok (hFresh edge.start hStart)
    (hFresh edge.stop hStop)

/- Copied edges end at copies. -/
theorem ends_copyEdges
    (hg : g.HasIntegrity) :
    ∀ edge ∈ fresh.copyEdges g,
      edge.start ∈ (target.widen fresh g.nodes).nodes ∧
        edge.stop ∈ (target.widen fresh g.nodes).nodes := by
  intro edge hEdge
  rcases List.mem_map.1 hEdge with ⟨old, hOld, rfl⟩
  rcases hg old hOld with ⟨hStart, hStop⟩
  exact ⟨getD_mem_widen hStart, getD_mem_widen hStop⟩

/-
  The copied edges are the edges of the graph, between the
  copies of their ends.
-/
theorem IsFresh.mem_copyEdges_iff
    (h : fresh.IsFresh target g.nodeIds)
    (hg : g.HasIntegrity)
    {info : EdgeInfo}
    {a b : NodeId} :
    ⟨info, a, b⟩ ∈ fresh.copyEdges g ↔
      ∃ x y : NodeId,
        g.edges.get? x y = some info ∧ fresh[x]? = some a ∧
          fresh[y]? = some b := by
  unfold copyEdges
  rw [List.mem_map]
  constructor
  · rintro ⟨edge, hEdge, hEq⟩
    rcases h.exists_id (hg edge hEdge).1 with ⟨start, hStart⟩
    rcases h.exists_id (hg edge hEdge).2 with ⟨stop, hStop⟩
    rw [getD_eq_of_getElem? hStart,
      getD_eq_of_getElem? hStop] at hEq
    cases hEq
    exact
      ⟨edge.start, edge.stop, EdgeStore.mem_toList.1 hEdge,
        hStart, hStop⟩
  · rintro ⟨x, y, hInfo, hx, hy⟩
    refine ⟨⟨info, x, y⟩, EdgeStore.mem_toList.2 hInfo, ?_⟩
    rw [getD_eq_of_getElem? hx, getD_eq_of_getElem? hy]
    rfl

/- Copies with the same ends are copies of one edge. -/
theorem IsFresh.copyEdges_ends
    (h : fresh.IsFresh target g.nodeIds)
    (hg : g.HasIntegrity) :
    ∀ edge ∈ fresh.copyEdges g, ∀ other ∈ fresh.copyEdges g,
      edge.start = other.start → edge.stop = other.stop →
        edge = other := by
  rintro ⟨info, a, b⟩ hEdge ⟨info', a', b'⟩ hOther hStart hStop
  cases hStart
  cases hStop
  rcases (h.mem_copyEdges_iff hg).1 hEdge with
    ⟨x, y, hInfo, hx, hy⟩
  rcases (h.mem_copyEdges_iff hg).1 hOther with
    ⟨x', y', hInfo', hx', hy'⟩
  rw [h.injective x x' a hx hx', h.injective y y' b hy hy',
    hInfo'] at hInfo
  cases hInfo
  rfl

end FreshIds

end GraphRewriting
