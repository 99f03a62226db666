import GraphRewriting.Proofs.Rule.Copies
import GraphRewriting.Rule.ContextFree

/-
  What a context-free rule makes of a graph: the rewritten node
  goes, copies of the nodes of the replacement come, and the
  copy of its base takes over the edges of the rewritten node.

  Main declarations:
    * `ContextFreeRule.result`
    * `ContextFreeRule.apply_eq_result`
    * `ContextFreeRule.labels_result_iff`
    * `ContextFreeRule.get?_edges_result_iff`
    * `ContextFreeRule.hasIntegrity_result`
-/

------------------------------------------------------------
-- New Edges
------------------------------------------------------------

namespace GraphRewriting

namespace ContextFreeRule

variable {r : ContextFreeRule}
variable {target : Graph}
variable {fresh : FreshIds}
variable {node : NodeId}

/- The copy of the base. -/
def baseCopy (fresh : FreshIds) : NodeId :=
  fresh.getD NodeId.base NodeId.base

/-
  An edge at the rewritten node, taken over by
  the copy of the base.
-/
def adopted
    (fresh : FreshIds)
    (node : NodeId)
    (edge : Edge) : Edge :=
  edge.moved (redirect node (baseCopy fresh) edge.start)
    (redirect node (baseCopy fresh) edge.stop)

/- The edges that a rewrite adds when every end has an id. -/
def addedEdges
    (r : ContextFreeRule)
    (fresh : FreshIds)
    (node : NodeId)
    (target : Graph) : List Edge :=
  (r.rhs.edges.toList.map fun edge =>
      edge.moved (fresh.getD edge.start edge.start)
        (fresh.getD edge.stop edge.stop)) ++
    ((target.incoming node).map (adopted fresh node) ++
      (target.outgoing node).map (adopted fresh node))

/-
  No end is missing, so the edges to add are
  those of `addedEdges`.
-/
theorem newEdges_eq
    (hFresh : fresh.IsFresh target r.rhs.nodeIds)
    (hRhs : r.rhs.HasIntegrity) :
    r.newEdges fresh node target =
      (r.addedEdges fresh node target).map .ok := by
  unfold newEdges addedEdges
  dsimp only
  rw [FreshIds.renameEdges_eq (fun _ => hFresh.mem_of_mem_nodes)
    hRhs]
  unfold FreshIds.copyEdges
  rw [List.map_append, List.map_append, List.map_map,
    List.map_map, List.map_map]
  rfl

/- A redirected end is in the widened graph. -/
private theorem redirect_mem
    (hFresh : fresh.IsFresh target r.rhs.nodeIds)
    {id : NodeId}
    (hId : id ∈ target.nodes) :
    redirect node (baseCopy fresh) id ∈
      (target.widen fresh r.rhs.nodes).nodes := by
  unfold redirect
  split
  · exact FreshIds.getD_mem_widen r.base_mem
  · exact hFresh.mem_nodes_widen_iff.2 (Or.inl hId)

/- Both ends of an edge to add are there. -/
theorem ends_addedEdges
    (hFresh : fresh.IsFresh target r.rhs.nodeIds)
    (ht : target.HasIntegrity)
    (hRhs : r.rhs.HasIntegrity) :
    ∀ edge ∈ r.addedEdges fresh node target,
      edge.start ∈ (target.widen fresh r.rhs.nodes).nodes ∧
        edge.stop ∈ (target.widen fresh r.rhs.nodes).nodes := by
  have hAdopted :
      ∀ edge ∈ target.edges.toList,
        (adopted fresh node edge).start ∈
          (target.widen fresh r.rhs.nodes).nodes ∧
          (adopted fresh node edge).stop ∈
            (target.widen fresh r.rhs.nodes).nodes := by
    intro edge hEdge
    rcases ht edge hEdge with ⟨hStart, hStop⟩
    exact
      ⟨redirect_mem hFresh hStart, redirect_mem hFresh hStop⟩
  intro edge hEdge
  unfold addedEdges at hEdge
  rw [List.mem_append, List.mem_append] at hEdge
  rcases hEdge with hEdge | hEdge | hEdge
  · exact FreshIds.ends_copyEdges hRhs edge hEdge
  · rcases List.mem_map.1 hEdge with ⟨old, hOld, rfl⟩
    exact hAdopted old (EdgeStore.mem_incoming.1 hOld).1
  · rcases List.mem_map.1 hEdge with ⟨old, hOld, rfl⟩
    exact hAdopted old (EdgeStore.mem_outgoing.1 hOld).1

/- Without failures the edges are added one by one. -/
theorem advance_addRenamed_map_ok
    (g : Graph)
    (edges : List Edge) :
    advance addRenamed g (edges.map .ok) =
      g.addEdges edges := by
  induction edges generalizing g with
  | nil => rfl
  | cons edge edges ih =>
      unfold Graph.addEdges
      rw [List.map_cons, advance, advance]
      have hStep : addRenamed g (.ok edge) = g.addEdge edge :=
        rfl
      rw [hStep]
      cases g.addEdge edge with
      | error error => rfl
      | ok next => exact ih next

end ContextFreeRule

end GraphRewriting

------------------------------------------------------------
-- Results
------------------------------------------------------------

namespace GraphRewriting

namespace ContextFreeRule

/- The graph that a rewrite leaves when no step of it fails. -/
def result
    (r : ContextFreeRule)
    (fresh : FreshIds)
    (node : NodeId)
    (target : Graph) : Graph :=
  let widened := target.widen fresh r.rhs.nodes
  Graph.without
    ⟨widened.nodes,
        widened.edges.insertAll
          (r.addedEdges fresh node target)⟩
      [node]

variable {r : ContextFreeRule}
variable {target : Graph}
variable {fresh : FreshIds}
variable {node : NodeId}

/-
  Between graphs with integrity, fresh ids make
  every step possible.
-/
theorem replace_eq_result
    (hFresh : fresh.IsFresh target r.rhs.nodeIds)
    (ht : target.HasIntegrity)
    (hRhs : r.rhs.HasIntegrity)
    (hNode : node ∈ target.nodes) :
    r.replace fresh node target =
      (r.result fresh node target,
        .ok ⟨fresh.values, [node]⟩) := by
  have hAdd :
      advance addRenamed (target.widen fresh r.rhs.nodes)
          (r.newEdges fresh node target) =
        (⟨(target.widen fresh r.rhs.nodes).nodes,
          (target.widen fresh r.rhs.nodes).edges.insertAll
            (r.addedEdges fresh node target)⟩, none) := by
    rw [newEdges_eq hFresh hRhs, advance_addRenamed_map_ok,
      Graph.addEdges_of_ends (ends_addedEdges hFresh ht hRhs)]
  have hPresent :
      node ∈ (target.widen fresh r.rhs.nodes).nodes :=
    hFresh.mem_nodes_widen_iff.2 (Or.inl hNode)
  have hRemove :
      Graph.removeNode
          ⟨(target.widen fresh r.rhs.nodes).nodes,
            (target.widen fresh r.rhs.nodes).edges.insertAll
              (r.addedEdges fresh node target)⟩ node =
        .ok (r.result fresh node target) :=
    Graph.removeNode_eq_ok.2 ⟨hPresent, rfl⟩
  unfold replace
  unfold Graph.widen at hAdd hRemove
  dsimp only
  rw [hAdd]
  dsimp only
  rw [hRemove]

/-
  The nodes of the result: those of the target graph other than
  the rewritten one, and the copies, with their labels.
-/
theorem labels_result_iff
    (hFresh : fresh.IsFresh target r.rhs.nodeIds)
    (hNode : node ∈ target.nodes)
    {id : NodeId}
    {labels : Labels} :
    (r.result fresh node target).nodes[id]? = some labels ↔
      (id ≠ node ∧ target.nodes[id]? = some labels) ∨
        ∃ a : NodeId,
          fresh[a]? = some id ∧
            r.rhs.nodes[a]? = some labels := by
  unfold result
  rw [Graph.getElem?_nodes_without]
  simp only [List.mem_singleton]
  split
  · rename_i hId
    subst hId
    simp only [reduceCtorEq, ne_eq, not_true_eq_false,
      false_and, false_or, false_iff, not_exists, not_and]
    intro a ha
    exact absurd hNode (hFresh.absent a id ha)
  · rename_i hId
    rw [hFresh.labels_widen_iff, ne_eq, and_iff_right hId]

/-
  Rewriting a node with the symbol of the rule with
  fresh ids succeeds.
-/
theorem apply_eq_result
    {σ : Type}
    {source : IdSource σ}
    {supply rest : σ}
    (ht : target.HasIntegrity)
    (hRhs : r.rhs.HasIntegrity)
    (hSymbol : target.symbol? node = some r.symbol)
    (hDraw :
      drawIds r.name target source ∅ r.rhs.nodeIds supply =
        (.ok fresh, rest)) :
    r.apply source node target supply =
      ⟨r.result fresh node target, rest,
        .ok ⟨fresh.values, [node]⟩⟩ := by
  have hNode : node ∈ target.nodes := by
    unfold Graph.symbol? at hSymbol
    rcases Option.map_eq_some_iff.1 hSymbol with
      ⟨labels, hLabels, -⟩
    exact mem_iff_exists_getElem?.2 ⟨labels, hLabels⟩
  have hReplace :=
    replace_eq_result (drawIds_isFresh hDraw) ht hRhs hNode
  unfold apply
  rw [hSymbol]
  dsimp only
  rw [if_neg (not_not.2 rfl), hDraw]
  dsimp only
  rw [hReplace]

end ContextFreeRule

end GraphRewriting

------------------------------------------------------------
-- Copied And Adopted Edges
------------------------------------------------------------

namespace GraphRewriting

namespace ContextFreeRule

/-
  The edges of the replacement between the
  copies of its nodes.
-/
def copiedEdges
    (r : ContextFreeRule)
    (fresh : FreshIds) : List Edge :=
  r.rhs.edges.toList.map fun edge =>
    edge.moved (fresh.getD edge.start edge.start)
      (fresh.getD edge.stop edge.stop)

/-
  The edges at the rewritten node, taken over by
  the copy of the base.
-/
def adoptedEdges
    (fresh : FreshIds)
    (node : NodeId)
    (target : Graph) : List Edge :=
  (target.incoming node ++ target.outgoing node).map
    (adopted fresh node)

variable {r : ContextFreeRule}
variable {target : Graph}
variable {fresh : FreshIds}
variable {node : NodeId}

theorem addedEdges_eq_append :
    r.addedEdges fresh node target =
      r.copiedEdges fresh ++
        adoptedEdges fresh node target := by
  unfold addedEdges copiedEdges adoptedEdges
  rw [List.map_append]

theorem getElem?_base
    (hFresh : fresh.IsFresh target r.rhs.nodeIds) :
    fresh[NodeId.base]? = some (baseCopy fresh) := by
  rcases hFresh.exists_id r.base_mem with ⟨id, hId⟩
  unfold baseCopy
  rw [hId, FreshIds.getD_eq_of_getElem? hId]

theorem baseCopy_notMem
    (hFresh : fresh.IsFresh target r.rhs.nodeIds) :
    baseCopy fresh ∉ target.nodes :=
  hFresh.absent _ _ (getElem?_base hFresh)

theorem mem_copiedEdges_iff
    (hFresh : fresh.IsFresh target r.rhs.nodeIds)
    (hRhs : r.rhs.HasIntegrity)
    {info : EdgeInfo}
    {a b : NodeId} :
    ⟨info, a, b⟩ ∈ r.copiedEdges fresh ↔
      ∃ x y : NodeId,
        r.rhs.edges.get? x y = some info ∧
          fresh[x]? = some a ∧ fresh[y]? = some b :=
  hFresh.mem_copyEdges_iff hRhs

/-
  The adopted edges are those that start or end at
  the rewritten node.
-/
theorem mem_adoptedEdges_iff
    {info : EdgeInfo}
    {a b : NodeId} :
    ⟨info, a, b⟩ ∈ adoptedEdges fresh node target ↔
      ∃ x y : NodeId,
        target.edges.get? x y = some info ∧
          (x = node ∨ y = node) ∧
          redirect node (baseCopy fresh) x = a ∧
            redirect node (baseCopy fresh) y = b := by
  unfold adoptedEdges
  rw [List.mem_map]
  constructor
  · rintro ⟨edge, hEdge, hEq⟩
    cases hEq
    rcases List.mem_append.1 hEdge with hEdge | hEdge
    · rcases EdgeStore.mem_incoming.1 hEdge with ⟨hList, hStop⟩
      exact
        ⟨edge.start, edge.stop, EdgeStore.mem_toList.1 hList,
          Or.inr hStop, rfl, rfl⟩
    · rcases EdgeStore.mem_outgoing.1 hEdge with ⟨hList, hStart⟩
      exact
        ⟨edge.start, edge.stop, EdgeStore.mem_toList.1 hList,
          Or.inl hStart, rfl, rfl⟩
  · rintro ⟨x, y, hInfo, hNode, rfl, rfl⟩
    have hList : (⟨info, x, y⟩ : Edge) ∈ target.edges.toList :=
      EdgeStore.mem_toList.2 hInfo
    refine ⟨⟨info, x, y⟩, List.mem_append.2 ?_, rfl⟩
    rcases hNode with hx | hy
    · exact Or.inr (EdgeStore.mem_outgoing.2 ⟨hList, hx⟩)
    · exact Or.inl (EdgeStore.mem_incoming.2 ⟨hList, hy⟩)

/- Redirecting is injective away from the new base. -/
theorem redirect_injective
    {base x y : NodeId}
    (hx : x ≠ base)
    (hy : y ≠ base)
    (hEq : redirect node base x = redirect node base y) :
    x = y := by
  unfold redirect at hEq
  split at hEq <;> split at hEq
  · rename_i hx hy
    exact hx.trans hy.symm
  · exact absurd hEq.symm hy
  · exact absurd hEq hx
  · exact hEq

theorem redirect_self
    {base : NodeId} :
    redirect node base node = base :=
  if_pos rfl

theorem redirect_of_ne
    {base id : NodeId}
    (hId : id ≠ node) :
    redirect node base id = id :=
  if_neg hId

theorem copiedEdges_ends
    (hFresh : fresh.IsFresh target r.rhs.nodeIds)
    (hRhs : r.rhs.HasIntegrity) :
    ∀ edge ∈ r.copiedEdges fresh, ∀ other ∈ r.copiedEdges fresh,
      edge.start = other.start → edge.stop = other.stop →
        edge = other :=
  hFresh.copyEdges_ends hRhs

/- Adopted edges with the same ends are the same. -/
theorem adoptedEdges_ends
    (hFresh : fresh.IsFresh target r.rhs.nodeIds)
    (ht : target.HasIntegrity) :
    ∀ edge ∈ adoptedEdges fresh node target,
      ∀ other ∈ adoptedEdges fresh node target,
        edge.start = other.start → edge.stop = other.stop →
          edge = other := by
  have hEnds :
      ∀ (x y : NodeId) (info : EdgeInfo),
        target.edges.get? x y = some info →
        x ≠ baseCopy fresh ∧ y ≠ baseCopy fresh := by
    intro x y info hInfo
    have hNodes :=
      Graph.hasIntegrity_iff.1 ht x y
        (Option.isSome_of_eq_some hInfo)
    have hBase := baseCopy_notMem hFresh
    exact
      ⟨fun hx => hBase (hx ▸ hNodes.1),
        fun hy => hBase (hy ▸ hNodes.2)⟩
  rintro ⟨info, a, b⟩ hEdge ⟨info', a', b'⟩ hOther hStart hStop
  cases hStart
  cases hStop
  rcases mem_adoptedEdges_iff.1 hEdge with
    ⟨x, y, hInfo, -, hx, hy⟩
  rcases mem_adoptedEdges_iff.1 hOther with
    ⟨x', y', hInfo', -, hx', hy'⟩
  have hxy := hEnds x y info hInfo
  have hxy' := hEnds x' y' info' hInfo'
  rw [redirect_injective hxy.1 hxy'.1 (hx.trans hx'.symm),
    redirect_injective hxy.2 hxy'.2 (hy.trans hy'.symm),
    hInfo'] at hInfo
  cases hInfo
  rfl

end ContextFreeRule

end GraphRewriting

------------------------------------------------------------
-- Edges Of Results
------------------------------------------------------------

namespace GraphRewriting

namespace ContextFreeRule

variable {r : ContextFreeRule}
variable {target : Graph}
variable {fresh : FreshIds}
variable {node : NodeId}

/-
  The edges of the replacement that show: a self loop of its
  base gives way to a self loop of the rewritten node.
-/
def Shows
    (r : ContextFreeRule)
    (fresh : FreshIds)
    (node : NodeId)
    (target : Graph)
    (a b : NodeId)
    (info : EdgeInfo) : Prop :=
  ∃ x y : NodeId,
    r.rhs.edges.get? x y = some info ∧ fresh[x]? = some a ∧
      fresh[y]? = some b ∧
      ¬ (x = NodeId.base ∧ y = NodeId.base ∧
        (target.edges.get? node node).isSome = true)

/- Nothing is redirected to the rewritten node. -/
theorem redirect_ne
    (hFresh : fresh.IsFresh target r.rhs.nodeIds)
    (hNode : node ∈ target.nodes)
    (id : NodeId) :
    redirect node (baseCopy fresh) id ≠ node := by
  unfold redirect
  split
  · rintro hEq
    exact baseCopy_notMem hFresh (hEq ▸ hNode)
  · rename_i hId
    exact hId

/-
  An edge that is not at the rewritten node stays where it is.
-/
theorem adopted_or_unchanged
    {x y a b : NodeId}
    (hx : redirect node (baseCopy fresh) x = a)
    (hy : redirect node (baseCopy fresh) y = b) :
    (x = node ∨ y = node) ∨ (x = a ∧ y = b) := by
  by_cases hNode : x = node ∨ y = node
  · exact Or.inl hNode
  · rw [not_or] at hNode
    rw [redirect_of_ne hNode.1] at hx
    rw [redirect_of_ne hNode.2] at hy
    exact Or.inr ⟨hx, hy⟩

/-
  An adopted edge between two copies is the self loop of the
  rewritten node, now at the copy of the base.
-/
private theorem base_loop_of_adopted
    (hFresh : fresh.IsFresh target r.rhs.nodeIds)
    (ht : target.HasIntegrity)
    {x y p q a b : NodeId}
    {info : EdgeInfo}
    (hInfo : target.edges.get? p q = some info)
    (hp : redirect node (baseCopy fresh) p = a)
    (hq : redirect node (baseCopy fresh) q = b)
    (hx : fresh[x]? = some a)
    (hy : fresh[y]? = some b) :
    x = NodeId.base ∧ y = NodeId.base ∧
      (target.edges.get? node node).isSome = true := by
  have hNodes :=
    Graph.hasIntegrity_iff.1 ht p q
      (Option.isSome_of_eq_some hInfo)
  have hBase :
      ∀ c z id : NodeId,
        c ∈ target.nodes →
          redirect node (baseCopy fresh) c = id →
          fresh[z]? = some id → c = node ∧ z = NodeId.base := by
    intro c z id hc hRedirect hz
    have hcNode : c = node := by
      by_contra hNe
      rw [redirect_of_ne hNe] at hRedirect
      exact hFresh.absent z id hz (hRedirect ▸ hc)
    subst hcNode
    refine ⟨rfl, hFresh.injective z _ id hz ?_⟩
    rw [getElem?_base hFresh, ← hRedirect, redirect_self]
  rcases hBase p x a hNodes.1 hp hx with ⟨hpNode, hx⟩
  rcases hBase q y b hNodes.2 hq hy with ⟨hqNode, hy⟩
  rw [hpNode, hqNode] at hInfo
  exact ⟨hx, hy, Option.isSome_of_eq_some hInfo⟩

/-
  The edges of the result: those of the target graph, with the
  copy of the base in the place of the rewritten node, and the
  edges of the replacement that show.
-/
theorem get?_edges_result_iff
    (hFresh : fresh.IsFresh target r.rhs.nodeIds)
    (ht : target.HasIntegrity)
    (hRhs : r.rhs.HasIntegrity)
    (hNode : node ∈ target.nodes)
    {a b : NodeId}
    {info : EdgeInfo} :
    (r.result fresh node target).edges.get? a b = some info ↔
      (∃ x y : NodeId,
        target.edges.get? x y = some info ∧
          redirect node (baseCopy fresh) x = a ∧
            redirect node (baseCopy fresh) y = b) ∨
        r.Shows fresh node target a b info := by
  have hInsert :
      (target.edges.insertAll
            (r.addedEdges fresh node target)).get?
          a b = some info ↔
        ⟨info, a, b⟩ ∈ adoptedEdges fresh node target ∨
          (∀ edge ∈ adoptedEdges fresh node target,
              ¬ (edge.start = a ∧ edge.stop = b)) ∧
            (⟨info, a, b⟩ ∈ r.copiedEdges fresh ∨
              (∀ edge ∈ r.copiedEdges fresh,
                ¬ (edge.start = a ∧ edge.stop = b)) ∧
                target.edges.get? a b = some info) := by
    rw [addedEdges_eq_append, EdgeStore.insertAll,
      List.foldl_append]
    show
      (EdgeStore.insertAll (target.edges.insertAll _) _).get? a
            b = _ ↔
        _
    rw [EdgeStore.get?_insertAll_iff_of_ends
        (adoptedEdges_ends hFresh ht),
      EdgeStore.get?_insertAll_iff_of_ends
        (copiedEdges_ends hFresh hRhs)]
  unfold result
  rw [Graph.get?_edges_without]
  dsimp only
  rw [hFresh.edges_widen]
  constructor
  · intro h
    split at h
    · cases h
    · rename_i hEnds
      rw [List.mem_singleton, List.mem_singleton,
        not_or] at hEnds
      rcases hInsert.1 h with
        hAdopted | ⟨hFree, hCopied | ⟨-, hOld⟩⟩
      · rcases mem_adoptedEdges_iff.1 hAdopted with
          ⟨x, y, hInfo, -, hx, hy⟩
        exact Or.inl ⟨x, y, hInfo, hx, hy⟩
      · right
        rcases (mem_copiedEdges_iff hFresh hRhs).1 hCopied with
          ⟨x, y, hInfo, hx, hy⟩
        refine ⟨x, y, hInfo, hx, hy, ?_⟩
        rintro ⟨rfl, rfl, hLoop⟩
        rcases Option.isSome_iff_exists.1 hLoop with
          ⟨other, hOther⟩
        rw [getElem?_base hFresh, Option.some.injEq] at hx hy
        have hAdopted :
            ⟨other, a, b⟩ ∈ adoptedEdges fresh node target :=
          mem_adoptedEdges_iff.2
            ⟨node, node, hOther, Or.inl rfl,
              redirect_self.trans hx, redirect_self.trans hy⟩
        exact hFree _ hAdopted ⟨rfl, rfl⟩
      · exact Or.inl
          ⟨a, b, hOld, redirect_of_ne hEnds.1,
            redirect_of_ne hEnds.2⟩
  · rintro (⟨x, y, hInfo, hx, hy⟩ | ⟨x, y, hInfo, hx, hy,
      hLoop⟩)
    · have hEnds : ¬ (a ∈ [node] ∨ b ∈ [node]) := by
        rw [List.mem_singleton, List.mem_singleton, ← hx, ← hy]
        exact not_or.2
          ⟨redirect_ne hFresh hNode x,
            redirect_ne hFresh hNode y⟩
      rw [if_neg hEnds, hInsert]
      rcases adopted_or_unchanged hx hy with
        hAdopted | ⟨rfl, rfl⟩
      · exact Or.inl
          (mem_adoptedEdges_iff.2
            ⟨x, y, hInfo, hAdopted, hx, hy⟩)
      · -- An edge between old nodes meets no new edge, as each
        -- of those has a new end.
        have hNodes :=
          Graph.hasIntegrity_iff.1 ht x y
            (Option.isSome_of_eq_some hInfo)
        refine Or.inr ⟨?_, Or.inr ⟨?_, hInfo⟩⟩
        · rintro ⟨other, start, stop⟩ hOther ⟨rfl, rfl⟩
          rcases mem_adoptedEdges_iff.1 hOther with
            ⟨p, q, -, hAt, hp, hq⟩
          rcases hAt with rfl | rfl
          · rw [redirect_self] at hp
            exact baseCopy_notMem hFresh (hp ▸ hNodes.1)
          · rw [redirect_self] at hq
            exact baseCopy_notMem hFresh (hq ▸ hNodes.2)
        · rintro ⟨other, start, stop⟩ hOther ⟨rfl, rfl⟩
          rcases (mem_copiedEdges_iff hFresh hRhs).1 hOther with
            ⟨p, q, -, hp, -⟩
          exact hFresh.absent p _ hp hNodes.1
    · have hEnds : ¬ (a ∈ [node] ∨ b ∈ [node]) := by
        rw [List.mem_singleton, List.mem_singleton]
        rintro (rfl | rfl)
        · exact hFresh.absent x _ hx hNode
        · exact hFresh.absent y _ hy hNode
      rw [if_neg hEnds, hInsert]
      refine Or.inr
        ⟨?_,
          Or.inl
            ((mem_copiedEdges_iff hFresh hRhs).2
              ⟨x, y, hInfo, hx, hy⟩)⟩
      rintro ⟨other, start, stop⟩ hOther ⟨rfl, rfl⟩
      rcases mem_adoptedEdges_iff.1 hOther with
        ⟨p, q, hOld, -, hp, hq⟩
      exact
        hLoop (base_loop_of_adopted hFresh ht hOld hp hq hx hy)

/-
  The rewritten node is gone, the others stay, and
  the copies are new.
-/
theorem mem_nodes_result_iff
    (hFresh : fresh.IsFresh target r.rhs.nodeIds)
    (hNode : node ∈ target.nodes)
    {id : NodeId} :
    id ∈ (r.result fresh node target).nodes ↔
      (id ≠ node ∧ id ∈ target.nodes) ∨
        ∃ a : NodeId, fresh[a]? = some id :=
  hFresh.mem_nodes_iff_of_labels fun _ =>
    labels_result_iff hFresh hNode

/- A rewrite leaves no edge without its ends. -/
theorem hasIntegrity_result
    (hFresh : fresh.IsFresh target r.rhs.nodeIds)
    (ht : target.HasIntegrity)
    (hRhs : r.rhs.HasIntegrity)
    (hNode : node ∈ target.nodes) :
    (r.result fresh node target).HasIntegrity := by
  have hRedirect :
      ∀ x ∈ target.nodes,
        redirect node (baseCopy fresh) x ∈
          (r.result fresh node target).nodes := by
    intro x hx
    rw [mem_nodes_result_iff hFresh hNode]
    by_cases hxNode : x = node
    · rw [hxNode, redirect_self]
      exact Or.inr ⟨_, getElem?_base hFresh⟩
    · rw [redirect_of_ne hxNode]
      exact Or.inl ⟨hxNode, hx⟩
  rw [Graph.hasIntegrity_iff]
  intro a b hSome
  rcases Option.isSome_iff_exists.1 hSome with ⟨info, hInfo⟩
  rcases
      (get?_edges_result_iff hFresh ht hRhs hNode).1 hInfo with
    ⟨x, y, hOld, rfl, rfl⟩ | ⟨x, y, -, hx, hy, -⟩
  · have hEnds :=
      Graph.hasIntegrity_iff.1 ht x y
        (Option.isSome_of_eq_some hOld)
    exact ⟨hRedirect x hEnds.1, hRedirect y hEnds.2⟩
  · rw [mem_nodes_result_iff hFresh hNode,
      mem_nodes_result_iff hFresh hNode]
    exact ⟨Or.inr ⟨x, hx⟩, Or.inr ⟨y, hy⟩⟩

end ContextFreeRule

end GraphRewriting
