import GraphRewriting.Proofs.Rule.Acceptance
import GraphRewriting.Proofs.Rule.Copies

/-
  What a rule between exotic graphs makes of a graph: the
  replaced nodes go with their edges, copies of the ordinary
  nodes of the replacement come, and so do its edges, save
  those at unmatched wildcards.

  Main declarations:
    * `ExoticRule.result`
    * `ExoticRule.apply_eq_result`
    * `ExoticRule.labels_result_iff`
    * `ExoticRule.get?_edges_result_iff`
    * `ExoticRule.hasIntegrity_result`
-/

------------------------------------------------------------
-- Ends Of New Edges
------------------------------------------------------------

namespace GraphRewriting

namespace ExoticRule

variable {r : ExoticRule}
variable {m : Morphism}
variable {target : Graph}
variable {fresh : FreshIds}

theorem mem_exotic_rhs_iff
    {x : NodeId} :
    x ∈ r.rhs.exotic ↔ x ∈ r.lhs.exotic := by
  rw [← ExoticGraph.mem_exoticIds, ← ExoticGraph.mem_exoticIds,
    r.exoticIds_eq]

/-
  An end stands for the target of an exotic
  node, or for a copy.
-/
theorem resolve_eq_some_iff
    {x id : NodeId} :
    r.resolve m fresh x = some id ↔
      (x ∈ r.rhs.exotic ∧ m.target? x = some id) ∨
        (x ∉ r.rhs.exotic ∧ fresh[x]? = some id) := by
  unfold resolve
  rw [← ExoticGraph.isExotic_iff]
  by_cases hx : r.rhs.isExotic x = true <;> simp [hx]

/-
  A node of the right-hand side resolves to a node of
  the widened graph.
-/
theorem resolve_mem_widen
    (hm : r.Accepts m target)
    (hFresh : fresh.IsFresh target r.rhs.graph.nodeIds)
    {x id : NodeId}
    (hx : r.resolve m fresh x = some id) :
    id ∈ (target.widen fresh r.rhs.graph.nodes).nodes := by
  rw [hFresh.mem_nodes_widen_iff]
  rcases resolve_eq_some_iff.1 hx with
    ⟨hExotic, hTarget⟩ | ⟨-, hDrawn⟩
  · have hLhs := mem_exotic_rhs_iff.1 hExotic
    exact Or.inl
      (hm.live x id (ExoticGraph.contains_iff.2 (Or.inr hLhs))
        hTarget)
  · exact Or.inr ⟨x, hDrawn⟩

/- New edges end at no replaced node. -/
theorem resolve_notMem_replaced
    (hm : r.Accepts m target)
    (hFresh : fresh.IsFresh target r.rhs.graph.nodeIds)
    {x id : NodeId}
    (hx : r.resolve m fresh x = some id) :
    id ∉ r.replaced m := by
  rcases resolve_eq_some_iff.1 hx with
    ⟨hExotic, hTarget⟩ | ⟨-, hDrawn⟩
  · exact
      hm.notMem_replaced (mem_exotic_rhs_iff.1 hExotic) hTarget
  · exact fun hId =>
      hFresh.absent x id hDrawn
        (hm.mem_nodes_of_mem_replaced hId)

/- No two ends stand for the same node. -/
theorem resolve_injective
    (hm : r.Accepts m target)
    (hFresh : fresh.IsFresh target r.rhs.graph.nodeIds)
    {x y id : NodeId}
    (hx : r.resolve m fresh x = some id)
    (hy : r.resolve m fresh y = some id) :
    x = y := by
  have hContains :
      ∀ z : NodeId,
        z ∈ r.rhs.exotic → r.lhs.contains z = true :=
    fun z hz =>
      ExoticGraph.contains_iff.2
        (Or.inr (mem_exotic_rhs_iff.1 hz))
  rcases resolve_eq_some_iff.1 hx with ⟨hx, htx⟩ | ⟨-, hdx⟩ <;>
    rcases resolve_eq_some_iff.1 hy with ⟨hy, hty⟩ | ⟨-, hdy⟩
  · exact hm.injective x y id (hContains x hx) (hContains y hy)
      htx hty
  · exact absurd (hm.live x id (hContains x hx) htx)
      (hFresh.absent y id hdy)
  · exact absurd (hm.live y id (hContains y hy) hty)
      (hFresh.absent x id hdx)
  · exact hFresh.injective x y id hdx hdy

end ExoticRule

end GraphRewriting

------------------------------------------------------------
-- New Edges
------------------------------------------------------------

namespace GraphRewriting

namespace ExoticRule

variable {r : ExoticRule}
variable {m : Morphism}
variable {target : Graph}
variable {fresh : FreshIds}

/-
  A new edge joins what the ends of an edge of the
  replacement stand for.
-/
theorem mem_newEdges_iff
    {info : EdgeInfo}
    {a b : NodeId} :
    ⟨info, a, b⟩ ∈ r.newEdges m fresh ↔
      ∃ x y : NodeId,
        r.rhs.graph.edges.get? x y = some info ∧
          r.resolve m fresh x = some a ∧
            r.resolve m fresh y = some b := by
  unfold newEdges
  rw [List.mem_filterMap]
  constructor
  · rintro ⟨edge, hEdge, hMoved⟩
    split at hMoved
    · rename_i start stop hStart hStop
      cases hMoved
      exact
        ⟨edge.start, edge.stop, EdgeStore.mem_toList.1 hEdge,
          hStart, hStop⟩
    · cases hMoved
  · rintro ⟨x, y, hInfo, hx, hy⟩
    refine ⟨⟨info, x, y⟩, EdgeStore.mem_toList.2 hInfo, ?_⟩
    dsimp only
    rw [hx, hy]
    rfl

/- No two new edges have the same ends. -/
theorem ends_newEdges_nodup
    (hm : r.Accepts m target)
    (hFresh : fresh.IsFresh target r.rhs.graph.nodeIds) :
    ((r.newEdges m fresh).map fun edge =>
      (edge.start, edge.stop)).Nodup := by
  have hEdges : r.rhs.edges.Nodup :=
    List.Nodup.of_map _ r.rhs.graph.edges.ends_nodup
  unfold newEdges
  rw [List.map_filterMap, nodup_filterMap_iff hEdges]
  intro edge hEdge other hOther ends hEnds hSame
  rw [Option.map_eq_some_iff] at hEnds hSame
  rcases hEnds with ⟨moved, hMoved, rfl⟩
  rcases hSame with ⟨movedOther, hMovedOther, hEq⟩
  split at hMoved
  · rename_i start stop hStart hStop
    split at hMovedOther
    · rename_i start' stop' hStart' hStop'
      cases hMoved
      cases hMovedOther
      cases hEq
      have hEdge := EdgeStore.mem_toList.1 hEdge
      have hOther := EdgeStore.mem_toList.1 hOther
      have hStarts := resolve_injective hm hFresh hStart hStart'
      have hStops := resolve_injective hm hFresh hStop hStop'
      rcases edge with ⟨info, x, y⟩
      rcases other with ⟨info', x', y'⟩
      cases hStarts
      cases hStops
      rw [hEdge] at hOther
      cases hOther
      rfl
    · cases hMovedOther
  · cases hMoved

/-
  An edge of the replacement with two exotic ends would lie
  in the target graph.
-/
theorem notMem_newEdges_of_get?
    (ht : target.HasIntegrity)
    (hRhs : r.rhs.HasSeparateExotics)
    (hFresh : fresh.IsFresh target r.rhs.graph.nodeIds)
    {info old : EdgeInfo}
    {a b : NodeId}
    (hNew : ⟨info, a, b⟩ ∈ r.newEdges m fresh) :
    target.edges.get? a b ≠ some old := by
  intro hOld
  rcases mem_newEdges_iff.1 hNew with ⟨x, y, hInfo, hx, hy⟩
  have hEnds :=
    Graph.hasIntegrity_iff.1 ht a b (by rw [hOld]; rfl)
  have hExotic :
      ∀ z id : NodeId,
        r.resolve m fresh z = some id → id ∈ target.nodes →
        r.rhs.isExotic z = true := by
    intro z id hz hId
    rcases resolve_eq_some_iff.1 hz with ⟨hz, -⟩ | ⟨-, hDrawn⟩
    · exact ExoticGraph.isExotic_iff.2 hz
    · exact absurd hId (hFresh.absent z id hDrawn)
  have hSome : (r.rhs.graph.edges.get? x y).isSome = true := by
    rw [hInfo]
    rfl
  exact
    ExoticGraph.hasSeparateExotics_iff.1 hRhs x y hSome
      ⟨hExotic x a hx hEnds.1, hExotic y b hy hEnds.2⟩

end ExoticRule

end GraphRewriting

------------------------------------------------------------
-- Results
------------------------------------------------------------

namespace GraphRewriting

namespace ExoticRule

/- The graph that a rewrite leaves when no step of it fails. -/
def result
    (r : ExoticRule)
    (m : Morphism)
    (fresh : FreshIds)
    (target : Graph) : Graph :=
  let widened := target.widen fresh r.rhs.graph.nodes
  Graph.without
    ⟨widened.nodes,
      widened.edges.insertAll (r.newEdges m fresh)⟩
    (r.replaced m)

variable {r : ExoticRule}
variable {m : Morphism}
variable {target : Graph}
variable {fresh : FreshIds}

/-
  An accepted match with fresh ids makes every step of
  the rewrite possible.
-/
theorem replace_eq_result
    (hm : r.Accepts m target)
    (hFresh : fresh.IsFresh target r.rhs.graph.nodeIds) :
    r.replace m fresh (r.replaced m) target =
      (r.result m fresh target,
        .ok ⟨fresh.values, r.replaced m⟩) := by
  have hEnds :
      ∀ edge ∈ r.newEdges m fresh,
        edge.start ∈
          (target.widen fresh r.rhs.graph.nodes).nodes ∧
          edge.stop ∈
            (target.widen fresh r.rhs.graph.nodes).nodes := by
    intro edge hEdge
    rcases mem_newEdges_iff.1 hEdge with ⟨x, y, -, hx, hy⟩
    exact
      ⟨resolve_mem_widen hm hFresh hx,
        resolve_mem_widen hm hFresh hy⟩
  have hPresent :
      ∀ id ∈ r.replaced m,
        id ∈ (target.widen fresh r.rhs.graph.nodes).nodes := by
    intro id hId
    exact hFresh.mem_nodes_widen_iff.2
      (Or.inl (hm.mem_nodes_of_mem_replaced hId))
  have hAdd := Graph.addEdges_of_ends hEnds
  have hRemove :=
    Graph.removeNodes_of_nodup
      (g := ⟨(target.widen fresh r.rhs.graph.nodes).nodes,
        (target.widen fresh r.rhs.graph.nodes).edges.insertAll
          (r.newEdges m fresh)⟩)
      hm.replaced_nodup hPresent
  unfold replace
  unfold Graph.widen at hAdd hRemove
  dsimp only
  rw [hAdd]
  dsimp only
  rw [hRemove]
  rfl

/-
  The nodes of the result: those of the target graph that are
  not replaced, and the copies, with their labels.
-/
theorem labels_result_iff
    (hm : r.Accepts m target)
    (hFresh : fresh.IsFresh target r.rhs.graph.nodeIds)
    {id : NodeId}
    {labels : Labels} :
    (r.result m fresh target).nodes[id]? = some labels ↔
      (id ∉ r.replaced m ∧ target.nodes[id]? = some labels) ∨
        ∃ a : NodeId,
          fresh[a]? = some id ∧
            r.rhs.graph.nodes[a]? = some labels := by
  unfold result
  rw [Graph.getElem?_nodes_without]
  dsimp only
  split
  · rename_i hId
    have hNode := hm.mem_nodes_of_mem_replaced hId
    simp only [reduceCtorEq, hId, not_true_eq_false, false_and,
      false_or, false_iff, not_exists, not_and]
    intro a ha
    exact absurd hNode (hFresh.absent a id ha)
  · rename_i hId
    rw [hFresh.labels_widen_iff, and_iff_right hId]

/-
  The edges of the result: those of the target graph at no
  replaced node, and those of the replacement none of whose
  ends is an unmatched wildcard.
-/
theorem get?_edges_result_iff
    (hm : r.Accepts m target)
    (hFresh : fresh.IsFresh target r.rhs.graph.nodeIds)
    (ht : target.HasIntegrity)
    (hRhs : r.rhs.HasSeparateExotics)
    {a b : NodeId}
    {info : EdgeInfo} :
    (r.result m fresh target).edges.get? a b = some info ↔
      ((a ∉ r.replaced m ∧ b ∉ r.replaced m) ∧
          target.edges.get? a b = some info) ∨
        ∃ x y : NodeId,
          r.rhs.graph.edges.get? x y = some info ∧
            r.resolve m fresh x = some a ∧
              r.resolve m fresh y = some b := by
  unfold result
  rw [Graph.get?_edges_without, ← mem_newEdges_iff]
  dsimp only
  split
  · rename_i hEnds
    have hNot : ⟨info, a, b⟩ ∉ r.newEdges m fresh := by
      intro hNew
      rcases mem_newEdges_iff.1 hNew with ⟨x, y, -, hx, hy⟩
      rcases hEnds with ha | hb
      · exact resolve_notMem_replaced hm hFresh hx ha
      · exact resolve_notMem_replaced hm hFresh hy hb
    have hEnds : ¬ (a ∉ r.replaced m ∧ b ∉ r.replaced m) :=
      fun h => hEnds.elim h.1 h.2
    simp [hNot, hEnds]
  · rename_i hEnds
    rw [EdgeStore.get?_insertAll_iff
        (ends_newEdges_nodup hm hFresh),
      hFresh.edges_widen, and_iff_right (not_or.1 hEnds),
      or_comm]
    apply or_congr_left
    apply and_iff_right_of_imp
    rintro hOld ⟨other, start, stop⟩ hNew ⟨rfl, rfl⟩
    exact notMem_newEdges_of_get? ht hRhs hFresh hNew hOld

/-
  The replaced nodes are gone, the others stay, and
  the copies are new.
-/
theorem mem_nodes_result_iff
    (hm : r.Accepts m target)
    (hFresh : fresh.IsFresh target r.rhs.graph.nodeIds)
    {id : NodeId} :
    id ∈ (r.result m fresh target).nodes ↔
      (id ∉ r.replaced m ∧ id ∈ target.nodes) ∨
        ∃ a : NodeId, fresh[a]? = some id :=
  hFresh.mem_nodes_iff_of_labels fun _ =>
    labels_result_iff hm hFresh

/- A rewrite leaves no edge without its ends. -/
theorem hasIntegrity_result
    (hm : r.Accepts m target)
    (hFresh : fresh.IsFresh target r.rhs.graph.nodeIds)
    (ht : target.HasIntegrity)
    (hRhs : r.rhs.HasSeparateExotics) :
    (r.result m fresh target).HasIntegrity := by
  have hResolve :
      ∀ x id : NodeId, r.resolve m fresh x = some id →
        id ∈ (r.result m fresh target).nodes := by
    intro x id hx
    rw [mem_nodes_result_iff hm hFresh]
    have hKept := resolve_notMem_replaced hm hFresh hx
    exact (hFresh.mem_nodes_widen_iff.1
      (resolve_mem_widen hm hFresh hx)).imp_left
      fun hOld => ⟨hKept, hOld⟩
  rw [Graph.hasIntegrity_iff]
  intro a b hSome
  rcases Option.isSome_iff_exists.1 hSome with ⟨info, hInfo⟩
  rcases (get?_edges_result_iff hm hFresh ht hRhs).1 hInfo with
    ⟨⟨ha, hb⟩, hOld⟩ | ⟨x, y, -, hx, hy⟩
  · have hEnds :=
      Graph.hasIntegrity_iff.1 ht a b
        (Option.isSome_of_eq_some hOld)
    rw [mem_nodes_result_iff hm hFresh,
      mem_nodes_result_iff hm hFresh]
    exact ⟨Or.inl ⟨ha, hEnds.1⟩, Or.inl ⟨hb, hEnds.2⟩⟩
  · exact ⟨hResolve x a hx, hResolve y b hy⟩

/- Rewriting at an accepted match with fresh ids succeeds. -/
theorem apply_eq_result
    {σ : Type}
    {source : IdSource σ}
    {supply rest : σ}
    (hm : r.Accepts m target)
    (hDraw :
      drawIds r.name target source ∅ r.rhs.graph.nodeIds
        supply = (.ok fresh, rest)) :
    r.apply source m target supply =
      ⟨r.result m fresh target, rest,
        .ok ⟨fresh.values, r.replaced m⟩⟩ := by
  have hCheck := checkMorphism_eq_ok_iff.2 ⟨hm, rfl⟩
  unfold apply
  rw [hCheck]
  dsimp only
  rw [hDraw]
  dsimp only
  rw [replace_eq_result hm (drawIds_isFresh hDraw)]

end ExoticRule

end GraphRewriting
