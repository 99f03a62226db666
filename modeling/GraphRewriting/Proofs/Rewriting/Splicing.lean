import GraphRewriting.Proofs.Digraph.Tree
import GraphRewriting.Proofs.Rewriting.Atomicity

/-
  Trees spliced into trees. A path through the rewritten node
  leads through the copy of the base instead, and as no edge is
  made twice, none can be lost without parting the result.

  Main declarations:
    * `FreshIds.IsFresh.card_copySet`
    * `ContextFreeRule.isTree_result`
    * `Rule.GrowsTrees`
    * `Rule.isTree_apply`
-/

------------------------------------------------------------
-- Sets Of Copies
------------------------------------------------------------

namespace GraphRewriting

namespace FreshIds

/- The ids drawn for the nodes of a graph. -/
def copySet
    (fresh : FreshIds)
    (g : Graph) : Finset NodeId :=
  g.nodeSet.image fun a => fresh.getD a a

/-
  The ends of the edges of a graph, under the
  ids drawn for them.
-/
def copyPairs
    (fresh : FreshIds)
    (g : Graph) : Finset (NodeId × NodeId) :=
  g.endPairs.image fun ends =>
    (fresh.getD ends.1 ends.1, fresh.getD ends.2 ends.2)

variable {fresh : FreshIds}
variable {target g : Graph}

/- The copies are the ids that were drawn. -/
theorem IsFresh.mem_copySet
    (h : fresh.IsFresh target g.nodeIds)
    {id : NodeId} :
    id ∈ fresh.copySet g ↔
      ∃ a : NodeId, fresh[a]? = some id := by
  unfold copySet
  rw [Finset.mem_image]
  constructor
  · rintro ⟨a, ha, rfl⟩
    rcases h.exists_id (Graph.mem_nodeSet.1 ha) with
      ⟨drawn, hDrawn⟩
    exact ⟨a, by rw [getD_eq_of_getElem? hDrawn, hDrawn]⟩
  · rintro ⟨a, ha⟩
    exact
      ⟨a, Graph.mem_nodeSet.2 (h.mem_nodes_of_getElem? ha),
        getD_eq_of_getElem? ha a⟩

/- There are as many copies as nodes. -/
theorem IsFresh.card_copySet
    (h : fresh.IsFresh target g.nodeIds) :
    (fresh.copySet g).card = g.nodes.size := by
  unfold copySet
  rw [Finset.card_image_of_injOn, Graph.card_nodeSet]
  intro a ha b hb hEq
  rcases h.exists_id (Graph.mem_nodeSet.1 ha) with ⟨x, hx⟩
  rcases h.exists_id (Graph.mem_nodeSet.1 hb) with ⟨y, hy⟩
  dsimp only at hEq
  rw [getD_eq_of_getElem? hx, getD_eq_of_getElem? hy] at hEq
  exact h.injective a b x hx (hEq ▸ hy)

theorem card_copyPairs_le
    (fresh : FreshIds)
    (g : Graph) :
    (fresh.copyPairs g).card ≤ g.edges.size := by
  rw [← Graph.card_endPairs]
  exact Finset.card_image_le

theorem mem_copyPairs
    {x y a b : NodeId}
    (hEdge : (g.edges.get? x y).isSome = true)
    (hx : fresh[x]? = some a)
    (hy : fresh[y]? = some b) :
    (a, b) ∈ fresh.copyPairs g := by
  unfold copyPairs
  refine
    Finset.mem_image.2 ⟨(x, y), Graph.mem_endPairs.2 hEdge, ?_⟩
  dsimp only
  rw [getD_eq_of_getElem? hx, getD_eq_of_getElem? hy]

end FreshIds

end GraphRewriting

------------------------------------------------------------
-- Results
------------------------------------------------------------

namespace GraphRewriting

namespace ContextFreeRule

variable {r : ContextFreeRule}
variable {target : Graph}
variable {fresh : FreshIds}
variable {node : NodeId}

/- A rewrite takes one node out and puts the copies in. -/
private theorem nodeSet_result
    (hFresh : fresh.IsFresh target r.rhs.nodeIds)
    (hNode : node ∈ target.nodes) :
    (r.result fresh node target).nodeSet =
      target.nodeSet.erase node ∪ fresh.copySet r.rhs := by
  ext id
  rw [Graph.mem_nodeSet, mem_nodes_result_iff hFresh hNode,
    Finset.mem_union, Finset.mem_erase, Graph.mem_nodeSet,
    hFresh.mem_copySet]

/-
  One node goes, and one comes for each node
  of the replacement.
-/
theorem size_nodes_result
    (hFresh : fresh.IsFresh target r.rhs.nodeIds)
    (hNode : node ∈ target.nodes) :
    (r.result fresh node target).nodes.size + 1 =
      target.nodes.size + r.rhs.nodes.size := by
  have hApart :
      Disjoint (target.nodeSet.erase node)
        (fresh.copySet r.rhs) := by
    rw [Finset.disjoint_left]
    intro id hOld hCopy
    rcases hFresh.mem_copySet.1 hCopy with ⟨a, ha⟩
    exact hFresh.absent a id ha
      (Graph.mem_nodeSet.1 (Finset.mem_of_mem_erase hOld))
  have hErase :=
    Finset.card_erase_add_one (Graph.mem_nodeSet.2 hNode)
  rw [Graph.card_nodeSet] at hErase
  rw [← Graph.card_nodeSet, nodeSet_result hFresh hNode,
    Finset.card_union_of_disjoint hApart, hFresh.card_copySet]
  omega

/-
  No edge of the result comes from two edges of the graph or
  of the replacement.
-/
theorem size_edges_result_le
    (hFresh : fresh.IsFresh target r.rhs.nodeIds)
    (ht : target.HasIntegrity)
    (hRhs : r.rhs.HasIntegrity)
    (hNode : node ∈ target.nodes) :
    (r.result fresh node target).edges.size ≤
      target.edges.size + r.rhs.edges.size := by
  let redirected : Finset (NodeId × NodeId) :=
    target.endPairs.image fun ends =>
      (redirect node (baseCopy fresh) ends.1,
        redirect node (baseCopy fresh) ends.2)
  have hSubset :
      (r.result fresh node target).endPairs ⊆
        redirected ∪ fresh.copyPairs r.rhs := by
    rintro ⟨a, b⟩ hEnds
    rcases
        Option.isSome_iff_exists.1
          (Graph.mem_endPairs.1 hEnds) with
      ⟨info, hInfo⟩
    rw [Finset.mem_union]
    rcases
        (get?_edges_result_iff hFresh ht hRhs hNode).1
          hInfo with
      ⟨x, y, hOld, rfl, rfl⟩ | ⟨x, y, hCopied, hx, hy, -⟩
    · left
      exact Finset.mem_image.2
        ⟨(x, y),
          Graph.mem_endPairs.2 (Option.isSome_of_eq_some hOld),
          rfl⟩
    · right
      exact FreshIds.mem_copyPairs
        (Option.isSome_of_eq_some hCopied) hx hy
  have hRedirected : redirected.card ≤ target.edges.size := by
    rw [← Graph.card_endPairs]
    exact Finset.card_image_le
  calc
    (r.result fresh node target).edges.size =
      (r.result fresh node target).endPairs.card :=
      (Graph.card_endPairs _).symm
    _ ≤ (redirected ∪ fresh.copyPairs r.rhs).card :=
  Finset.card_le_card hSubset
    _ ≤ redirected.card + (fresh.copyPairs r.rhs).card :=
  Finset.card_union_le _ _
    _ ≤ target.edges.size + r.rhs.edges.size :=
      Nat.add_le_add hRedirected (fresh.card_copyPairs_le r.rhs)

/-
  A path of the target graph stays one, with the new base in
  the place of the old node.
-/
theorem path_redirect
    (hFresh : fresh.IsFresh target r.rhs.nodeIds)
    (ht : target.HasIntegrity)
    (hRhs : r.rhs.HasIntegrity)
    (hNode : node ∈ target.nodes)
    {a b : NodeId}
    (hPath : Relation.ReflTransGen target.Touches a b) :
    Relation.ReflTransGen (r.result fresh node target).Touches
      (redirect node (baseCopy fresh) a)
        (redirect node (baseCopy fresh) b) := by
  refine Graph.path_map ?_ hPath
  intro x y hEdge
  rcases Option.isSome_iff_exists.1 hEdge with ⟨info, hInfo⟩
  have hAdopted :=
    (get?_edges_result_iff hFresh ht hRhs hNode).2
      (Or.inl ⟨x, y, hInfo, rfl, rfl⟩)
  exact .single (Or.inl (Option.isSome_of_eq_some hAdopted))

/-
  A path of the replacement is copied. The one edge that may not
  show, a self loop of the base, is of no use to a path.
-/
private theorem path_copy
    (hFresh : fresh.IsFresh target r.rhs.nodeIds)
    (ht : target.HasIntegrity)
    (hRhs : r.rhs.HasIntegrity)
    (hNode : node ∈ target.nodes)
    {a b : NodeId}
    (hPath : Relation.ReflTransGen r.rhs.Touches a b) :
    Relation.ReflTransGen (r.result fresh node target).Touches
      (fresh.getD a a) (fresh.getD b b) := by
  refine Graph.path_map (f := fun a => fresh.getD a a) ?_ hPath
  intro x y hEdge
  by_cases hLoop : x = y
  · subst hLoop
    exact .refl
  · rcases Option.isSome_iff_exists.1 hEdge with ⟨info, hInfo⟩
    have hEnds := Graph.hasIntegrity_iff.1 hRhs x y hEdge
    rcases hFresh.exists_id hEnds.1 with ⟨start, hStart⟩
    rcases hFresh.exists_id hEnds.2 with ⟨stop, hStop⟩
    have hShows : r.Shows fresh node target start stop info :=
      ⟨x, y, hInfo, hStart, hStop,
        fun hBase => hLoop (hBase.1.trans hBase.2.1.symm)⟩
    have hCopied :=
      (get?_edges_result_iff hFresh ht hRhs hNode).2
        (Or.inr hShows)
    rw [FreshIds.getD_eq_of_getElem? hStart,
      FreshIds.getD_eq_of_getElem? hStop]
    exact .single (Or.inl (Option.isSome_of_eq_some hCopied))

/- Every node of the result is led to the copy of the base. -/
theorem isWeaklyConnected_result
    (hFresh : fresh.IsFresh target r.rhs.nodeIds)
    (ht : target.IsTree)
    (hRhs : r.rhs.IsTree)
    (hNode : node ∈ target.nodes) :
    (r.result fresh node target).IsWeaklyConnected := by
  apply Graph.isWeaklyConnected_of_hub (baseCopy fresh)
  intro id hId
  rcases (mem_nodes_result_iff hFresh hNode).1 hId with
    ⟨hNe, hOld⟩ | ⟨a, ha⟩
  · have hPath :=
      path_redirect hFresh ht.integrity hRhs.integrity hNode
        (ht.connected id hOld node hNode)
    rwa [redirect_of_ne hNe, redirect_self] at hPath
  · have hPath :=
      path_copy hFresh ht.integrity hRhs.integrity hNode
        (hRhs.connected a (hFresh.mem_nodes_of_getElem? ha)
          NodeId.base r.base_mem)
    rwa [FreshIds.getD_eq_of_getElem? ha] at hPath

/- A tree in the place of a node of a tree makes a tree. -/
theorem isTree_result
    (hFresh : fresh.IsFresh target r.rhs.nodeIds)
    (ht : target.IsTree)
    (hRhs : r.rhs.IsTree)
    (hNode : node ∈ target.nodes) :
    (r.result fresh node target).IsTree := by
  apply Graph.isTree_of_size_edges_le
  · exact hasIntegrity_result hFresh ht.integrity hRhs.integrity
      hNode
  · exact isWeaklyConnected_result hFresh ht hRhs hNode
  · -- Edges may fall together, but connection leaves no room
    -- for that.
    have hNodes := size_nodes_result hFresh hNode
    have hEdges :=
      size_edges_result_le hFresh ht.integrity hRhs.integrity
        hNode
    have hTarget := ht.count
    have hReplacement := hRhs.count
    omega

end ContextFreeRule

end GraphRewriting

------------------------------------------------------------
-- Applications
------------------------------------------------------------

namespace GraphRewriting

/- The rule rewrites nodes, and its replacement is a tree. -/
def Rule.GrowsTrees : Rule → Prop
  | .node r => r.rhs.IsTree
  | .region _ => False

/-
  A tree stays a tree at any match, with any ids,
  and in failure too.
-/
theorem Rule.isTree_apply
    {rule : Rule}
    {target : Graph}
    (ht : target.IsTree)
    (hRule : rule.GrowsTrees)
    {σ : Type}
    (source : IdSource σ)
    (found : RuleMatch)
    (supply : σ) :
    (rule.apply source found target supply).graph.IsTree := by
  cases rule with
  | region r => exact hRule.elim
  | node r =>
      have hRhs : r.rhs.IsTree := hRule
      have hSound : (Rule.node r).HasSoundReplacement :=
        hRhs.integrity
      rcases
          apply_ends hSound ht.integrity source found
            supply with
        ⟨-, error, hEnd⟩ | ⟨error, rest, -, hEnd⟩ | ⟨hFits,
          fresh, rest, hDraw, hEnd⟩
      · rw [hEnd]
        exact ht
      · rw [hEnd]
        exact ht
      · rw [hEnd]
        cases found with
        | morphism m => exact hFits.elim
        | node id =>
            exact ContextFreeRule.isTree_result
              (drawIds_isFresh hDraw) ht hRhs
              (mem_nodes_of_symbol?_eq_some hFits)

end GraphRewriting
