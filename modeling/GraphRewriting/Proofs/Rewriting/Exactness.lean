import GraphRewriting.Proofs.AscendingList
import GraphRewriting.Proofs.Digraph.Tree
import GraphRewriting.Proofs.Rewriting.Commuting

/-
  Everything that a rewrite does to a graph, for ids given by a
  function: which nodes and edges the result has, with which
  labels, and nothing else.

  Main declarations:
    * `IdSource.GivesFresh`
    * `ContextFreeRule.IsSplicedAt`
    * `ContextFreeRule.apply_splices`
    * `ExoticRule.IsReplacedAt`
    * `ExoticRule.apply_replaces`
-/

------------------------------------------------------------
-- Ids Given By A Function
------------------------------------------------------------

namespace GraphRewriting

/-
  Asked for local ids, one after the other, a source answers by
  a function that gives them distinct ids new to a graph.
-/
structure IdSource.GivesFresh
    {σ : Type}
    (source : IdSource σ)
    (ids : List NodeId)
    (supply : σ)
    (target : Graph)
    (f : NodeId → NodeId) : Prop where
  drawn : source.drawn ids supply = ids.map f
  injective : ∀ a ∈ ids, ∀ b ∈ ids, f a = f b → a = b
  absent : ∀ a ∈ ids, f a ∉ target.nodes

/- Local ids are named by a function. -/
def FreshIds.IsGivenBy
    (fresh : FreshIds)
    (ids : List NodeId)
    (f : NodeId → NodeId) : Prop :=
  ∀ a id : NodeId, fresh[a]? = some id ↔ a ∈ ids ∧ f a = id

variable {σ : Type}
variable {source : IdSource σ}
variable {ids : List NodeId}
variable {supply : σ}
variable {target : Graph}
variable {fresh : FreshIds}
variable {f : NodeId → NodeId}

private theorem IdSource.names_isGivenBy
    (hDrawn : source.drawn ids supply = ids.map f) :
    (source.names ids supply).IsGivenBy ids f := by
  have hEntries :
      ids.zip (ids.map f) = ids.map fun a => (a, f a) := by
    have hZip := List.zip_map' (f := id) (g := f) (l := ids)
    rwa [List.map_id] at hZip
  intro a id
  unfold IdSource.names
  rw [hDrawn, hEntries,
    ← Std.ExtTreeMap.ofList_eq_insertMany_empty,
    getElem?_ofList_eq_some_iff]
  · rw [List.mem_map]
    constructor
    · rintro ⟨x, hx, hEq⟩
      cases hEq
      exact ⟨hx, rfl⟩
    · rintro ⟨ha, rfl⟩
      exact ⟨a, ha, rfl⟩
  · intro key x y hx hy
    rcases List.mem_map.1 hx with ⟨_, -, hEq⟩
    rcases List.mem_map.1 hy with ⟨_, -, hEq'⟩
    cases hEq
    cases hEq'
    rfl

/- Ids given by a function are all accepted. -/
theorem IdSource.GivesFresh.exists_drawIds
    (h : source.GivesFresh ids supply target f)
    (hIds : ids.Nodup)
    (rule : String) :
    ∃ (fresh : FreshIds) (rest : σ),
      drawIds rule target source ∅ ids supply =
        (.ok fresh, rest) ∧
        fresh.IsGivenBy ids f := by
  have hNodup : (source.drawn ids supply).Nodup := by
    rw [h.drawn]
    exact List.Nodup.map_on
      (fun a ha b hb => h.injective a ha b hb) hIds
  have hAbsent :
      ∀ id ∈ source.drawn ids supply, id ∉ target.nodes := by
    intro id hId
    rw [h.drawn] at hId
    rcases List.mem_map.1 hId with ⟨a, ha, rfl⟩
    exact h.absent a ha
  rcases exists_drawIds_eq_names hNodup hAbsent with
    ⟨rest, hDraw⟩
  exact ⟨_, rest, hDraw, names_isGivenBy h.drawn⟩

/-
  The ids for the nodes of a graph come in the
  order of its nodes.
-/
theorem FreshIds.IsGivenBy.values_eq
    {g : Graph}
    (h : fresh.IsGivenBy g.nodeIds f) :
    fresh.values = g.nodeIds.map f := by
  have hKeys : fresh.keys = g.nodeIds := by
    have hFresh :
        fresh.keys.Pairwise fun a b => compare a b = .lt :=
      Std.ExtTreeMap.ordered_keys
    have hNodes :
        g.nodeIds.Pairwise fun a b => compare a b = .lt :=
      Std.ExtTreeMap.ordered_keys
    apply eq_of_ascending hFresh hNodes
    intro a
    rw [Std.ExtTreeMap.mem_keys, mem_iff_exists_getElem?]
    simp only [h a, exists_and_left, exists_eq', and_true]
  rw [values_eq_map_snd, ← hKeys,
    ← Std.ExtTreeMap.map_fst_toList_eq_keys, List.map_map]
  apply List.map_congr_left
  rintro ⟨a, id⟩ hEntry
  exact ((h a id).1
    (Std.ExtTreeMap.mem_toList_iff_getElem?_eq_some.1
      hEntry)).2.symm

/-
  The copies of the nodes of a graph stand at the
  ids given for them.
-/
theorem FreshIds.IsGivenBy.exists_copy_iff
    {g : Graph}
    (h : fresh.IsGivenBy g.nodeIds f)
    {id : NodeId}
    {labels : Labels} :
    (∃ a : NodeId,
      fresh[a]? = some id ∧ g.nodes[a]? = some labels) ↔
      ∃ a : NodeId, f a = id ∧ g.nodes[a]? = some labels := by
  apply exists_congr
  intro a
  rw [h a id, and_assoc, and_iff_right_of_imp]
  rintro ⟨-, hLabels⟩
  exact Graph.mem_nodeIds.2
    (mem_iff_exists_getElem?.2 ⟨labels, hLabels⟩)

end GraphRewriting

------------------------------------------------------------
-- Context-Free Rewrites
------------------------------------------------------------

namespace GraphRewriting

namespace ContextFreeRule

/-
  The edges that a context-free rewrite leaves: those clear of
  the rewritten node, those of the replacement between the
  copies of its nodes, and those at the rewritten node, with
  the copy of the base in its place. A self loop of the
  rewritten node covers one of the base.
-/
inductive SplicedEdge
    (r : ContextFreeRule)
    (f : NodeId → NodeId)
    (node : NodeId)
    (target : Graph) : NodeId → NodeId → EdgeInfo → Prop
  | kept {a b : NodeId} {info : EdgeInfo} :
      a ≠ node → b ≠ node → target.edges.get? a b = some info →
        SplicedEdge r f node target a b info
  | copied {s e : NodeId} {info : EdgeInfo} :
      r.rhs.edges.get? s e = some info →
        ¬ (s = .base ∧ e = .base ∧
          (target.edges.get? node node).isSome = true) →
          SplicedEdge r f node target (f s) (f e) info
  | entering {a : NodeId} {info : EdgeInfo} :
      a ≠ node → target.edges.get? a node = some info →
        SplicedEdge r f node target a (f .base) info
  | leaving {b : NodeId} {info : EdgeInfo} :
      b ≠ node → target.edges.get? node b = some info →
        SplicedEdge r f node target (f .base) b info
  | loop {info : EdgeInfo} :
      target.edges.get? node node = some info →
        SplicedEdge r f node target (f .base) (f .base) info

/-
  A graph is what splicing the replacement of a rule in the
  place of a node makes of a target graph.
-/
structure IsSplicedAt
    (r : ContextFreeRule)
    (f : NodeId → NodeId)
    (node : NodeId)
    (target result : Graph) : Prop where
  nodes :
    ∀ (id : NodeId) (labels : Labels),
      result.nodes[id]? = some labels ↔
        (id ≠ node ∧ target.nodes[id]? = some labels) ∨
          ∃ a : NodeId, f a = id ∧ r.rhs.nodes[a]? = some labels
  edges :
    ∀ (a b : NodeId) (info : EdgeInfo),
      result.edges.get? a b = some info ↔
        r.SplicedEdge f node target a b info

variable {r : ContextFreeRule}
variable {target : Graph}
variable {fresh : FreshIds}
variable {node : NodeId}
variable {f : NodeId → NodeId}

theorem baseCopy_eq
    (hGiven : fresh.IsGivenBy r.rhs.nodeIds f) :
    baseCopy fresh = f .base := by
  unfold baseCopy
  apply FreshIds.getD_eq_of_getElem?
  exact (hGiven _ _).2 ⟨Graph.mem_nodeIds.2 r.base_mem, rfl⟩

/-
  An edge of the target graph shows in the result, at the
  new base if need be.
-/
private theorem SplicedEdge.of_redirect
    {x y : NodeId}
    {info : EdgeInfo}
    (hInfo : target.edges.get? x y = some info) :
    r.SplicedEdge f node target (redirect node (f .base) x)
      (redirect node (f .base) y) info := by
  by_cases hx : x = node <;> by_cases hy : y = node
  · subst hx
    subst hy
    rw [redirect_self]
    exact .loop hInfo
  · subst hx
    rw [redirect_self, redirect_of_ne hy]
    exact .leaving hy hInfo
  · subst hy
    rw [redirect_self, redirect_of_ne hx]
    exact .entering hx hInfo
  · rw [redirect_of_ne hx, redirect_of_ne hy]
    exact .kept hx hy hInfo

private theorem splicedEdge_iff
    (hGiven : fresh.IsGivenBy r.rhs.nodeIds f)
    (hRhs : r.rhs.HasIntegrity)
    {a b : NodeId}
    {info : EdgeInfo} :
    r.SplicedEdge f node target a b info ↔
      (∃ x y : NodeId,
        target.edges.get? x y = some info ∧
          redirect node (baseCopy fresh) x = a ∧
            redirect node (baseCopy fresh) y = b) ∨
        r.Shows fresh node target a b info := by
  rw [baseCopy_eq hGiven]
  constructor
  · intro h
    cases h with
    | kept ha hb hInfo =>
        exact Or.inl
          ⟨a, b, hInfo, redirect_of_ne ha, redirect_of_ne hb⟩
    | copied hInfo hLoop =>
        rename_i s e
        have hEnds :=
          Graph.hasIntegrity_iff.1 hRhs s e
            (Option.isSome_of_eq_some hInfo)
        have hStart :=
          (hGiven s _).2 ⟨Graph.mem_nodeIds.2 hEnds.1, rfl⟩
        have hStop :=
          (hGiven e _).2 ⟨Graph.mem_nodeIds.2 hEnds.2, rfl⟩
        exact Or.inr ⟨s, e, hInfo, hStart, hStop, hLoop⟩
    | entering ha hInfo =>
        exact Or.inl
          ⟨a, node, hInfo, redirect_of_ne ha, redirect_self⟩
    | leaving hb hInfo =>
        exact Or.inl
          ⟨node, b, hInfo, redirect_self, redirect_of_ne hb⟩
    | loop hInfo =>
        exact Or.inl
          ⟨node, node, hInfo, redirect_self, redirect_self⟩
  · rintro (⟨x, y, hInfo, rfl, rfl⟩ | ⟨x, y, hInfo, hx, hy,
      hLoop⟩)
    · exact .of_redirect hInfo
    · rcases (hGiven x a).1 hx with ⟨-, rfl⟩
      rcases (hGiven y b).1 hy with ⟨-, rfl⟩
      exact .copied hInfo hLoop

/-
  The result of a context-free rule is what splicing asks for.
-/
theorem isSplicedAt_result
    (hGiven : fresh.IsGivenBy r.rhs.nodeIds f)
    (hFresh : fresh.IsFresh target r.rhs.nodeIds)
    (ht : target.HasIntegrity)
    (hRhs : r.rhs.HasIntegrity)
    (hNode : node ∈ target.nodes) :
    r.IsSplicedAt f node target
      (r.result fresh node target) where
  nodes id labels := by
    rw [labels_result_iff hFresh hNode, hGiven.exists_copy_iff]
  edges a b info := by
    rw [get?_edges_result_iff hFresh ht hRhs hNode,
      splicedEdge_iff hGiven hRhs]

/-
  A context-free rule rewrites every node with its symbol, into
  exactly its replacement spliced in at the base.
-/
theorem apply_splices
    {σ : Type}
    {source : IdSource σ}
    {supply : σ}
    (hRhs : r.rhs.HasIntegrity)
    (ht : target.HasIntegrity)
    (hSymbol : target.symbol? node = some r.symbol)
    (hIds : source.GivesFresh r.rhs.nodeIds supply target f) :
    ∃ (result : Graph) (rest : σ),
      r.apply source node target supply =
          ⟨result, rest, .ok ⟨r.rhs.nodeIds.map f, [node]⟩⟩ ∧
        r.IsSplicedAt f node target result := by
  rcases hIds.exists_drawIds r.rhs.nodeIds_nodup r.name with
    ⟨fresh, rest, hDraw, hGiven⟩
  refine ⟨r.result fresh node target, rest, ?_, ?_⟩
  · rw [apply_eq_result ht hRhs hSymbol hDraw, hGiven.values_eq]
  · have hNode := Rule.mem_nodes_of_symbol?_eq_some hSymbol
    exact isSplicedAt_result hGiven (drawIds_isFresh hDraw) ht
      hRhs hNode

/-
  The ids that the counter gives for a base and
  one node behind it.
-/
def countedBud (id : NodeId) : NodeId :=
  if id = .base then .num 2 else .num 3

/- Both the rewritten node and the base have a self loop. -/
theorem apply_splices_couple :
    budding.rhs.HasIntegrity ∧ couple.HasIntegrity ∧
      couple.symbol? (.num 1) = some budding.symbol ∧
        Grammar.countUp.GivesFresh budding.rhs.nodeIds 2 couple
          countedBud ∧
          ∃ (result : Graph) (rest : UInt64),
            budding.apply Grammar.countUp (.num 1) couple 2 =
                ⟨result, rest,
                  .ok
                    ⟨budding.rhs.nodeIds.map countedBud,
                      [.num 1]⟩⟩ ∧
              budding.IsSplicedAt countedBud (.num 1) couple
                result := by
  have hRhs : budding.rhs.HasIntegrity := by decide +kernel
  have hCouple : couple.HasIntegrity := by decide +kernel
  have hSymbol :
      couple.symbol? (.num 1) = some budding.symbol := by
    decide +kernel
  have hIds :
      Grammar.countUp.GivesFresh budding.rhs.nodeIds 2 couple
        countedBud := by
    constructor <;> decide +kernel
  exact
    ⟨hRhs, hCouple, hSymbol, hIds,
      apply_splices hRhs hCouple hSymbol hIds⟩

end ContextFreeRule

end GraphRewriting

------------------------------------------------------------
-- Landing
------------------------------------------------------------

namespace GraphRewriting

namespace ExoticRule

/-
  What an end of an edge of the replacement stands for: the
  target of an exotic node, if it has one, or the id given for
  an ordinary node.
-/
def landing
    (r : ExoticRule)
    (m : Morphism)
    (f : NodeId → NodeId)
    (x : NodeId) : Option NodeId :=
  if r.rhs.isExotic x then m.target? x else some (f x)

/- The ends of an edge stand for two given nodes. -/
def LandsAt
    (r : ExoticRule)
    (m : Morphism)
    (f : NodeId → NodeId)
    (edge : Edge)
    (a b : NodeId) : Prop :=
  r.landing m f edge.start = some a ∧
    r.landing m f edge.stop = some b

/-
  The edges of the replacement both ends of
  which stand for a node.
-/
def landedEdges
    (r : ExoticRule)
    (m : Morphism)
    (f : NodeId → NodeId) : List Edge :=
  r.rhs.edges.filter fun edge =>
    (r.landing m f edge.start).isSome &&
      (r.landing m f edge.stop).isSome

/- The edges of the target graph at no replaced node. -/
def keptEdges
    (r : ExoticRule)
    (m : Morphism)
    (target : Graph) : List Edge :=
  target.edges.toList.filter fun edge =>
    edge.start ∉ r.replaced m ∧ edge.stop ∉ r.replaced m

variable {r : ExoticRule}
variable {m : Morphism}
variable {target : Graph}
variable {fresh : FreshIds}
variable {f : NodeId → NodeId}

/- Only unmatched wildcards stand for no node. -/
theorem landing_eq_none_iff
    (hm : r.Accepts m target)
    {x : NodeId} :
    r.landing m f x = none ↔
      r.kind = .wildcard ∧ x ∈ r.rhs.exotic ∧
        m.target? x = none := by
  unfold landing
  rw [← ExoticGraph.isExotic_iff]
  by_cases hx : r.rhs.isExotic x = true
  · rw [if_pos hx, and_iff_right hx, iff_and_self]
    intro hNone
    have hLhs :=
      mem_exotic_rhs_iff.1 (ExoticGraph.isExotic_iff.1 hx)
    cases hKind : r.kind with
    | wildcard => rfl
    | anchor =>
        have hSome := hm.anchors x hLhs hKind
        rw [hNone] at hSome
        cases hSome
  · simp [hx]

/- Edges resolve to where they are to land. -/
theorem resolve_eq_landing
    (hGiven : fresh.IsGivenBy r.rhs.graph.nodeIds f)
    {x : NodeId}
    (hx : r.rhs.contains x = true) :
    r.resolve m fresh x = r.landing m f x := by
  unfold resolve landing
  split
  · rfl
  · rename_i hExotic
    rw [ExoticGraph.isExotic_iff] at hExotic
    have hNode :=
      (ExoticGraph.contains_iff.1 hx).resolve_right hExotic
    exact (hGiven x _).2 ⟨Graph.mem_nodeIds.2 hNode, rfl⟩

/- The ends of an edge land where they are resolved to. -/
theorem landsAt_iff_resolve
    (hGiven : fresh.IsGivenBy r.rhs.graph.nodeIds f)
    (hRhs : r.rhs.HasIntegrity)
    {edge : Edge}
    (hEdge : edge ∈ r.rhs.edges)
    {a b : NodeId} :
    r.LandsAt m f edge a b ↔
      r.resolve m fresh edge.start = some a ∧
        r.resolve m fresh edge.stop = some b := by
  have hEnds := hRhs edge hEdge
  unfold LandsAt
  rw [resolve_eq_landing hGiven hEnds.1,
    resolve_eq_landing hGiven hEnds.2]

/-
  New edges come from where the edges of the replacement land.
-/
theorem mem_newEdges_iff_landsAt
    (hGiven : fresh.IsGivenBy r.rhs.graph.nodeIds f)
    (hRhs : r.rhs.HasIntegrity)
    {info : EdgeInfo}
    {a b : NodeId} :
    ⟨info, a, b⟩ ∈ r.newEdges m fresh ↔
      ∃ edge ∈ r.rhs.edges,
        edge.toEdgeInfo = info ∧ r.LandsAt m f edge a b := by
  rw [mem_newEdges_iff]
  constructor
  · rintro ⟨x, y, hInfo, hx, hy⟩
    have hEdge : (⟨info, x, y⟩ : Edge) ∈ r.rhs.edges :=
      EdgeStore.mem_toList.2 hInfo
    exact
      ⟨_, hEdge, rfl,
        (landsAt_iff_resolve hGiven hRhs hEdge).2 ⟨hx, hy⟩⟩
  · rintro ⟨edge, hEdge, rfl, hLands⟩
    have hResolved :=
      (landsAt_iff_resolve hGiven hRhs hEdge).1 hLands
    exact
      ⟨edge.start, edge.stop, EdgeStore.mem_toList.1 hEdge,
        hResolved⟩

/- As many edges are added as land. -/
theorem length_newEdges
    (hGiven : fresh.IsGivenBy r.rhs.graph.nodeIds f)
    (hRhs : r.rhs.HasIntegrity) :
    (r.newEdges m fresh).length =
      (r.landedEdges m f).length := by
  unfold newEdges landedEdges
  rw [List.length_filterMap_eq_countP,
    List.countP_eq_length_filter]
  apply congrArg
  apply List.filter_congr
  intro edge hEdge
  have hEnds := hRhs edge hEdge
  rw [← resolve_eq_landing hGiven hEnds.1,
    ← resolve_eq_landing hGiven hEnds.2]
  cases r.resolve m fresh edge.start <;>
    cases r.resolve m fresh edge.stop <;> rfl

end ExoticRule

end GraphRewriting

------------------------------------------------------------
-- Rewrites Of Regions
------------------------------------------------------------

namespace GraphRewriting

namespace ExoticRule

/-
  A graph is what putting the replacement of a rule in the
  place of the matched nodes makes of a target graph. Its edges
  are those that are kept and those that land, and none of the
  one meets another.
-/
structure IsReplacedAt
    (r : ExoticRule)
    (m : Morphism)
    (f : NodeId → NodeId)
    (target result : Graph) : Prop where
  nodes :
    ∀ (id : NodeId) (labels : Labels),
      result.nodes[id]? = some labels ↔
        (id ∉ r.replaced m ∧ target.nodes[id]? = some labels) ∨
          ∃ a : NodeId,
            f a = id ∧ r.rhs.graph.nodes[a]? = some labels
  context :
    ∀ id ∈ r.exoticTargets m,
      id ∈ target.nodes ∧ result.nodes[id]? = target.nodes[id]?
  edges :
    ∀ (a b : NodeId) (info : EdgeInfo),
      result.edges.get? a b = some info ↔
        ((a ∉ r.replaced m ∧ b ∉ r.replaced m) ∧
            target.edges.get? a b = some info) ∨
          ∃ edge ∈ r.rhs.edges,
            edge.toEdgeInfo = info ∧ r.LandsAt m f edge a b
  dropped :
    ∀ x : NodeId,
      r.landing m f x = none ↔
        r.kind = .wildcard ∧ x ∈ r.rhs.exotic ∧
          m.target? x = none
  apart :
    ∀ edge ∈ r.rhs.edges, ∀ other ∈ r.rhs.edges, ∀ a b : NodeId,
      r.LandsAt m f edge a b → r.LandsAt m f other a b →
        edge = other
  clear :
    ∀ edge ∈ r.rhs.edges, ∀ a b : NodeId,
      r.LandsAt m f edge a b → target.edges.get? a b = none
  count :
    result.edges.size =
      (r.keptEdges m target).length + (r.landedEdges m f).length

variable {r : ExoticRule}
variable {m : Morphism}
variable {target : Graph}
variable {fresh : FreshIds}
variable {f : NodeId → NodeId}

private theorem mem_keptEdges
    {info : EdgeInfo}
    {a b : NodeId} :
    ⟨info, a, b⟩ ∈ r.keptEdges m target ↔
      (a ∉ r.replaced m ∧ b ∉ r.replaced m) ∧
        target.edges.get? a b = some info := by
  unfold keptEdges
  rw [List.mem_filter, EdgeStore.mem_toList, decide_eq_true_iff,
    and_comm]

/-
  The edges of the result are the kept ones and the
  new ones, each once.
-/
theorem toList_edges_result_perm
    (hm : r.Accepts m target)
    (hFresh : fresh.IsFresh target r.rhs.graph.nodeIds)
    (ht : target.HasIntegrity)
    (hSeparate : r.rhs.HasSeparateExotics) :
    (r.result m fresh target).edges.toList.Perm
      (r.keptEdges m target ++ r.newEdges m fresh) := by
  have hNodup : ∀ store : EdgeStore, store.toList.Nodup :=
    fun store => List.Nodup.of_map _ store.ends_nodup
  have hNew : (r.newEdges m fresh).Nodup :=
    List.Nodup.of_map _ (ends_newEdges_nodup hm hFresh)
  have hDisjoint :
      (r.keptEdges m target).Disjoint (r.newEdges m fresh) := by
    rintro ⟨info, a, b⟩ hKept hAdded
    exact notMem_newEdges_of_get? ht hSeparate hFresh hAdded
      (mem_keptEdges.1 hKept).2
  have hKept : (r.keptEdges m target).Nodup :=
    (hNodup _).filter _
  rw [List.perm_ext_iff_of_nodup (hNodup _)
    (hKept.append hNew hDisjoint)]
  rintro ⟨info, a, b⟩
  rw [EdgeStore.mem_toList, List.mem_append, mem_keptEdges,
    mem_newEdges_iff]
  exact get?_edges_result_iff hm hFresh ht hSeparate

/-
  No two edges of the replacement land on the
  same pair of nodes.
-/
theorem LandsAt.inj
    (hm : r.Accepts m target)
    (hGiven : fresh.IsGivenBy r.rhs.graph.nodeIds f)
    (hFresh : fresh.IsFresh target r.rhs.graph.nodeIds)
    (hRhs : r.rhs.HasIntegrity)
    {edge other : Edge}
    (hEdge : edge ∈ r.rhs.edges)
    (hOther : other ∈ r.rhs.edges)
    {a b : NodeId}
    (h : r.LandsAt m f edge a b)
    (h' : r.LandsAt m f other a b) :
    edge = other := by
  have hEnds := (landsAt_iff_resolve hGiven hRhs hEdge).1 h
  have hEnds' := (landsAt_iff_resolve hGiven hRhs hOther).1 h'
  have hStart := resolve_injective hm hFresh hEnds.1 hEnds'.1
  have hStop := resolve_injective hm hFresh hEnds.2 hEnds'.2
  have hInfo := EdgeStore.mem_toList.1 hEdge
  rw [hStart, hStop, EdgeStore.mem_toList.1 hOther,
    Option.some.injEq] at hInfo
  rcases edge with ⟨info, x, y⟩
  rcases other with ⟨info', x', y'⟩
  cases hStart
  cases hStop
  cases hInfo
  rfl

/- The result has as many edges as are kept and as land. -/
private theorem size_edges_result
    (hm : r.Accepts m target)
    (hGiven : fresh.IsGivenBy r.rhs.graph.nodeIds f)
    (hFresh : fresh.IsFresh target r.rhs.graph.nodeIds)
    (ht : target.HasIntegrity)
    (hRhs : r.rhs.HasIntegrity)
    (hSeparate : r.rhs.HasSeparateExotics) :
    (r.result m fresh target).edges.size =
      (r.keptEdges m target).length +
        (r.landedEdges m f).length := by
  have hLength :=
    (toList_edges_result_perm hm hFresh ht hSeparate).length_eq
  rw [List.length_append,
    length_newEdges hGiven hRhs] at hLength
  rw [← hLength, EdgeStore.length_toList]

/-
  The result of a rule with exotic nodes is what
  replacement asks for.
-/
theorem isReplacedAt_result
    (hm : r.Accepts m target)
    (hGiven : fresh.IsGivenBy r.rhs.graph.nodeIds f)
    (hFresh : fresh.IsFresh target r.rhs.graph.nodeIds)
    (ht : target.HasIntegrity)
    (hRhs : r.rhs.HasIntegrity)
    (hSeparate : r.rhs.HasSeparateExotics) :
    r.IsReplacedAt m f target (r.result m fresh target) where
  nodes id labels := by
    rw [labels_result_iff hm hFresh, hGiven.exists_copy_iff]
  context id hId := by
    rcases mem_exoticTargets.1 hId with ⟨x, hx, hTarget⟩
    have hLive :=
      hm.live x id (ExoticGraph.contains_iff.2 (Or.inr hx))
        hTarget
    rcases mem_iff_exists_getElem?.1 hLive with
      ⟨labels, hLabels⟩
    refine ⟨hLive, ?_⟩
    rw [hLabels, labels_result_iff hm hFresh]
    exact Or.inl ⟨hm.notMem_replaced hx hTarget, hLabels⟩
  edges a b info := by
    rw [get?_edges_result_iff hm hFresh ht hSeparate,
      ← mem_newEdges_iff, mem_newEdges_iff_landsAt hGiven hRhs]
  dropped x := landing_eq_none_iff hm
  apart edge hEdge other hOther a b hLands hLands' :=
    hLands.inj hm hGiven hFresh hRhs hEdge hOther hLands'
  clear edge hEdge a b hLands := by
    have hNew : ⟨edge.toEdgeInfo, a, b⟩ ∈ r.newEdges m fresh :=
      (mem_newEdges_iff_landsAt hGiven hRhs).2
        ⟨edge, hEdge, rfl, hLands⟩
    rw [Option.eq_none_iff_forall_ne_some]
    intro old
    exact notMem_newEdges_of_get? ht hSeparate hFresh hNew
  count := size_edges_result hm hGiven hFresh ht hRhs hSeparate

/-
  A rule between exotic graphs rewrites at every match that its
  check accepts, into exactly its replacement in the place of
  the matched nodes.
-/
theorem apply_replaces
    {σ : Type}
    {source : IdSource σ}
    {supply : σ}
    {matched : List NodeId}
    (hRhs : r.rhs.HasIntegrity)
    (hSeparate : r.rhs.HasSeparateExotics)
    (ht : target.HasIntegrity)
    (hCheck : r.checkMorphism m target = .ok matched)
    (hIds :
      source.GivesFresh r.rhs.graph.nodeIds supply target f) :
    ∃ (result : Graph) (rest : σ),
      r.apply source m target supply =
          ⟨result, rest,
            .ok ⟨r.rhs.graph.nodeIds.map f, matched⟩⟩ ∧
        matched = r.replaced m ∧
          r.IsReplacedAt m f target result := by
  rcases checkMorphism_eq_ok_iff.1 hCheck with ⟨hm, rfl⟩
  rcases
      hIds.exists_drawIds r.rhs.graph.nodeIds_nodup r.name with
    ⟨fresh, rest, hDraw, hGiven⟩
  refine ⟨r.result m fresh target, rest, ?_, rfl, ?_⟩
  · rw [apply_eq_result hm hDraw, hGiven.values_eq]
  · exact isReplacedAt_result hm hGiven (drawIds_isFresh hDraw)
      ht hRhs hSeparate

/-
  A stem between two wildcards, one behind it
  and one before it.
-/
def frond
    (stem : Node)
    (more : List Node) : ExoticGraph :=
  let nodes :=
    (stem :: more).foldl ExoticGraph.addNode (.empty .wildcard)
  let ends :=
    (nodes.addExotic ⟨.name "tip", ∅⟩).addExotic
      ⟨.name "root", ∅⟩
  let edges :=
    more.map fun node => Edge.ofLabels stem.id node.id ∅
  let tipped :=
    ends.graph.edges.insert (.ofLabels stem.id (.name "tip") ∅)
  let rooted :=
    tipped.insert (.ofLabels (.name "root") stem.id ∅)
  ends.withEdges (edges.foldl EdgeStore.insert rooted)

/- The rule that lets a stem harden and puts a bud behind it. -/
def hardening : ExoticRule :=
  ⟨"harden", frond (.ofSymbol (.name "stem") "S") [],
    frond (.ofSymbol (.name "wood") "a")
      [.ofSymbol (.name "bud") "S"],
    rfl, by decide +kernel⟩

/-
  A stem with one neighbour, and an edge from
  that to a third node.
-/
def sapling : Graph :=
  let nodes :=
    (∅ : Graph).addNodes
      [.ofSymbol (.num 0) "S", .ofSymbol (.num 1) "a",
        .ofSymbol (.num 2) "a"]
  let grown := nodes.putEdge (.ofLabels (.num 0) (.num 1) ∅)
  grown.putEdge (.ofLabels (.num 1) (.num 2) (.ofSymbol "side"))

/-
  The stem is matched, and so is the wildcard behind it, but
  not the one before it.
-/
def saplingMatch : Morphism :=
  .ofList
    [(.name "stem", some (.num 0)),
      (.name "tip", some (.num 1)), (.name "root", none)]

def countedWood (id : NodeId) : NodeId :=
  if id = .name "bud" then .num 3 else .num 4

theorem apply_replaces_sapling :
    hardening.rhs.HasIntegrity ∧
      hardening.rhs.HasSeparateExotics ∧
      sapling.HasIntegrity ∧
        hardening.checkMorphism saplingMatch sapling =
          .ok [.num 0] ∧
          Grammar.countUp.GivesFresh hardening.rhs.graph.nodeIds
            3 sapling countedWood ∧
            ∃ (result : Graph) (rest : UInt64),
              hardening.apply Grammar.countUp saplingMatch
                sapling 3 =
                  ⟨result, rest,
                    .ok
                      ⟨hardening.rhs.graph.nodeIds.map
                        countedWood, [.num 0]⟩⟩ ∧
                [.num 0] = hardening.replaced saplingMatch ∧
                  hardening.IsReplacedAt saplingMatch
                    countedWood sapling result := by
  have hRhs : hardening.rhs.HasIntegrity := by decide +kernel
  have hSeparate : hardening.rhs.HasSeparateExotics := by
    decide +kernel
  have hSapling : sapling.HasIntegrity := by decide +kernel
  have hCheck :
      hardening.checkMorphism saplingMatch sapling =
        .ok [.num 0] := by
    decide +kernel
  have hIds :
      Grammar.countUp.GivesFresh hardening.rhs.graph.nodeIds 3
        sapling countedWood := by
    constructor <;> decide +kernel
  exact
    ⟨hRhs, hSeparate, hSapling, hCheck, hIds,
      apply_replaces hRhs hSeparate hSapling hCheck hIds⟩

end ExoticRule

end GraphRewriting
