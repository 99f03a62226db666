import GraphRewriting.Proofs.Rewriting.Effect

/-
  Two rewrites of one graph, made one after the other, and the
  order of two context-free ones: each rewritten node gives its
  edges to its own copy of a base, so it does not matter which
  of them goes first.

  Main declarations:
    * `Outcome.Reaches`
    * `Rule.apply_reaches`
    * `Rule.labels_both_iff`
    * `ContextFreeRule.get?_edges_both_iff`
    * `ContextFreeRule.apply_comm`
-/

------------------------------------------------------------
-- One Rewrite After Another
------------------------------------------------------------

namespace GraphRewriting

/- A rule application succeeds and leaves a graph. -/
def Outcome.Reaches
    {σ : Type}
    (outcome : Outcome σ)
    (graph : Graph) : Prop :=
  outcome.graph = graph ∧
    ∃ rewrite : Rewrite, outcome.result = .ok rewrite

namespace Rule

variable {first second : Rule}
variable {target : Graph}
variable {found found' : RuleMatch}
variable {fresh fresh' : FreshIds}

/- A rule succeeds at a listed match with distinct new ids. -/
theorem apply_reaches
    {σ : Type}
    {source : IdSource σ}
    {supply : σ}
    (hFirst : first.IsSound)
    (ht : target.HasIntegrity)
    (hLists : first.Lists target found)
    (hNodup : (source.drawn first.copiedIds supply).Nodup)
    (hAbsent :
      ∀ id ∈ source.drawn first.copiedIds supply,
        id ∉ target.nodes) :
    (first.apply source found target supply).Reaches
      (first.resultAt (source.names first.copiedIds supply)
        found target) := by
  rcases exists_drawIds_eq_names hNodup hAbsent with
    ⟨rest, hDraw⟩
  rw [apply_eq_resultAt hFirst ht hLists hDraw]
  exact ⟨rfl, _, rfl⟩

/-
  What is replaced is gone, all else stays, and
  the copies are new.
-/
theorem mem_nodes_resultAt_iff
    (hFirst : first.IsSound)
    (ht : target.HasIntegrity)
    (hLists : first.Lists target found)
    (hFresh : fresh.IsFresh target first.copiedIds)
    {id : NodeId} :
    id ∈ (first.resultAt fresh found target).nodes ↔
      (id ∉ first.replacedAt found ∧ id ∈ target.nodes) ∨
        ∃ a : NodeId, fresh[a]? = some id := by
  have hFresh' :
      fresh.IsFresh target first.replacement.nodeIds :=
    copiedIds_eq ▸ hFresh
  exact
    hFresh'.mem_nodes_iff_of_labels fun _ =>
      labels_resultAt_iff hFirst ht hLists hFresh

/-
  Ids that are new to a graph, and to a rewrite of it, are
  new to the result.
-/
theorem isFresh_resultAt
    (hFirst : first.IsSound)
    (ht : target.HasIntegrity)
    (hLists : first.Lists target found)
    (hFresh : fresh.IsFresh target first.copiedIds)
    (hFresh' : fresh'.IsFresh target second.copiedIds)
    (hApart :
      ∀ a b id : NodeId,
        fresh[a]? = some id → fresh'[b]? ≠ some id) :
    fresh'.IsFresh (first.resultAt fresh found target)
      second.copiedIds where
  keys := hFresh'.keys
  absent b id hb hId := by
    rcases
        (mem_nodes_resultAt_iff hFirst ht hLists hFresh).1
          hId with
      ⟨-, hOld⟩ | ⟨a, ha⟩
    · exact hFresh'.absent b id hb hOld
    · exact hApart a b id ha hb
  injective := hFresh'.injective

/- A node that is not replaced keeps its labels. -/
theorem getElem?_nodes_resultAt
    (hFirst : first.IsSound)
    (ht : target.HasIntegrity)
    (hLists : first.Lists target found)
    (hFresh : fresh.IsFresh target first.copiedIds)
    {id : NodeId}
    (hId : id ∈ target.nodes)
    (hKept : id ∉ first.replacedAt found) :
    (first.resultAt fresh found target).nodes[id]? =
      target.nodes[id]? := by
  rcases mem_iff_exists_getElem?.1 hId with ⟨labels, hLabels⟩
  rw [hLabels]
  exact (labels_resultAt_iff hFirst ht hLists hFresh).2
    (Or.inl ⟨hKept, hLabels⟩)

/-
  The nodes that two rewrites leave: those that neither of them
  replaces, and the copies that each of them makes.
-/
theorem labels_both_iff
    (hFirst : first.IsSound)
    (hSecond : second.IsSound)
    (ht : target.HasIntegrity)
    (hLists : first.Lists target found)
    (hLists' : second.Lists target found')
    (hNext :
      second.Lists (first.resultAt fresh found target) found')
    (hFresh : fresh.IsFresh target first.copiedIds)
    (hFresh' : fresh'.IsFresh target second.copiedIds)
    (hApart :
      ∀ a b id : NodeId,
        fresh[a]? = some id → fresh'[b]? ≠ some id)
    {id : NodeId}
    {labels : Labels} :
    (second.resultAt fresh' found'
      (first.resultAt fresh found target)).nodes[id]? =
        some labels ↔
      ((id ∉ first.replacedAt found ∧
        id ∉ second.replacedAt found') ∧
          target.nodes[id]? = some labels) ∨
        (∃ a : NodeId,
          fresh[a]? = some id ∧
            first.replacement.nodes[a]? = some labels) ∨
          ∃ a : NodeId,
            fresh'[a]? = some id ∧
              second.replacement.nodes[a]? = some labels := by
  have hLeft := hasIntegrity_resultAt hFirst ht hLists hFresh
  have hFreshLeft :=
    isFresh_resultAt hFirst ht hLists hFresh hFresh' hApart
  have hCopy :
      ∀ a : NodeId,
        fresh[a]? = some id →
          id ∉ second.replacedAt found' := by
    intro a ha hId
    have hOld :=
      hLists'.mem_nodes_of_mem_touched hSecond ht
        (mem_touched_of_mem_replacedAt hId)
    exact hFresh.absent a id ha hOld
  rw [labels_resultAt_iff hSecond hLeft hNext hFreshLeft,
    labels_resultAt_iff hFirst ht hLists hFresh, ← or_assoc]
  apply or_congr_left
  constructor
  · rintro ⟨hId, ⟨hKept, hLabels⟩ | hCopied⟩
    · exact Or.inl ⟨⟨hKept, hId⟩, hLabels⟩
    · exact Or.inr hCopied
  · rintro (⟨⟨hKept, hId⟩, hLabels⟩ | ⟨a, ha, hLabels⟩)
    · exact ⟨hId, Or.inl ⟨hKept, hLabels⟩⟩
    · exact ⟨hCopy a ha, Or.inr ⟨a, ha, hLabels⟩⟩

/-
  Where each rewrite leaves the other one its match, and the
  edges come out the same, both orders lead to one graph.
-/
theorem resultAt_comm
    (hFirst : first.IsSound)
    (hSecond : second.IsSound)
    (ht : target.HasIntegrity)
    (hLists : first.Lists target found)
    (hLists' : second.Lists target found')
    (hNext :
      second.Lists (first.resultAt fresh found target) found')
    (hNext' :
      first.Lists (second.resultAt fresh' found' target) found)
    (hFresh : fresh.IsFresh target first.copiedIds)
    (hFresh' : fresh'.IsFresh target second.copiedIds)
    (hApart :
      ∀ a b id : NodeId,
        fresh[a]? = some id → fresh'[b]? ≠ some id)
    (hEdges :
      ∀ a b : NodeId,
        (second.resultAt fresh' found'
            (first.resultAt fresh found target)).edges.get? a
              b =
          (first.resultAt fresh found
            (second.resultAt fresh' found' target)).edges.get? a
              b) :
    second.resultAt fresh' found'
      (first.resultAt fresh found target) =
      first.resultAt fresh found
        (second.resultAt fresh' found' target) := by
  have hApart' :
      ∀ a b id : NodeId,
        fresh'[a]? = some id → fresh[b]? ≠ some id :=
    fun a b id ha hb => hApart b a id hb ha
  apply Graph.ext_get? _ hEdges
  intro id
  apply Option.ext
  intro labels
  rw [labels_both_iff hFirst hSecond ht hLists hLists' hNext
      hFresh hFresh' hApart,
    labels_both_iff hSecond hFirst ht hLists' hLists hNext'
      hFresh' hFresh hApart',
    and_comm (a := id ∉ first.replacedAt found)]
  exact or_congr_right or_comm

end Rule

end GraphRewriting

------------------------------------------------------------
-- Both Orders
------------------------------------------------------------

namespace GraphRewriting

namespace Rule

variable {first second : Rule}
variable {target : Graph}
variable {found found' : RuleMatch}
variable {σ τ : Type}
variable {source : IdSource σ}
variable {supply supply' : σ}
variable {other : IdSource τ}
variable {start start' : τ}

/-
  Two rewrites succeed one after the other
  with distinct new ids.
-/
private theorem reaches_in_turn
    (hFirst : first.IsSound)
    (hSecond : second.IsSound)
    (ht : target.HasIntegrity)
    (hLists : first.Lists target found)
    (hNodup :
      (source.drawn first.copiedIds supply ++
        source.drawn second.copiedIds supply').Nodup)
    (hAbsent :
      ∀ id ∈ source.drawn first.copiedIds supply ++
          source.drawn second.copiedIds supply',
          id ∉ target.nodes)
    {left : Graph}
    (hLeft :
      left =
        first.resultAt (source.names first.copiedIds supply)
          found target)
    (hNext : second.Lists left found') :
    (first.apply source found target supply).Reaches left ∧
      (second.apply source found' left supply').Reaches
        (second.resultAt (source.names second.copiedIds supply')
          found' left) := by
  rcases List.nodup_append.1 hNodup with
    ⟨hNodup, hNodup', hDistinct⟩
  rw [List.forall_mem_append] at hAbsent
  have hFresh := isFresh_names hNodup hAbsent.1
  subst hLeft
  refine ⟨apply_reaches hFirst ht hLists hNodup hAbsent.1, ?_⟩
  have hIntegrity :=
    hasIntegrity_resultAt hFirst ht hLists hFresh
  apply apply_reaches hSecond hIntegrity hNext hNodup'
  intro id hId hMem
  rcases
      (mem_nodes_resultAt_iff hFirst ht hLists hFresh).1
        hMem with
    ⟨-, hOld⟩ | ⟨a, ha⟩
  · exact hAbsent.2 id hId hOld
  · exact
      hDistinct id (mem_drawn_of_getElem?_names ha) id hId rfl

/-
  Two rewrites can be made in either order, with the same ids
  for each of them, where each leaves the other one its match
  and the edges come out the same.
-/
theorem reaches_in_both_orders
    (first second : Rule)
    (found found' : RuleMatch)
    (hFirst : first.IsSound)
    (hSecond : second.IsSound)
    (ht : target.HasIntegrity)
    (hLists : first.Lists target found)
    (hLists' : second.Lists target found')
    (hNodup :
      (source.drawn first.copiedIds supply ++
        source.drawn second.copiedIds supply').Nodup)
    (hAbsent :
      ∀ id ∈ source.drawn first.copiedIds supply ++
          source.drawn second.copiedIds supply',
          id ∉ target.nodes)
    (hSame :
      other.drawn first.copiedIds start =
        source.drawn first.copiedIds supply)
    (hSame' :
      other.drawn second.copiedIds start' =
        source.drawn second.copiedIds supply')
    (hNext :
      ∀ fresh : FreshIds, fresh.IsFresh target first.copiedIds →
        second.Lists (first.resultAt fresh found target) found')
    (hNext' :
      ∀ fresh' : FreshIds,
        fresh'.IsFresh target second.copiedIds →
        first.Lists (second.resultAt fresh' found' target)
          found)
    (hEdges :
      ∀ fresh fresh' : FreshIds,
        fresh.IsFresh target first.copiedIds →
          fresh'.IsFresh target second.copiedIds →
            (∀ a b id : NodeId,
              fresh[a]? = some id → fresh'[b]? ≠ some id) →
              ∀ a b : NodeId,
                (second.resultAt fresh' found'
                    (first.resultAt fresh found
                      target)).edges.get? a b =
                  (first.resultAt fresh found
                    (second.resultAt fresh' found'
                      target)).edges.get? a b) :
    ∃ left right final : Graph,
      ((first.apply source found target supply).Reaches left ∧
          second.Lists left found' ∧
            (second.apply source found' left supply').Reaches
              final) ∧
        (second.apply other found' target start').Reaches
          right ∧
          first.Lists right found ∧
            (first.apply other found right start).Reaches
              final := by
  have hParts := List.nodup_append.1 hNodup
  have hAbsents := List.forall_mem_append.1 hAbsent
  have hFresh := isFresh_names hParts.1 hAbsents.1
  have hFresh' := isFresh_names hParts.2.1 hAbsents.2
  have hApart :
      ∀ a b id : NodeId,
        (source.names first.copiedIds supply)[a]? = some id →
          (source.names second.copiedIds supply')[b]? ≠
            some id :=
    fun a b id ha hb =>
      hParts.2.2 id (mem_drawn_of_getElem?_names ha) id
        (mem_drawn_of_getElem?_names hb)
        rfl
  have hComm :=
    resultAt_comm hFirst hSecond ht hLists hLists'
      (hNext _ hFresh) (hNext' _ hFresh')
      hFresh hFresh' hApart (hEdges _ _ hFresh hFresh' hApart)
  have hNames :
      other.names first.copiedIds start =
        source.names first.copiedIds supply := by
    unfold IdSource.names
    rw [hSame]
  have hNames' :
      other.names second.copiedIds start' =
        source.names second.copiedIds supply' := by
    unfold IdSource.names
    rw [hSame']
  have hSwapped := List.nodup_append_comm.1 hNodup
  rw [← hSame, ← hSame'] at hSwapped
  have hAbsent' :
      ∀ id ∈
          other.drawn second.copiedIds start' ++
            other.drawn first.copiedIds start,
        id ∉ target.nodes := by
    rw [hSame, hSame']
    exact List.forall_mem_append.2 ⟨hAbsents.2, hAbsents.1⟩
  have hForth :=
    reaches_in_turn hFirst hSecond ht hLists hNodup hAbsent rfl
      (hNext _ hFresh)
  have hBack :=
    reaches_in_turn hSecond hFirst ht hLists' hSwapped hAbsent'
      rfl
      (hNames' ▸ hNext' _ hFresh')
  rw [hNames, hNames', ← hComm] at hBack
  exact
    ⟨_, _, _, ⟨hForth.1, hNext _ hFresh, hForth.2⟩, hBack.1,
      hNext' _ hFresh', hBack.2⟩

end Rule

end GraphRewriting

------------------------------------------------------------
-- Two Rewritten Nodes
------------------------------------------------------------

namespace GraphRewriting

namespace ContextFreeRule

variable {r s : ContextFreeRule}
variable {target : Graph}
variable {fresh fresh' : FreshIds}
variable {m n : NodeId}

/-
  Two redirections of different nodes to new ones can be
  made in either order.
-/
theorem redirect_comm
    {base base' : NodeId}
    (hNe : m ≠ n)
    (hBase : base ≠ n)
    (hBase' : base' ≠ m)
    (id : NodeId) :
    redirect n base' (redirect m base id) =
      redirect m base (redirect n base' id) := by
  by_cases hm : id = m
  · subst hm
    rw [redirect_of_ne hNe, redirect_self, redirect_of_ne hBase]
  · rw [redirect_of_ne hm]
    by_cases hn : id = n
    · subst hn
      rw [redirect_self, redirect_of_ne hBase']
    · rw [redirect_of_ne hn, redirect_of_ne hm]

/- Between nodes that stay, edges stay as they are. -/
theorem get?_edges_result_of_mem
    (hFresh : fresh.IsFresh target r.rhs.nodeIds)
    (ht : target.HasIntegrity)
    (hRhs : r.rhs.HasIntegrity)
    (hm : m ∈ target.nodes)
    {a b : NodeId}
    (ha : a ∈ target.nodes ∧ a ≠ m)
    (hb : b ∈ target.nodes ∧ b ≠ m) :
    (r.result fresh m target).edges.get? a b =
      target.edges.get? a b := by
  have hOld :
      ∀ c id : NodeId,
        id ∈ target.nodes → redirect m (baseCopy fresh) c = id →
          c = id := by
    intro c id hId hc
    by_cases hcm : c = m
    · subst hcm
      rw [redirect_self] at hc
      exact absurd (hc ▸ hId) (baseCopy_notMem hFresh)
    · rwa [redirect_of_ne hcm] at hc
  apply Option.ext
  intro info
  rw [get?_edges_result_iff hFresh ht hRhs hm]
  constructor
  · rintro (⟨x, y, hInfo, hx, hy⟩ | ⟨x, y, -, hx, -⟩)
    · rwa [hOld x a ha.1 hx, hOld y b hb.1 hy] at hInfo
    · exact absurd ha.1 (hFresh.absent x a hx)
  · intro hInfo
    exact Or.inl
      ⟨a, b, hInfo, redirect_of_ne ha.2, redirect_of_ne hb.2⟩

/-
  What shows of a replacement depends on the self loop of the
  rewritten node alone.
-/
theorem shows_congr
    {graph : Graph}
    (hLoop : graph.edges.get? m m = target.edges.get? m m)
    {a b : NodeId}
    {info : EdgeInfo} :
    r.Shows fresh m graph a b info ↔
      r.Shows fresh m target a b info := by
  unfold Shows
  rw [hLoop]

/-
  The edges that two context-free rewrites leave: those of the
  target graph, with two copies of bases in the place of the
  rewritten nodes, and those of both replacements that show.
-/
theorem get?_edges_both_iff
    (ht : target.HasIntegrity)
    (hr : r.rhs.HasIntegrity)
    (hs : s.rhs.HasIntegrity)
    (hm : m ∈ target.nodes)
    (hn : n ∈ target.nodes)
    (hNe : m ≠ n)
    (hFresh : fresh.IsFresh target r.rhs.nodeIds)
    (hFresh' :
      fresh'.IsFresh (r.result fresh m target) s.rhs.nodeIds)
    {a b : NodeId}
    {info : EdgeInfo} :
    (s.result fresh' n (r.result fresh m target)).edges.get? a
        b = some info ↔
      (∃ x y : NodeId,
        target.edges.get? x y = some info ∧
          redirect n (baseCopy fresh')
              (redirect m (baseCopy fresh) x) =
            a ∧
            redirect n (baseCopy fresh')
              (redirect m (baseCopy fresh) y) = b) ∨
        r.Shows fresh m target a b info ∨
          s.Shows fresh' n target a b info := by
  have hLeft := hasIntegrity_result hFresh ht hr hm
  have hnLeft : n ∈ (r.result fresh m target).nodes :=
    (mem_nodes_result_iff hFresh hm).2 (Or.inl ⟨hNe.symm, hn⟩)
  have hLoop :
      (r.result fresh m target).edges.get? n n =
        target.edges.get? n n :=
    get?_edges_result_of_mem hFresh ht hr hm ⟨hn, hNe.symm⟩
      ⟨hn, hNe.symm⟩
  have hCopy :
      ∀ x id : NodeId,
        fresh[x]? = some id →
          redirect n (baseCopy fresh') id = id := by
    intro x id hx
    apply redirect_of_ne
    rintro rfl
    exact hFresh.absent x id hx hn
  rw [get?_edges_result_iff hFresh' hLeft hs hnLeft,
    shows_congr hLoop, ← or_assoc]
  apply or_congr_left
  simp only [get?_edges_result_iff hFresh ht hr hm]
  constructor
  · rintro ⟨x, y,
      ⟨p, q, hInfo, rfl, rfl⟩ | ⟨p, q, hInfo, hp, hq, hShown⟩,
      hx, hy⟩
    · exact Or.inl ⟨p, q, hInfo, hx, hy⟩
    · rw [hCopy p x hp] at hx
      rw [hCopy q y hq] at hy
      subst hx
      subst hy
      exact Or.inr ⟨p, q, hInfo, hp, hq, hShown⟩
  · rintro (⟨x, y, hInfo, hx, hy⟩ | ⟨p, q, hInfo, hp, hq,
      hShown⟩)
    · exact ⟨_, _, Or.inl ⟨x, y, hInfo, rfl, rfl⟩, hx, hy⟩
    · exact
        ⟨a, b, Or.inr ⟨p, q, hInfo, hp, hq, hShown⟩,
          hCopy p a hp, hCopy q b hq⟩

/- Another node with its symbol can still be rewritten. -/
theorem lists_result
    (ht : target.HasIntegrity)
    (hr : r.rhs.HasIntegrity)
    (hm : target.symbol? m = some r.symbol)
    (hn : target.symbol? n = some s.symbol)
    (hNe : m ≠ n)
    (hFresh : fresh.IsFresh target r.rhs.nodeIds) :
    (Rule.node s).Lists (r.result fresh m target)
      (.node n) := by
  have hSound : (Rule.node r).IsSound := hr
  have hKept :
      ((Rule.node r).resultAt fresh (.node m)
          target).nodes[n]? =
        target.nodes[n]? :=
    Rule.getElem?_nodes_resultAt hSound ht
      (Rule.lists_node_iff.2 ⟨m, rfl, hm⟩) hFresh
      (Rule.mem_nodes_of_symbol?_eq_some hn)
      fun h => hNe (List.mem_singleton.1 h).symm
  refine Rule.lists_node_iff.2 ⟨n, rfl, ?_⟩
  exact (congrArg (Option.map Labels.symbol) hKept).trans hn

/-
  Either order leaves the same edges, those between the two
  rewritten nodes included.
-/
theorem get?_edges_result_comm
    (ht : target.HasIntegrity)
    (hr : r.rhs.HasIntegrity)
    (hs : s.rhs.HasIntegrity)
    (hm : target.symbol? m = some r.symbol)
    (hn : target.symbol? n = some s.symbol)
    (hNe : m ≠ n)
    (hFresh : fresh.IsFresh target r.rhs.nodeIds)
    (hFresh' : fresh'.IsFresh target s.rhs.nodeIds)
    (hApart :
      ∀ a b id : NodeId,
        fresh[a]? = some id → fresh'[b]? ≠ some id)
    (a b : NodeId) :
    (s.result fresh' n (r.result fresh m target)).edges.get? a
      b =
      (r.result fresh m (s.result fresh' n target)).edges.get? a
        b := by
  have hmNode := Rule.mem_nodes_of_symbol?_eq_some hm
  have hnNode := Rule.mem_nodes_of_symbol?_eq_some hn
  have hSound : (Rule.node r).IsSound := hr
  have hSound' : (Rule.node s).IsSound := hs
  have hLeft :
      fresh'.IsFresh
        ((Rule.node r).resultAt fresh (.node m) target)
        (Rule.node s).copiedIds :=
    Rule.isFresh_resultAt hSound ht
      (Rule.lists_node_iff.2 ⟨m, rfl, hm⟩) hFresh hFresh'
      hApart
  have hRight :
      fresh.IsFresh
        ((Rule.node s).resultAt fresh' (.node n) target)
        (Rule.node r).copiedIds :=
    Rule.isFresh_resultAt hSound' ht
      (Rule.lists_node_iff.2 ⟨n, rfl, hn⟩) hFresh' hFresh
      fun a b id ha hb => hApart b a id hb ha
  have hBase : baseCopy fresh ≠ n := fun hEq =>
    baseCopy_notMem hFresh (hEq ▸ hnNode)
  have hBase' : baseCopy fresh' ≠ m := fun hEq =>
    baseCopy_notMem hFresh' (hEq ▸ hmNode)
  apply Option.ext
  intro info
  rw [get?_edges_both_iff ht hr hs hmNode hnNode hNe hFresh
      hLeft,
    get?_edges_both_iff ht hs hr hnNode hmNode hNe.symm hFresh'
      hRight]
  simp only [redirect_comm hNe hBase hBase']
  exact or_congr_right or_comm

end ContextFreeRule

end GraphRewriting

------------------------------------------------------------
-- The Order Of Two Context-Free Rewrites
------------------------------------------------------------

namespace GraphRewriting

namespace ContextFreeRule

/-
  Two nodes that match two context-free rules can be rewritten
  in either order, with the same ids for each of them. Both
  orders succeed and leave the same graph.
-/
theorem apply_comm
    {r s : ContextFreeRule}
    {target : Graph}
    {m n : NodeId}
    {σ τ : Type}
    {source : IdSource σ}
    {supply supply' : σ}
    {other : IdSource τ}
    {start start' : τ}
    (ht : target.HasIntegrity)
    (hr : r.rhs.HasIntegrity)
    (hs : s.rhs.HasIntegrity)
    (hm : m ∈ r.findMatches target)
    (hn : n ∈ s.findMatches target)
    (hNe : m ≠ n)
    (hNodup :
      (source.drawn r.rhs.nodeIds supply ++
        source.drawn s.rhs.nodeIds supply').Nodup)
    (hAbsent :
      ∀ id ∈
          source.drawn r.rhs.nodeIds supply ++
            source.drawn s.rhs.nodeIds supply',
        id ∉ target.nodes)
    (hSame :
      other.drawn r.rhs.nodeIds start =
        source.drawn r.rhs.nodeIds supply)
    (hSame' :
      other.drawn s.rhs.nodeIds start' =
        source.drawn s.rhs.nodeIds supply') :
    ∃ left right final : Graph,
      ((r.apply source m target supply).Reaches left ∧
          (s.apply source n left supply').Reaches final) ∧
        (s.apply other n target start').Reaches right ∧
          (r.apply other m right start).Reaches final := by
  have hmSymbol : target.symbol? m = some r.symbol := by
    simpa using (List.mem_filter.1 hm).2
  have hnSymbol : target.symbol? n = some s.symbol := by
    simpa using (List.mem_filter.1 hn).2
  obtain
      ⟨left, right, final, ⟨hLeft, -, hForth⟩, hRight, -,
        hBack⟩ :=
    Rule.reaches_in_both_orders (.node r) (.node s) (.node m)
      (.node n) hr hs ht
      (Rule.lists_node_iff.2 ⟨m, rfl, hmSymbol⟩)
      (Rule.lists_node_iff.2 ⟨n, rfl, hnSymbol⟩) hNodup hAbsent
        hSame hSame'
      (fun _ hFresh =>
        lists_result ht hr hmSymbol hnSymbol hNe hFresh)
      (fun _ hFresh' =>
        lists_result ht hs hnSymbol hmSymbol hNe.symm hFresh')
      (fun _ _ hFresh hFresh' hApart =>
        get?_edges_result_comm ht hr hs hmSymbol hnSymbol hNe
          hFresh hFresh' hApart)
  exact ⟨left, right, final, ⟨hLeft, hForth⟩, hRight, hBack⟩

/- A node with a self loop that gets a neighbour. -/
def budding : ContextFreeRule where
  name := "bud"
  lhs := .ofSymbol "A"
  rhs :=
    let nodes :=
      (∅ : Graph).addNodes
        [.ofSymbol .base "A", .ofSymbol (.name "bud") "B"]
    let looped := nodes.putEdge (.ofLabels .base .base ∅)
    looped.putEdge (.ofLabels .base (.name "bud") ∅)
  nameKey_mem := Labels.nameKey_mem_ofSymbol "A"
  base_mem := by decide +kernel

/-
  Two nodes with edges both ways, and a self
  loop at one of them.
-/
def couple : Graph :=
  let nodes :=
    (∅ : Graph).addNodes
      [.ofSymbol (.num 0) "A", .ofSymbol (.num 1) "A"]
  let there :=
    nodes.putEdge
      (.ofLabels (.num 0) (.num 1) (.ofSymbol "there"))
  let back :=
    there.putEdge
      (.ofLabels (.num 1) (.num 0) (.ofSymbol "back"))
  back.putEdge (.ofLabels (.num 1) (.num 1) (.ofSymbol "self"))

/- The general statement, at two nodes with edges both ways. -/
theorem apply_comm_couple :
    couple.HasIntegrity ∧
      budding.rhs.HasIntegrity ∧
        budding.findMatches couple = [.num 0, .num 1] ∧
          ∃ left right final : Graph,
            ((budding.apply Grammar.countUp (.num 0) couple
              2).Reaches left ∧
                (budding.apply Grammar.countUp (.num 1) left
                  4).Reaches final) ∧
              (budding.apply Grammar.countUp (.num 1) couple
                  4).Reaches
                right ∧
                (budding.apply Grammar.countUp (.num 0) right
                    2).Reaches
                  final := by
  have hCouple : couple.HasIntegrity := by decide +kernel
  have hBudding : budding.rhs.HasIntegrity := by decide +kernel
  have hFound :
      budding.findMatches couple = [.num 0, .num 1] := by
    decide +kernel
  refine ⟨hCouple, hBudding, hFound, ?_⟩
  apply apply_comm hCouple hBudding hBudding
  · simp [hFound]
  · simp [hFound]
  · decide
  · decide +kernel
  · decide +kernel
  · rfl
  · rfl

end ContextFreeRule

end GraphRewriting
