import GraphRewriting.Proofs.Rewriting.Commuting

/-
  Two rewrites of one graph, at least one of them between
  exotic graphs, are independent where neither match speaks of
  a node that gives way at the other one. Then a rewrite reads
  nothing that the other one writes, and the order of the two
  does not matter.

  Main declarations:
    * `Graph.AgreesAt`
    * `Rule.Lists.of_agreesAt`
    * `Rule.AreIndependent`
    * `Rule.AreIndependent.agreesAt_resultAt`
    * `Rule.AreIndependent.get?_edges_both_iff`
    * `Rule.apply_comm_of_independent`
-/

------------------------------------------------------------
-- Graphs That Agree At A Match
------------------------------------------------------------

namespace GraphRewriting

/-
  Two graphs have the same labels at some nodes, and the same
  edges at some of them.
-/
structure Graph.AgreesAt
    (g h : Graph)
    (touched replaced : List NodeId) : Prop where
  labels : ∀ id ∈ touched, g.nodes[id]? = h.nodes[id]?
  edges :
    ∀ a b : NodeId,
      a ∈ replaced ∨ b ∈ replaced →
        g.edges.get? a b = h.edges.get? a b

namespace Graph.AgreesAt

variable {g h : Graph}
variable {touched replaced : List NodeId}

theorem symbol?_eq
    (hAgree : g.AgreesAt h touched replaced)
    {id : NodeId}
    (hId : id ∈ touched) :
    g.symbol? id = h.symbol? id := by
  unfold symbol?
  rw [hAgree.labels id hId]

theorem edgeSymbol?_eq
    (hAgree : g.AgreesAt h touched replaced)
    {a b : NodeId}
    (ha : a ∈ replaced) :
    g.edgeSymbol? a b = h.edgeSymbol? a b := by
  unfold edgeSymbol?
  rw [hAgree.edges a b (Or.inl ha)]

/- Replaced nodes have the same neighbours in both. -/
theorem mem_beside_iff
    (hAgree : g.AgreesAt h touched replaced)
    {direction : Direction}
    {a b : NodeId}
    (ha : a ∈ replaced) :
    b ∈ g.beside direction a ↔ b ∈ h.beside direction a := by
  cases direction with
  | incoming =>
      rw [mem_beside_incoming, mem_beside_incoming,
        hAgree.edges b a (Or.inr ha)]
  | outgoing =>
      rw [mem_beside_outgoing, mem_beside_outgoing,
        hAgree.edges a b (Or.inl ha)]

end Graph.AgreesAt

/-
  A match depends on the labels of its targets, and on the
  edges at replaced nodes.
-/
theorem ExoticGraph.IsMatch.of_agreesAt
    {r : ExoticRule}
    {target other : Graph}
    {m : Morphism}
    (h : r.lhs.IsMatch target m)
    (hAgree : target.AgreesAt other m.targets (r.replaced m)) :
    r.lhs.IsMatch other m where
  keys := h.keys
  bound := h.bound
  injective := h.injective
  symbols a ha x hx := by
    rw [h.symbols a ha x hx]
    exact hAgree.symbol?_eq (Morphism.mem_targets_iff.2 ⟨a, hx⟩)
  edges a ha b hb x y hx hy := by
    rw [h.edges a ha b hb x y hx hy]
    exact hAgree.edgeSymbol?_eq
      (ExoticRule.mem_replaced.2 ⟨a, ha, hx⟩)
  exotic x hx id hId := by
    rcases h.exotic x hx id hId with ⟨hNode, hImage⟩
    have hSymbol :=
      hAgree.symbol?_eq (Morphism.mem_targets_iff.2 ⟨x, hId⟩)
    rw [← Graph.isSome_symbol?, hSymbol,
      Graph.isSome_symbol?] at hNode
    exact ⟨hNode, hImage⟩
  unmatched := h.unmatched
  distinct := h.distinct
  around a ha image hImage direction id := by
    rw [h.around a ha image hImage direction id,
      hAgree.mem_beside_iff
        (ExoticRule.mem_replaced.2 ⟨a, ha, hImage⟩)]
  isolated := h.isolated

namespace Rule

variable {rule : Rule}
variable {target other : Graph}
variable {found : RuleMatch}
variable {fresh : FreshIds}

/- A match is listed for every graph that agrees at it. -/
theorem Lists.of_agreesAt
    (hLists : rule.Lists target found)
    (hRule : rule.IsSound)
    (ht : target.HasIntegrity)
    (hOther : other.HasIntegrity)
    (hAgree :
      target.AgreesAt other found.touched
        (rule.replacedAt found)) :
    rule.Lists other found := by
  cases rule with
  | node r =>
      rcases lists_node_iff.1 hLists with ⟨id, rfl, hSymbol⟩
      have hSame :=
        hAgree.symbol?_eq (List.mem_singleton_self id)
      exact lists_node_iff.2 ⟨id, rfl, hSame ▸ hSymbol⟩
  | region r =>
      rcases (lists_region_iff hRule.1.1 ht).1 hLists with
        ⟨m, rfl, hMatch, hListed⟩
      exact
        (lists_region_iff hRule.1.1 hOther).2
          ⟨m, rfl, hMatch.of_agreesAt hAgree, hListed⟩

/- What a rule adds depends on the edges at replaced nodes. -/
theorem adds_congr
    (hAgree :
      target.AgreesAt other found.touched
        (rule.replacedAt found))
    {a b : NodeId}
    {info : EdgeInfo} :
    rule.Adds fresh found other a b info ↔
      rule.Adds fresh found target a b info := by
  cases rule <;> cases found
  case node.node r id =>
    have hEdges :
        ∀ x y : NodeId,
          x = id ∨ y = id →
            target.edges.get? x y = other.edges.get? x y := by
      intro x y hAt
      apply hAgree.edges
      exact hAt.imp (fun hx => List.mem_singleton.2 hx)
        fun hy => List.mem_singleton.2 hy
    rw [adds_node, adds_node,
      ContextFreeRule.mem_adoptedEdges_iff,
      ContextFreeRule.mem_adoptedEdges_iff,
      ContextFreeRule.shows_congr (hEdges id id (Or.inl rfl))]
    apply or_congr_left
    constructor
    · rintro ⟨x, y, hInfo, hAt, hx, hy⟩
      exact ⟨x, y, (hEdges x y hAt).trans hInfo, hAt, hx, hy⟩
    · rintro ⟨x, y, hInfo, hAt, hx, hy⟩
      exact
        ⟨x, y, (hEdges x y hAt).symm.trans hInfo, hAt, hx, hy⟩
  all_goals exact Iff.rfl

/-
  An added edge ends at a copy, at a node of the match, or at a
  neighbour of a replaced node.
-/
theorem Adds.end_cases
    {a b : NodeId}
    {info : EdgeInfo}
    (hAdds : rule.Adds fresh found target a b info)
    (hFresh : fresh.IsFresh target rule.copiedIds)
    {c : NodeId}
    (hc : c = a ∨ c = b) :
    c ∉ target.nodes ∨
      c ∈ found.touched ∨
        ∃ d ∈ rule.replacedAt found,
          ∃ direction : Direction,
            c ∈ target.beside direction d := by
  cases rule <;> cases found
  case node.node r id =>
    rcases adds_node.1 hAdds with
      hAdopted | ⟨x, y, -, hx, hy, -⟩
    · rcases
          ContextFreeRule.mem_adoptedEdges_iff.1 hAdopted with
        ⟨x, y, hInfo, hAt, rfl, rfl⟩
      have hSome := Option.isSome_of_eq_some hInfo
      have hMoved :
          ∀ z : NodeId,
            c = ContextFreeRule.redirect id
              (ContextFreeRule.baseCopy fresh) z →
            c ∉ target.nodes ∨ c = z ∧ z ≠ id := by
        rintro z rfl
        by_cases hz : z = id
        · rw [hz, ContextFreeRule.redirect_self]
          exact Or.inl (ContextFreeRule.baseCopy_notMem hFresh)
        · rw [ContextFreeRule.redirect_of_ne hz]
          exact Or.inr ⟨rfl, hz⟩
      rcases hc with hc | hc
      · rcases hMoved x hc with hNew | ⟨rfl, hNe⟩
        · exact Or.inl hNew
        · have hy := hAt.resolve_left hNe
          subst hy
          exact Or.inr
            (Or.inr
              ⟨y, List.mem_singleton_self y, .incoming,
                Graph.mem_beside_incoming.2 hSome⟩)
      · rcases hMoved y hc with hNew | ⟨rfl, hNe⟩
        · exact Or.inl hNew
        · have hx := hAt.resolve_right hNe
          subst hx
          exact Or.inr
            (Or.inr
              ⟨x, List.mem_singleton_self x, .outgoing,
                Graph.mem_beside_outgoing.2 hSome⟩)
    · rcases hc with rfl | rfl
      · exact Or.inl (hFresh.absent x c hx)
      · exact Or.inl (hFresh.absent y c hy)
  case region.morphism r m =>
    rcases
        ExoticRule.mem_newEdges_iff.1 (adds_region.1 hAdds) with
      ⟨x, y, -, hx, hy⟩
    have hResolved :
        ∀ z : NodeId, r.resolve m fresh z = some c →
          c ∉ target.nodes ∨ c ∈ m.targets := by
      intro z hz
      rcases ExoticRule.resolve_eq_some_iff.1 hz with
        ⟨-, hTarget⟩ | ⟨-, hDrawn⟩
      · exact Or.inr (Morphism.mem_targets_iff.2 ⟨z, hTarget⟩)
      · exact Or.inl (hFresh.absent z c hDrawn)
    rcases hc with rfl | rfl
    · exact (hResolved x hx).imp_right Or.inl
    · exact (hResolved y hy).imp_right Or.inl
  all_goals exact absurd hAdds id

end Rule

end GraphRewriting

------------------------------------------------------------
-- Independent Matches
------------------------------------------------------------

namespace GraphRewriting

namespace Rule

/-
  Two sound rules with a listed match each, not both of them
  context-free, where neither match speaks of a node that gives
  way at the other one.
-/
structure AreIndependent
    (first second : Rule)
    (target : Graph)
    (found found' : RuleMatch) : Prop where
  sound : first.IsSound
  sound' : second.IsSound
  lists : first.Lists target found
  lists' : second.Lists target found'
  exotic :
    first.kind ≠ .contextFree ∨ second.kind ≠ .contextFree
  apart : ∀ id ∈ first.replacedAt found, id ∉ found'.touched
  apart' : ∀ id ∈ second.replacedAt found', id ∉ found.touched

variable {first second : Rule}
variable {target : Graph}
variable {found found' : RuleMatch}
variable {fresh fresh' : FreshIds}

/- Neither rule comes first in independence. -/
theorem AreIndependent.symm
    (h : AreIndependent first second target found found') :
    AreIndependent second first target found' found where
  sound := h.sound'
  sound' := h.sound
  lists := h.lists'
  lists' := h.lists
  exotic := h.exotic.symm
  apart := h.apart'
  apart' := h.apart

/-
  Between exotic graphs, a match speaks of the neighbours
  of replaced nodes.
-/
private theorem Lists.mem_touched_of_mem_beside
    {rule : Rule}
    (hLists : rule.Lists target found)
    (hRule : rule.IsSound)
    (ht : target.HasIntegrity)
    (hKind : rule.kind ≠ .contextFree)
    {c d : NodeId}
    {direction : Direction}
    (hd : d ∈ rule.replacedAt found)
    (hc : c ∈ target.beside direction d) :
    c ∈ found.touched := by
  rcases lists_cases hRule ht hLists with
    ⟨r, id, rfl, -⟩ | ⟨r, m, rfl, rfl, hMatch⟩
  · exact absurd rfl hKind
  · exact hMatch.mem_targets_of_mem_beside hd hc

/-
  No edge joins a node that gives way at one match to a node
  that gives way at the other: the match of a rule between
  exotic graphs would speak of both.
-/
theorem AreIndependent.notMem_of_mem_beside
    (h : AreIndependent first second target found found')
    (ht : target.HasIntegrity)
    {c d : NodeId}
    {direction : Direction}
    (hd : d ∈ first.replacedAt found)
    (hc : c ∈ target.beside direction d) :
    c ∉ second.replacedAt found' := by
  intro hReplaced
  rcases h.exotic with hKind | hKind
  · exact h.apart' c hReplaced
      (h.lists.mem_touched_of_mem_beside h.sound ht hKind hd hc)
  · apply h.apart d hd
    cases direction with
    | incoming =>
        have hd :=
          Graph.mem_beside_outgoing.2
            (Graph.mem_beside_incoming.1 hc)
        exact h.lists'.mem_touched_of_mem_beside h.sound' ht
          hKind hReplaced hd
    | outgoing =>
        have hd :=
          Graph.mem_beside_incoming.2
            (Graph.mem_beside_outgoing.1 hc)
        exact h.lists'.mem_touched_of_mem_beside h.sound' ht
          hKind hReplaced hd

/-
  Edges that one rule adds do not end where the
  other one replaces.
-/
theorem AreIndependent.notMem_of_adds
    (h : AreIndependent first second target found found')
    (ht : target.HasIntegrity)
    (hFresh : fresh.IsFresh target first.copiedIds)
    {a b : NodeId}
    {info : EdgeInfo}
    (hAdds : first.Adds fresh found target a b info) :
    a ∉ second.replacedAt found' ∧
      b ∉ second.replacedAt found' := by
  have hEnd :
      ∀ c : NodeId,
        c = a ∨ c = b → c ∉ second.replacedAt found' := by
    intro c hc hReplaced
    rcases hAdds.end_cases hFresh hc with
      hNew | hTouched | ⟨d, hd, direction, hBeside⟩
    · have hTouched := mem_touched_of_mem_replacedAt hReplaced
      exact hNew
        (h.lists'.mem_nodes_of_mem_touched h.sound' ht hTouched)
    · exact h.apart' c hReplaced hTouched
    · exact h.notMem_of_mem_beside ht hd hBeside hReplaced
  exact ⟨hEnd a (Or.inl rfl), hEnd b (Or.inr rfl)⟩

/-
  A rewrite changes nothing that an
  independent match depends on.
-/
theorem AreIndependent.agreesAt_resultAt
    (h : AreIndependent first second target found found')
    (ht : target.HasIntegrity)
    (hFresh : fresh.IsFresh target first.copiedIds) :
    target.AgreesAt (first.resultAt fresh found target)
      found'.touched
      (second.replacedAt found') where
  labels id hId := by
    have hNode :=
      h.lists'.mem_nodes_of_mem_touched h.sound' ht hId
    have hKept : id ∉ first.replacedAt found := fun hGone =>
      h.apart id hGone hId
    exact (getElem?_nodes_resultAt h.sound ht h.lists hFresh
      hNode hKept).symm
  edges a b hAt := by
    have hKept :
        ∀ c ∈ second.replacedAt found',
          c ∉ first.replacedAt found :=
      fun c hc hGone =>
        h.apart c hGone (mem_touched_of_mem_replacedAt hc)
    have hBeside :
        ∀ c ∈ second.replacedAt found',
          ∀ (direction : Direction) (d : NodeId),
          d ∈ target.beside direction c →
            d ∉ first.replacedAt found :=
      fun _ hc _ _ => h.symm.notMem_of_mem_beside ht hc
    apply Option.ext
    intro info
    rw [get?_edges_resultAt_iff h.sound ht h.lists hFresh]
    constructor
    · intro hInfo
      have hSome := Option.isSome_of_eq_some hInfo
      refine Or.inl ⟨?_, hInfo⟩
      rcases hAt with ha | hb
      · exact
          ⟨hKept a ha,
            hBeside a ha _ b
              (Graph.mem_beside_outgoing.2 hSome)⟩
      · exact
          ⟨hBeside b hb _ a (Graph.mem_beside_incoming.2 hSome),
            hKept b hb⟩
    · rintro (⟨-, hInfo⟩ | hAdds)
      · exact hInfo
      · have hEnds := h.notMem_of_adds ht hFresh hAdds
        exact absurd hAt (not_or.2 hEnds)

/- After a rewrite, an independent match is still listed. -/
theorem AreIndependent.lists_resultAt
    (h : AreIndependent first second target found found')
    (ht : target.HasIntegrity)
    (hFresh : fresh.IsFresh target first.copiedIds) :
    second.Lists (first.resultAt fresh found target) found' :=
  h.lists'.of_agreesAt h.sound' ht
    (hasIntegrity_resultAt h.sound ht h.lists hFresh)
    (h.agreesAt_resultAt ht hFresh)

/-
  The edges that two independent rewrites leave: those at no
  node that gives way, and those that either of them adds.
-/
theorem AreIndependent.get?_edges_both_iff
    (h : AreIndependent first second target found found')
    (ht : target.HasIntegrity)
    (hFresh : fresh.IsFresh target first.copiedIds)
    (hFresh' : fresh'.IsFresh target second.copiedIds)
    (hApart :
      ∀ a b id : NodeId,
        fresh[a]? = some id → fresh'[b]? ≠ some id)
    {a b : NodeId}
    {info : EdgeInfo} :
    (second.resultAt fresh' found'
        (first.resultAt fresh found target)).edges.get?
      a b =
        some info ↔
      ((a ∉ first.replacedAt found ∧
        b ∉ first.replacedAt found) ∧
          (a ∉ second.replacedAt found' ∧
            b ∉ second.replacedAt found') ∧
            target.edges.get? a b = some info) ∨
        first.Adds fresh found target a b info ∨
          second.Adds fresh' found' target a b info := by
  have hLeft := hasIntegrity_resultAt h.sound ht h.lists hFresh
  have hFreshLeft :=
    isFresh_resultAt h.sound ht h.lists hFresh hFresh' hApart
  have hEnds :
      first.Adds fresh found target a b info →
        a ∉ second.replacedAt found' ∧
          b ∉ second.replacedAt found' :=
    h.notMem_of_adds ht hFresh
  rw [get?_edges_resultAt_iff h.sound' hLeft
      (h.lists_resultAt ht hFresh) hFreshLeft,
    adds_congr (h.agreesAt_resultAt ht hFresh),
    get?_edges_resultAt_iff h.sound ht h.lists hFresh,
    ← or_assoc]
  apply or_congr_left
  constructor
  · rintro ⟨hKept', ⟨hKept, hInfo⟩ | hAdds⟩
    · exact Or.inl ⟨hKept, hKept', hInfo⟩
    · exact Or.inr hAdds
  · rintro (⟨hKept, hKept', hInfo⟩ | hAdds)
    · exact ⟨hKept', Or.inl ⟨hKept, hInfo⟩⟩
    · exact ⟨hEnds hAdds, Or.inr hAdds⟩

/- Either order of independent rules leaves the same edges. -/
theorem AreIndependent.get?_edges_comm
    (h : AreIndependent first second target found found')
    (ht : target.HasIntegrity)
    (hFresh : fresh.IsFresh target first.copiedIds)
    (hFresh' : fresh'.IsFresh target second.copiedIds)
    (hApart :
      ∀ a b id : NodeId,
        fresh[a]? = some id → fresh'[b]? ≠ some id)
    (a b : NodeId) :
    (second.resultAt fresh' found'
        (first.resultAt fresh found target)).edges.get?
      a b =
      (first.resultAt fresh found
          (second.resultAt fresh' found' target)).edges.get?
        a b := by
  have hApart' :
      ∀ a b id : NodeId,
        fresh'[a]? = some id → fresh[b]? ≠ some id :=
    fun a b id ha hb => hApart b a id hb ha
  apply Option.ext
  intro info
  rw [h.get?_edges_both_iff ht hFresh hFresh' hApart,
    h.symm.get?_edges_both_iff ht hFresh' hFresh hApart']
  exact or_congr and_left_comm or_comm

end Rule

end GraphRewriting

------------------------------------------------------------
-- The Order Of Two Independent Rewrites
------------------------------------------------------------

namespace GraphRewriting

namespace Rule

/-
  Two independent matches of rules that are not both
  context-free can be rewritten in either order, with the same
  ids for each of them. Each of the two is still listed after
  the other rewrite, both orders succeed, and they leave the
  same graph.
-/
theorem apply_comm_of_independent
    {first second : Rule}
    {target : Graph}
    {found found' : RuleMatch}
    {σ τ : Type}
    {source : IdSource σ}
    {supply supply' : σ}
    {other : IdSource τ}
    {start start' : τ}
    (ht : target.HasIntegrity)
    (hFirst : first.IsSound)
    (hSecond : second.IsSound)
    (hExotic :
      first.kind ≠ .contextFree ∨ second.kind ≠ .contextFree)
    (hLists : first.Lists target found)
    (hLists' : second.Lists target found')
    (hApart :
      ∀ id ∈ first.replacedAt found, id ∉ found'.touched)
    (hApart' :
      ∀ id ∈ second.replacedAt found', id ∉ found.touched)
    (hNodup :
      (source.drawn first.copiedIds supply ++
        source.drawn second.copiedIds supply').Nodup)
    (hAbsent :
      ∀ id ∈ source.drawn first.copiedIds supply ++
          source.drawn second.copiedIds supply',
          id ∉ target.nodes)
    (hSame :
      other.drawn first.copiedIds start =
        source.drawn first.copiedIds supply)
    (hSame' :
      other.drawn second.copiedIds start' =
        source.drawn second.copiedIds supply') :
    ∃ left right final : Graph,
      ((first.apply source found target supply).Reaches left ∧
          second.Lists left found' ∧
            (second.apply source found' left supply').Reaches
              final) ∧
        (second.apply other found' target start').Reaches
          right ∧
          first.Lists right found ∧
            (first.apply other found right start).Reaches
              final := by
  have hIndependent :
      AreIndependent first second target found found' :=
    ⟨hFirst, hSecond, hLists, hLists', hExotic, hApart, hApart'⟩
  exact
    reaches_in_both_orders first second found found' hFirst
      hSecond ht hLists hLists'
      hNodup hAbsent hSame hSame'
      (fun _ hFresh => hIndependent.lists_resultAt ht hFresh)
      (fun _ hFresh' =>
        hIndependent.symm.lists_resultAt ht hFresh')
      (fun _ _ hFresh hFresh' hApart =>
        hIndependent.get?_edges_comm ht hFresh hFresh' hApart)

/-
  An arrow whose tail has one more edge into it. The tip and
  the node behind the tail are rewritten; the tail stays.
-/
def trail : Graph :=
  let nodes :=
    (∅ : Graph).addNodes
      [.ofSymbol (.num 0) "A", .ofSymbol (.num 1) "B",
        .ofSymbol (.num 2) "A"]
  let behind :=
    nodes.putEdge
      (.ofLabels (.num 0) (.num 1) (.ofSymbol "behind"))
  behind.putEdge (.ofLabels (.num 1) (.num 2) ∅)

theorem apply_comm_trail :
    trail.HasIntegrity ∧
      (region Grammar.retipping).findMatches trail =
        .ok [.morphism Grammar.pointed] ∧
        (node ContextFreeRule.budding).findMatches trail =
            .ok [.node (.num 0), .node (.num 2)] ∧
          ∃ left right final : Graph,
            (((region Grammar.retipping).apply Grammar.countUp
              (.morphism Grammar.pointed)
                    trail 3).Reaches left ∧
                (node ContextFreeRule.budding).Lists left
                  (.node (.num 0)) ∧
                  ((node ContextFreeRule.budding).apply
                    Grammar.countUp (.node (.num 0))
                    left 4).Reaches final) ∧
              ((node ContextFreeRule.budding).apply
                Grammar.countUp (.node (.num 0))
                  trail 4).Reaches right ∧
                (region Grammar.retipping).Lists right
                  (.morphism Grammar.pointed) ∧
                  ((region Grammar.retipping).apply
                    Grammar.countUp
                    (.morphism Grammar.pointed) right 3).Reaches
                      final := by
  have hTrail : trail.HasIntegrity := by decide +kernel
  have hFound :
      (region Grammar.retipping).findMatches trail =
        .ok [.morphism Grammar.pointed] := by
    decide +kernel
  have hFound' :
      (node ContextFreeRule.budding).findMatches trail =
        .ok [.node (.num 0), .node (.num 2)] := by
    decide +kernel
  refine ⟨hTrail, hFound, hFound', ?_⟩
  apply apply_comm_of_independent hTrail
  · decide +kernel
  · decide +kernel
  · exact Or.inl (by decide)
  · exact ⟨_, hFound, List.mem_singleton_self _⟩
  · exact ⟨_, hFound', List.mem_cons_self⟩
  · decide +kernel
  · decide +kernel
  · decide +kernel
  · decide +kernel
  · rfl
  · rfl

end Rule

end GraphRewriting
