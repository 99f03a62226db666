import GraphRewriting.Proofs.Document.Restoring

/-
  Rules that are read back from their elements. An element has
  one left-hand side, so the order in which kinds are tried
  does not matter.

  Main declarations:
    * `Rule.HasClash`
    * `Rule.IsDescribable`
    * `RuleElement.ofRule_spec`
-/

------------------------------------------------------------
-- Rules That Can Be Described
------------------------------------------------------------

namespace GraphRewriting

/-
  A graph that documents can hold: edges join nodes, and nodes
  and edges are marked as in exotic graphs.
-/
structure Graph.IsDescribable (g : Graph) : Prop where
  integrity : g.HasIntegrity
  marked : g.IsMarked

instance (g : Graph) : Decidable g.IsDescribable :=
  decidable_of_iff (g.HasIntegrity ∧ g.IsMarked)
    ⟨fun h => ⟨h.1, h.2⟩, fun h => ⟨h.integrity, h.marked⟩⟩

namespace Rule

/- A graph of a rule has a label with a key of its element. -/
def HasClash : Rule → Prop
  | node rule => rule.rhs.HasClash
  | region rule =>
      rule.lhs.graph.HasClash ∨ rule.rhs.graph.HasClash

/- The graphs of a rule can be described. -/
def IsDescribable : Rule → Prop
  | node rule => rule.rhs.IsDescribable
  | region rule =>
      rule.lhs.IsDescribable ∧ rule.rhs.IsDescribable

instance (rule : Rule) : Decidable rule.HasClash :=
  match rule with
  | node rule => inferInstanceAs (Decidable rule.rhs.HasClash)
  | region rule =>
      inferInstanceAs (Decidable
        (rule.lhs.graph.HasClash ∨ rule.rhs.graph.HasClash))

instance (rule : Rule) : Decidable rule.IsDescribable :=
  match rule with
  | node rule =>
      inferInstanceAs (Decidable rule.rhs.IsDescribable)
  | region rule =>
      inferInstanceAs (Decidable
        (rule.lhs.IsDescribable ∧ rule.rhs.IsDescribable))

end Rule

/- Labels that have a symbol need none filled in. -/
theorem Labels.fillSymbol_of_mem
    {labels : Labels}
    (h : Labels.nameKey ∈ labels) :
    labels.fillSymbol = labels := by
  apply Std.ExtTreeMap.ext_getElem?
  intro key
  unfold Labels.fillSymbol
  rw [Std.ExtTreeMap.getElem?_insertIfNew, if_neg]
  exact fun hNew => hNew.2 h

/- Exotic nodes without labels are decided by their ids. -/
theorem ExoticGraph.exotic_eq_of_bare
    {p q : ExoticGraph}
    (hIds : p.exoticIds = q.exoticIds)
    (hp : ∀ node ∈ p.exotic.nodes, node.labels = ∅)
    (hq : ∀ node ∈ q.exotic.nodes, node.labels = ∅) :
    p.exotic = q.exotic := by
  rw [← NodeStore.putBare_keys hp, ← NodeStore.putBare_keys hq]
  exact congrArg (NodeStore.putBare ∅) hIds

theorem ExoticGraph.parts_eq_of_equiv
    {p q : ExoticGraph}
    (h : p ≈ q) :
    p.kind = q.kind ∧ p.exotic = q.exotic := by
  have hPlain : p.plain = q.plain := h
  constructor
  · show p.plain.kind = q.plain.kind
    rw [hPlain]
  · show p.plain.exotic = q.plain.exotic
    rw [hPlain]

end GraphRewriting

------------------------------------------------------------
-- Rules From Their Parts
------------------------------------------------------------

namespace GraphRewriting

theorem ContextFreeRule.eq_of_parts
    {r s : ContextFreeRule}
    (hName : r.name = s.name)
    (hLhs : r.lhs = s.lhs)
    (hRhs : r.rhs = s.rhs) :
    r = s := by
  cases r
  cases s
  cases hName
  cases hLhs
  cases hRhs
  rfl

theorem ExoticRule.eq_of_parts
    {r s : ExoticRule}
    (hName : r.name = s.name)
    (hLhs : r.lhs = s.lhs)
    (hRhs : r.rhs = s.rhs) :
    r = s := by
  cases r
  cases s
  cases hName
  cases hLhs
  cases hRhs
  rfl

namespace Rule

/-
  A context-free rule comes back from its name, its
  labels and its graph.
-/
theorem contextFreeOfLabels_of_equiv
    {rule : ContextFreeRule}
    {rhs : Graph}
    (hRhs : rhs ≈ rule.rhs) :
    ∃ other : Rule,
      contextFreeOfLabels rule.name rule.lhs rhs = .ok other ∧
        other ≈ node rule := by
  have hBase : NodeId.base ∈ rhs.nodes := by
    rw [Graph.nodes_eq_of_equiv hRhs]
    exact rule.base_mem
  have hFill := Labels.fillSymbol_of_mem rule.nameKey_mem
  refine
    ⟨node
        ⟨rule.name, rule.lhs.fillSymbol, rhs,
          rule.lhs.nameKey_mem_fillSymbol, hBase⟩,
      ?_, ?_⟩
  · unfold contextFreeOfLabels ContextFreeRule.make
    rw [dif_pos hBase]
    rfl
  · exact
      congrArg node (ContextFreeRule.eq_of_parts rfl hFill hRhs)

/-
  A rule between exotic graphs comes back from its
  name and its sides.
-/
theorem exotic_of_equiv
    {rule : ExoticRule}
    {lhs rhs : ExoticGraph}
    (hLhs : lhs ≈ rule.lhs)
    (hRhs : rhs ≈ rule.rhs) :
    ∃ other : Rule,
      exotic rule.name lhs rhs = .ok other ∧
        other ≈ region rule := by
  rcases ExoticGraph.parts_eq_of_equiv hLhs with
    ⟨hLhsKind, hLhsExotic⟩
  rcases ExoticGraph.parts_eq_of_equiv hRhs with
    ⟨hRhsKind, hRhsExotic⟩
  have hKind : lhs.kind = rhs.kind := by
    rw [hLhsKind, hRhsKind, rule.kind_eq]
  have hIds : lhs.exoticIds = rhs.exoticIds := by
    unfold ExoticGraph.exoticIds
    rw [hLhsExotic, hRhsExotic]
    exact rule.exoticIds_eq
  refine ⟨region ⟨rule.name, lhs, rhs, hKind, hIds⟩, ?_, ?_⟩
  · unfold exotic ExoticRule.make
    rw [dif_pos hKind, dif_pos hIds]
    rfl
  · exact congrArg region (ExoticRule.eq_of_parts rfl hLhs hRhs)

end Rule

end GraphRewriting

------------------------------------------------------------
-- Elements
------------------------------------------------------------

namespace GraphRewriting

/-
  A result that one item of a list gives is found if no
  other item gives any.
-/
theorem findSome?_eq_some_of_unique
    {α β : Type}
    {f : α → Option β}
    {items : List α}
    {item : α}
    (hMem : item ∈ items)
    {result : β}
    (hResult : f item = some result)
    (hOthers : ∀ other ∈ items, other ≠ item → f other = none) :
    items.findSome? f = some result := by
  induction items with
  | nil => cases hMem
  | cons head items ih =>
      rw [List.forall_mem_cons] at hOthers
      by_cases hHead : head = item
      · subst hHead
        rw [List.findSome?_cons, hResult]
      · have hRest : item ∈ items := by
          rcases List.mem_cons.1 hMem with hEq | hRest
          · exact absurd hEq.symm hHead
          · exact hRest
        rw [List.findSome?_cons, hOthers.1 hHead]
        exact ih hRest hOthers.2

namespace RuleElement

/-
  An element that describes a rule, whatever kinds are
  tried besides its own.
-/
structure IsOf
    (element : RuleElement)
    (rule : Rule) : Prop where
  name : element.name = some rule.name
  others :
    ∀ kind : RuleKind,
      kind ≠ rule.kind → element.ofKind? rule.name kind = none
  own :
    ∃ other : Rule,
      element.ofKind? rule.name rule.kind = some (.ok other) ∧
        other ≈ rule

/-
  A rule element that describes a rule is read as
  an equivalent one.
-/
theorem IsOf.toRule
    {element : RuleElement}
    {rule : Rule}
    (h : element.IsOf rule)
    {kinds : List RuleKind}
    (hKind : rule.kind ∈ kinds) :
    ∃ other : Rule,
      element.toRule kinds = .ok other ∧ other ≈ rule := by
  rcases h.own with ⟨other, hOther, hEquiv⟩
  have hFind :=
    findSome?_eq_some_of_unique hKind hOther fun kind _ hNe =>
      h.others kind hNe
  refine ⟨other, ?_, hEquiv⟩
  unfold RuleElement.toRule
  rw [h.name, bind_eq_ok_iff]
  exact ⟨rule.name, rfl, by rw [hFind]⟩

/- The sides of a rule come back from their elements. -/
theorem toExotic_of_isOf
    (element : RuleElement)
    {rule : ExoticRule}
    (hLhs : rule.lhs.IsDescribable)
    (hRhs : rule.rhs.IsDescribable)
    {pattern replacement : GraphElement}
    (hPattern : pattern.IsPatternOf rule.lhs)
    (hGraph : element.graph = some replacement)
    (hOf : replacement.IsOf rule.rhs.graph)
    (hAnchors : replacement.anchors = [])
    (hWildcards : replacement.wildcards = []) :
    ∃ other : Rule,
      element.toExotic rule.kind rule.name pattern = .ok other ∧
        other ≈ .region rule := by
  have hExotic : rule.lhs.exotic = rule.rhs.exotic :=
    ExoticGraph.exotic_eq_of_bare rule.exoticIds_eq hLhs.bare
      hRhs.bare
  have hKind : rule.kind = rule.rhs.kind := rule.kind_eq
  rcases
      GraphElement.toExoticGraph_of_isPatternOf hPattern
        hLhs with
    ⟨lhs, hRead, hEquiv⟩
  rcases
      GraphElement.toExoticGraph_of_inherited hOf hAnchors
        hWildcards hRhs with
    ⟨rhs, hReadRhs, hEquivRhs⟩
  rcases Rule.exotic_of_equiv hEquiv hEquivRhs with
    ⟨other, hOther, hSame⟩
  refine ⟨other, ?_, hSame⟩
  unfold toExotic RuleElement.replacement
  refine bind_eq_ok_iff.2 ⟨lhs, hRead, ?_⟩
  rw [hGraph]
  refine bind_eq_ok_iff.2
    ⟨_, rfl, bind_eq_ok_iff.2 ⟨rhs, ?_, hOther⟩⟩
  rw [(ExoticGraph.parts_eq_of_equiv hEquiv).2, hExotic, hKind]
  exact hReadRhs

/-
  A context-free rule comes back from its
  labels and its graph.
-/
theorem isOf_node
    {rule : ContextFreeRule}
    (hRhs : rule.rhs.IsDescribable)
    {replacement : GraphElement}
    (hOf : replacement.IsOf rule.rhs)
    (hAnchors : replacement.anchors = [])
    (hWildcards : replacement.wildcards = []) :
    IsOf
      ⟨some rule.name,
        some ⟨some rule.symbol, Labels.withoutSymbol rule.lhs⟩,
        none, none,
      some replacement⟩ (.node rule) := by
  rcases
      GraphElement.toGraph_of_isOf hOf hAnchors hWildcards
        hRhs.integrity true (fun _ => rule.base_mem) with
    ⟨rhs, hGraph, hEquiv⟩
  rcases Rule.contextFreeOfLabels_of_equiv hEquiv with
    ⟨other, hOther, hSame⟩
  have hLabels :
      Labels.setSymbol (Labels.withoutSymbol rule.lhs)
          rule.symbol = rule.lhs :=
    Labels.setSymbol_withoutSymbol rule.nameKey_mem
  refine ⟨rfl, ?_, other, congrArg some ?_, hSame⟩
  · intro kind hNe
    cases kind with
    | contextFree => exact absurd rfl hNe
    | anchor => rfl
    | wildcard => rfl
  · refine bind_eq_ok_iff.2 ⟨rule.symbol, rfl, ?_⟩
    refine bind_eq_ok_iff.2
      ⟨replacement, rfl, bind_eq_ok_iff.2 ⟨rhs, hGraph, ?_⟩⟩
    rw [hLabels]
    exact hOther

/-
  An element with nothing but the sides of a rule for its
  kind is of the rule.
-/
theorem isOf_region
    {element : RuleElement}
    {rule : ExoticRule}
    (hName : element.name = some rule.name)
    {pattern : GraphElement}
    (hKinds :
      ∀ kind : RuleKind,
        element.ofKind? rule.name kind =
          if kind = .ofExotic rule.kind then
            some (element.toExotic rule.kind rule.name pattern)
          else none)
    (hRead :
      ∃ other : Rule,
        element.toExotic rule.kind rule.name pattern =
          .ok other ∧ other ≈ .region rule) :
    element.IsOf (.region rule) := by
  rcases hRead with ⟨other, hOther, hSame⟩
  refine ⟨hName, ?_, other, ?_, hSame⟩
  · intro kind hNe
    exact (hKinds kind).trans (if_neg hNe)
  · rw [← hOther]
    exact (hKinds _).trans (if_pos rfl)

/- A rule comes back from its element unless a label clashes. -/
theorem ofRule_spec
    {rule : Rule}
    (hRule : rule.IsDescribable) :
    SucceedsUnless rule.HasClash
      (fun element => element.IsOf rule) (ofRule rule) := by
  cases rule with
  | node rule =>
      have hRhs : rule.rhs.IsDescribable := hRule
      refine (GraphElement.ofGraph_spec hRhs.marked).map ?_
      rintro replacement ⟨hOf, hAnchors, hWildcards⟩
      exact isOf_node hRhs hOf hAnchors hWildcards
  | region rule =>
      rcases hRule with ⟨hLhs, hRhs⟩
      unfold ofRule
      refine (GraphElement.ofPattern_spec hLhs).bind
        fun pattern hPattern => ?_
      cases hKind : rule.kind with
      | anchor =>
          refine (GraphElement.ofGraph_spec hRhs.marked).map ?_
          rintro replacement ⟨hOf, hAnchors, hWildcards⟩
          refine isOf_region rfl ?_
            (toExotic_of_isOf _ hLhs hRhs hPattern rfl hOf
              hAnchors hWildcards)
          intro kind
          rw [hKind]
          cases kind <;> rfl
      | wildcard =>
          refine (GraphElement.ofGraph_spec hRhs.marked).map ?_
          rintro replacement ⟨hOf, hAnchors, hWildcards⟩
          refine isOf_region rfl ?_
            (toExotic_of_isOf _ hLhs hRhs hPattern rfl hOf
              hAnchors hWildcards)
          intro kind
          rw [hKind]
          cases kind <;> rfl

end RuleElement

end GraphRewriting
