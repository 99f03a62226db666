import GraphRewriting.Proofs.Grammar.Gluing

/-
  What a rule of any kind makes of a graph at one of its
  matches, told by lookups: some nodes give way, copies come,
  and edges are added.

  Main declarations:
    * `Rule.Lists`
    * `Rule.lists_cases`
    * `Rule.resultAt`
    * `Rule.apply_eq_resultAt`
    * `Rule.labels_resultAt_iff`
    * `Rule.get?_edges_resultAt_iff`
-/

------------------------------------------------------------
-- Listed Matches
------------------------------------------------------------

namespace GraphRewriting

/- The nodes of the target graph that a match speaks of. -/
def RuleMatch.touched : RuleMatch → List NodeId
  | .node id => [id]
  | .morphism m => m.targets

namespace Rule

/- A match is among the matches that are listed for a graph. -/
def Lists
    (rule : Rule)
    (target : Graph)
    (found : RuleMatch) : Prop :=
  ∃ all : List RuleMatch,
    rule.findMatches target = .ok all ∧ found ∈ all

variable {rule : Rule}
variable {target : Graph}
variable {found : RuleMatch}

/- A context-free rule lists the nodes of its symbol. -/
theorem lists_node_iff
    {r : ContextFreeRule} :
    (node r).Lists target found ↔
      ∃ id : NodeId,
        found = .node id ∧
          target.symbol? id = some r.symbol := by
  unfold Lists findMatches ContextFreeRule.findMatches
  constructor
  · rintro ⟨all, hAll, hFound⟩
    cases hAll
    rcases List.mem_map.1 hFound with ⟨id, hId, rfl⟩
    have hSymbol := (List.mem_filter.1 hId).2
    exact ⟨id, rfl, by simpa using hSymbol⟩
  · rintro ⟨id, rfl, hSymbol⟩
    refine
      ⟨_, rfl,
        List.mem_map_of_mem
          (List.mem_filter.2 ⟨?_, by simpa using hSymbol⟩)⟩
    rw [Graph.mem_nodeIds, ← Graph.isSome_symbol?, hSymbol]
    rfl

/-
  A rule with exotic nodes lists the matches of its left-hand
  side, unless this has no ordinary nodes, or the number of
  them that is not listed.
-/
theorem lists_region_iff
    {r : ExoticRule}
    (hLhs : r.lhs.HasIntegrity)
    (ht : target.HasIntegrity) :
    (region r).Lists target found ↔
      ∃ m : Morphism,
        found = .morphism m ∧ r.lhs.IsMatch target m ∧
          r.lhs.graph.nodes ≠ ∅ ∧
            r.lhs.graph.nodes.size ≠ unlistedSize := by
  unfold Lists findMatches ExoticRule.findMatches
    ExoticGraph.findMatches
  dsimp only
  constructor
  · rintro ⟨all, hAll, hFound⟩
    split at hAll
    · cases hAll
    · rename_i hListed
      cases hAll
      rcases List.mem_map.1 hFound with ⟨m, hm, rfl⟩
      rcases (ExoticGraph.mem_matchList_iff hLhs ht).1 hm with
        ⟨hNodes, hMatch⟩
      refine ⟨m, rfl, hMatch, hNodes, ?_⟩
      intro hSize
      exact hListed
        (ExoticGraph.isUnlisted_iff.2
          ⟨hSize, _, hMatch.isEmbeddingOn⟩)
  · rintro ⟨m, rfl, hMatch, hNodes, hSize⟩
    rw [if_neg fun hUnlisted => hSize hUnlisted.1]
    exact
      ⟨_, rfl,
        List.mem_map_of_mem
          ((ExoticGraph.mem_matchList_iff hLhs ht).2
            ⟨hNodes, hMatch⟩)⟩

/-
  A listed match is a node with the symbol, or a match of
  the left-hand side.
-/
theorem lists_cases
    (hRule : rule.IsSound)
    (ht : target.HasIntegrity)
    (hLists : rule.Lists target found) :
    (∃ (r : ContextFreeRule) (id : NodeId),
        rule = node r ∧ found = .node id ∧
          target.symbol? id = some r.symbol) ∨
      ∃ (r : ExoticRule) (m : Morphism),
        rule = region r ∧ found = .morphism m ∧
          r.lhs.IsMatch target m := by
  cases rule with
  | node r =>
      rcases lists_node_iff.1 hLists with ⟨id, hFound, hSymbol⟩
      exact Or.inl ⟨r, id, rfl, hFound, hSymbol⟩
  | region r =>
      rcases (lists_region_iff hRule.1.1 ht).1 hLists with
        ⟨m, hFound, hMatch, -⟩
      exact Or.inr ⟨r, m, rfl, hFound, hMatch⟩

/- What is replaced is touched. -/
theorem mem_touched_of_mem_replacedAt
    {id : NodeId}
    (hId : id ∈ rule.replacedAt found) :
    id ∈ found.touched := by
  cases rule <;> cases found
  case node.node => exact hId
  case region.morphism =>
    exact ExoticRule.mem_targets_of_mem_replaced hId
  all_goals exact absurd hId List.not_mem_nil

theorem mem_nodes_of_symbol?_eq_some
    {symbol : String}
    {id : NodeId}
    (hSymbol : target.symbol? id = some symbol) :
    id ∈ target.nodes := by
  rw [← Graph.isSome_symbol?, hSymbol]
  rfl

/- A listed match speaks of nodes of the graph. -/
theorem Lists.mem_nodes_of_mem_touched
    (hLists : rule.Lists target found)
    (hRule : rule.IsSound)
    (ht : target.HasIntegrity)
    {id : NodeId}
    (hId : id ∈ found.touched) :
    id ∈ target.nodes := by
  rcases lists_cases hRule ht hLists with
    ⟨r, node, rfl, rfl, hSymbol⟩ | ⟨r, m, rfl, rfl, hMatch⟩
  · rcases List.mem_singleton.1 hId with rfl
    exact mem_nodes_of_symbol?_eq_some hSymbol
  · rcases Morphism.mem_targets_iff.1 hId with ⟨x, hx⟩
    have hKey : m.contains x = true := by
      unfold Morphism.contains
      rw [Std.ExtTreeMap.contains_iff_mem]
      exact mem_iff_exists_getElem?.2
        ⟨_, Option.join_eq_some_iff.1 hx⟩
    exact hMatch.accepts.live x id (hMatch.keys x ▸ hKey) hx

end Rule

end GraphRewriting

------------------------------------------------------------
-- Results
------------------------------------------------------------

namespace GraphRewriting

namespace Rule

/- The graph whose nodes a rule copies. -/
def replacement : Rule → Graph
  | node r => r.rhs
  | region r => r.rhs.graph

/-
  The graph that a rule leaves at a match when no step fails.
-/
def resultAt
    (rule : Rule)
    (fresh : FreshIds)
    (found : RuleMatch)
    (target : Graph) : Graph :=
  match rule, found with
  | node r, .node id => r.result fresh id target
  | region r, .morphism m => r.result m fresh target
  | _, _ => target

/-
  An edge that a rule adds at a match: one that a copy of the
  base takes over, or one of the replacement.
-/
def Adds
    (rule : Rule)
    (fresh : FreshIds)
    (found : RuleMatch)
    (target : Graph)
    (a b : NodeId)
    (info : EdgeInfo) : Prop :=
  match rule, found with
  | node r, .node id =>
      ⟨info, a, b⟩ ∈
        ContextFreeRule.adoptedEdges fresh id target ∨
        r.Shows fresh id target a b info
  | region r, .morphism m => ⟨info, a, b⟩ ∈ r.newEdges m fresh
  | _, _ => False

variable {rule : Rule}
variable {target : Graph}
variable {found : RuleMatch}
variable {fresh : FreshIds}

theorem adds_node
    {r : ContextFreeRule}
    {id a b : NodeId}
    {info : EdgeInfo} :
    (node r).Adds fresh (.node id) target a b info ↔
      ⟨info, a, b⟩ ∈
        ContextFreeRule.adoptedEdges fresh id target ∨
        r.Shows fresh id target a b info :=
  Iff.rfl

theorem adds_region
    {r : ExoticRule}
    {m : Morphism}
    {a b : NodeId}
    {info : EdgeInfo} :
    (region r).Adds fresh (.morphism m) target a b info ↔
      ⟨info, a, b⟩ ∈ r.newEdges m fresh :=
  Iff.rfl

theorem copiedIds_eq :
    rule.copiedIds = rule.replacement.nodeIds := by
  cases rule <;> rfl

/- A rule succeeds at a listed match with fresh ids. -/
theorem apply_eq_resultAt
    {σ : Type}
    {source : IdSource σ}
    {supply rest : σ}
    (hRule : rule.IsSound)
    (ht : target.HasIntegrity)
    (hLists : rule.Lists target found)
    (hDraw :
      drawIds rule.name target source ∅ rule.copiedIds supply =
        (.ok fresh, rest)) :
    rule.apply source found target supply =
      ⟨rule.resultAt fresh found target, rest,
        .ok ⟨fresh.values, rule.replacedAt found⟩⟩ := by
  rcases lists_cases hRule ht hLists with
    ⟨r, id, rfl, rfl, hSymbol⟩ | ⟨r, m, rfl, rfl, hMatch⟩
  · exact ContextFreeRule.apply_eq_result ht hRule hSymbol hDraw
  · exact ExoticRule.apply_eq_result hMatch.accepts hDraw

/- The nodes that are left, and the copies. -/
theorem labels_resultAt_iff
    (hRule : rule.IsSound)
    (ht : target.HasIntegrity)
    (hLists : rule.Lists target found)
    (hFresh : fresh.IsFresh target rule.copiedIds)
    {id : NodeId}
    {labels : Labels} :
    (rule.resultAt fresh found target).nodes[id]? =
      some labels ↔
      (id ∉ rule.replacedAt found ∧
        target.nodes[id]? = some labels) ∨
        ∃ a : NodeId,
          fresh[a]? = some id ∧
            rule.replacement.nodes[a]? = some labels := by
  rcases lists_cases hRule ht hLists with
    ⟨r, node, rfl, rfl, hSymbol⟩ | ⟨r, m, rfl, rfl, hMatch⟩
  · have hNode := mem_nodes_of_symbol?_eq_some hSymbol
    unfold replacedAt
    rw [List.mem_singleton]
    exact ContextFreeRule.labels_result_iff hFresh hNode
  · exact ExoticRule.labels_result_iff hMatch.accepts hFresh

/-
  The edges at no node that gives way, and
  those that are added.
-/
theorem get?_edges_resultAt_iff
    (hRule : rule.IsSound)
    (ht : target.HasIntegrity)
    (hLists : rule.Lists target found)
    (hFresh : fresh.IsFresh target rule.copiedIds)
    {a b : NodeId}
    {info : EdgeInfo} :
    (rule.resultAt fresh found target).edges.get? a b =
      some info ↔
      ((a ∉ rule.replacedAt found ∧ b ∉ rule.replacedAt found) ∧
          target.edges.get? a b = some info) ∨
        rule.Adds fresh found target a b info := by
  rcases lists_cases hRule ht hLists with
    ⟨r, node, rfl, rfl, hSymbol⟩ | ⟨r, m, rfl, rfl, hMatch⟩
  · have hNode := mem_nodes_of_symbol?_eq_some hSymbol
    unfold replacedAt
    rw [List.mem_singleton, List.mem_singleton, adds_node,
      ← or_assoc]
    refine (ContextFreeRule.get?_edges_result_iff hFresh ht
        hRule hNode).trans
      ?_
    apply or_congr_left
    rw [ContextFreeRule.mem_adoptedEdges_iff]
    constructor
    · rintro ⟨x, y, hInfo, rfl, rfl⟩
      by_cases hAt : x = node ∨ y = node
      · exact Or.inr ⟨x, y, hInfo, hAt, rfl, rfl⟩
      · rw [not_or] at hAt
        rw [ContextFreeRule.redirect_of_ne hAt.1,
          ContextFreeRule.redirect_of_ne hAt.2]
        exact Or.inl ⟨hAt, hInfo⟩
    · rintro (⟨⟨ha, hb⟩, hInfo⟩ | ⟨x, y, hInfo, -, hx, hy⟩)
      · exact
          ⟨a, b, hInfo, ContextFreeRule.redirect_of_ne ha,
            ContextFreeRule.redirect_of_ne hb⟩
      · exact ⟨x, y, hInfo, hx, hy⟩
  · rw [adds_region, ExoticRule.mem_newEdges_iff]
    exact ExoticRule.get?_edges_result_iff hMatch.accepts hFresh
      ht hRule.2.2

/- A rewrite keeps the integrity of a graph. -/
theorem hasIntegrity_resultAt
    (hRule : rule.IsSound)
    (ht : target.HasIntegrity)
    (hLists : rule.Lists target found)
    (hFresh : fresh.IsFresh target rule.copiedIds) :
    (rule.resultAt fresh found target).HasIntegrity := by
  rcases lists_cases hRule ht hLists with
    ⟨r, node, rfl, rfl, hSymbol⟩ | ⟨r, m, rfl, rfl, hMatch⟩
  · have hNode := mem_nodes_of_symbol?_eq_some hSymbol
    exact
      ContextFreeRule.hasIntegrity_result hFresh ht hRule hNode
  · exact ExoticRule.hasIntegrity_result hMatch.accepts hFresh
      ht hRule.2.2

end Rule

end GraphRewriting
