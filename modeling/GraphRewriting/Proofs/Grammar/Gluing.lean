import GraphRewriting.Proofs.Grammar.Built
import GraphRewriting.Proofs.Matching.Exactness
import GraphRewriting.Proofs.Rule.Node
import GraphRewriting.Proofs.Rule.Region

/-
  Rules apply at their matches, and glue cleanly there: what is
  not replaced stays, and between exotic graphs no edge towards
  a node outside the match is lost.

  Main declarations:
    * `Rule.IsSound`
    * `Rule.replacedAt`
    * `ExoticGraph.IsMatch.accepts`
    * `Rule.apply_of_mem_findMatches`
    * `Grammar.applyRule_of_mem_applicableRules`
-/

------------------------------------------------------------
-- Rules At Matches
------------------------------------------------------------

namespace GraphRewriting

namespace Rule

/-
  The graphs of a rule have integrity, and no edge
  joins two exotic nodes.
-/
def IsSound : Rule → Prop
  | node r => r.rhs.HasIntegrity
  | region r =>
      (r.lhs.HasIntegrity ∧ r.lhs.HasSeparateExotics) ∧
        r.rhs.HasIntegrity ∧ r.rhs.HasSeparateExotics

instance (r : Rule) : Decidable r.IsSound :=
  match r with
  | node r => inferInstanceAs (Decidable r.rhs.HasIntegrity)
  | region r =>
      inferInstanceAs
        (Decidable
          ((r.lhs.HasIntegrity ∧ r.lhs.HasSeparateExotics) ∧
            r.rhs.HasIntegrity ∧ r.rhs.HasSeparateExotics))

/- The nodes that a rule copies into the target graph. -/
def copiedIds : Rule → List NodeId
  | node r => r.rhs.nodeIds
  | region r => r.rhs.graph.nodeIds

/- The nodes that give way when a rule is applied at a match. -/
def replacedAt : Rule → RuleMatch → List NodeId
  | node _, .node id => [id]
  | region r, .morphism m => r.replaced m
  | _, _ => []

end Rule

/- The targets are where the nodes of the morphism go. -/
theorem Morphism.mem_targets_iff
    {m : Morphism}
    {id : NodeId} :
    id ∈ m.targets ↔ ∃ x : NodeId, m.target? x = some id := by
  unfold Morphism.targets
  rw [List.mem_filterMap]
  constructor
  · rintro ⟨value, hValue, rfl⟩
    rcases mem_values.1 hValue with ⟨x, hx⟩
    refine ⟨x, ?_⟩
    unfold Morphism.target?
    rw [hx]
    rfl
  · rintro ⟨x, hx⟩
    exact
      ⟨some id, mem_values.2 ⟨x, Option.join_eq_some_iff.1 hx⟩,
        rfl⟩

end GraphRewriting

------------------------------------------------------------
-- Matches Of Exotic Rules
------------------------------------------------------------

namespace GraphRewriting

variable {r : ExoticRule}
variable {target : Graph}
variable {m : Morphism}

/-
  A target that two nodes of a pattern share
  makes them one node.
-/
theorem ExoticGraph.IsMatch.eq_of_target?_eq
    {p : ExoticGraph}
    (h : p.IsMatch target m)
    {x y id : NodeId}
    (hx : p.contains x = true)
    (hy : p.contains y = true)
    (htx : m.target? x = some id)
    (hty : m.target? y = some id) :
    x = y := by
  rcases contains_iff.1 hx with
    hx | hx <;> rcases contains_iff.1 hy with hy | hy
  · exact h.injective x hx y hy (htx.trans hty.symm)
  · exact absurd ⟨x, hx, htx⟩ (h.exotic y hy id hty).2
  · exact absurd ⟨y, hy, hty⟩ (h.exotic x hx id htx).2
  · exact h.distinct x hx y hy id htx hty

/-
  What a rule lists in a graph are matches of
  its left-hand side.
-/
theorem ExoticRule.isMatch_of_mem_findMatches
    (hLhs : r.lhs.HasIntegrity)
    (ht : target.HasIntegrity)
    {all : List Morphism}
    (hAll : r.findMatches target = .ok all)
    (hm : m ∈ all) :
    r.lhs.IsMatch target m := by
  unfold ExoticRule.findMatches ExoticGraph.findMatches at hAll
  split at hAll
  · cases hAll
  · cases hAll
    exact ((ExoticGraph.mem_matchList_iff hLhs ht).1 hm).2

/- A match passes the check of the rule. -/
theorem ExoticGraph.IsMatch.accepts
    (h : r.lhs.IsMatch target m) :
    r.Accepts m target where
  bound := h.bound
  keys x hx := by
    rw [h.keys]
    exact contains_iff.2 (Or.inr hx)
  anchors x hx hKind := by
    rw [← Option.ne_none_iff_isSome]
    intro hNone
    have hWildcard := h.unmatched x hx hNone
    unfold ExoticRule.kind at hKind
    rw [hKind] at hWildcard
    cases hWildcard
  live x id hx hTarget := by
    rcases contains_iff.1 hx with hx | hx
    · rw [← Graph.isSome_symbol?, ← h.symbols x hx id hTarget,
        Graph.isSome_symbol?]
      exact hx
    · exact (h.exotic x hx id hTarget).1
  injective x y id hx hy := h.eq_of_target?_eq hx hy

/-
  Around a replaced node every neighbour is bound: those in the
  image to ordinary nodes, the others to exotic ones.
-/
theorem ExoticGraph.IsMatch.mem_targets_of_mem_beside
    (h : r.lhs.IsMatch target m)
    {a b : NodeId}
    (ha : a ∈ r.replaced m)
    {direction : Direction}
    (hb : b ∈ target.beside direction a) :
    b ∈ m.targets := by
  rcases ExoticRule.mem_replaced.1 ha with ⟨x, hx, hTarget⟩
  rw [Morphism.mem_targets_iff]
  by_cases hImage : r.lhs.HasImage m b
  · rcases hImage with ⟨y, -, hy⟩
    exact ⟨y, hy⟩
  · rcases
        (h.around x hx a hTarget direction b).2
          ⟨hb, hImage⟩ with
      ⟨y, -, -, hy⟩
    exact ⟨y, hy⟩

theorem ExoticRule.mem_targets_of_mem_replaced
    {a : NodeId}
    (ha : a ∈ r.replaced m) :
    a ∈ m.targets := by
  rcases mem_replaced.1 ha with ⟨x, -, hx⟩
  exact Morphism.mem_targets_iff.2 ⟨x, hx⟩

/-
  An edge with an end outside the match is not
  touched by the rewrite.
-/
theorem ExoticRule.get?_edges_result_of_isMatch
    {fresh : FreshIds}
    (h : r.lhs.IsMatch target m)
    (hFresh : fresh.IsFresh target r.rhs.graph.nodeIds)
    (ht : target.HasIntegrity)
    (hRhs : r.rhs.HasSeparateExotics)
    {a b : NodeId}
    {info : EdgeInfo}
    (hEdge : target.edges.get? a b = some info) :
    (r.result m fresh target).edges.get? a b = some info ∨
      (a ∈ m.targets ∧ b ∈ m.targets) := by
  have hSome : (target.edges.get? a b).isSome = true := by
    rw [hEdge]
    rfl
  by_cases ha : a ∈ r.replaced m
  · have hb :=
      h.mem_targets_of_mem_beside ha
        (Graph.mem_beside_outgoing.2 hSome)
    exact Or.inr ⟨mem_targets_of_mem_replaced ha, hb⟩
  · by_cases hb : b ∈ r.replaced m
    · have ha :=
        h.mem_targets_of_mem_beside hb
          (Graph.mem_beside_incoming.2 hSome)
      exact Or.inr ⟨ha, mem_targets_of_mem_replaced hb⟩
    · left
      rw [get?_edges_result_iff h.accepts hFresh ht hRhs]
      exact Or.inl ⟨⟨ha, hb⟩, hEdge⟩

end GraphRewriting

------------------------------------------------------------
-- Applying A Rule At A Match
------------------------------------------------------------

namespace GraphRewriting

/-
  What clean gluing asks of the outcome of a rule: it is a
  success, nodes that are not replaced keep their labels, and
  edges go only from among the targets of a morphism.
-/
structure Rule.GluesAt
    {σ : Type}
    (rule : Rule)
    (found : RuleMatch)
    (target : Graph)
    (outcome : Outcome σ) : Prop where
  success :
    ∃ rewrite : Rewrite,
      outcome.result = .ok rewrite ∧
        rewrite.removed = rule.replacedAt found
  nodes :
    ∀ id ∈ target.nodes, id ∉ rule.replacedAt found →
      outcome.graph.nodes[id]? = target.nodes[id]?
  edges :
    ∀ m : Morphism, found = .morphism m →
      ∀ (a b : NodeId) (info : EdgeInfo),
        target.edges.get? a b = some info →
          outcome.graph.edges.get? a b = some info ∨
            (a ∈ m.targets ∧ b ∈ m.targets)

variable {σ : Type}
variable {source : IdSource σ}
variable {supply : σ}
variable {target : Graph}

/- A context-free rule glues at each node that it lists. -/
theorem ContextFreeRule.apply_of_mem_findMatches
    {r : ContextFreeRule}
    {node : NodeId}
    (hr : r.rhs.HasIntegrity)
    (ht : target.HasIntegrity)
    (hFound : node ∈ r.findMatches target)
    (hNodup : (source.drawn r.rhs.nodeIds supply).Nodup)
    (hAbsent :
      ∀ id ∈ source.drawn r.rhs.nodeIds supply,
        id ∉ target.nodes) :
    (Rule.node r).GluesAt (.node node) target
      (r.apply source node target supply) := by
  rcases List.mem_filter.1 hFound with ⟨hNode, hSymbol⟩
  have hNode := Graph.mem_nodeIds.1 hNode
  have hSymbol : target.symbol? node = some r.symbol := by
    simpa using hSymbol
  rcases exists_drawIds_eq_ok hNodup hAbsent with
    ⟨fresh, rest, hDraw⟩
  have hFresh := drawIds_isFresh hDraw
  rw [r.apply_eq_result ht hr hSymbol hDraw]
  refine ⟨⟨_, rfl, rfl⟩, ?_, ?_⟩
  · intro id hId hKept
    have hNe : id ≠ node := by
      rintro rfl
      exact hKept (by simp [Rule.replacedAt])
    rcases mem_iff_exists_getElem?.1 hId with ⟨labels, hLabels⟩
    rw [hLabels]
    exact
      (labels_result_iff hFresh hNode).2 (Or.inl ⟨hNe, hLabels⟩)
  · intro m hm
    cases hm

/- A rule with exotic nodes glues at every match. -/
theorem ExoticRule.apply_of_isMatch
    {r : ExoticRule}
    {m : Morphism}
    (hr : (Rule.region r).IsSound)
    (ht : target.HasIntegrity)
    (hm : r.lhs.IsMatch target m)
    (hNodup : (source.drawn r.rhs.graph.nodeIds supply).Nodup)
    (hAbsent :
      ∀ id ∈ source.drawn r.rhs.graph.nodeIds supply,
        id ∉ target.nodes) :
    (Rule.region r).GluesAt (.morphism m) target
      (r.apply source m target supply) := by
  rcases exists_drawIds_eq_ok hNodup hAbsent with
    ⟨fresh, rest, hDraw⟩
  have hFresh := drawIds_isFresh hDraw
  rw [apply_eq_result hm.accepts hDraw]
  refine ⟨⟨_, rfl, rfl⟩, ?_, ?_⟩
  · intro id hId hKept
    rcases mem_iff_exists_getElem?.1 hId with ⟨labels, hLabels⟩
    rw [hLabels]
    exact (labels_result_iff hm.accepts hFresh).2
      (Or.inl ⟨hKept, hLabels⟩)
  · intro other hOther a b info hEdge
    cases hOther
    exact get?_edges_result_of_isMatch hm hFresh ht hr.2.2 hEdge

/-
  A rule applies at each of its matches, and
  glues cleanly there.
-/
theorem Rule.apply_of_mem_findMatches
    {rule : Rule}
    {all : List RuleMatch}
    {found : RuleMatch}
    (hRule : rule.IsSound)
    (ht : target.HasIntegrity)
    (hAll : rule.findMatches target = .ok all)
    (hFound : found ∈ all)
    (hNodup : (source.drawn rule.copiedIds supply).Nodup)
    (hAbsent :
      ∀ id ∈ source.drawn rule.copiedIds supply,
        id ∉ target.nodes) :
    rule.GluesAt found target
      (rule.apply source found target supply) := by
  cases rule with
  | node r =>
      cases hAll
      rcases List.mem_map.1 hFound with ⟨node, hNode, rfl⟩
      exact
        r.apply_of_mem_findMatches hRule ht hNode hNodup hAbsent
  | region r =>
      unfold findMatches at hAll
      dsimp only at hAll
      cases hList : r.findMatches target with
      | error error =>
          rw [hList] at hAll
          cases hAll
      | ok morphisms =>
          rw [hList] at hAll
          cases hAll
          rcases List.mem_map.1 hFound with ⟨m, hm, rfl⟩
          have hMatch :=
            r.isMatch_of_mem_findMatches hRule.1.1 ht hList hm
          exact
            r.apply_of_isMatch hRule ht hMatch hNodup hAbsent

end GraphRewriting

------------------------------------------------------------
-- Applying A Listed Match
------------------------------------------------------------

namespace GraphRewriting

namespace Grammar

variable {g : Grammar}
variable {graph : Graph}
variable {listed : List (String × List RuleMatch)}
variable {name : String}
variable {all : List RuleMatch}

/-
  What is listed under a name are the matches of the
  rule of that name.
-/
private theorem exists_rule_of_mem_applicableRules
    (hg : g.rules.IsIndexed)
    (hListed : g.applicableRules graph = .ok listed)
    (hName : (name, all) ∈ listed) :
    ∃ rule : Rule,
      g.rules.get? name = some rule ∧
        rule.findMatches graph = .ok all := by
  unfold applicableRules at hListed
  cases hRules : g.rulesWithMatches graph with
  | error error =>
      rw [hRules] at hListed
      cases hListed
  | ok rules =>
      rw [hRules] at hListed
      cases hListed
      have hMem := (List.mem_filter.1 hName).1
      rcases exists_of_mem_of_mapM_eq_ok hRules hMem with
        ⟨rule, hRule, hFound⟩
      rcases mem_values.1 hRule with ⟨key, hKey⟩
      cases hMatches : rule.findMatches graph with
      | error error =>
          rw [hMatches] at hFound
          cases hFound
      | ok matches' =>
          rw [hMatches] at hFound
          cases hFound
          refine ⟨rule, ?_, hMatches⟩
          rw [hg.named key rule hKey]
          exact hKey

/-
  Every match that is listed for a graph can be applied, with
  distinct ids that are new to the graph, and glues cleanly.
-/
theorem applyRule_of_mem_applicableRules
    {σ : Type}
    {source : IdSource σ}
    {supply : σ}
    {found : RuleMatch}
    (hg : g.IsBuilt)
    (hRules :
      ∀ (name : String) (rule : Rule),
        g.rules.get? name = some rule → rule.IsSound)
    (hGraph : graph.HasIntegrity)
    (hListed : g.applicableRules graph = .ok listed)
    (hName : (name, all) ∈ listed)
    (hFound : found ∈ all)
    (hDrawn :
      ∀ rule : Rule, g.rules.get? name = some rule →
        (source.drawn rule.copiedIds supply).Nodup ∧
          ∀ id ∈ source.drawn rule.copiedIds supply,
            id ∉ graph.nodes) :
    ∃ rule : Rule,
      g.rules.get? name = some rule ∧
        rule.GluesAt found graph
          (g.applyRule source name found graph supply) := by
  rcases
      exists_rule_of_mem_applicableRules hg.isConsistent.indexed
        hListed hName with
    ⟨rule, hRule, hAll⟩
  rcases hDrawn rule hRule with ⟨hNodup, hAbsent⟩
  refine ⟨rule, hRule, ?_⟩
  unfold applyRule
  rw [hRule]
  exact Rule.apply_of_mem_findMatches (hRules name rule hRule)
    hGraph hAll hFound hNodup hAbsent

/- A node with one anchor that points to it. -/
def tip (symbol : String) : ExoticGraph :=
  let nodes :=
    (ExoticGraph.empty .anchor).addNode
      (.ofSymbol (.name "tip") symbol)
  let ends := nodes.addExotic (.ofSymbol (.name "tail") "")
  ends.withEdges
    (ends.graph.edges.insert
      (.ofLabels (.name "tail") (.name "tip") ∅))

/-
  The rule that gives the node at an arrowhead another symbol.
-/
def retipping : ExoticRule :=
  ⟨"retip", tip "A", tip "B", rfl, by decide +kernel⟩

def retippingSymbols : Grammar :=
  { ofConfig .standard with
    nonTerminals :=
      ((∅ : Std.ExtTreeSet String).insert "A").insert "B" }

def retippingBook : RuleBook :=
  ⟨(∅ : RuleBook).rules.insert "retip" (.region retipping),
    (∅ : RuleBook).byKind.insert .anchor
      (((∅ : RuleBook).byKind.getD .anchor ∅).insert "retip")⟩

def retippingGrammar : Grammar :=
  { retippingSymbols with rules := retippingBook }

/- The operations make this grammar. -/
theorem retippingGrammar_isBuilt :
    retippingGrammar.IsBuilt := by
  let single : Grammar :=
    { ofConfig .standard with
      nonTerminals := (∅ : Std.ExtTreeSet String).insert "A" }
  have hFirst :
      (ofConfig .standard).defineNonTerminal "A" = .ok single :=
    defineNonTerminal_eq_ok_iff.2 ⟨by decide +kernel, rfl⟩
  have hSecond :
      single.defineNonTerminal "B" = .ok retippingSymbols :=
    defineNonTerminal_eq_ok_iff.2 ⟨by decide +kernel, rfl⟩
  have hRule :
      retippingSymbols.addRule (.region retipping) =
        .ok retippingGrammar := by
    rw [addRule_eq_ok_iff]
    refine ⟨by decide +kernel, retippingBook, ?_, rfl⟩
    exact RuleBook.insert_eq_ok_iff.2 ⟨by decide +kernel, rfl⟩
  have hSymbols :=
    ((IsBuilt.ofConfig .standard).defineNonTerminal
        hFirst).defineNonTerminal
      hSecond
  exact hSymbols.addRule hRule

/- Two nodes with an edge from one to the other. -/
def pointing : Graph :=
  let nodes :=
    (∅ : Graph).addNodes
      [.ofSymbol (.num 1) "B", .ofSymbol (.num 2) "A"]
  nodes.putEdge (.ofLabels (.num 1) (.num 2) ∅)

def pointed : Morphism :=
  (Morphism.empty.bind (.name "tip") (.num 2)).bind
    (.name "tail") (.num 1)

/- Ids in sequence. -/
def countUp : IdSource UInt64 :=
  fun _ next => (.num next, next + 1)

/- The rule is listed at the arrowhead, and glues there. -/
theorem applyRule_retippingGrammar :
    retippingGrammar.applicableRules pointing =
      .ok [("retip", [.morphism pointed])] ∧
      ∃ rule : Rule,
        retippingGrammar.rules.get? "retip" = some rule ∧
          rule.GluesAt (.morphism pointed) pointing
            (retippingGrammar.applyRule countUp "retip"
              (.morphism pointed) pointing 3) := by
  have hGet :
      ∀ (name : String) (rule : Rule),
        retippingGrammar.rules.get? name = some rule →
          rule = .region retipping := by
    intro name rule hRule
    unfold RuleBook.get? retippingGrammar retippingBook at hRule
    dsimp only at hRule
    rw [Std.ExtTreeMap.getElem?_insert] at hRule
    split at hRule
    · exact (Option.some.inj hRule).symm
    · have hNone : (∅ : RuleBook).rules[name]? = none :=
        Std.ExtTreeMap.getElem?_empty
      rw [hNone] at hRule
      cases hRule
  have hListed :
      retippingGrammar.applicableRules pointing =
        .ok [("retip", [.morphism pointed])] := by
    decide +kernel
  refine ⟨hListed, ?_⟩
  apply
    applyRule_of_mem_applicableRules retippingGrammar_isBuilt _
      (by decide +kernel)
      hListed (List.mem_singleton_self _)
        (List.mem_singleton_self _)
  · intro rule hRule
    rw [hGet "retip" rule hRule]
    decide +kernel
  · intro name rule hRule
    rw [hGet name rule hRule]
    decide +kernel

end Grammar

end GraphRewriting
