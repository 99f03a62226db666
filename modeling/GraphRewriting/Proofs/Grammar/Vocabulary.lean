import GraphRewriting.Grammar.Basic
import GraphRewriting.Proofs.Digraph.Ascending

/-
  Vocabulary checks. A graph is without fault exactly if its
  checked symbols are in the vocabulary, which document ids
  have no part in.

  Main declarations:
    * `Grammar.Knows`
    * `Grammar.elementFault?_eq_none_iff`
    * `Grammar.graphFault?_eq_none_iff`
    * `Grammar.ruleFault?_eq_none_iff`
-/

------------------------------------------------------------
-- Faults
------------------------------------------------------------

namespace GraphRewriting

namespace Grammar

variable {g : Grammar}

theorem symbolFault?_eq_none_iff
    {symbol : String}
    {use : SymbolUse} :
    g.symbolFault? symbol use = none ↔
      g.isVocabulary symbol = true := by
  unfold symbolFault?
  cases g.isVocabulary symbol <;> simp

/- Nodes are checked always, edges if the options say so. -/
theorem elementFault?_eq_none_iff
    {nodes : List Node}
    {edges : List Edge}
    {holder : Holder} :
    g.elementFault? nodes edges holder = none ↔
      (∀ node ∈ nodes, g.isVocabulary node.symbol = true) ∧
        (g.config.checkEdgeLabels = true →
          ∀ edge ∈ edges,
            g.isVocabulary edge.symbol = true) := by
  unfold elementFault?
  rw [Option.or_eq_none_iff, List.findSome?_eq_none_iff,
    List.findSome?_eq_none_iff]
  simp only [symbolFault?_eq_none_iff]
  apply and_congr_right'
  cases g.config.checkEdgeLabels with
  | true => simp
  | false => simp

/- A graph whose checked symbols are all in the vocabulary. -/
structure Knows
    (g : Grammar)
    (graph : Graph) : Prop where
  nodes :
    ∀ node ∈ graph.nodes.nodes,
      g.isVocabulary node.symbol = true
  edges :
    g.config.checkEdgeLabels = true →
      ∀ edge ∈ graph.edges.toList,
        g.isVocabulary edge.symbol = true

/- A graph without fault is one that the grammar knows. -/
theorem graphFault?_eq_none_iff
    {graph : Graph}
    {holder : Holder} :
    g.graphFault? graph holder = none ↔ g.Knows graph := by
  unfold graphFault?
  rw [elementFault?_eq_none_iff]
  constructor
  · rintro ⟨hNodes, hEdges⟩
    exact ⟨hNodes, hEdges⟩
  · rintro ⟨hNodes, hEdges⟩
    exact ⟨hNodes, hEdges⟩

instance
    (g : Grammar)
    (graph : Graph) :
    Decidable (g.Knows graph) :=
  decidable_of_iff (g.graphFault? graph .graph = none)
    graphFault?_eq_none_iff

/- A rule whose checked symbols are all in the vocabulary. -/
def KnowsRule
    (g : Grammar) : Rule → Prop
  | .node rule =>
      g.isVocabulary rule.symbol = true ∧ g.Knows rule.rhs
  | .region rule =>
      g.Knows rule.lhs.graph ∧ g.Knows rule.rhs.graph

/- A rule without fault is one that the grammar knows. -/
theorem ruleFault?_eq_none_iff
    {rule : Rule} :
    g.ruleFault? rule = none ↔ g.KnowsRule rule := by
  unfold ruleFault? KnowsRule exoticFault?
  cases rule with
  | node rule =>
      dsimp only
      rw [Option.or_eq_none_iff, symbolFault?_eq_none_iff,
        graphFault?_eq_none_iff]
  | region rule =>
      dsimp only
      rw [Option.or_eq_none_iff, graphFault?_eq_none_iff,
        graphFault?_eq_none_iff]

instance
    (g : Grammar)
    (rule : Rule) :
    Decidable (g.KnowsRule rule) :=
  decidable_of_iff (g.ruleFault? rule = none)
    ruleFault?_eq_none_iff

end Grammar

end GraphRewriting

------------------------------------------------------------
-- Equivalent Graphs And Rules
------------------------------------------------------------

namespace GraphRewriting

namespace Grammar

variable {g : Grammar}

/- Ids of edges do not matter to the vocabulary. -/
theorem Knows.of_equiv
    {graph other : Graph}
    (h : g.Knows graph)
    (hEquiv : other ≈ graph) :
    g.Knows other where
  nodes := by
    rw [Graph.nodes_eq_of_equiv hEquiv]
    exact h.nodes
  edges hCheck edge hEdge := by
    rcases Graph.exists_plain_eq hEquiv hEdge with
      ⟨same, hSame, hPlain⟩
    have hLabels : same.plain.labels = edge.plain.labels := by
      rw [hPlain]
    have hSymbol : edge.symbol = same.symbol :=
      congrArg Labels.symbol hLabels.symm
    rw [hSymbol]
    exact h.edges hCheck same hSame

theorem KnowsRule.of_equiv
    {rule other : Rule}
    (h : g.KnowsRule rule)
    (hEquiv : other ≈ rule) :
    g.KnowsRule other := by
  have hPlain : other.plain = rule.plain := hEquiv
  cases rule with
  | node rule =>
      cases other with
      | region other => cases hPlain
      | node other =>
          have hParts : other.plain = rule.plain :=
            Rule.node.inj hPlain
          have hLhs : other.plain.lhs = rule.plain.lhs := by
            rw [hParts]
          have hRhs : other.plain.rhs = rule.plain.rhs := by
            rw [hParts]
          have hSymbol : other.symbol = rule.symbol :=
            congrArg Labels.symbol hLhs
          exact ⟨hSymbol ▸ h.1, h.2.of_equiv hRhs⟩
  | region rule =>
      cases other with
      | node other => cases hPlain
      | region other =>
          have hParts : other.plain = rule.plain :=
            Rule.region.inj hPlain
          have hLhs :
              other.plain.lhs.graph = rule.plain.lhs.graph := by
            rw [hParts]
          have hRhs :
              other.plain.rhs.graph = rule.plain.rhs.graph := by
            rw [hParts]
          exact ⟨h.1.of_equiv hLhs, h.2.of_equiv hRhs⟩

/-
  Checks only look at the options and the
  symbols of a grammar.
-/
theorem knows_congr
    {other : Grammar}
    (hConfig : other.config = g.config)
    (hTerminals : other.terminals = g.terminals)
    (hNonTerminals : other.nonTerminals = g.nonTerminals)
    {graph : Graph} :
    other.Knows graph ↔ g.Knows graph := by
  have hVocabulary :
      ∀ symbol : String,
        other.isVocabulary symbol = g.isVocabulary symbol := by
    intro symbol
    unfold isVocabulary isTerminal isNonTerminal
    rw [hTerminals, hNonTerminals]
  constructor
  · rintro ⟨hNodes, hEdges⟩
    rw [hConfig] at hEdges
    simp only [hVocabulary] at hNodes hEdges
    exact ⟨hNodes, hEdges⟩
  · rintro ⟨hNodes, hEdges⟩
    rw [← hConfig] at hEdges
    simp only [← hVocabulary] at hNodes hEdges
    exact ⟨hNodes, hEdges⟩

/-
  Which rules are known depends on the vocabulary
  and the checks alone.
-/
theorem knowsRule_congr
    {other : Grammar}
    (hConfig : other.config = g.config)
    (hTerminals : other.terminals = g.terminals)
    (hNonTerminals : other.nonTerminals = g.nonTerminals)
    {rule : Rule} :
    other.KnowsRule rule ↔ g.KnowsRule rule := by
  have hVocabulary :
      ∀ symbol : String,
        other.isVocabulary symbol = g.isVocabulary symbol := by
    intro symbol
    unfold isVocabulary isTerminal isNonTerminal
    rw [hTerminals, hNonTerminals]
  have hKnows :
      ∀ graph : Graph, other.Knows graph ↔ g.Knows graph :=
    fun _ => knows_congr hConfig hTerminals hNonTerminals
  cases rule with
  | node rule =>
      unfold KnowsRule
      dsimp only
      rw [hVocabulary, hKnows]
  | region rule => exact and_congr (hKnows _) (hKnows _)

end Grammar

end GraphRewriting
