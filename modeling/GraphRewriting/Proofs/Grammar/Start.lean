import GraphRewriting.Proofs.Digraph.Soundness
import GraphRewriting.Proofs.Grammar.Built
import GraphRewriting.Proofs.Grammar.Vocabulary

/-
  The start graph of a grammar that the operations make is over
  the vocabulary: a symbol is only dropped together with a start
  that makes use of it.

  Main declarations:
    * `Grammar.knows_iff_carries`
    * `Grammar.KnowsStart`
    * `Grammar.IsBuilt.knowsStart`
-/

------------------------------------------------------------
-- Known Symbols
------------------------------------------------------------

namespace GraphRewriting

namespace Grammar

/- The symbols that nodes may carry. -/
def NodeSymbol
    (g : Grammar)
    (symbol : String) : Prop :=
  g.isVocabulary symbol = true

/- The symbols that edges may carry. -/
def EdgeSymbol
    (g : Grammar)
    (symbol : String) : Prop :=
  g.config.checkEdgeLabels = true → g.isVocabulary symbol = true

variable {g : Grammar}

theorem isVocabulary_iff
    {symbol : String} :
    g.isVocabulary symbol = true ↔
      symbol ∈ g.terminals ∨ symbol ∈ g.nonTerminals := by
  unfold isVocabulary
  rw [Bool.or_eq_true, isTerminal_iff, isNonTerminal_iff]

/-
  A graph is over the vocabulary if its nodes and edges carry
  symbols they may carry.
-/
theorem knows_iff_carries
    {graph : Graph} :
    g.Knows graph ↔
      graph.Carries g.NodeSymbol g.EdgeSymbol := by
  constructor
  · rintro ⟨hNodes, hEdges⟩
    exact
      ⟨hNodes,
        fun edge hEdge hCheck => hEdges hCheck edge hEdge⟩
  · rintro ⟨hNodes, hEdges⟩
    exact
      ⟨hNodes,
        fun hCheck edge hEdge => hEdges edge hEdge hCheck⟩

/- Elements without fault carry known symbols. -/
theorem symbols_of_elementFault?_eq_none
    {nodes : List Node}
    {edges : List Edge}
    {holder : Holder}
    (h : g.elementFault? nodes edges holder = none) :
    (∀ node ∈ nodes, g.NodeSymbol node.symbol) ∧
      ∀ edge ∈ edges, g.EdgeSymbol edge.symbol := by
  rcases elementFault?_eq_none_iff.1 h with ⟨hNodes, hEdges⟩
  exact
    ⟨hNodes, fun edge hEdge hCheck => hEdges hCheck edge hEdge⟩

end Grammar

end GraphRewriting

------------------------------------------------------------
-- Start Graphs
------------------------------------------------------------

namespace GraphRewriting

namespace Grammar

/- The start graph, if any, is over the vocabulary. -/
def KnowsStart (g : Grammar) : Prop :=
  ∀ graph : Graph, g.startGraph = some graph → g.Knows graph

variable {g next : Grammar}
variable {symbol : String}

/- A graph stays known while none of its symbols is dropped. -/
theorem Knows.of_symbols
    {graph : Graph}
    (h : g.Knows graph)
    (hConfig : next.config = g.config)
    (hSymbols :
      ∀ symbol : String,
        graph.containsSymbol symbol = true →
          g.isVocabulary symbol = true →
            next.isVocabulary symbol = true) :
    next.Knows graph where
  nodes node hNode := by
    apply hSymbols node.symbol _ (h.nodes node hNode)
    unfold Graph.containsSymbol
    rw [Bool.or_eq_true, List.any_eq_true]
    exact Or.inl ⟨node, hNode, beq_self_eq_true _⟩
  edges hCheck edge hEdge := by
    rw [hConfig] at hCheck
    apply hSymbols edge.symbol _ (h.edges hCheck edge hEdge)
    unfold Graph.containsSymbol
    rw [Bool.or_eq_true,
      List.any_eq_true (l := graph.edges.toList)]
    exact Or.inr ⟨edge, hEdge, beq_self_eq_true _⟩

/- New symbols leave a start graph known. -/
theorem KnowsStart.of_symbols
    (h : g.KnowsStart)
    (hConfig : next.config = g.config)
    (hStart : next.startGraph = g.startGraph)
    (hSymbols :
      ∀ symbol : String,
        g.isVocabulary symbol = true →
          next.isVocabulary symbol = true) :
    next.KnowsStart := by
  intro graph hGraph
  rw [hStart] at hGraph
  exact (h graph hGraph).of_symbols hConfig fun symbol _ =>
    hSymbols symbol

/-
  A symbol is only dropped together with a start
  graph that carries it.
-/
theorem KnowsStart.dropStartUsing
    (h : g.KnowsStart)
    (hConfig : next.config = g.config)
    (hStart : next.startGraph = g.startGraph)
    (hSymbols :
      ∀ other : String,
        other ≠ symbol → g.isVocabulary other = true →
          next.isVocabulary other = true) :
    (next.dropStartUsing symbol).KnowsStart := by
  intro graph hGraph
  unfold Grammar.dropStartUsing at hGraph ⊢
  split at hGraph
  · cases hGraph
  · rename_i hUses
    rw [if_neg hUses]
    have hUnused : ¬ graph.containsSymbol symbol = true := by
      intro hContains
      apply hUses
      unfold startUses
      rw [hGraph, Option.any_some, hContains, Bool.or_true]
    rw [hStart] at hGraph
    apply (h graph hGraph).of_symbols hConfig
    intro other hOther
    apply hSymbols
    rintro rfl
    exact hUnused hOther

/- A larger vocabulary still has the symbols of the start. -/
theorem KnowsStart.defineTerminal
    (h : g.KnowsStart)
    (hDefine : g.defineTerminal symbol = .ok next) :
    next.KnowsStart := by
  rcases defineTerminal_eq_ok_iff.1 hDefine with ⟨-, rfl⟩
  refine h.of_symbols rfl rfl ?_
  intro other hOther
  rw [isVocabulary_iff] at hOther ⊢
  exact hOther.imp_left fun hMem =>
    Std.ExtTreeSet.mem_insert.2 (Or.inr hMem)

theorem KnowsStart.defineNonTerminal
    (h : g.KnowsStart)
    (hDefine : g.defineNonTerminal symbol = .ok next) :
    next.KnowsStart := by
  rcases defineNonTerminal_eq_ok_iff.1 hDefine with ⟨-, rfl⟩
  refine h.of_symbols rfl rfl ?_
  intro other hOther
  rw [isVocabulary_iff] at hOther ⊢
  exact hOther.imp_right fun hMem =>
    Std.ExtTreeSet.mem_insert.2 (Or.inr hMem)

theorem mem_erase_of_ne
    {symbols : Std.ExtTreeSet String}
    {other : String}
    (hNe : other ≠ symbol)
    (hMem : other ∈ symbols) :
    other ∈ symbols.erase symbol := by
  rw [Std.ExtTreeSet.mem_erase, ne_eq, Std.compare_eq_iff_eq]
  exact ⟨fun hEq => hNe hEq.symm, hMem⟩

/- A start that uses the terminal goes along with it. -/
theorem KnowsStart.undefineTerminal
    (h : g.KnowsStart)
    (symbol : String) :
    (g.undefineTerminal symbol).KnowsStart := by
  unfold Grammar.undefineTerminal
  split
  · refine h.dropStartUsing rfl rfl ?_
    intro other hNe hOther
    rw [isVocabulary_iff] at hOther ⊢
    exact hOther.imp_left (mem_erase_of_ne hNe)
  · exact h

/- A start that uses the non-terminal goes along with it. -/
theorem KnowsStart.undefineNonTerminal
    (h : g.KnowsStart)
    (symbol : String) :
    (g.undefineNonTerminal symbol).KnowsStart := by
  unfold Grammar.undefineNonTerminal
  split
  · refine h.dropStartUsing rfl rfl ?_
    intro other hNe hOther
    rw [isVocabulary_iff] at hOther ⊢
    exact hOther.imp_right (mem_erase_of_ne hNe)
  · exact h

/- A start symbol is defined together with its graph. -/
theorem knowsStart_of_defineStartSymbol
    {labels : Labels}
    (hDefine : g.defineStartSymbol symbol labels = .ok next) :
    next.KnowsStart := by
  rcases defineStartSymbol_eq_ok_iff.1 hDefine with ⟨-, rfl⟩
  intro graph hGraph
  cases hGraph
  rw [knows_iff_carries]
  apply (Graph.isSound_empty.addNode _).symbols
  apply isVocabulary_iff.2
  right
  show
    (labels.setSymbol symbol).symbol ∈
      g.nonTerminals.insert symbol
  rw [Labels.symbol_setSymbol]
  exact Std.ExtTreeSet.mem_insert_self

/- A start graph is checked when it is set. -/
theorem knowsStart_of_defineStartGraph
    {graph : Graph}
    (hDefine : g.defineStartGraph graph = .ok next) :
    next.KnowsStart := by
  rcases defineStartGraph_eq_ok_iff.1 hDefine with ⟨hFault, rfl⟩
  intro other hOther
  cases hOther
  exact (knows_congr rfl rfl rfl).2
    (graphFault?_eq_none_iff.1 hFault)

theorem KnowsStart.withRules
    (h : g.KnowsStart)
    (rules : RuleBook) :
    KnowsStart { g with rules := rules } :=
  h.of_symbols rfl rfl fun _ hSymbol => hSymbol

theorem KnowsStart.addRule
    (h : g.KnowsStart)
    {rule : Rule}
    (hAdd : g.addRule rule = .ok next) :
    next.KnowsStart := by
  rcases addRule_eq_ok_iff.1 hAdd with ⟨-, rules, -, rfl⟩
  exact h.withRules rules

theorem KnowsStart.undefineRule
    (h : g.KnowsStart)
    {name : String}
    (hUndefine : g.undefineRule name = .ok next) :
    next.KnowsStart := by
  rcases undefineRule_eq_ok_iff.1 hUndefine with ⟨rules, -, rfl⟩
  exact h.withRules rules

/-
  Whatever operations make a grammar, its start graph is
  over the vocabulary.
-/
theorem IsBuilt.knowsStart
    (h : g.IsBuilt) :
    g.KnowsStart := by
  induction h with
  | ofConfig config =>
      intro graph hGraph
      cases hGraph
  | defineTerminal _ h ih => exact ih.defineTerminal h
  | defineNonTerminal _ h ih => exact ih.defineNonTerminal h
  | undefineTerminal _ symbol ih =>
      exact ih.undefineTerminal symbol
  | undefineNonTerminal _ symbol ih =>
      exact ih.undefineNonTerminal symbol
  | defineStartSymbol _ h =>
      exact knowsStart_of_defineStartSymbol h
  | defineStartGraph _ h =>
      exact knowsStart_of_defineStartGraph h
  | undefineStart _ =>
      intro graph hGraph
      cases hGraph
  | addRule _ h ih => exact ih.addRule h
  | undefineRule _ h ih => exact ih.undefineRule h

end Grammar

end GraphRewriting
