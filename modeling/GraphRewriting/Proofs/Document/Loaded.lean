import GraphRewriting.Proofs.Document.RoundTrip
import GraphRewriting.Proofs.Document.Unambiguous
import GraphRewriting.Proofs.Document.WellFormed
import GraphRewriting.Proofs.Grammar.Start

/-
  What is read from a document can be described again: graphs
  and rules come out in order, with a symbol on each node and
  edge and distinct document ids. If the document is
  unambiguous, no label clashes with a key either.

  Main declarations:
    * `GraphElement.isDescribable_of_toGraph`
    * `RuleElement.isDescribable_of_toRule`
    * `GrammarDocument.isBuilt_of_toGrammar`
    * `GrammarDocument.describesStart_of_toGrammar`
    * `GrammarDocument.exists_rules_of_toGrammar`
    * `GrammarDocument.describable_of_toGrammar`
-/

------------------------------------------------------------
-- Nodes And Edges
------------------------------------------------------------

namespace GraphRewriting

/-
  A label next to a new symbol is the symbol
  or was there before.
-/
theorem Labels.mem_setSymbol
    {labels : Labels}
    {symbol key : String} :
    key ∈ Labels.setSymbol labels symbol ↔
      key = nameKey ∨ key ∈ labels := by
  unfold setSymbol
  rw [Std.ExtTreeMap.mem_insert, Std.compare_eq_iff_eq, eq_comm]

/-
  A node of an element has a symbol, and labels of
  the element besides.
-/
theorem NodeElement.toNode_spec
    {element : NodeElement}
    {node : Node}
    (h : element.toNode = .ok node) :
    Labels.nameKey ∈ node.labels ∧
      (element.IsUnambiguous → ¬ node.HasClash) := by
  rcases bind_eq_ok_iff.1 h with ⟨id, -, h⟩
  cases h
  refine ⟨Labels.mem_setSymbol.2 (Or.inl rfl), ?_⟩
  rintro hElement ⟨-, hClash⟩
  rcases Labels.mem_setSymbol.1 hClash with hName | hMem
  · exact absurd hName (by decide)
  · exact hElement "id" (by simp) hMem

/-
  An edge of an element has a symbol, and labels of
  the element besides.
-/
theorem EdgeElement.toEdge_spec
    {element : EdgeElement}
    {edge : Edge}
    (h : element.toEdge = .ok edge) :
    Labels.nameKey ∈ edge.labels ∧
      (element.IsUnambiguous → ¬ edge.HasClash) := by
  rcases bind_eq_ok_iff.1 h with ⟨id, -, h⟩
  rcases bind_eq_ok_iff.1 h with ⟨start, -, h⟩
  rcases bind_eq_ok_iff.1 h with ⟨stop, -, h⟩
  cases h
  refine ⟨Labels.mem_setSymbol.2 (Or.inl rfl), ?_⟩
  rintro hElement ⟨key, hKey, hClash⟩
  have hOther : key ≠ Labels.nameKey := by
    rintro rfl
    exact absurd hKey (by decide)
  have hAvoid : key ∈ ["id", "from", "to", "name"] :=
    List.mem_append_left ["name"] hKey
  exact hElement key hAvoid
    ((Labels.mem_setSymbol.1 hClash).resolve_left hOther)

namespace GraphElement

variable {element : GraphElement}
variable {nodes : List Node}
variable {edges : List Edge}

/-
  Nodes that are read have a symbol, and do not clash if the
  element is unambiguous.
-/
theorem Declares.nodes_spec
    (h : element.Declares nodes edges) :
    ∀ node ∈ nodes,
      Labels.nameKey ∈ node.labels ∧
        (element.IsUnambiguous → ¬ node.HasClash) := by
  rcases h.nodes with ⟨others, hOthers, rfl⟩
  intro node hNode
  rcases List.mem_append.1 hNode with hBase | hOther
  · -- Labels of the base are written apart from its id, so none
    -- of them clashes.
    unfold baseNodes at hBase
    split at hBase
    · rw [List.mem_singleton] at hBase
      rw [hBase]
      refine ⟨Labels.mem_setSymbol.2 (Or.inl rfl), ?_⟩
      rintro - ⟨hOrdinary, -⟩
      cases hOrdinary
    · cases hBase
  · rcases exists_of_mem_of_map_eq_ok hOthers hOther with
      ⟨source, hSource, hRead⟩
    have hNode := NodeElement.toNode_spec hRead
    exact
      ⟨hNode.1,
        fun hElement => hNode.2 (hElement.nodes source hSource)⟩

/- The same goes for edges. -/
theorem Declares.edges_spec
    (h : element.Declares nodes edges) :
    ∀ edge ∈ edges,
      Labels.nameKey ∈ edge.labels ∧
        (element.IsUnambiguous → ¬ edge.HasClash) := by
  intro edge hEdge
  rcases exists_of_mem_of_map_eq_ok h.edges hEdge with
    ⟨source, hSource, hRead⟩
  have hSpec := EdgeElement.toEdge_spec hRead
  exact
    ⟨hSpec.1,
      fun hElement => hSpec.2 (hElement.edges source hSource)⟩

end GraphElement

end GraphRewriting

------------------------------------------------------------
-- Graphs
------------------------------------------------------------

namespace GraphRewriting

namespace GraphElement

variable {element : GraphElement}
variable {requireBase : Bool}
variable {kind : ExoticKind}
variable {exotic : NodeStore}
variable {q : ExoticGraph}

/- What an element fills in can be described again. -/
theorem isDescribable_of_fill
    (hBare : ∀ node ∈ exotic.nodes, node.labels = ∅)
    (h :
      element.fill requireBase (.ofExotics kind exotic) =
        .ok q) :
    q.IsDescribable ∧
      (element.IsUnambiguous → ¬ q.graph.HasClash) := by
  rcases isWellFormed_of_fill h with ⟨⟨-, hExotic⟩, hFormed⟩
  rcases fill_ofExotics_eq_ok_iff.1 h with
    ⟨-, nodes, edges, hDeclares, hAcceptable, rfl⟩
  have hNodes := hDeclares.nodes_spec
  have hEdges := hDeclares.edges_spec
  refine
    ⟨⟨hFormed.integrity, hFormed.separate,
        ⟨?_, ?_, hFormed.ids.nodup⟩, ?_⟩,
      ?_⟩
  · intro node hNode
    exact
      (hNodes node (hAcceptable.mem_nodes_assemble.1 hNode)).1
  · intro edge hEdge
    exact
      (hEdges edge (hAcceptable.mem_edges_assemble.1 hEdge)).1
  · rw [hExotic]
    exact hBare
  · rintro hElement
      (⟨node, hNode, hClash⟩ | ⟨edge, hEdge, hClash⟩)
    · exact (hNodes node
          (hAcceptable.mem_nodes_assemble.1 hNode)).2
        hElement hClash
    · exact (hEdges edge
          (hAcceptable.mem_edges_assemble.1 hEdge)).2
        hElement hClash

/- A plain graph that is read can be described again. -/
theorem isDescribable_of_toGraph
    {g : Graph}
    (h : element.toGraph requireBase = .ok g) :
    g.IsDescribable ∧
      (element.IsUnambiguous → ¬ g.HasClash) := by
  have hNone :
      ∀ node ∈ (∅ : NodeStore).nodes, node.labels = ∅ := by
    intro node hNode
    rw [NodeStore.mem_nodes,
      Std.ExtTreeMap.getElem?_empty] at hNode
    cases hNode
  have hIntegrity := (isWellFormed_of_toGraph h).integrity
  rcases toGraph_eq_ok_iff.1 h with ⟨-, q, hFill, rfl⟩
  rcases isDescribable_of_fill hNone hFill with ⟨hq, hClash⟩
  exact ⟨⟨hIntegrity, hq.marked⟩, hClash⟩

private theorem bare_putBare
    (ids : List NodeId) :
    ∀ node ∈ ((∅ : NodeStore).putBare ids).nodes,
      node.labels = ∅ := by
  intro node hNode
  rw [NodeStore.mem_nodes, NodeStore.getElem?_putBare] at hNode
  split at hNode
  · exact (Option.some.inj hNode).symm
  · rw [Std.ExtTreeMap.getElem?_empty] at hNode
    cases hNode

/- An exotic graph that is read can be described again. -/
theorem isDescribable_of_toExoticGraph
    {inherited : NodeStore}
    (hInherited : ∀ node ∈ inherited.nodes, node.labels = ∅)
    (h : element.toExoticGraph kind inherited.nodes = .ok q) :
    q.IsDescribable ∧
      (element.IsUnambiguous → ¬ q.graph.HasClash) := by
  rcases toExoticGraph_eq_ok_iff.1 h with ⟨-, ids, -, hFill⟩
  apply isDescribable_of_fill _ hFill
  intro node hNode
  rw [NodeStore.mem_nodes,
    NodeStore.labels_putMissing_iff
      (NodeStore.ids_nodup inherited)] at hNode
  rcases hNode with hOld | ⟨-, hNew⟩
  · exact bare_putBare ids node (NodeStore.mem_nodes.2 hOld)
  · exact hInherited node hNew

end GraphElement

end GraphRewriting

------------------------------------------------------------
-- Rules
------------------------------------------------------------

namespace GraphRewriting

namespace RuleElement

variable {element : RuleElement}
variable {name : String}
variable {rule : Rule}

/- A context-free rule that is read can be written. -/
theorem isDescribable_of_toContextFree
    {lhs : SymbolElement}
    (h : element.toContextFree name lhs = .ok rule) :
    rule.IsDescribable ∧
      (element.IsUnambiguous → ¬ rule.HasClash) := by
  rcases bind_eq_ok_iff.1 h with ⟨symbol, -, h⟩
  rcases bind_eq_ok_iff.1 h with ⟨replacement, hReplacement, h⟩
  rcases bind_eq_ok_iff.1 h with ⟨rhs, hRhs, h⟩
  have hGraph : element.graph = some replacement :=
    GrammarDocument.require_eq_ok_iff.1 hReplacement
  rcases GraphElement.isDescribable_of_toGraph hRhs with
    ⟨hDescribable, hClash⟩
  rcases Rule.contextFreeOfLabels_eq_ok h with
    ⟨inner, rfl, -, -, rfl⟩
  exact
    ⟨hDescribable,
      fun hElement =>
        hClash (hElement.graph replacement hGraph)⟩

theorem isDescribable_of_toExotic
    {kind : ExoticKind}
    {lhs : GraphElement}
    (h : element.toExotic kind name lhs = .ok rule) :
    rule.IsDescribable ∧
      (element.IsUnambiguous → lhs.IsUnambiguous →
        ¬ rule.HasClash) := by
  rcases bind_eq_ok_iff.1 h with ⟨pattern, hPattern, h⟩
  rcases bind_eq_ok_iff.1 h with ⟨replacement, hReplacement, h⟩
  rcases bind_eq_ok_iff.1 h with ⟨rhs, hRhs, h⟩
  have hGraph : element.graph = some replacement :=
    GrammarDocument.require_eq_ok_iff.1 hReplacement
  have hNone : (∅ : NodeStore).nodes = [] := rfl
  rw [← hNone] at hPattern
  rcases
      GraphElement.isDescribable_of_toExoticGraph
        (by simp [hNone]) hPattern with
    ⟨hLeft, hLeftClash⟩
  rcases
      GraphElement.isDescribable_of_toExoticGraph hLeft.bare
        hRhs with
    ⟨hRight, hRightClash⟩
  rcases Rule.exotic_eq_ok h with ⟨inner, rfl, -, rfl, rfl⟩
  refine ⟨⟨hLeft, hRight⟩, ?_⟩
  rintro hElement hLhs (hClash | hClash)
  · exact hLeftClash hLhs hClash
  · exact hRightClash (hElement.graph replacement hGraph) hClash

/-
  A rule that is read has an accepted kind and can
  be described again.
-/
theorem isDescribable_of_toRule
    {kinds : List RuleKind}
    (h : element.toRule kinds = .ok rule) :
    rule.kind ∈ kinds ∧
      rule.IsDescribable ∧
        (element.IsUnambiguous → ¬ rule.HasClash) := by
  refine
    ⟨List.mem_of_find?_eq_some (isWellFormed_of_toRule h).1.2,
      ?_⟩
  rcases toRule_eq_ok_iff.1 h with ⟨name, kind, -, -, hRead⟩
  cases kind with
  | contextFree =>
      rcases Option.map_eq_some_iff.1 hRead with ⟨lhs, -, hRule⟩
      exact isDescribable_of_toContextFree hRule
  | anchor =>
      rcases Option.map_eq_some_iff.1 hRead with
        ⟨lhs, hLhs, hRule⟩
      rcases isDescribable_of_toExotic hRule with
        ⟨hDescribable, hClash⟩
      exact
        ⟨hDescribable,
          fun hElement =>
            hClash hElement (hElement.anchorGraph lhs hLhs)⟩
  | wildcard =>
      rcases Option.map_eq_some_iff.1 hRead with
        ⟨lhs, hLhs, hRule⟩
      rcases isDescribable_of_toExotic hRule with
        ⟨hDescribable, hClash⟩
      exact
        ⟨hDescribable,
          fun hElement =>
            hClash hElement (hElement.wildcardGraph lhs hLhs)⟩

end RuleElement

end GraphRewriting

------------------------------------------------------------
-- Grammars
------------------------------------------------------------

namespace GraphRewriting

namespace GrammarDocument

variable {document : GrammarDocument}
variable {config : GrammarConfig}
variable {g started : Grammar}

/-
  The start of a document comes from the
  operations on grammars.
-/
private theorem isBuilt_of_defineStart
    (hg : g.IsBuilt)
    (h : document.defineStart g = .ok started) :
    started.IsBuilt := by
  rcases defineStart_cases h with
    ⟨symbol, labels, -, hDefine⟩ | ⟨-,
      ⟨element, graph, -, -, hDefine⟩ | ⟨-, rfl⟩⟩
  · exact hg.defineStartSymbol hDefine
  · exact hg.defineStartGraph hDefine
  · exact hg

/-
  A grammar that is read from a document comes from the
  operations on grammars.
-/
theorem isBuilt_of_toGrammar
    (h : document.toGrammar config = .ok g) :
    g.IsBuilt := by
  rcases bind_eq_ok_iff.1 h with ⟨terminals, -, h⟩
  rcases bind_eq_ok_iff.1 h with ⟨nonTerminals, -, h⟩
  rcases bind_eq_ok_iff.1 h with ⟨first, hFirst, h⟩
  rcases bind_eq_ok_iff.1 h with ⟨second, hSecond, h⟩
  rcases bind_eq_ok_iff.1 h with ⟨started, hStarted, h⟩
  rcases bind_eq_ok_iff.1 h with ⟨elements, -, hRules⟩
  have hBuiltFirst : first.IsBuilt :=
    foldlM_preserves
      (fun _ _ _ hState hNext => hState.defineTerminal hNext)
      (.ofConfig config) hFirst
  have hBuiltSecond : second.IsBuilt :=
    foldlM_preserves
      (fun _ _ _ hState hNext => hState.defineNonTerminal hNext)
      hBuiltFirst hSecond
  have hBuiltStarted : started.IsBuilt :=
    isBuilt_of_defineStart hBuiltSecond hStarted
  refine foldlM_preserves ?_ hBuiltStarted hRules
  intro state next element hState hNext
  rcases bind_eq_ok_iff.1 hNext with ⟨rule, -, hAdd⟩
  exact hState.addRule hAdd

/- A start leaves options, terminals and rules as they are. -/
theorem keeps_of_defineStart
    (h : document.defineStart g = .ok started) :
    started.config = g.config ∧
      started.terminals = g.terminals ∧
      started.rules = g.rules := by
  rcases defineStart_cases h with
    ⟨symbol, labels, -, hDefine⟩ | ⟨-,
      ⟨element, graph, -, -, hDefine⟩ | ⟨-, rfl⟩⟩
  · rcases Grammar.defineStartSymbol_eq_ok_iff.1 hDefine with
      ⟨-, rfl⟩
    exact ⟨rfl, rfl, rfl⟩
  · rcases Grammar.defineStartGraph_eq_ok_iff.1 hDefine with
      ⟨-, rfl⟩
    exact ⟨rfl, rfl, rfl⟩
  · exact ⟨rfl, rfl, rfl⟩

/-
  A grammar has the start symbol that a document names, and
  otherwise the start graph that it holds, if any.
-/
structure DescribesStart
    (document : GrammarDocument)
    (g : Grammar) : Prop where
  symbol :
    g.startSymbol = document.startSymbol.bind SymbolElement.name
  graph :
    g.startSymbol = none →
      document.startGraphs.map (GraphElement.toGraph · false) =
        g.startGraph.toList.map .ok

/- The start of the grammar is the one of the document. -/
theorem describesStart_of_defineStart
    (hNone : g.startSymbol = none ∧ g.startGraph = none)
    (h : document.defineStart g = .ok started) :
    document.DescribesStart started := by
  rcases defineStart_cases h with
    ⟨symbol, labels, hSymbol, hDefine⟩ |
      ⟨hSymbol,
        ⟨element, graph, hGraphs, hRead,
          hDefine⟩ | ⟨hGraphs, rfl⟩⟩
  · rcases Grammar.defineStartSymbol_eq_ok_iff.1 hDefine with
      ⟨-, rfl⟩
    exact ⟨hSymbol.symm, fun h => by cases h⟩
  · rcases Grammar.defineStartGraph_eq_ok_iff.1 hDefine with
      ⟨-, rfl⟩
    refine ⟨hSymbol.symm, fun _ => ?_⟩
    rw [hGraphs, List.map_singleton, hRead]
    rfl
  · refine ⟨hNone.1.trans hSymbol.symm, fun _ => ?_⟩
    rw [hGraphs, hNone.2]
    rfl

/-
  The terminals of a grammar are those that its document
  lists, and an implied one.
-/
theorem mem_terminals_of_toGrammar
    (h : document.toGrammar config = .ok g) :
    ∃ terminals : List String,
      document.terminals = some terminals ∧
        ∀ symbol : String,
          symbol ∈ g.terminals ↔
            (config.emptySymbolIsTerminal = true ∧
                symbol = "") ∨
              symbol ∈ terminals := by
  rcases toGrammar_eq_ok_iff.1 h with
    ⟨terminals, nonTerminals, elements, hTerminals, -, -, -,
      started, hStarted, hRules⟩
  rcases foldlM_addRule_eq_ok_iff.1 hRules with
    ⟨rules, -, -, -, rfl⟩
  refine ⟨terminals, hTerminals, fun symbol => ?_⟩
  show symbol ∈ started.terminals ↔ _
  rw [(keeps_of_defineStart hStarted).2.1]
  exact Grammar.mem_terminals_ofSymbols

/- Rules are added to a grammar that has its start already. -/
theorem describesStart_of_toGrammar
    (h : document.toGrammar config = .ok g) :
    document.DescribesStart g := by
  rcases toGrammar_eq_ok_iff.1 h with
    ⟨terminals, nonTerminals, elements, -, -, -, -, started,
      hStarted, hRules⟩
  rcases foldlM_addRule_eq_ok_iff.1 hRules with
    ⟨rules, -, -, -, rfl⟩
  rcases describesStart_of_defineStart ⟨rfl, rfl⟩ hStarted with
    ⟨hSymbol, hGraph⟩
  exact ⟨hSymbol, hGraph⟩

/-
  A start graph is that of a symbol, or comes from an
  element of the document.
-/
theorem startGraph_of_toGrammar
    (h : document.toGrammar config = .ok g)
    {graph : Graph}
    (hGraph : g.startGraph = some graph) :
    (∃ (symbol : String) (labels : Labels),
      graph = Grammar.symbolGraph symbol labels) ∨
      ∃ element ∈ document.startGraphs,
        element.toGraph false = .ok graph := by
  cases hSymbol : g.startSymbol with
  | none =>
      have hRead :=
        (describesStart_of_toGrammar h).graph hSymbol
      rw [hGraph] at hRead
      exact Or.inr
        (exists_of_mem_of_map_eq_ok hRead
          (List.mem_singleton_self graph))
  | some symbol =>
      rcases
          (isBuilt_of_toGrammar h).isConsistent.start symbol
            hSymbol with
        ⟨-, labels, hSame⟩
      exact Or.inl
        ⟨symbol, labels,
          Option.some.inj (hGraph.symm.trans hSame)⟩

/-
  The rules of a grammar are those of the elements,
  over its vocabulary.
-/
theorem exists_rules_of_toGrammar
    (h : document.toGrammar config = .ok g) :
    g.config = config ∧
      ∃ (elements : List RuleElement) (rules : List Rule),
        document.rules = some elements ∧
          elements.map
              (RuleElement.toRule · config.acceptableKinds) =
            rules.map .ok ∧
            g.rules.toList.Perm rules ∧
              ∀ rule ∈ rules, g.KnowsRule rule := by
  rcases toGrammar_eq_ok_iff.1 h with
    ⟨terminals, nonTerminals, elements, -, -, hElements, -,
      started, hStarted, hRules⟩
  rcases keeps_of_defineStart hStarted with ⟨hConfig, -, hBook⟩
  have hConfig : started.config = config := hConfig
  have hBook : started.rules = ∅ := hBook
  rcases foldlM_addRule_eq_ok_iff.1 hRules with
    ⟨rules, hRead, hAdmits, hKnows, rfl⟩
  rw [hConfig] at hRead
  rw [hBook] at hAdmits
  refine ⟨hConfig, elements, rules, hElements, hRead, ?_, ?_⟩
  · show (started.rules.putAll rules).toList.Perm rules
    rw [hBook]
    exact hAdmits.perm_toList_putAll
  · intro rule hRule
    refine (Grammar.knowsRule_congr ?_ ?_ ?_).2
        (hKnows rule hRule) <;>
      rfl

/- What is read from a document can be described again. -/
theorem describable_of_toGrammar
    (h : document.toGrammar config = .ok g) :
    g.config = config ∧ g.IsDescribable ∧
      (document.IsUnambiguous → ¬ g.HasClash) := by
  rcases exists_rules_of_toGrammar h with
    ⟨hConfig, elements, rules, hElements, hRead, hPerm, hKnows⟩
  have hStart :
      ∀ graph ∈ g.startGraph,
        graph.IsDescribable ∧
          (document.IsUnambiguous → ¬ graph.HasClash) := by
    intro graph hGraph
    rcases startGraph_of_toGrammar h hGraph with
      ⟨symbol, labels, rfl⟩ | ⟨element, hElement, hRead⟩
    · exact
        ⟨Grammar.isDescribable_symbolGraph _ _,
          fun _ => Grammar.not_hasClash_symbolGraph _ _⟩
    · rcases GraphElement.isDescribable_of_toGraph hRead with
        ⟨hDescribable, hClash⟩
      exact
        ⟨hDescribable,
          fun hDocument =>
            hClash (hDocument.startGraphs element hElement)⟩
  have hRule :
      ∀ rule ∈ g.rules.toList,
        rule.kind ∈ config.acceptableKinds ∧
          rule.IsDescribable ∧
            (document.IsUnambiguous → ¬ rule.HasClash) := by
    intro rule hRule
    rcases
        exists_of_mem_of_map_eq_ok hRead
          (hPerm.mem_iff.1 hRule) with
      ⟨element, hElement, hToRule⟩
    rcases RuleElement.isDescribable_of_toRule hToRule with
      ⟨hKind, hDescribable, hClash⟩
    exact
      ⟨hKind, hDescribable,
        fun hDocument =>
          hClash
            (hDocument.rules elements hElements element
              hElement)⟩
  refine
    ⟨hConfig,
      ⟨(isBuilt_of_toGrammar h).knowsStart, ?_, ?_, ?_, ?_⟩, ?_⟩
  · exact fun graph hGraph => (hStart graph hGraph).1
  · exact
      fun rule hMember => hKnows rule (hPerm.mem_iff.1 hMember)
  · rw [hConfig]
    exact fun rule hMember => (hRule rule hMember).1
  · exact fun rule hMember => (hRule rule hMember).2.1
  · rintro hDocument
      (⟨graph, hGraph, hClash⟩ | ⟨rule, hMember, hClash⟩)
    · exact (hStart graph hGraph).2 hDocument hClash
    · exact (hRule rule hMember).2.2 hDocument hClash

/-
  What is read from an unambiguous document is
  described without a clash.
-/
theorem isDescribable_of_toGrammar
    (hDocument : document.IsUnambiguous)
    (h : document.toGrammar config = .ok g) :
    g.config = config ∧ g.IsDescribable ∧ ¬ g.HasClash := by
  rcases describable_of_toGrammar h with
    ⟨hConfig, hDescribable, hClash⟩
  exact ⟨hConfig, hDescribable, hClash hDocument⟩

end GrammarDocument

end GraphRewriting
