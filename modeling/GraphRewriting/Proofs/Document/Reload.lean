import GraphRewriting.Proofs.Document.Loading
import GraphRewriting.Proofs.Document.Rules

/-
  Grammars that are read back from their documents. A grammar
  is described unless a label clashes with a key, and its
  document gives it back up to document ids.

  Main declarations:
    * `Grammar.IsDescribable`
    * `Grammar.HasClash`
    * `GrammarDocument.RestoresStart`
    * `GrammarDocument.ofGrammar_spec`
-/

------------------------------------------------------------
-- Grammars That Can Be Described
------------------------------------------------------------

namespace GraphRewriting

namespace Grammar

/-
  A grammar that documents can hold: the checked symbols of its
  start and its rules are in the vocabulary, the kinds of its
  rules are accepted, and its graphs can be described.
-/
structure IsDescribable (g : Grammar) : Prop where
  startKnown : ∀ graph ∈ g.startGraph, g.Knows graph
  start : ∀ graph ∈ g.startGraph, graph.IsDescribable
  rulesKnown : ∀ rule ∈ g.rules.toList, g.KnowsRule rule
  rulesAccepted :
    ∀ rule ∈ g.rules.toList, g.config.Accepts rule.kind
  rules : ∀ rule ∈ g.rules.toList, rule.IsDescribable

/-
  The start graph or a rule has a label with a
  key of its element.
-/
def HasClash (g : Grammar) : Prop :=
  (∃ graph ∈ g.startGraph, graph.HasClash) ∨
    ∃ rule ∈ g.rules.toList, rule.HasClash

instance (g : Grammar) : Decidable g.HasClash :=
  inferInstanceAs (Decidable (_ ∨ _))

end Grammar

end GraphRewriting

------------------------------------------------------------
-- Starts
------------------------------------------------------------

namespace GraphRewriting

namespace Grammar

/- The grammar with a start. -/
def withStart
    (g : Grammar)
    (symbol : Option String)
    (graph : Option Graph) : Grammar :=
  { g with startSymbol := symbol, startGraph := graph }

/- The graph of a symbol has the base alone. -/
theorem mem_nodes_symbolGraph
    {symbol : String}
    {labels : Labels}
    {node : Node} :
    node ∈ (symbolGraph symbol labels).nodes.nodes ↔
      node = ⟨NodeId.base, Labels.setSymbol labels symbol⟩ := by
  rw [NodeStore.mem_nodes]
  unfold symbolGraph
  rw [Graph.getElem?_nodes_addNode]
  have hEmpty : (∅ : Graph).nodes[node.id]? = none :=
    Std.ExtTreeMap.getElem?_empty
  rcases node with ⟨id, own⟩
  by_cases hId : NodeId.base = id
  · subst hId
    simp [eq_comm]
  · have hNe : id ≠ NodeId.base := fun hEq => hId hEq.symm
    simp [hId, hEmpty, hNe]

/- The graph of a symbol has no edges. -/
theorem edges_symbolGraph
    (symbol : String)
    (labels : Labels) :
    (symbolGraph symbol labels).edges.toList = [] := rfl

/- The graph of a symbol can be described. -/
theorem isDescribable_symbolGraph
    (symbol : String)
    (labels : Labels) :
    (symbolGraph symbol labels).IsDescribable := by
  refine ⟨?_, ?_, ?_, ?_⟩
  · unfold Graph.HasIntegrity
    simp [edges_symbolGraph]
  · intro node hNode
    rw [mem_nodes_symbolGraph.1 hNode]
    exact Std.ExtTreeMap.mem_insert_self
  · simp [edges_symbolGraph]
  · exact List.nodup_nil

/- The graph of a symbol has nothing that could clash. -/
theorem not_hasClash_symbolGraph
    (symbol : String)
    (labels : Labels) :
    ¬ (symbolGraph symbol labels).HasClash := by
  rintro (⟨node, hNode, hOrdinary, -⟩ | ⟨edge, hEdge, -⟩)
  · rw [mem_nodes_symbolGraph.1 hNode] at hOrdinary
    cases hOrdinary
  · rw [edges_symbolGraph] at hEdge
    cases hEdge

/-
  The labels next to a start symbol give the start graph back.
-/
theorem symbolGraph_startAttributes
    {g : Grammar}
    {symbol : String}
    {labels : Labels}
    (hGraph : g.startGraph = some (symbolGraph symbol labels)) :
    symbolGraph symbol (GrammarDocument.startAttributes g) =
      symbolGraph symbol labels := by
  have hAttributes :
      GrammarDocument.startAttributes g =
        Labels.withoutSymbol
          (Labels.setSymbol labels symbol) := by
    unfold GrammarDocument.startAttributes
    rw [hGraph]
    unfold symbolGraph Graph.node? NodeStore.node?
    rw [Option.bind_some, Graph.getElem?_nodes_addNode,
      if_pos rfl]
    rfl
  have hName :
      Labels.nameKey ∈ Labels.setSymbol labels symbol :=
    Std.ExtTreeMap.mem_insert_self
  have hBack := Labels.setSymbol_withoutSymbol hName
  rw [Labels.symbol_setSymbol] at hBack
  unfold symbolGraph
  rw [hAttributes, hBack]

end Grammar

namespace GrammarDocument

/-
  The start of a document, on top of the symbols of a grammar,
  is the start of the grammar up to document ids.
-/
def RestoresStart
    (document : GrammarDocument)
    (g : Grammar) : Prop :=
  ∀ started : Grammar,
    started.config = g.config →
      started.terminals = g.terminals →
        started.nonTerminals = g.nonTerminals →
          started.startSymbol = none →
            started.startGraph = none →
              ∃ graph : Option Graph,
                document.defineStart started =
                  .ok (started.withStart g.startSymbol graph) ∧
                  graph.map Graph.plain =
                    g.startGraph.map Graph.plain

variable {g : Grammar}
variable {document : GrammarDocument}

/- A start symbol is restored with its labels. -/
theorem restoresStart_of_symbol
    (hg : g.IsConsistent)
    {symbol : String}
    (hSymbol : g.startSymbol = some symbol)
    (hStart :
      document.startSymbol =
        some ⟨some symbol, startAttributes g⟩)
    (hGraphs : document.startGraphs = []) :
    document.RestoresStart g := by
  rcases hg.start symbol hSymbol with ⟨hMem, labels, hGraph⟩
  intro started _ hTerminals hNonTerminals _ _
  have hFree : symbol ∉ started.terminals := by
    rw [hTerminals]
    intro hTerminal
    exact hg.disjoint symbol hTerminal hMem
  have hInsert :
      started.nonTerminals.insert symbol =
        started.nonTerminals := by
    apply Std.ExtTreeSet.ext_mem
    intro other
    rw [Std.ExtTreeSet.mem_insert, Std.compare_eq_iff_eq,
      or_iff_right_of_imp]
    rintro rfl
    rw [hNonTerminals]
    exact hMem
  refine ⟨g.startGraph, ?_, rfl⟩
  unfold defineStart
  rw [hStart, hGraphs, hSymbol, hGraph]
  dsimp only
  rw [Grammar.defineStartSymbol_eq_ok_iff,
    Grammar.symbolGraph_startAttributes hGraph, hInsert]
  exact ⟨hFree, rfl⟩

/- A start graph that the grammar knows is restored. -/
theorem restoresStart_of_graph
    (hSymbol : g.startSymbol = none)
    {graph : Graph}
    (hGraph : g.startGraph = some graph)
    (hKnown : g.Knows graph)
    (hDescribable : graph.IsDescribable)
    {element : GraphElement}
    (hOf : element.IsOf graph)
    (hAnchors : element.anchors = [])
    (hWildcards : element.wildcards = [])
    (hStart : document.startSymbol = none)
    (hGraphs : document.startGraphs = [element]) :
    document.RestoresStart g := by
  rcases GraphElement.toGraph_of_isOf hOf hAnchors hWildcards
    hDescribable.integrity
    false (by simp) with ⟨other, hRead, hEquiv⟩
  intro started hConfig hTerminals hNonTerminals _ _
  have hFault :
      started.graphFault? other .startGraph = none := by
    rw [Grammar.graphFault?_eq_none_iff,
      Grammar.knows_congr hConfig hTerminals hNonTerminals]
    exact hKnown.of_equiv hEquiv
  refine ⟨some other, ?_, ?_⟩
  · unfold defineStart
    rw [hStart, hGraphs, hSymbol]
    exact bind_eq_ok_iff.2
      ⟨other, hRead,
        Grammar.defineStartGraph_eq_ok_iff.2 ⟨hFault, rfl⟩⟩
  · rw [hGraph]
    exact congrArg some hEquiv

/- Where there was no start, none is made. -/
theorem restoresStart_of_none
    (hSymbol : g.startSymbol = none)
    (hGraph : g.startGraph = none)
    (hStart : document.startSymbol = none)
    (hGraphs : document.startGraphs = []) :
    document.RestoresStart g := by
  intro started _ _ _ hNoSymbol hNoGraph
  refine ⟨none, ?_, by rw [hGraph]⟩
  have hSame : started.withStart none none = started := by
    cases started
    cases hNoSymbol
    cases hNoGraph
    rfl
  unfold defineStart
  rw [hStart, hGraphs, hSymbol, hSame]

end GrammarDocument

end GraphRewriting

------------------------------------------------------------
-- Describing Grammars
------------------------------------------------------------

namespace GraphRewriting

namespace GrammarDocument

/-
  The terminals that a document lists, which leave
  out the empty symbol.
-/
def listedTerminals (g : Grammar) : List String :=
  g.terminals.toList.filter fun symbol => symbol ≠ ""

/- A document that describes a grammar. -/
structure IsOf
    (document : GrammarDocument)
    (g : Grammar) : Prop where
  terminals : document.terminals = some (listedTerminals g)
  nonTerminals :
    document.nonTerminals = some g.nonTerminals.toList
  start : document.RestoresStart g
  rules :
    ∃ elements : List RuleElement,
      document.rules = some elements ∧
        List.Forall₂ (fun rule element => element.IsOf rule)
          g.rules.toList elements

/- A grammar is described unless a label clashes. -/
theorem ofGrammar_spec
    {g : Grammar}
    (hg : g.IsConsistent)
    (hDescribable : g.IsDescribable) :
    SucceedsUnless g.HasClash (fun document => document.IsOf g)
      (ofGrammar g) := by
  have hRules :
      ∀ rule ∈ g.rules.toList,
        SucceedsUnless rule.HasClash
          (fun element => element.IsOf rule)
          (RuleElement.ofRule rule) := by
    intro rule hRule
    exact
      RuleElement.ofRule_spec (hDescribable.rules rule hRule)
  unfold ofGrammar
  cases hSymbol : g.startSymbol with
  | some symbol =>
      rcases hg.start symbol hSymbol with ⟨-, labels, hGraph⟩
      have hStart :
          ¬ ∃ graph ∈ g.startGraph, graph.HasClash := by
        rintro ⟨graph, hMem, hClash⟩
        rw [hGraph, Option.mem_some_iff] at hMem
        subst hMem
        exact
          Grammar.not_hasClash_symbolGraph symbol labels hClash
      refine ((SucceedsUnless.mapM hRules).map
          fun elements hElements => ?_).congr
        (or_iff_right hStart).symm
      exact
        ⟨rfl, rfl, restoresStart_of_symbol hg hSymbol rfl rfl,
          elements, rfl, hElements⟩
  | none =>
      cases hGraph : g.startGraph with
      | none =>
          have hStart :
              ¬ ∃ graph ∈ g.startGraph, graph.HasClash := by
            rintro ⟨graph, hMem, -⟩
            rw [hGraph] at hMem
            cases hMem
          refine ((SucceedsUnless.mapM hRules).map
              fun elements hElements => ?_).congr
            (or_iff_right hStart).symm
          exact
            ⟨rfl, rfl,
              restoresStart_of_none hSymbol hGraph rfl rfl,
              elements, rfl, hElements⟩
      | some graph =>
          have hMem : graph ∈ g.startGraph := hGraph
          have hGraphs := hDescribable.start graph hMem
          have hStart :
              (∃ graph ∈ g.startGraph, graph.HasClash) ↔
                graph.HasClash := by
            rw [hGraph]
            simp
          refine ((SucceedsUnless.mapM hRules).bind
            fun elements hElements =>
              (GraphElement.ofGraph_spec hGraphs.marked).map
                fun element hElement => ?_).congr
              ?_
          · rcases hElement with ⟨hOf, hAnchors, hWildcards⟩
            exact
              ⟨rfl, rfl,
                restoresStart_of_graph hSymbol hGraph
                  (hDescribable.startKnown graph hMem) hGraphs
                  hOf hAnchors hWildcards rfl rfl,
                elements, rfl, hElements⟩
          · unfold Grammar.HasClash
            rw [hStart, or_comm]

end GrammarDocument

end GraphRewriting
