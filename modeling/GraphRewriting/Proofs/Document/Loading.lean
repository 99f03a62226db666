import GraphRewriting.Document.Interpretation
import GraphRewriting.Proofs.Grammar.Built
import GraphRewriting.Proofs.Grammar.Vocabulary
import GraphRewriting.Proofs.Traversal

/-
  Grammars that are read from documents: what the lists of
  symbols and of rules in a document make of a grammar, and
  when they are refused.

  Main declarations:
    * `Grammar.foldlM_defineTerminal_eq_ok_iff`
    * `Grammar.foldlM_defineNonTerminal_eq_ok_iff`
    * `GrammarDocument.foldlM_addRule_eq_ok_iff`
    * `GrammarDocument.defineStart_cases`
    * `GrammarDocument.toGrammar_eq_ok_iff`
-/

------------------------------------------------------------
-- Symbols
------------------------------------------------------------

namespace GraphRewriting

namespace Grammar

variable {g next : Grammar}

/- The grammar with more terminals. -/
def withTerminals
    (g : Grammar)
    (symbols : List String) : Grammar :=
  { g with terminals := g.terminals.insertMany symbols }

/- The grammar with more non-terminals. -/
def withNonTerminals
    (g : Grammar)
    (symbols : List String) : Grammar :=
  { g with nonTerminals := g.nonTerminals.insertMany symbols }

/-
  Symbols all become terminals exactly if none
  is a non-terminal.
-/
theorem foldlM_defineTerminal_eq_ok_iff
    {symbols : List String} :
    symbols.foldlM defineTerminal g = .ok next ↔
      (∀ symbol ∈ symbols, symbol ∉ g.nonTerminals) ∧
        next = g.withTerminals symbols := by
  induction symbols generalizing g with
  | nil =>
      have hNil : g.withTerminals [] = g := rfl
      rw [hNil]
      constructor
      · intro h
        cases h
        exact ⟨by simp, rfl⟩
      · rintro ⟨-, rfl⟩
        rfl
  | cons symbol symbols ih =>
      have hCons :
          g.withTerminals (symbol :: symbols) =
            withTerminals
              { g with terminals := g.terminals.insert symbol }
              symbols := by
        unfold withTerminals
        rw [Std.ExtTreeSet.insertMany_cons]
      rw [foldlM_cons_eq_ok_iff, List.forall_mem_cons, hCons]
      constructor
      · rintro ⟨state, hState, hRest⟩
        rcases defineTerminal_eq_ok_iff.1 hState with
          ⟨hFree, rfl⟩
        rcases ih.1 hRest with ⟨hOthers, rfl⟩
        exact ⟨⟨hFree, hOthers⟩, rfl⟩
      · rintro ⟨⟨hFree, hOthers⟩, rfl⟩
        exact
          ⟨_, defineTerminal_eq_ok_iff.2 ⟨hFree, rfl⟩,
            ih.2 ⟨hOthers, rfl⟩⟩

/-
  Symbols all become non-terminals exactly if
  none is a terminal.
-/
theorem foldlM_defineNonTerminal_eq_ok_iff
    {symbols : List String} :
    symbols.foldlM defineNonTerminal g = .ok next ↔
      (∀ symbol ∈ symbols, symbol ∉ g.terminals) ∧
        next = g.withNonTerminals symbols := by
  induction symbols generalizing g with
  | nil =>
      have hNil : g.withNonTerminals [] = g := rfl
      rw [hNil]
      constructor
      · intro h
        cases h
        exact ⟨by simp, rfl⟩
      · rintro ⟨-, rfl⟩
        rfl
  | cons symbol symbols ih =>
      have hCons :
          g.withNonTerminals (symbol :: symbols) =
            withNonTerminals
              { g with
                nonTerminals := g.nonTerminals.insert symbol }
              symbols := by
        unfold withNonTerminals
        rw [Std.ExtTreeSet.insertMany_cons]
      rw [foldlM_cons_eq_ok_iff, List.forall_mem_cons, hCons]
      constructor
      · rintro ⟨state, hState, hRest⟩
        rcases defineNonTerminal_eq_ok_iff.1 hState with
          ⟨hFree, rfl⟩
        rcases ih.1 hRest with ⟨hOthers, rfl⟩
        exact ⟨⟨hFree, hOthers⟩, rfl⟩
      · rintro ⟨⟨hFree, hOthers⟩, rfl⟩
        exact
          ⟨_, defineNonTerminal_eq_ok_iff.2 ⟨hFree, rfl⟩,
            ih.2 ⟨hOthers, rfl⟩⟩

end Grammar

end GraphRewriting

------------------------------------------------------------
-- Rules
------------------------------------------------------------

namespace GraphRewriting

namespace Grammar

/- The grammar with more rules. -/
def withRules
    (g : Grammar)
    (rules : List Rule) : Grammar :=
  { g with rules := g.rules.putAll rules }

end Grammar

namespace GrammarDocument

variable {g next : Grammar}

/-
  Rules are all added exactly if their elements are in order,
  their names free and distinct, and their symbols in the
  vocabulary.
-/
theorem foldlM_addRule_eq_ok_iff
    {elements : List RuleElement} :
    elements.foldlM addRule g = .ok next ↔
      ∃ rules : List Rule,
        elements.map
            (RuleElement.toRule · g.config.acceptableKinds) =
          rules.map .ok ∧
          g.rules.Admits rules ∧
            (∀ rule ∈ rules, g.KnowsRule rule) ∧
          next = g.withRules rules := by
  induction elements generalizing g with
  | nil =>
      constructor
      · intro h
        cases h
        exact ⟨[], rfl, ⟨List.nodup_nil, by simp⟩, by simp, rfl⟩
      · rintro ⟨rules, hRules, -, -, rfl⟩
        rw [List.map_nil, eq_comm,
          List.map_eq_nil_iff] at hRules
        subst hRules
        rfl
  | cons element elements ih =>
      have hKnows :
          ∀ (rule : Rule) (rules : List Rule),
            (∀ other ∈ rules,
                Grammar.KnowsRule
                  { g with rules := g.rules.put rule } other) ↔
              ∀ other ∈ rules, g.KnowsRule other := by
        intro rule rules
        refine forall₂_congr fun other _ => ?_
        apply Grammar.knowsRule_congr <;> rfl
      rw [foldlM_cons_eq_ok_iff]
      constructor
      · rintro ⟨state, hState, hRest⟩
        rcases bind_eq_ok_iff.1 hState with ⟨rule, hRule, hAdd⟩
        rcases Grammar.addRule_eq_ok_iff.1 hAdd with
          ⟨hFault, book, hInsert, rfl⟩
        rcases RuleBook.insert_eq_ok_iff.1 hInsert with
          ⟨hFree, rfl⟩
        rcases ih.1 hRest with
          ⟨rules, hRules, hAdmits, hAll, rfl⟩
        rw [hKnows] at hAll
        refine
          ⟨rule :: rules, ?_,
            RuleBook.admits_cons.2 ⟨hFree, hAdmits⟩, ?_, rfl⟩
        · rw [List.map_cons, List.map_cons, hRule]
          exact congrArg _ hRules
        · exact List.forall_mem_cons.2
            ⟨Grammar.ruleFault?_eq_none_iff.1 hFault, hAll⟩
      · rintro ⟨rules, hRules, hAdmits, hAll, rfl⟩
        cases rules with
        | nil => cases hRules
        | cons rule rules =>
            rw [List.map_cons, List.map_cons,
              List.cons.injEq] at hRules
            rcases RuleBook.admits_cons.1 hAdmits with
              ⟨hFree, hRest⟩
            rw [List.forall_mem_cons] at hAll
            refine
              ⟨{ g with rules := g.rules.put rule }, ?_, ?_⟩
            · refine bind_eq_ok_iff.2
                ⟨rule, hRules.1, Grammar.addRule_eq_ok_iff.2 ?_⟩
              exact ⟨Grammar.ruleFault?_eq_none_iff.2 hAll.1, _,
                RuleBook.insert_eq_ok_iff.2 ⟨hFree, rfl⟩, rfl⟩
            · exact ih.2
                ⟨rules, hRules.2, hRest,
                  (hKnows rule rules).2 hAll.2, rfl⟩

end GrammarDocument

end GraphRewriting

------------------------------------------------------------
-- Documents
------------------------------------------------------------

namespace GraphRewriting

namespace Grammar

/- The grammar of some terminals and non-terminals. -/
def ofSymbols
    (config : GrammarConfig)
    (terminals nonTerminals : List String) : Grammar :=
  ((ofConfig config).withTerminals terminals).withNonTerminals
    nonTerminals

end Grammar

namespace GrammarDocument

theorem require_eq_ok_iff
    {α : Type}
    {fault : DocumentFault}
    {part : Option α}
    {value : α} :
    require fault part = .ok value ↔ part = some value := by
  cases part <;> simp [require]

/-
  The start of a document: the symbol that it names, or else
  its only graph, or else none.
-/
theorem defineStart_cases
    {document : GrammarDocument}
    {g started : Grammar}
    (h : document.defineStart g = .ok started) :
    (∃ (symbol : String) (labels : Labels),
        document.startSymbol.bind SymbolElement.name =
          some symbol ∧
          g.defineStartSymbol symbol labels = .ok started) ∨
      document.startSymbol.bind SymbolElement.name = none ∧
        ((∃ (element : GraphElement) (graph : Graph),
            document.startGraphs = [element] ∧
              element.toGraph false = .ok graph ∧
              g.defineStartGraph graph = .ok started) ∨
          document.startGraphs = [] ∧ started = g) := by
  unfold defineStart at h
  split at h
  · cases h
  · rename_i element hSymbol hGraphs
    rw [hSymbol, Option.bind_some]
    cases hName : element.name with
    | none =>
        rw [hName] at h
        cases h
        exact Or.inr ⟨rfl, Or.inr ⟨hGraphs, rfl⟩⟩
    | some symbol =>
        rw [hName] at h
        exact Or.inl ⟨symbol, element.attributes, rfl, h⟩
  · rename_i hSymbol hGraphs
    cases h
    exact Or.inr
      ⟨by rw [hSymbol, Option.bind_none], Or.inr ⟨hGraphs, rfl⟩⟩
  · rename_i element hSymbol hGraphs
    rcases bind_eq_ok_iff.1 h with ⟨graph, hRead, hDefine⟩
    exact Or.inr
      ⟨by rw [hSymbol, Option.bind_none],
        Or.inl ⟨element, graph, hGraphs, hRead, hDefine⟩⟩
  · cases h

/-
  A document is accepted exactly if its sections are there, its
  symbols do not clash, and its start and rules are accepted
  one after the other.
-/
theorem toGrammar_eq_ok_iff
    {document : GrammarDocument}
    {config : GrammarConfig}
    {g : Grammar} :
    document.toGrammar config = .ok g ↔
      ∃ (terminals nonTerminals : List String)
          (elements : List RuleElement),
        document.terminals = some terminals ∧
          document.nonTerminals = some nonTerminals ∧
          document.rules = some elements ∧
          (∀ symbol ∈ nonTerminals,
            symbol ∉
              ((Grammar.ofConfig config).withTerminals
                terminals).terminals) ∧
          ∃ started : Grammar,
            document.defineStart
                (.ofSymbols config terminals nonTerminals) =
              .ok started ∧
              elements.foldlM addRule started = .ok g := by
  have hEmpty :
      ∀ symbol : String,
        symbol ∉ (Grammar.ofConfig config).nonTerminals :=
    fun _ => Std.ExtTreeSet.not_mem_empty
  unfold toGrammar
  rw [bind_eq_ok_iff]
  constructor
  · rintro ⟨terminals, hTerminals, hRest⟩
    rcases bind_eq_ok_iff.1 hRest with
      ⟨nonTerminals, hNonTerminals, hRest⟩
    rcases bind_eq_ok_iff.1 hRest with ⟨first, hFirst, hRest⟩
    rcases bind_eq_ok_iff.1 hRest with ⟨second, hSecond, hRest⟩
    rcases bind_eq_ok_iff.1 hRest with
      ⟨started, hStarted, hRest⟩
    rcases bind_eq_ok_iff.1 hRest with
      ⟨elements, hElements, hRules⟩
    rcases Grammar.foldlM_defineTerminal_eq_ok_iff.1 hFirst with
      ⟨-, rfl⟩
    rcases
        Grammar.foldlM_defineNonTerminal_eq_ok_iff.1
          hSecond with
      ⟨hFree, rfl⟩
    exact
      ⟨terminals, nonTerminals, elements,
        require_eq_ok_iff.1 hTerminals,
        require_eq_ok_iff.1 hNonTerminals,
        require_eq_ok_iff.1 hElements, hFree, started, hStarted,
        hRules⟩
  · rintro ⟨terminals, nonTerminals, elements, hTerminals,
      hNonTerminals, hElements, hFree,
      started, hStarted, hRules⟩
    refine ⟨terminals, require_eq_ok_iff.2 hTerminals, ?_⟩
    refine bind_eq_ok_iff.2
      ⟨nonTerminals, require_eq_ok_iff.2 hNonTerminals, ?_⟩
    refine bind_eq_ok_iff.2
      ⟨_,
        Grammar.foldlM_defineTerminal_eq_ok_iff.2
          ⟨fun symbol _ => hEmpty symbol, rfl⟩,
        ?_⟩
    refine bind_eq_ok_iff.2
      ⟨_,
        Grammar.foldlM_defineNonTerminal_eq_ok_iff.2
          ⟨hFree, rfl⟩,
        ?_⟩
    refine bind_eq_ok_iff.2 ⟨started, hStarted, ?_⟩
    exact bind_eq_ok_iff.2
      ⟨elements, require_eq_ok_iff.2 hElements, hRules⟩

/-
  Past symbols that do not clash, a start that is
  refused ends the reading.
-/
theorem toGrammar_eq_error_of_defineStart
    {document : GrammarDocument}
    {config : GrammarConfig}
    {terminals nonTerminals : List String}
    {error : GrammarError}
    (hTerminals : document.terminals = some terminals)
    (hNonTerminals : document.nonTerminals = some nonTerminals)
    (hFree :
      ∀ symbol ∈ nonTerminals,
        symbol ∉
          ((Grammar.ofConfig config).withTerminals
            terminals).terminals)
    (hStart :
      document.defineStart
          (.ofSymbols config terminals nonTerminals) =
        .error error) :
    document.toGrammar config = .error error := by
  have hFirst :
      terminals.foldlM Grammar.defineTerminal
        (Grammar.ofConfig config) =
        .ok
          ((Grammar.ofConfig config).withTerminals terminals) :=
    Grammar.foldlM_defineTerminal_eq_ok_iff.2
      ⟨fun _ _ => Std.ExtTreeSet.not_mem_empty, rfl⟩
  have hSecond :=
    Grammar.foldlM_defineNonTerminal_eq_ok_iff.2 ⟨hFree, rfl⟩
  unfold toGrammar
  rw [bind_of_eq_ok (require_eq_ok_iff.2 hTerminals),
    bind_of_eq_ok (require_eq_ok_iff.2 hNonTerminals),
    bind_of_eq_ok hFirst, bind_of_eq_ok hSecond]
  show
    document.defineStart
          (.ofSymbols config terminals nonTerminals) >>=
        _ = _
  rw [hStart]
  rfl

end GrammarDocument

end GraphRewriting
