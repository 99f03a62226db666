import GraphRewriting.Grammar.Basic
import GraphRewriting.Proofs.Rule.Book
import GraphRewriting.Proofs.Traversal

/-
  Grammars that come from the operations on grammars, and what
  all of them have in common.

  Main declarations:
    * `Grammar.IsConsistent`
    * `Grammar.IsBuilt`
    * `Grammar.IsBuilt.isConsistent`
-/

------------------------------------------------------------
-- Consistent Grammars
------------------------------------------------------------

namespace GraphRewriting

namespace Grammar

/-
  No symbol is both a terminal and a non-terminal, a start
  symbol is a non-terminal with its single node as the start
  graph, and the rules are in order.
-/
structure IsConsistent (g : Grammar) : Prop where
  disjoint :
    ∀ symbol : String,
      symbol ∈ g.terminals → symbol ∉ g.nonTerminals
  start :
    ∀ symbol : String,
      g.startSymbol = some symbol →
        symbol ∈ g.nonTerminals ∧
          ∃ labels : Labels,
            g.startGraph = some (symbolGraph symbol labels)
  indexed : g.rules.IsIndexed

variable {g next : Grammar}

theorem isTerminal_iff
    {symbol : String} :
    g.isTerminal symbol = true ↔ symbol ∈ g.terminals :=
  Std.ExtTreeSet.contains_iff_mem

theorem isNonTerminal_iff
    {symbol : String} :
    g.isNonTerminal symbol = true ↔ symbol ∈ g.nonTerminals :=
  Std.ExtTreeSet.contains_iff_mem

/-
  A grammar without rules and start is consistent. It has
  at most one symbol.
-/
theorem isConsistent_ofConfig
    (config : GrammarConfig) :
    (ofConfig config).IsConsistent where
  disjoint symbol _ h := by
    have hEmpty : symbol ∉ (∅ : Std.ExtTreeSet String) :=
      Std.ExtTreeSet.not_mem_empty
    exact hEmpty h
  start symbol h := by cases h
  indexed := RuleBook.isIndexed_empty

end Grammar

end GraphRewriting

------------------------------------------------------------
-- Symbols
------------------------------------------------------------

namespace GraphRewriting

namespace Grammar

variable {g next : Grammar}
variable {symbol : String}

/-
  A symbol becomes a terminal exactly if it
  is no non-terminal.
-/
theorem defineTerminal_eq_ok_iff :
    g.defineTerminal symbol = .ok next ↔
      symbol ∉ g.nonTerminals ∧
        next =
          { g with
            terminals := g.terminals.insert symbol } := by
  unfold defineTerminal
  rw [← isNonTerminal_iff]
  by_cases h : g.isNonTerminal symbol = true <;>
    simp [h, eq_comm]

/-
  A symbol becomes a non-terminal exactly if
  it is no terminal.
-/
theorem defineNonTerminal_eq_ok_iff :
    g.defineNonTerminal symbol = .ok next ↔
      symbol ∉ g.terminals ∧
        next =
          { g with
            nonTerminals := g.nonTerminals.insert symbol } := by
  unfold defineNonTerminal
  rw [← isTerminal_iff]
  by_cases h : g.isTerminal symbol = true <;> simp [h, eq_comm]

/- Only what is not a non-terminal becomes a terminal. -/
theorem IsConsistent.defineTerminal
    (hg : g.IsConsistent)
    (h : g.defineTerminal symbol = .ok next) :
    next.IsConsistent := by
  rcases defineTerminal_eq_ok_iff.1 h with ⟨hFree, rfl⟩
  refine ⟨?_, hg.start, hg.indexed⟩
  intro other hOther
  rw [Std.ExtTreeSet.mem_insert,
    Std.compare_eq_iff_eq] at hOther
  rcases hOther with rfl | hOther
  · exact hFree
  · exact hg.disjoint other hOther

/- Only what is not a terminal becomes a non-terminal. -/
theorem IsConsistent.defineNonTerminal
    (hg : g.IsConsistent)
    (h : g.defineNonTerminal symbol = .ok next) :
    next.IsConsistent := by
  rcases defineNonTerminal_eq_ok_iff.1 h with ⟨hFree, rfl⟩
  refine ⟨?_, ?_, hg.indexed⟩
  · intro other hOther hMem
    rw [Std.ExtTreeSet.mem_insert,
      Std.compare_eq_iff_eq] at hMem
    rcases hMem with rfl | hMem
    · exact hFree hOther
    · exact hg.disjoint other hOther hMem
  · intro start hStart
    rcases hg.start start hStart with ⟨hMem, hGraph⟩
    exact ⟨Std.ExtTreeSet.mem_insert.2 (Or.inr hMem), hGraph⟩

theorem IsConsistent.undefineStart
    (hg : g.IsConsistent) :
    g.undefineStart.IsConsistent where
  disjoint := hg.disjoint
  start start h := by cases h
  indexed := hg.indexed

/- Dropping a terminal takes a start that uses it along. -/
theorem IsConsistent.undefineTerminal
    (hg : g.IsConsistent)
    (symbol : String) :
    (g.undefineTerminal symbol).IsConsistent := by
  have hErased :
      IsConsistent
        { g with terminals := g.terminals.erase symbol } := by
    refine ⟨?_, hg.start, hg.indexed⟩
    intro other hOther
    rw [Std.ExtTreeSet.mem_erase] at hOther
    exact hg.disjoint other hOther.2
  unfold Grammar.undefineTerminal dropStartUsing
  split
  · split
    · exact hErased.undefineStart
    · exact hErased
  · exact hg

/- A start symbol is dropped together with its non-terminal. -/
theorem IsConsistent.undefineNonTerminal
    (hg : g.IsConsistent)
    (symbol : String) :
    (g.undefineNonTerminal symbol).IsConsistent := by
  have hDisjoint :
      ∀ other : String,
        other ∈ g.terminals →
          other ∉ g.nonTerminals.erase symbol := by
    intro other hOther hMem
    rw [Std.ExtTreeSet.mem_erase] at hMem
    exact hg.disjoint other hOther hMem.2
  unfold Grammar.undefineNonTerminal dropStartUsing
  split
  · split
    · refine ⟨hDisjoint, ?_, hg.indexed⟩
      intro start hStart
      cases hStart
    · rename_i hUses
      refine ⟨hDisjoint, ?_, hg.indexed⟩
      intro start hStart
      rcases hg.start start hStart with ⟨hMem, hGraph⟩
      refine ⟨?_, hGraph⟩
      rw [Std.ExtTreeSet.mem_erase, ne_eq,
        Std.compare_eq_iff_eq]
      refine ⟨?_, hMem⟩
      rintro rfl
      have hStart : g.startSymbol = some symbol := hStart
      unfold startUses at hUses
      simp [hStart] at hUses
  · exact hg

end Grammar

end GraphRewriting

------------------------------------------------------------
-- Starts And Rules
------------------------------------------------------------

namespace GraphRewriting

namespace Grammar

variable {g next : Grammar}

/- A symbol starts a grammar exactly if it is no terminal. -/
theorem defineStartSymbol_eq_ok_iff
    {symbol : String}
    {labels : Labels} :
    g.defineStartSymbol symbol labels = .ok next ↔
      symbol ∉ g.terminals ∧
        next =
          { g with
            nonTerminals := g.nonTerminals.insert symbol
            startSymbol := some symbol
            startGraph :=
              some (symbolGraph symbol labels) } := by
  unfold defineStartSymbol
  rw [bind_eq_ok_iff]
  constructor
  · rintro ⟨defined, hDefine, h⟩
    rcases defineNonTerminal_eq_ok_iff.1 hDefine with
      ⟨hFree, rfl⟩
    cases h
    exact ⟨hFree, rfl⟩
  · rintro ⟨hFree, rfl⟩
    exact ⟨_, defineNonTerminal_eq_ok_iff.2 ⟨hFree, rfl⟩, rfl⟩

/-
  A graph starts a grammar exactly if it is
  over the vocabulary.
-/
theorem defineStartGraph_eq_ok_iff
    {graph : Graph} :
    g.defineStartGraph graph = .ok next ↔
      g.graphFault? graph .startGraph = none ∧
        next =
          { g with
            startSymbol := none,
            startGraph := some graph } := by
  unfold defineStartGraph
  cases g.graphFault? graph .startGraph with
  | some error => simp
  | none => simp [eq_comm]

/- The start symbol and its graph are set together. -/
theorem IsConsistent.defineStartSymbol
    (hg : g.IsConsistent)
    {symbol : String}
    {labels : Labels}
    (h : g.defineStartSymbol symbol labels = .ok next) :
    next.IsConsistent := by
  rcases defineStartSymbol_eq_ok_iff.1 h with ⟨hFree, rfl⟩
  have hDefined :=
    hg.defineNonTerminal
      (defineNonTerminal_eq_ok_iff.2 ⟨hFree, rfl⟩)
  refine ⟨hDefined.disjoint, ?_, hDefined.indexed⟩
  intro start hStart
  cases hStart
  exact ⟨Std.ExtTreeSet.mem_insert_self, labels, rfl⟩

/- A start graph of its own comes without a start symbol. -/
theorem IsConsistent.defineStartGraph
    (hg : g.IsConsistent)
    {graph : Graph}
    (h : g.defineStartGraph graph = .ok next) :
    next.IsConsistent := by
  rcases defineStartGraph_eq_ok_iff.1 h with ⟨-, rfl⟩
  refine ⟨hg.disjoint, ?_, hg.indexed⟩
  intro start hStart
  cases hStart

/-
  A rule is added exactly if it is over the vocabulary
  and its name is free.
-/
theorem addRule_eq_ok_iff
    {rule : Rule} :
    g.addRule rule = .ok next ↔
      g.ruleFault? rule = none ∧
        ∃ rules : RuleBook,
          g.rules.insert rule = .ok rules ∧
            next = { g with rules := rules } := by
  unfold addRule
  cases g.ruleFault? rule with
  | some error => simp
  | none => exact map_eq_ok_iff.trans (and_iff_right rfl).symm

theorem IsConsistent.addRule
    (hg : g.IsConsistent)
    {rule : Rule}
    (h : g.addRule rule = .ok next) :
    next.IsConsistent := by
  rcases addRule_eq_ok_iff.1 h with ⟨-, rules, hRules, rfl⟩
  exact ⟨hg.disjoint, hg.start, hg.indexed.insert hRules⟩

theorem undefineRule_eq_ok_iff
    {name : String} :
    g.undefineRule name = .ok next ↔
      ∃ rules : RuleBook,
        g.rules.remove name = .ok rules ∧
          next = { g with rules := rules } :=
  map_eq_ok_iff

theorem IsConsistent.undefineRule
    (hg : g.IsConsistent)
    {name : String}
    (h : g.undefineRule name = .ok next) :
    next.IsConsistent := by
  rcases undefineRule_eq_ok_iff.1 h with ⟨rules, hRemove, rfl⟩
  exact ⟨hg.disjoint, hg.start, hg.indexed.remove hRemove⟩

end Grammar

end GraphRewriting

------------------------------------------------------------
-- Built Grammars
------------------------------------------------------------

namespace GraphRewriting

namespace Grammar

/- The grammars that the operations make. -/
inductive IsBuilt : Grammar → Prop where
  | ofConfig
      (config : GrammarConfig) :
      IsBuilt (.ofConfig config)
  | defineTerminal
      {g next : Grammar}
      {symbol : String}
      (hg : IsBuilt g)
      (h : g.defineTerminal symbol = .ok next) :
      IsBuilt next
  | defineNonTerminal
      {g next : Grammar}
      {symbol : String}
      (hg : IsBuilt g)
      (h : g.defineNonTerminal symbol = .ok next) :
      IsBuilt next
  | undefineTerminal
      {g : Grammar}
      (hg : IsBuilt g)
      (symbol : String) :
      IsBuilt (g.undefineTerminal symbol)
  | undefineNonTerminal
      {g : Grammar}
      (hg : IsBuilt g)
      (symbol : String) :
      IsBuilt (g.undefineNonTerminal symbol)
  | defineStartSymbol
      {g next : Grammar}
      {symbol : String}
      {labels : Labels}
      (hg : IsBuilt g)
      (h : g.defineStartSymbol symbol labels = .ok next) :
      IsBuilt next
  | defineStartGraph
      {g next : Grammar}
      {graph : Graph}
      (hg : IsBuilt g)
      (h : g.defineStartGraph graph = .ok next) :
      IsBuilt next
  | undefineStart
      {g : Grammar}
      (hg : IsBuilt g) :
      IsBuilt g.undefineStart
  | addRule
      {g next : Grammar}
      {rule : Rule}
      (hg : IsBuilt g)
      (h : g.addRule rule = .ok next) :
      IsBuilt next
  | undefineRule
      {g next : Grammar}
      {name : String}
      (hg : IsBuilt g)
      (h : g.undefineRule name = .ok next) :
      IsBuilt next

/- What the operations make is consistent. -/
theorem IsBuilt.isConsistent
    {g : Grammar}
    (hg : g.IsBuilt) :
    g.IsConsistent := by
  induction hg with
  | ofConfig config => exact isConsistent_ofConfig config
  | defineTerminal _ h ih => exact ih.defineTerminal h
  | defineNonTerminal _ h ih => exact ih.defineNonTerminal h
  | undefineTerminal _ symbol ih =>
      exact ih.undefineTerminal symbol
  | undefineNonTerminal _ symbol ih =>
      exact ih.undefineNonTerminal symbol
  | defineStartSymbol _ h ih => exact ih.defineStartSymbol h
  | defineStartGraph _ h ih => exact ih.defineStartGraph h
  | undefineStart _ ih => exact ih.undefineStart
  | addRule _ h ih => exact ih.addRule h
  | undefineRule _ h ih => exact ih.undefineRule h

end Grammar

end GraphRewriting
