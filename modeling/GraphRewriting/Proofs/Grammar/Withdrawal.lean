import GraphRewriting.Derivation
import GraphRewriting.Proofs.Grammar.Edits
import GraphRewriting.Proofs.Rewriting.Symbols

/-
  Symbols that are taken out of the vocabulary while there are
  rules that make use of them. The rules stay, unlike the start:
  a rule has a fault exactly if a symbol of it was withdrawn
  while it was there and has not been defined again.

  Main declarations:
    * `Rule.checkedSymbols`
    * `Grammar.knowsRule_iff`
    * `Edit.Withdraws`
    * `Grammar.WithdrawnUnder`
    * `Grammar.fault_iff_withdrawn`
-/

------------------------------------------------------------
-- Checked Symbols
------------------------------------------------------------

namespace GraphRewriting

/-
  The symbols of a graph that are looked up in the vocabulary.
-/
def Graph.checkedSymbols
    (graph : Graph)
    (config : GrammarConfig) : List String :=
  graph.nodes.nodes.map Node.symbol ++
    if config.checkEdgeLabels then
      graph.edges.toList.map Edge.symbol
    else
      []

/- The symbols of both sides of a rule that are looked up. -/
def Rule.checkedSymbols
    (rule : Rule)
    (config : GrammarConfig) : List String :=
  match rule with
  | .node r => r.symbol :: r.rhs.checkedSymbols config
  | .region r =>
      r.lhs.graph.checkedSymbols config ++
        r.rhs.graph.checkedSymbols config

namespace Grammar

variable {g : Grammar}

/-
  A graph is known if all symbols that are
  looked up are found.
-/
theorem knows_iff
    {graph : Graph} :
    g.Knows graph ↔
      ∀ symbol ∈ graph.checkedSymbols g.config,
        g.isVocabulary symbol = true := by
  have hFault :
      g.graphFault? graph .graph = none ↔ g.Knows graph :=
    graphFault?_eq_none_iff
  rw [← hFault, graphFault?, elementFault?_eq_none_iff]
  unfold Graph.checkedSymbols
  rw [List.forall_mem_append, List.forall_mem_map]
  apply and_congr_right'
  cases g.config.checkEdgeLabels with
  | true => simp
  | false => simp

/- A rule is known if all symbols of its sides are found. -/
theorem knowsRule_iff
    {rule : Rule} :
    g.KnowsRule rule ↔
      ∀ symbol ∈ rule.checkedSymbols g.config,
        g.isVocabulary symbol = true := by
  unfold KnowsRule Rule.checkedSymbols
  cases rule with
  | node r =>
      dsimp only
      rw [List.forall_mem_cons, knows_iff]
  | region r =>
      dsimp only
      rw [List.forall_mem_append, knows_iff, knows_iff]

end Grammar

end GraphRewriting

------------------------------------------------------------
-- Effects Of An Edit
------------------------------------------------------------

namespace GraphRewriting

/- The edit takes a symbol out of the vocabulary. -/
def Edit.Withdraws
    (edit : Edit)
    (g : Grammar)
    (symbol : String) : Prop :=
  (edit = .undefineTerminal symbol ∧
    g.isTerminal symbol = true) ∨
    (edit = .undefineNonTerminal symbol ∧
      g.isNonTerminal symbol = true)

namespace Grammar

variable {g next : Grammar}
variable {edit : Edit}

/- Dropping a start changes nothing but the start. -/
theorem dropStartUsing_eq
    (g : Grammar)
    (symbol : String) :
    ∃ (startSymbol : Option String) (startGraph : Option Graph),
      g.dropStartUsing symbol =
        { g with
          startSymbol := startSymbol,
          startGraph := startGraph } := by
  unfold dropStartUsing
  split
  · exact ⟨none, none, rfl⟩
  · exact ⟨g.startSymbol, g.startGraph, rfl⟩

/- Along with a terminal, nothing but the start can go. -/
theorem undefineTerminal_eq
    (g : Grammar)
    (symbol : String) :
    ∃ (startSymbol : Option String) (startGraph : Option Graph),
      g.undefineTerminal symbol =
        { g with
          terminals := g.terminals.erase symbol
          startSymbol := startSymbol
          startGraph := startGraph } := by
  unfold Grammar.undefineTerminal
  split
  · exact dropStartUsing_eq _ symbol
  · rename_i hNone
    rw [isTerminal_iff] at hNone
    rw [erase_eq_self_of_notMem hNone]
    exact ⟨g.startSymbol, g.startGraph, rfl⟩

/-
  Undefining a non-terminal changes the vocabulary and
  the start at most.
-/
theorem undefineNonTerminal_eq
    (g : Grammar)
    (symbol : String) :
    ∃ (startSymbol : Option String) (startGraph : Option Graph),
      g.undefineNonTerminal symbol =
        { g with
          nonTerminals := g.nonTerminals.erase symbol
          startSymbol := startSymbol
          startGraph := startGraph } := by
  unfold Grammar.undefineNonTerminal
  split
  · exact dropStartUsing_eq _ symbol
  · rename_i hNone
    rw [isNonTerminal_iff] at hNone
    rw [erase_eq_self_of_notMem hNone]
    exact ⟨g.startSymbol, g.startGraph, rfl⟩

/-
  The options stay, and the rules unless the
  edit is about them.
-/
theorem Makes.frame
    (h : g.Makes next edit) :
    next.config = g.config ∧
      (next.rules = g.rules ∨
        (∃ rule : Rule, edit = .addRule rule) ∨
            ∃ name : String, edit = .undefineRule name) := by
  cases edit with
  | defineTerminal symbol =>
      rcases defineTerminal_eq_ok_iff.1 h with ⟨-, rfl⟩
      exact ⟨rfl, Or.inl rfl⟩
  | defineNonTerminal symbol =>
      rcases defineNonTerminal_eq_ok_iff.1 h with ⟨-, rfl⟩
      exact ⟨rfl, Or.inl rfl⟩
  | undefineTerminal symbol =>
      rcases undefineTerminal_eq g symbol with
        ⟨startSymbol, startGraph, hEq⟩
      rcases hEq.symm.trans h with rfl
      exact ⟨rfl, Or.inl rfl⟩
  | undefineNonTerminal symbol =>
      rcases undefineNonTerminal_eq g symbol with
        ⟨startSymbol, startGraph, hEq⟩
      rcases hEq.symm.trans h with rfl
      exact ⟨rfl, Or.inl rfl⟩
  | defineStartSymbol symbol labels =>
      rcases defineStartSymbol_eq_ok_iff.1 h with ⟨-, rfl⟩
      exact ⟨rfl, Or.inl rfl⟩
  | defineStartGraph graph =>
      rcases defineStartGraph_eq_ok_iff.1 h with ⟨-, rfl⟩
      exact ⟨rfl, Or.inl rfl⟩
  | undefineStart =>
      rcases h with rfl
      exact ⟨rfl, Or.inl rfl⟩
  | addRule rule =>
      rcases addRule_eq_ok_iff.1 h with ⟨-, rules, -, rfl⟩
      exact ⟨rfl, Or.inr (Or.inl ⟨rule, rfl⟩)⟩
  | undefineRule name =>
      rcases undefineRule_eq_ok_iff.1 h with ⟨rules, -, rfl⟩
      exact ⟨rfl, Or.inr (Or.inr ⟨name, rfl⟩)⟩

/-
  A symbol leaves the vocabulary in no other way
  than to be undefined.
-/
theorem Makes.isVocabulary
    (h : g.Makes next edit)
    {symbol : String}
    (hSymbol : g.isVocabulary symbol = true) :
    next.isVocabulary symbol = true ∨
      edit.Withdraws g symbol := by
  rw [isVocabulary_iff] at hSymbol ⊢
  cases edit with
  | defineTerminal other =>
      rcases defineTerminal_eq_ok_iff.1 h with ⟨-, rfl⟩
      exact Or.inl
        (hSymbol.imp_left fun hMem =>
          Std.ExtTreeSet.mem_insert.2 (Or.inr hMem))
  | defineNonTerminal other =>
      rcases defineNonTerminal_eq_ok_iff.1 h with ⟨-, rfl⟩
      exact Or.inl
        (hSymbol.imp_right fun hMem =>
          Std.ExtTreeSet.mem_insert.2 (Or.inr hMem))
  | undefineTerminal other =>
      rcases undefineTerminal_eq g other with
        ⟨startSymbol, startGraph, hEq⟩
      rcases hEq.symm.trans h with rfl
      rcases hSymbol with hTerminal | hNonTerminal
      · by_cases hOther : symbol = other
        · subst hOther
          exact
            Or.inr (Or.inl ⟨rfl, isTerminal_iff.2 hTerminal⟩)
        · exact
            Or.inl (Or.inl (mem_erase_of_ne hOther hTerminal))
      · exact Or.inl (Or.inr hNonTerminal)
  | undefineNonTerminal other =>
      rcases undefineNonTerminal_eq g other with
        ⟨startSymbol, startGraph, hEq⟩
      rcases hEq.symm.trans h with rfl
      rcases hSymbol with hTerminal | hNonTerminal
      · exact Or.inl (Or.inl hTerminal)
      · by_cases hOther : symbol = other
        · subst hOther
          exact Or.inr
            (Or.inr ⟨rfl, isNonTerminal_iff.2 hNonTerminal⟩)
        · exact Or.inl
            (Or.inr (mem_erase_of_ne hOther hNonTerminal))
  | defineStartSymbol other labels =>
      rcases defineStartSymbol_eq_ok_iff.1 h with ⟨-, rfl⟩
      exact Or.inl
        (hSymbol.imp_right fun hMem =>
          Std.ExtTreeSet.mem_insert.2 (Or.inr hMem))
  | defineStartGraph graph =>
      rcases defineStartGraph_eq_ok_iff.1 h with ⟨-, rfl⟩
      exact Or.inl hSymbol
  | undefineStart =>
      rcases h with rfl
      exact Or.inl hSymbol
  | addRule rule =>
      rcases addRule_eq_ok_iff.1 h with ⟨-, rules, -, rfl⟩
      exact Or.inl hSymbol
  | undefineRule name =>
      rcases undefineRule_eq_ok_iff.1 h with ⟨rules, -, rfl⟩
      exact Or.inl hSymbol

/- A rule that was not there before has no fault. -/
theorem Makes.mem_rules
    (h : g.Makes next edit)
    (hBuilt : g.IsBuilt)
    {rule : Rule}
    (hRule : rule ∈ next.rules.toList) :
    rule ∈ g.rules.toList ∨ next.KnowsRule rule := by
  have hIndexed := hBuilt.isConsistent.indexed
  rcases h.frame with ⟨-, hSame | ⟨added, rfl⟩ | ⟨name, rfl⟩⟩
  · rw [hSame] at hRule
    exact Or.inl hRule
  · rcases addRule_eq_ok_iff.1 h with
      ⟨hFault, rules, hInsert, rfl⟩
    rcases RuleBook.insert_eq_ok_iff.1 hInsert with ⟨hFree, rfl⟩
    rw [(hIndexed.insert hInsert).mem_toList_iff,
      RuleBook.getElem?_rules_put] at hRule
    split at hRule
    · cases hRule
      exact Or.inr
        ((knowsRule_congr rfl rfl rfl).2
          (ruleFault?_eq_none_iff.1 hFault))
    · exact Or.inl (hIndexed.mem_toList_iff.2 hRule)
  · rcases undefineRule_eq_ok_iff.1 h with ⟨rules, hRemove, rfl⟩
    exact Or.inl (hIndexed.mem_toList_of_remove hRemove hRule)

end Grammar

end GraphRewriting

------------------------------------------------------------
-- Withdrawn Symbols
------------------------------------------------------------

namespace GraphRewriting

namespace Grammar

/-
  Some edit withdraws a symbol while there is a rule, and the
  symbol is not in the vocabulary again from then on.
-/
def WithdrawnUnder
    (g : Grammar)
    (edits : List Edit)
    (rule : Rule)
    (symbol : String) : Prop :=
  ∃ (before : List Edit) (edit : Edit) (later : List Edit),
    edits = before ++ edit :: later ∧
      rule ∈ (g.afterEdits before).rules.toList ∧
        edit.Withdraws (g.afterEdits before) symbol ∧
          ∀ part : List Edit,
            part <+: later →
              (g.afterEdits
                    (before ++ edit :: part)).isVocabulary
                  symbol = false

variable {g : Grammar}
variable {edits : List Edit}
variable {rule : Rule}
variable {symbol : String}

/- No edit changes the checks that are made. -/
theorem config_perform
    (g : Grammar)
    (edit : Edit) :
    (g.perform edit).1.config = g.config := by
  cases hEdit : g.edit edit with
  | ok made =>
      rcases made with ⟨answer, next⟩
      rw [perform_of_ok hEdit]
      exact (makes_of_edit hEdit).frame.1
  | error error => rw [perform_of_error hEdit]

/- The checks stay the same over all edits. -/
theorem config_afterEdits
    (g : Grammar)
    (edits : List Edit) :
    (g.afterEdits edits).config = g.config := by
  induction edits generalizing g with
  | nil => rfl
  | cons edit edits ih =>
      rw [afterEdits_cons, ih, config_perform]

/-
  One more edit: a rule with an unknown symbol was there before,
  and if the symbol was known then, this edit withdraws it.
-/
theorem missing_perform
    (hBuilt : g.IsBuilt)
    {edit : Edit}
    (hRule : rule ∈ (g.perform edit).1.rules.toList)
    (hChecked : symbol ∈ rule.checkedSymbols g.config)
    (hMissing :
      (g.perform edit).1.isVocabulary symbol = false) :
    rule ∈ g.rules.toList ∧
      (g.isVocabulary symbol = true →
        edit.Withdraws g symbol) := by
  cases hEdit : g.edit edit with
  | error error =>
      rw [perform_of_error hEdit] at hRule hMissing
      refine ⟨hRule, ?_⟩
      intro hKnown
      rw [hMissing] at hKnown
      cases hKnown
  | ok made =>
      rcases made with ⟨answer, next⟩
      have hMakes := makes_of_edit hEdit
      rw [perform_of_ok hEdit] at hRule hMissing
      constructor
      · refine (hMakes.mem_rules hBuilt hRule).resolve_right ?_
        intro hKnown
        have hSymbol :=
          knowsRule_iff.1 hKnown symbol
            (hMakes.frame.1.symm ▸ hChecked)
        rw [hMissing] at hSymbol
        cases hSymbol
      · intro hKnown
        refine (hMakes.isVocabulary hKnown).resolve_left ?_
        rw [hMissing]
        exact Bool.false_ne_true

/- What is withdrawn stays so while the symbol is missing. -/
private theorem WithdrawnUnder.concat
    (h : g.WithdrawnUnder edits rule symbol)
    {edit : Edit}
    (hMissing :
      (g.afterEdits (edits ++ [edit])).isVocabulary symbol =
        false) :
    g.WithdrawnUnder (edits ++ [edit]) rule symbol := by
  rcases h with
    ⟨before, withdrawal, later, rfl, hRule, hWithdraws, hLater⟩
  refine
    ⟨before, withdrawal, later ++ [edit], by simp, hRule,
      hWithdraws, ?_⟩
  intro part hPart
  rcases List.prefix_concat_iff.1 hPart with rfl | hPart
  · simpa using hMissing
  · exact hLater part hPart

/-
  A rule is found with an unknown symbol exactly if the symbol
  was withdrawn from under it.
-/
theorem isVocabulary_eq_false_iff_withdrawn
    (config : GrammarConfig)
    (hRule :
      rule ∈ ((ofConfig config).afterEdits edits).rules.toList)
    (hChecked : symbol ∈ rule.checkedSymbols config) :
    ((ofConfig config).afterEdits edits).isVocabulary symbol =
      false ↔
      (ofConfig config).WithdrawnUnder edits rule symbol := by
  constructor
  · intro hMissing
    induction edits using List.reverseRecOn with
    | nil => exact absurd hRule (notMem_values_empty rule)
    | append_singleton edits edit ih =>
        have hStep :
            (ofConfig config).afterEdits (edits ++ [edit]) =
            (((ofConfig config).afterEdits edits).perform
              edit).1 := by
          rw [afterEdits_append]
          rfl
        have hBuilt :=
          (IsBuilt.ofConfig config).afterEdits edits
        have hConfig :
            ((ofConfig config).afterEdits edits).config =
              config :=
          config_afterEdits _ edits
        have hLast := hMissing
        rw [hStep] at hRule hLast
        rcases
            missing_perform hBuilt hRule
              (hConfig.symm ▸ hChecked) hLast with
          ⟨hBefore, hWithdraws⟩
        -- Either the symbol was missing before the last edit,
        -- or that edit withdraws it.
        cases hKnown :
          ((ofConfig config).afterEdits edits).isVocabulary
            symbol with
        | false => exact (ih hBefore hKnown).concat hMissing
        | true =>
            refine
              ⟨edits, edit, [], rfl, hBefore, hWithdraws hKnown,
                ?_⟩
            intro part hPart
            rw [List.prefix_nil.1 hPart]
            exact hMissing
  · rintro ⟨before, edit, later, rfl, -, -, hLater⟩
    exact hLater later List.prefix_rfl

end Grammar

end GraphRewriting

------------------------------------------------------------
-- Rules Without Their Symbols
------------------------------------------------------------

namespace GraphRewriting

namespace Grammar

/-
  A rule that is there uses known symbols alone exactly if none
  of them was withdrawn from under it. It then leads from graphs
  over the vocabulary to no others, wherever it is applied and
  however that ends.
-/
theorem fault_iff_withdrawn
    {config : GrammarConfig}
    {edits : List Edit}
    {rule : Rule}
    (hRule :
      rule ∈
        ((ofConfig config).afterEdits edits).rules.toList) :
    let g := (ofConfig config).afterEdits edits
    (g.ruleFault? rule = none ↔
        ∀ symbol ∈ rule.checkedSymbols config,
          ¬ (ofConfig config).WithdrawnUnder edits rule
            symbol) ∧
      (g.ruleFault? rule = none →
        ∀ {σ : Type} (source : IdSource σ) (found : RuleMatch)
            (graph : Graph) (supply : σ),
          g.isSymbolGraph graph = true →
            g.isSymbolGraph
              (rule.apply source found graph supply).graph =
                true) := by
  intro g
  have hConfig : g.config = config := config_afterEdits _ edits
  constructor
  · rw [ruleFault?_eq_none_iff, knowsRule_iff, hConfig]
    apply forall₂_congr
    intro symbol hSymbol
    rw [← isVocabulary_eq_false_iff_withdrawn config hRule
        hSymbol,
      Bool.not_eq_false]
  · intro hFault σ source found graph supply hGraph
    unfold isSymbolGraph at hGraph ⊢
    rw [Option.isNone_iff_eq_none,
      graphFault?_eq_none_iff] at hGraph ⊢
    exact hGraph.apply (ruleFault?_eq_none_iff.1 hFault) source
      found supply

/-
  The leaf of the rule is undefined after the rule was added,
  and later defined again.
-/
def wiltingEdits : List Edit :=
  [.defineTerminal "leaf", .defineNonTerminal "shoot",
    .addRule leafing,
    .undefineTerminal "leaf"]

def regrowingEdits : List Edit :=
  wiltingEdits ++ [.defineTerminal "leaf"]

def wilted : Grammar :=
  (ofConfig .standard).afterEdits wiltingEdits

def regrown : Grammar :=
  (ofConfig .standard).afterEdits regrowingEdits

/- What the rule makes of a single shoot. -/
def leafed : Graph :=
  (leafing.apply Derivation.drawFromPool (.node .base)
    (symbolGraph "shoot" ∅)
    (IdPool.ofChunkSize 1, [])).graph

/-
  A symbol is withdrawn from under the rule, until
  it is defined again.
-/
theorem fault_iff_withdrawn_wilting :
    (∃ symbol ∈ leafing.checkedSymbols .standard,
        (ofConfig .standard).WithdrawnUnder wiltingEdits leafing
          symbol) ∧
      (∀ symbol ∈ leafing.checkedSymbols .standard,
        ¬ (ofConfig .standard).WithdrawnUnder regrowingEdits
          leafing symbol) ∧
        regrown.isSymbolGraph leafed = true := by
  have hWilted : leafing ∈ wilted.rules.toList := by
    decide +kernel
  have hRegrown : leafing ∈ regrown.rules.toList := by
    decide +kernel
  have hFault : wilted.ruleFault? leafing ≠ none := by
    decide +kernel
  have hSound : regrown.ruleFault? leafing = none := by
    decide +kernel
  have hGraph :
      regrown.isSymbolGraph (symbolGraph "shoot" ∅) = true := by
    decide +kernel
  rcases fault_iff_withdrawn hRegrown with ⟨hIff, hKept⟩
  refine ⟨?_, hIff.1 hSound, hKept hSound _ _ _ _ hGraph⟩
  by_contra hNone
  push Not at hNone
  exact hFault ((fault_iff_withdrawn hWilted).1.2 hNone)

/-
  The rule is still there when its leaf is gone, and puts out an
  unknown symbol in a graph over the vocabulary.
-/
theorem unknown_symbol_of_wilting :
    leafing ∈ wilted.rules.toList ∧
      wilted.ruleFault? leafing =
          some (.undefinedSymbol "leaf"
            (.element (.node .base) (.rule "leaf"))) ∧
        wilted.isSymbolGraph (symbolGraph "shoot" ∅) = true ∧
          wilted.isSymbolGraph leafed = false := by
  decide +kernel

end Grammar

end GraphRewriting
