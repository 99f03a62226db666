import GraphRewriting.Proofs.Document.Reload

/-
  The round trip of grammars through documents.

  Main declarations:
    * `GrammarDocument.toGrammar_of_isOf`
    * `Grammar.toGrammar_ofGrammar`
-/

------------------------------------------------------------
-- Symbols
------------------------------------------------------------

namespace GraphRewriting

namespace Grammar

variable {config : GrammarConfig}
variable {terminals nonTerminals : List String}

/-
  The terminals are those listed, and the empty one
  where it is implied.
-/
theorem mem_terminals_ofSymbols
    {symbol : String} :
    symbol ∈
      (ofSymbols config terminals nonTerminals).terminals ↔
      (config.emptySymbolIsTerminal = true ∧ symbol = "") ∨
        symbol ∈ terminals := by
  show
    symbol ∈ (ofConfig config).terminals.insertMany terminals ↔
      _
  rw [Std.ExtTreeSet.mem_insertMany_list, List.contains_iff_mem]
  refine or_congr_left ?_
  unfold ofConfig
  cases config.emptySymbolIsTerminal with
  | true =>
      dsimp only
      rw [if_pos rfl, Std.ExtTreeSet.mem_insert,
        Std.compare_eq_iff_eq,
        or_iff_left Std.ExtTreeSet.not_mem_empty,
        and_iff_right rfl, eq_comm]
  | false =>
      have hEmpty : symbol ∉ (∅ : Std.ExtTreeSet String) :=
        Std.ExtTreeSet.not_mem_empty
      simp [hEmpty]

/- The non-terminals are those listed. -/
theorem mem_nonTerminals_ofSymbols
    {symbol : String} :
    symbol ∈
      (ofSymbols config terminals nonTerminals).nonTerminals ↔
      symbol ∈ nonTerminals := by
  show
    symbol ∈
        (∅ : Std.ExtTreeSet String).insertMany nonTerminals ↔
      _
  rw [Std.ExtTreeSet.mem_insertMany_list, List.contains_iff_mem,
    or_iff_right Std.ExtTreeSet.not_mem_empty]

/- All terminals are listed except the empty one. -/
theorem mem_listedTerminals
    {g : Grammar}
    {symbol : String} :
    symbol ∈ GrammarDocument.listedTerminals g ↔
      symbol ∈ g.terminals ∧ symbol ≠ "" := by
  unfold GrammarDocument.listedTerminals
  rw [List.mem_filter, Std.ExtTreeSet.mem_toList,
    decide_eq_true_eq]

/- The symbols that a document lists give the symbols back. -/
theorem symbols_ofSymbols_listed
    {g : Grammar}
    (hEmpty :
      "" ∈ g.terminals ↔
        g.config.emptySymbolIsTerminal = true) :
    (ofSymbols g.config (GrammarDocument.listedTerminals g)
          g.nonTerminals.toList).terminals = g.terminals ∧
      (ofSymbols g.config (GrammarDocument.listedTerminals g)
          g.nonTerminals.toList).nonTerminals =
            g.nonTerminals := by
  constructor
  · apply Std.ExtTreeSet.ext_mem
    intro symbol
    rw [mem_terminals_ofSymbols, mem_listedTerminals, ← hEmpty]
    constructor
    · rintro (⟨hMem, rfl⟩ | ⟨hMem, -⟩)
      · exact hMem
      · exact hMem
    · intro hMem
      by_cases hSymbol : symbol = ""
      · exact Or.inl ⟨hSymbol ▸ hMem, hSymbol⟩
      · exact Or.inr ⟨hMem, hSymbol⟩
  · apply Std.ExtTreeSet.ext_mem
    intro symbol
    rw [mem_nonTerminals_ofSymbols, Std.ExtTreeSet.mem_toList]

/-
  No symbol that a document lists as a
  non-terminal is a terminal.
-/
theorem IsConsistent.notMem_listedTerminals
    {g : Grammar}
    (hg : g.IsConsistent)
    (hEmpty :
      "" ∈ g.terminals ↔
        g.config.emptySymbolIsTerminal = true) :
    ∀ symbol ∈ g.nonTerminals.toList,
      symbol ∉
        ((ofConfig g.config).withTerminals
          (GrammarDocument.listedTerminals g)).terminals := by
  intro symbol hSymbol hTerminal
  have hTerminal : symbol ∈ g.terminals :=
    (symbols_ofSymbols_listed hEmpty).1 ▸ hTerminal
  exact hg.disjoint symbol hTerminal
    (Std.ExtTreeSet.mem_toList.1 hSymbol)

end Grammar

end GraphRewriting

------------------------------------------------------------
-- Rules
------------------------------------------------------------

namespace GraphRewriting

/-
  Rules come back from their elements when their
  kinds are accepted.
-/
theorem exists_map_toRule_eq
    {kinds : List RuleKind}
    {rules : List Rule}
    {elements : List RuleElement}
    (h :
      List.Forall₂ (fun rule element => element.IsOf rule) rules
        elements)
    (hKinds : ∀ rule ∈ rules, rule.kind ∈ kinds) :
    ∃ others : List Rule,
      elements.map (RuleElement.toRule · kinds) =
        others.map .ok ∧
        others.map Rule.plain = rules.map Rule.plain := by
  induction h with
  | nil => exact ⟨[], rfl, rfl⟩
  | cons head _ ih =>
      rw [List.forall_mem_cons] at hKinds
      rcases head.toRule hKinds.1 with ⟨other, hOther, hEquiv⟩
      rcases ih hKinds.2 with ⟨others, hOthers, hPlain⟩
      refine ⟨other :: others, ?_, ?_⟩
      · rw [List.map_cons, List.map_cons, hOther, hOthers]
      · have hPlainOther : other.plain = _ := hEquiv
        rw [List.map_cons, List.map_cons, hPlainOther, hPlain]

/-
  Rules that differ in document ids at most can be kept
  in the same order.
-/
theorem RuleBook.IsIndexed.admits_of_plain
    {book : RuleBook}
    (h : book.IsIndexed)
    {rules : List Rule}
    (hPlain :
      rules.map Rule.plain = book.toList.map Rule.plain) :
    (∅ : RuleBook).Admits rules where
  nodup := by
    have hMap := congrArg (List.map Rule.name) hPlain
    have hComp : Rule.name ∘ Rule.plain = Rule.name :=
      funext Rule.name_plain
    rw [List.map_map, List.map_map, hComp] at hMap
    rw [hMap]
    exact h.names_nodup
  free _ _ := Std.ExtTreeMap.getElem?_empty

/-
  Rules that are plainly those of a book make a book that
  is plainly the same.
-/
theorem RuleBook.IsIndexed.plain_putAll
    {book : RuleBook}
    (h : book.IsIndexed)
    {rules : List Rule}
    (hPlain :
      rules.map Rule.plain = book.toList.map Rule.plain) :
    ((∅ : RuleBook).putAll rules).plain = book.plain := by
  have hAdmits := h.admits_of_plain hPlain
  have hMap := hAdmits.perm_toList_putAll.map Rule.plain
  rw [hPlain] at hMap
  apply RuleBook.equiv_of_mem
    (RuleBook.isIndexed_empty.putAll hAdmits) h
  · exact fun rule hRule => hMap.mem_iff.1 hRule
  · exact fun rule hRule => hMap.mem_iff.2 hRule

end GraphRewriting

------------------------------------------------------------
-- Reading Grammars Back
------------------------------------------------------------

namespace GraphRewriting

namespace GrammarDocument

variable {g : Grammar}
variable {document : GrammarDocument}

/-
  A document of a grammar gives the grammar back, as the empty
  symbol, which it does not list, is a terminal when it was.
-/
theorem toGrammar_of_isOf
    (hg : g.IsConsistent)
    (hEmpty :
      "" ∈ g.terminals ↔ g.config.emptySymbolIsTerminal = true)
    (hDescribable : g.IsDescribable)
    (hOf : document.IsOf g) :
    ∃ other : Grammar,
      document.toGrammar g.config = .ok other ∧ other ≈ g := by
  rcases Grammar.symbols_ofSymbols_listed hEmpty with
    ⟨hTerminals, hNonTerminals⟩
  rcases
      hOf.start
        (.ofSymbols g.config (listedTerminals g)
          g.nonTerminals.toList)
        rfl hTerminals hNonTerminals rfl rfl with
    ⟨graph, hStart, hGraph⟩
  rcases hOf.rules with ⟨elements, hElements, hForall⟩
  rcases
      exists_map_toRule_eq hForall
        hDescribable.rulesAccepted with
    ⟨rules, hRules, hPlain⟩
  have hFree := hg.notMem_listedTerminals hEmpty
  have hKnown : ∀ rule ∈ rules, g.KnowsRule rule := by
    intro rule hRule
    have hMem : rule.plain ∈ rules.map Rule.plain :=
      List.mem_map_of_mem hRule
    rw [hPlain] at hMem
    rcases List.mem_map.1 hMem with ⟨original, hOriginal, hSame⟩
    exact (hDescribable.rulesKnown original hOriginal).of_equiv
      hSame.symm
  refine
    ⟨_,
      toGrammar_eq_ok_iff.2
        ⟨_, _, elements, hOf.terminals, hOf.nonTerminals,
          hElements, hFree, _, hStart,
          foldlM_addRule_eq_ok_iff.2
            ⟨rules, hRules, hg.indexed.admits_of_plain hPlain,
              ?_, rfl⟩⟩,
      ?_⟩
  · intro rule hRule
    refine
      (Grammar.knowsRule_congr ?_ ?_ ?_).2 (hKnown rule hRule)
    · rfl
    · exact hTerminals
    · exact hNonTerminals
  · show Grammar.plain _ = Grammar.plain _
    unfold Grammar.plain Grammar.withRules Grammar.withStart
    rw [Grammar.mk.injEq]
    exact
      ⟨rfl, hTerminals, hNonTerminals, rfl, hGraph,
        hg.indexed.plain_putAll hPlain⟩

end GrammarDocument

namespace Grammar

variable {g : Grammar}

/-
  A start graph with an edge that has an id and
  one that has none.
-/
def meadowStart : Graph :=
  let root : Node :=
    ⟨NodeId.base, (Labels.ofSymbol "S").insert "id" "root"⟩
  let nodes :=
    (∅ : Graph).addNodes [root, .ofSymbol (.num 7) "a"]
  let numbered : Edge :=
    .withDocumentId (.ofLabels (.num 7) NodeId.base ∅) "e1"
  (nodes.putEdge numbered).putEdge
    (.ofLabels NodeId.base (.num 7) ∅)

/-
  The rule that turns a node into a terminal with a
  new node behind it.
-/
def sprouting : ContextFreeRule :=
  let nodes :=
    (∅ : Graph).addNodes
      [.ofSymbol NodeId.base "a", .ofSymbol (.name "bud") "S"]
  ⟨"sprout", Labels.ofSymbol "S",
    nodes.putEdge (.ofLabels NodeId.base (.name "bud") ∅),
    Labels.nameKey_mem_ofSymbol "S", by decide +kernel⟩

/- A node with an edge to a wildcard. -/
def stalk (symbol : String) : ExoticGraph :=
  let nodes :=
    (ExoticGraph.empty .wildcard).addNode
      (.ofSymbol (.name "stem") symbol)
  let ends := nodes.addExotic ⟨.name "leaf", ∅⟩
  ends.withEdges
    (ends.graph.edges.insert
      (.ofLabels (.name "stem") (.name "leaf") ∅))

/- The rule that ends the growth of a node. -/
def ripening : ExoticRule :=
  ⟨"ripen", stalk "S", stalk "a", rfl, by decide +kernel⟩

def meadowSymbols : Grammar :=
  { ofConfig .standard with
    terminals := (ofConfig .standard).terminals.insert "a"
    nonTerminals := (∅ : Std.ExtTreeSet String).insert "S" }

def meadow : Grammar :=
  { meadowSymbols with
    startGraph := some meadowStart
    rules :=
      ((∅ : RuleBook).put (.node sprouting)).put
        (.region ripening) }

end Grammar

end GraphRewriting
