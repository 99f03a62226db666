import GraphRewriting.Grammar.Config
import GraphRewriting.Rule.RuleBook

/-
  This file defines graph grammars: two disjoint sets of
  symbols, a start graph and production rules.

  A start graph and the sides of a rule are checked against the
  symbols when they are defined. A grammar owns no working
  graph.

  Key definitions include:
    * `Grammar`
    * `Grammar.ofConfig`
    * `Grammar.defineTerminal`
    * `Grammar.defineNonTerminal`
    * `Grammar.undefineTerminal`
    * `Grammar.undefineNonTerminal`
    * `Grammar.defineStartSymbol`
    * `Grammar.defineStartGraph`
    * `Grammar.graphFault?`
    * `Grammar.addRule`
    * `Grammar.undefineRule`
    * `Grammar.applicableRules`
    * `Grammar.applyRule`
-/

namespace GraphRewriting

------------------------------------------------------------
-- Grammars
------------------------------------------------------------

/-
  A grammar. The start symbol is set if the start
  graph was made from it.
-/
structure Grammar where
  config : GrammarConfig
  terminals : Std.ExtTreeSet String
  nonTerminals : Std.ExtTreeSet String
  startSymbol : Option String
  startGraph : Option Graph
  rules : RuleBook
  deriving DecidableEq

namespace Grammar

/- The grammar without start and rules, under some options. -/
def ofConfig (config : GrammarConfig) : Grammar where
  config := config
  terminals :=
    if config.emptySymbolIsTerminal then
      (∅ : Std.ExtTreeSet String).insert ""
    else
      ∅
  nonTerminals := ∅
  startSymbol := none
  startGraph := none
  rules := ∅

/- The same grammar without document ids. -/
def plain (g : Grammar) : Grammar :=
  { g with
    startGraph := g.startGraph.map Graph.plain
    rules := g.rules.plain }

/-
  Grammars are equivalent when they differ in
  document ids at most.
-/
instance : HasEquiv Grammar :=
  ⟨fun g h => g.plain = h.plain⟩

instance (g h : Grammar) : Decidable (g ≈ h) :=
  inferInstanceAs (Decidable (g.plain = h.plain))

end Grammar

------------------------------------------------------------
-- Symbols
------------------------------------------------------------

namespace Grammar

/- Whether a symbol is a terminal. -/
def isTerminal
    (g : Grammar)
    (symbol : String) : Bool :=
  g.terminals.contains symbol

/- Whether a symbol is a non-terminal. -/
def isNonTerminal
    (g : Grammar)
    (symbol : String) : Bool :=
  g.nonTerminals.contains symbol

/- Whether a symbol is in the vocabulary. -/
def isVocabulary
    (g : Grammar)
    (symbol : String) : Bool :=
  g.isTerminal symbol || g.isNonTerminal symbol

/- Make a symbol a terminal unless it is a non-terminal. -/
def defineTerminal
    (g : Grammar)
    (symbol : String) : Except GrammarError Grammar :=
  if g.isNonTerminal symbol then
    .error (.definedAsNonTerminal symbol)
  else
    .ok { g with terminals := g.terminals.insert symbol }

/- Make a symbol a non-terminal unless it is a terminal. -/
def defineNonTerminal
    (g : Grammar)
    (symbol : String) : Except GrammarError Grammar :=
  if g.isTerminal symbol then
    .error (.definedAsTerminal symbol)
  else
    .ok { g with nonTerminals := g.nonTerminals.insert symbol }

/- Drop the start. -/
def undefineStart (g : Grammar) : Grammar :=
  { g with startSymbol := none, startGraph := none }

/- Whether the start makes use of a symbol. -/
def startUses
    (g : Grammar)
    (symbol : String) : Bool :=
  g.startSymbol == some symbol ||
    g.startGraph.any (fun graph => graph.containsSymbol symbol)

/- Drop a start that makes use of a symbol. -/
def dropStartUsing
    (g : Grammar)
    (symbol : String) : Grammar :=
  if g.startUses symbol then g.undefineStart else g

/- Drop a terminal, along with a start that makes use of it. -/
def undefineTerminal
    (g : Grammar)
    (symbol : String) : Grammar :=
  if g.isTerminal symbol then
    { g with
      terminals := g.terminals.erase symbol }.dropStartUsing
        symbol
  else
    g

/-
  Drop a non-terminal, along with a start
  that makes use of it.
-/
def undefineNonTerminal
    (g : Grammar)
    (symbol : String) : Grammar :=
  if g.isNonTerminal symbol then
    { g with
      nonTerminals :=
        g.nonTerminals.erase symbol }.dropStartUsing symbol
  else
    g

end Grammar

------------------------------------------------------------
-- Vocabulary checks
------------------------------------------------------------

namespace Grammar

/- The error of a symbol that is used but not defined. -/
def symbolFault?
    (g : Grammar)
    (symbol : String)
    (use : SymbolUse) : Option GrammarError :=
  if g.isVocabulary symbol then
    none
  else
    some (.undefinedSymbol symbol use)

/-
  The first undefined symbol of some nodes and, if edges are
  checked, of some edges.
-/
def elementFault?
    (g : Grammar)
    (nodes : List Node)
    (edges : List Edge)
    (holder : Holder) : Option GrammarError :=
  let checkedEdges :=
    if g.config.checkEdgeLabels then edges else []
  (nodes.findSome? fun node =>
      g.symbolFault? node.symbol
        (.element (.node node.id) holder)).or
    (checkedEdges.findSome? fun edge =>
      g.symbolFault? edge.symbol
        (.element (.edge edge.start edge.stop) holder))

/- The first undefined symbol of a graph. -/
def graphFault?
    (g : Grammar)
    (graph : Graph)
    (holder : Holder) : Option GrammarError :=
  g.elementFault? graph.nodes.nodes graph.edges.toList holder

/-
  The first undefined symbol of an exotic graph, whose
  exotic nodes have none.
-/
def exoticFault?
    (g : Grammar)
    (graph : ExoticGraph)
    (holder : Holder) : Option GrammarError :=
  g.graphFault? graph.graph holder

/-
  The first undefined symbol of a rule, left-hand side first.
-/
def ruleFault?
    (g : Grammar)
    (rule : Rule) : Option GrammarError :=
  match rule with
  | .node r =>
      (g.symbolFault? r.symbol (.leftHandSide r.name)).or
        (g.graphFault? r.rhs (.rule r.name))
  | .region r =>
      (g.exoticFault? r.lhs (.rule r.name)).or
        (g.exoticFault? r.rhs (.rule r.name))

/-
  Whether every checked symbol of a graph is
  in the vocabulary.
-/
def isSymbolGraph
    (g : Grammar)
    (graph : Graph) : Bool :=
  (g.graphFault? graph .graph).isNone

/- Whether every node of a graph carries a terminal. -/
def isSentence
    (g : Grammar)
    (graph : Graph) : Bool :=
  graph.nodes.nodes.all fun node => g.isTerminal node.symbol

end Grammar

------------------------------------------------------------
-- Start and rules
------------------------------------------------------------

namespace Grammar

/- The graph of a single node `base` with a symbol. -/
def symbolGraph
    (symbol : String)
    (labels : Labels) : Graph :=
  (∅ : Graph).addNode ⟨NodeId.base, labels.setSymbol symbol⟩

/- Start from a symbol, which becomes a non-terminal. -/
def defineStartSymbol
    (g : Grammar)
    (symbol : String)
    (labels : Labels) : Except GrammarError Grammar := do
  let g ← g.defineNonTerminal symbol
  return { g with
    startSymbol := some symbol
    startGraph := some (symbolGraph symbol labels) }

/- Start from a graph over the vocabulary. -/
def defineStartGraph
    (g : Grammar)
    (graph : Graph) : Except GrammarError Grammar :=
  match g.graphFault? graph .startGraph with
  | some error => .error error
  | none =>
      .ok
        { g with startSymbol := none, startGraph := some graph }

/-
  Add a rule over the vocabulary under a name
  that is not taken yet.
-/
def addRule
    (g : Grammar)
    (rule : Rule) : Except GrammarError Grammar :=
  match g.ruleFault? rule with
  | some error => .error error
  | none =>
      (g.rules.insert rule).map fun rules =>
        { g with rules := rules }

/- Remove the rule with a name. -/
def undefineRule
    (g : Grammar)
    (name : String) : Except GrammarError Grammar :=
  (g.rules.remove name).map fun rules =>
    { g with rules := rules }

end Grammar

------------------------------------------------------------
-- Rewriting
------------------------------------------------------------

namespace Grammar

/-
  All rules, by ascending name, with their matches in a graph.
-/
def rulesWithMatches
    (g : Grammar)
    (graph : Graph) :
      Except GrammarError (List (String × List RuleMatch)) :=
  g.rules.toList.mapM fun rule =>
    (rule.findMatches graph).map fun found => (rule.name, found)

/-
  The rules that apply to a graph, by ascending name,
  with their matches.
-/
def applicableRules
    (g : Grammar)
    (graph : Graph) :
      Except GrammarError (List (String × List RuleMatch)) :=
  (g.rulesWithMatches graph).map fun rules =>
    rules.filter fun (_, found) => !found.isEmpty

/- Rewrite a graph with the rule of a name. -/
def applyRule
    {σ : Type}
    (g : Grammar)
    (source : IdSource σ)
    (name : String)
    (found : RuleMatch)
    (graph : Graph)
    (supply : σ) : Outcome σ :=
  match g.rules.get? name with
  | none => ⟨graph, supply, .error (.ruleAbsent name)⟩
  | some rule => rule.apply source found graph supply

end Grammar

end GraphRewriting
