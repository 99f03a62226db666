import GraphRewriting.Kind
import GraphRewriting.Labels
import GraphRewriting.NodeId

/-
  This file defines grammar documents: descriptions of grammars
  by elements that may lack any of their parts.

  Key definitions include:
    * `SymbolElement`
    * `NodeElement`
    * `EdgeElement`
    * `ExoticElement`
    * `GraphElement`
    * `RuleElement`
    * `GrammarDocument`
-/

namespace GraphRewriting

/- A symbol with the labels written next to it. -/
structure SymbolElement where
  name : Option String
  attributes : Labels
  deriving DecidableEq

/- A node with the labels written next to its id and symbol. -/
structure NodeElement where
  id : Option NodeId
  name : Option String
  attributes : Labels
  deriving DecidableEq

/-
  An edge with the labels written next to its
  id, ends and symbol.
-/
structure EdgeElement where
  id : Option NodeId
  start : Option NodeId
  stop : Option NodeId
  name : Option String
  attributes : Labels
  deriving DecidableEq

/- The declaration of an exotic node. -/
structure ExoticElement where
  id : Option NodeId
  deriving DecidableEq

/-
  A graph. The symbol of its node `base` is written apart, as
  are its exotic nodes of each kind.
-/
structure GraphElement where
  base : Option String
  baseLabels : Labels
  nodes : List NodeElement
  edges : List EdgeElement
  anchors : List ExoticElement
  wildcards : List ExoticElement
  deriving DecidableEq

/- The exotic nodes of a kind that a graph element declares. -/
def GraphElement.exotics
    (element : GraphElement) :
    ExoticKind → List ExoticElement
  | .anchor => element.anchors
  | .wildcard => element.wildcards

/-
  A rule: a left-hand side of some kind next to a replacement
  graph.
-/
structure RuleElement where
  name : Option String
  symbol : Option SymbolElement
  anchorGraph : Option GraphElement
  wildcardGraph : Option GraphElement
  graph : Option GraphElement
  deriving DecidableEq

/- A grammar: its symbols, its start and its rules. -/
structure GrammarDocument where
  terminals : Option (List String)
  nonTerminals : Option (List String)
  startSymbol : Option SymbolElement
  startGraphs : List GraphElement
  rules : Option (List RuleElement)
  deriving DecidableEq

end GraphRewriting
