import GraphRewriting.Kind

/-
  This file defines the options of grammars and of id pools.

  Key definitions include:
    * `GrammarConfig`
    * `GrammarConfig.standard`
    * `GrammarConfig.contextFreeOnly`
    * `GrammarConfig.Accepts`
    * `standardChunkSize`
-/

namespace GraphRewriting

/-
  Options for reading a grammar document and for checking
  symbols.

  `acceptableKinds` lists the rule kinds in the order in which
  they are tried on a rule element. `emptySymbolIsTerminal` says
  whether the empty symbol starts out as a terminal.
  `checkEdgeLabels` says whether the symbols of edges are
  checked along with those of nodes.
-/
structure GrammarConfig where
  acceptableKinds : List RuleKind
  emptySymbolIsTerminal : Bool
  checkEdgeLabels : Bool
  deriving DecidableEq

namespace GrammarConfig

/- All kinds, the empty symbol a terminal, edges checked. -/
def standard : GrammarConfig :=
  ⟨[.contextFree, .anchor, .wildcard], true, true⟩

/- The standard options with other rule kinds. -/
def ofKinds (kinds : List RuleKind) : GrammarConfig :=
  { standard with acceptableKinds := kinds }

/- The standard options for context-free rules alone. -/
def contextFreeOnly : GrammarConfig :=
  ofKinds [.contextFree]

/- Rules of the kind are accepted. -/
def Accepts
    (config : GrammarConfig)
    (kind : RuleKind) : Prop :=
  kind ∈ config.acceptableKinds

instance
    (config : GrammarConfig)
    (kind : RuleKind) :
    Decidable (config.Accepts kind) := by
  unfold Accepts
  infer_instance

end GrammarConfig

/-
  How many ids a pool makes available at a time
  unless told otherwise.
-/
def standardChunkSize : Nat :=
  100

end GraphRewriting
