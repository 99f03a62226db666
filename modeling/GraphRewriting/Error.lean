import GraphRewriting.Kind
import GraphRewriting.NodeId

/-
  This file defines the causes for which an operation on
  graphs, rules, grammars or documents fails, and the wording
  of each of them.

  Key definitions include:
    * `ErrorKind`
    * `MatchFault`
    * `DocumentFault`
    * `GrammarError`
    * `GrammarError.kind`
    * `GrammarError.detail`
    * `GrammarError.message`
-/

namespace GraphRewriting

------------------------------------------------------------
-- Kinds of errors
------------------------------------------------------------

/- The classes that callers tell apart. -/
inductive ErrorKind where
  | missingAttribute
  | missingElement
  | duplicateId
  | typeMismatch
  | nodeAbsent
  | edgeAbsent
  | invalidExoticGraph
  | invalidRule
  | unsupportedRule
  | ruleAbsent
  | ruleApplication
  | vocabularyViolation
  | symbolDefinitionConflict
  | invalidDocument
  | io
  | serialization
  | fatal
  deriving DecidableEq, Repr

/- The words that open a message. -/
def ErrorKind.heading : ErrorKind → String
  | missingAttribute => "missing attribute"
  | missingElement => "missing element"
  | duplicateId => "duplicated id"
  | typeMismatch => "type mismatch"
  | nodeAbsent => "node absent"
  | edgeAbsent => "edge absent"
  | invalidExoticGraph => "invalid exotic graph"
  | invalidRule => "invalid rule"
  | unsupportedRule => "unsupported rule"
  | ruleAbsent => "rule absent"
  | ruleApplication => "rule application error"
  | vocabularyViolation => "vocabulary violation"
  | symbolDefinitionConflict => "symbol definition conflict"
  | invalidDocument => "invalid document"
  | io => "io error"
  | serialization => "serialization error"
  | fatal => "fatal error"

------------------------------------------------------------
-- Places
------------------------------------------------------------

/- A node or an edge of a graph. -/
inductive ElementRef where
  | node (id : NodeId)
  | edge (start stop : NodeId)
  deriving DecidableEq

/- The element, as messages name it. -/
def ElementRef.text : ElementRef → String
  | node id => s!"node '{id}'"
  | edge start stop => s!"edge {start} -> {stop}"

/- The graph or rule that holds an element. -/
inductive Holder where
  | graph
  | startGraph
  | workingGraph
  | rule (name : String)
  | named (text : String)
  deriving DecidableEq

/- The holder, as messages name it. -/
def Holder.text : Holder → String
  | graph => "graph"
  | startGraph => "start graph"
  | workingGraph => "the working graph"
  | rule name => s!"rule '{name}'"
  | named text => text

/- A place where a symbol is used. -/
inductive SymbolUse where
  | element (item : ElementRef) (holder : Holder)
  | leftHandSide (rule : String)
  deriving DecidableEq

/- The place, as messages name it. -/
def SymbolUse.text : SymbolUse → String
  | element item holder => s!"{item.text} of {holder.text}"
  | leftHandSide rule => s!"the left-hand side of rule '{rule}'"

/-
  The document key under which exotic nodes of
  a kind are listed.
-/
def ExoticKind.listKey : ExoticKind → String
  | .anchor => "anodes"
  | .wildcard => "wnodes"

------------------------------------------------------------
-- Causes
------------------------------------------------------------

/-
  What keeps a match from being a place where a rule applies.
-/
inductive MatchFault where
  /- A node of the left-hand side has no target. -/
  | nodeUnmatched (id : NodeId)
  /- Two nodes of the left-hand side share a target. -/
  | targetTwice (target : NodeId)
  /- An exotic node is no key of the morphism. -/
  | exoticMissing (kind : ExoticKind) (id : NodeId)
  /- An exotic node has the target of an ordinary node. -/
  | exoticOnMatched (kind : ExoticKind) (id target : NodeId)
  /- Two exotic nodes share a target. -/
  | exoticShared (kind : ExoticKind) (id target : NodeId)
  /- An anchor has no target. -/
  | anchorUnmatched (id : NodeId)
  /- The node to rewrite carries another symbol. -/
  | otherSymbol (expected : String) (id : NodeId)
      (actual : String)
  deriving DecidableEq

/- What keeps a grammar document from describing a grammar. -/
inductive DocumentFault where
  | sectionMissing (key : String)
  | ruleNameMissing
  | leftHandSideNameMissing (rule : String)
  | replacementMissing (rule : String)
  | baseSymbolMissing
  | nodeIdMissing
  | edgeIdMissing
  | edgeStartMissing (edgeId : String)
  | edgeStopMissing (edgeId : String)
  | exoticIdMissing (kind : ExoticKind)
  | nodeRedeclared (id : NodeId)
  | exoticRedeclared (kind : ExoticKind) (id : NodeId)
  | edgeIdRedeclared (edgeId : String)
  | edgeRedeclared (start stop : NodeId)
  | exoticInPlainGraph
  | exoticOfOtherKind (kind : ExoticKind)
  | ruleUnsupported (rule : String)
  | startSymbolAndGraph
  | startGraphs (count : Nat)
  | labelClash (element : ElementRef) (key : String)
  deriving DecidableEq

/- What makes an operation fail. -/
inductive GrammarError where
  /- Graphs. -/
  | nodeAbsent (id : NodeId)
  | endAbsent (id start stop : NodeId)
  | edgeAbsent (start stop : NodeId)
  | exoticEdge (kind : ExoticKind) (start stop : NodeId)
  | danglingEdge (start stop : NodeId)
  /- Rules. -/
  | baseAbsent (rule : String)
  | sidesOfTwoKinds (rule : String) (lhs rhs : ExoticKind)
  | leftHandSideKind (rule : String)
      (expected actual : ExoticKind)
  | exoticIdsDiffer (rule : String) (kind : ExoticKind)
      (lhs rhs : List NodeId)
  | matchShape (rule : String) (kind : RuleKind)
  | ruleNodeAbsent (rule : String) (id : NodeId)
  | matchedNodeAbsent (rule : String) (id : NodeId)
  | badMatch (rule : String) (fault : MatchFault)
  | idInUse (rule : String) (fresh localId : NodeId)
  | matchesUnlisted (size : Nat)
  | ruleExists (rule : String)
  | ruleAbsent (rule : String)
  /- Grammars. -/
  | undefinedSymbol (symbol : String) (use : SymbolUse)
  | definedAsTerminal (symbol : String)
  | definedAsNonTerminal (symbol : String)
  | startGraphAbsent
  /- Documents. -/
  | badDocument (fault : DocumentFault)
  | unreadableText
  | unreachableFile
  /- A cause that a caller puts into words. -/
  | stated (kind : ErrorKind) (detail : String)
  deriving DecidableEq

------------------------------------------------------------
-- Classification
------------------------------------------------------------

/- The class of a fault in a document. -/
def DocumentFault.kind : DocumentFault → ErrorKind
  | sectionMissing _ | replacementMissing _ => .missingElement
  | ruleNameMissing | leftHandSideNameMissing
      _ | baseSymbolMissing
  | nodeIdMissing | edgeIdMissing | edgeStartMissing
      _ | edgeStopMissing _
  | exoticIdMissing _ => .missingAttribute
  | nodeRedeclared _ | exoticRedeclared _ _ | edgeIdRedeclared _
  | edgeRedeclared _ _ => .duplicateId
  | exoticInPlainGraph | exoticOfOtherKind _ => .typeMismatch
  | ruleUnsupported _ => .unsupportedRule
  | startSymbolAndGraph | startGraphs _ | labelClash _ _ =>
      .invalidDocument

/- The class of an error. -/
def GrammarError.kind : GrammarError → ErrorKind
  | nodeAbsent _ | endAbsent _ _ _ => .nodeAbsent
  | edgeAbsent _ _ => .edgeAbsent
  | exoticEdge _ _ _ => .invalidExoticGraph
  | danglingEdge _ _ | matchesUnlisted _ => .fatal
  | baseAbsent _ | exoticIdsDiffer _ _ _ _ => .invalidRule
  | sidesOfTwoKinds _ _ _ | leftHandSideKind _ _ _
  | matchShape _ _ => .typeMismatch
  | ruleNodeAbsent _ _ | matchedNodeAbsent _ _ => .nodeAbsent
  | badMatch _ _ => .ruleApplication
  | idInUse _ _ _ | ruleExists _ => .duplicateId
  | ruleAbsent _ => .ruleAbsent
  | undefinedSymbol _ _ => .vocabularyViolation
  | definedAsTerminal _ | definedAsNonTerminal _ =>
      .symbolDefinitionConflict
  | startGraphAbsent => .missingElement
  | badDocument fault => fault.kind
  | unreadableText => .serialization
  | unreachableFile => .io
  | stated kind _ => kind

------------------------------------------------------------
-- Wording
------------------------------------------------------------

/- Ids in braces, separated by commas. -/
def braced (ids : List NodeId) : String :=
  "\x7b" ++ ", ".intercalate (ids.map NodeId.text) ++ "\x7d"

/- What is wrong with a match, in words. -/
def MatchFault.detail : MatchFault → String
  | nodeUnmatched id =>
      s!"node '{id}' of the left-hand side is not matched"
  | targetTwice target =>
      s!"target node '{target}' is matched twice"
  | exoticMissing kind id =>
      s!"{kind} '{id}' is missing from the match"
  | exoticOnMatched kind id target =>
      s!"{kind} '{id}' is bound to matched node '{target}'"
  | exoticShared kind id target =>
      s!"{kind} '{id}' shares target node '{target}' with another {kind}"
  | anchorUnmatched id => s!"anchor '{id}' is unmatched"
  | otherSymbol expected id actual =>
      s!"rewrites '{expected}' but node '{id}' is a '{actual}'"

/- What is wrong with a document, in words. -/
def DocumentFault.detail : DocumentFault → String
  | sectionMissing key => key
  | ruleNameMissing => "a rule element has no 'name'"
  | leftHandSideNameMissing rule =>
      s!"the 'nt' of rule '{rule}' has no 'name'"
  | replacementMissing rule =>
      s!"rule '{rule}' has no replacement 'graph'"
  | baseSymbolMissing =>
      "the replacement graph has no 'base' symbol"
  | nodeIdMissing => "a node element has no 'id'"
  | edgeIdMissing => "an edge element has no 'id'"
  | edgeStartMissing edgeId => s!"edge '{edgeId}' has no 'from'"
  | edgeStopMissing edgeId => s!"edge '{edgeId}' has no 'to'"
  | exoticIdMissing kind =>
      s!"an entry of '{kind.listKey}' has no 'id'"
  | nodeRedeclared id => s!"node '{id}' is declared twice"
  | exoticRedeclared kind id =>
      s!"{kind} '{id}' is declared twice"
  | edgeIdRedeclared edgeId =>
      s!"edge '{edgeId}' is declared twice"
  | edgeRedeclared start stop =>
      s!"edge {start} -> {stop} is declared twice"
  | exoticInPlainGraph =>
      "a plain graph element cannot declare anchor or wildcard nodes"
  | exoticOfOtherKind kind =>
      s!"a {kind} graph element may only declare '{kind.listKey}'"
  | ruleUnsupported rule =>
      s!"rule '{rule}' has no left-hand side of an accepted rule kind"
  | startSymbolAndGraph =>
      "both start_symbol and start_graph are present"
  | startGraphs count =>
      s!"start_graph holds {count} graphs, at most one is allowed"
  | labelClash element key =>
      s!"{element.text} carries a '{key}' label, " ++
        s!"which clashes with the element's own '{key}' key"

/- What went wrong, in words. -/
def GrammarError.detail : GrammarError → String
  | nodeAbsent id => s!"no node has '{id}' as its id"
  | endAbsent id start stop =>
      s!"no node has '{id}' as its id (edge {start} -> {stop})"
  | edgeAbsent start stop => s!"no edge {start} -> {stop}"
  | exoticEdge kind start stop =>
      s!"edges between {kind} nodes are not allowed ({start} -> {stop})"
  | danglingEdge start stop =>
      s!"edge {start} -> {stop} has an end outside its graph"
  | baseAbsent rule =>
      s!"context-free rule '{rule}' has no 'base' node in its replacement graph"
  | sidesOfTwoKinds rule lhs rhs =>
      s!"rule '{rule}' mixes a {lhs} left-hand side with a {rhs} replacement"
  | leftHandSideKind rule expected actual =>
      s!"rule '{rule}' expects a {expected} graph as left-hand side, " ++
        s!"got a {actual} graph"
  | exoticIdsDiffer rule kind lhs rhs =>
      s!"rule '{rule}': {kind} ids differ between sides " ++
        s!"({braced lhs} vs {braced rhs})"
  | matchShape rule kind =>
      s!"match shape does not fit {kind} rule '{rule}'"
  | ruleNodeAbsent rule id =>
      s!"rule '{rule}': no node has '{id}' as its id"
  | matchedNodeAbsent rule id =>
      s!"rule '{rule}': matched node '{id}' is no longer in the graph"
  | badMatch rule (.otherSymbol expected id actual) =>
      s!"rule '{rule}' " ++
        (MatchFault.otherSymbol expected id actual).detail
  | badMatch rule fault => s!"rule '{rule}': " ++ fault.detail
  | idInUse rule fresh localId =>
      s!"rule '{rule}': id generator returned '{fresh}' for '{localId}', " ++
        "which is already in use"
  | matchesUnlisted size =>
      s!"matches of a pattern with {size} nodes are not listed"
  | ruleExists rule => s!"a rule named '{rule}' already exists"
  | ruleAbsent rule => s!"no rule named '{rule}'"
  | undefinedSymbol symbol use =>
      s!"'{symbol}' used by {use.text} " ++
        "is neither a terminal nor a non-terminal symbol"
  | definedAsTerminal symbol =>
      s!"'{symbol}' is already defined as a terminal symbol"
  | definedAsNonTerminal symbol =>
      s!"'{symbol}' is already defined as a non-terminal symbol"
  | startGraphAbsent => "the grammar has no start graph"
  | badDocument fault => fault.detail
  | unreadableText => "the text is no grammar document"
  | unreachableFile => "the file cannot be reached"
  | stated _ detail => detail

/- The message of an error: its class, then what went wrong. -/
def GrammarError.message (error : GrammarError) : String :=
  error.kind.heading ++ ": " ++ error.detail

end GraphRewriting
