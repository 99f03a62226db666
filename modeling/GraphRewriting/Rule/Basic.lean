import GraphRewriting.Rule.ContextFree
import GraphRewriting.Rule.Exotic

/-
  This file defines production rules of all kinds, their
  matches and their application.

  Key definitions include:
    * `Rule`
    * `Rule.contextFree`
    * `Rule.ofKind`
    * `Rule.findMatches`
    * `Rule.apply`
-/

namespace GraphRewriting

/-
  A production rule: context-free, or between exotic graphs. For
  a rule between exotic graphs, anchors and wildcards are told
  apart by the kind of its graphs alone. A rule that calls
  itself an anchor rule over graphs with wildcards, or the
  reverse, is not made by any operation and cannot be written.
-/
inductive Rule where
  | node (rule : ContextFreeRule)
  | region (rule : ExoticRule)
  deriving DecidableEq

namespace Rule

/-
  A context-free rule with a bare symbol as
  its left-hand side.
-/
def contextFree
    (name symbol : String)
    (rhs : Graph) : Except GrammarError Rule :=
  (ContextFreeRule.make name (Labels.ofSymbol symbol) rhs).map
    node

/- A context-free rule whose left-hand side carries labels. -/
def contextFreeOfLabels
    (name : String)
    (lhs : Labels)
    (rhs : Graph) : Except GrammarError Rule :=
  (ContextFreeRule.make name lhs rhs).map node

/- A rule of whatever kind its left-hand side has. -/
def exotic
    (name : String)
    (lhs rhs : ExoticGraph) : Except GrammarError Rule :=
  (ExoticRule.make name lhs rhs).map region

/- A rule whose left-hand side must have a given kind. -/
def ofKind
    (kind : ExoticKind)
    (name : String)
    (lhs rhs : ExoticGraph) : Except GrammarError Rule :=
  if lhs.kind = kind then
    exotic name lhs rhs
  else
    .error (.leftHandSideKind name kind lhs.kind)

/- The name of a rule. -/
def name : Rule → String
  | node rule => rule.name
  | region rule => rule.name

/- The kind of a rule. -/
def kind : Rule → RuleKind
  | node _ => .contextFree
  | region rule => .ofExotic rule.kind

/- The same rule without document ids. -/
def plain : Rule → Rule
  | node rule => node rule.plain
  | region rule => region rule.plain

/-
  Rules are equivalent when they differ in
  document ids at most.
-/
instance : HasEquiv Rule :=
  ⟨fun r s => r.plain = s.plain⟩

instance (r s : Rule) : Decidable (r ≈ s) :=
  inferInstanceAs (Decidable (r.plain = s.plain))

/- All places where a rule applies. -/
def findMatches
    (r : Rule)
    (target : Graph) : Except GrammarError (List RuleMatch) :=
  match r with
  | node rule => .ok ((rule.findMatches target).map .node)
  | region rule =>
      (rule.findMatches target).map fun found =>
        found.map .morphism

/-
  Rewrite a graph at a match. The match must have the shape
  that the rule calls for.
-/
def apply
    {σ : Type}
    (r : Rule)
    (source : IdSource σ)
    (found : RuleMatch)
    (target : Graph)
    (supply : σ) : Outcome σ :=
  match r, found with
  | node rule, .node id => rule.apply source id target supply
  | region rule, .morphism m =>
      rule.apply source m target supply
  | _, _ => ⟨target, supply, .error (.matchShape r.name r.kind)⟩

end Rule

end GraphRewriting
