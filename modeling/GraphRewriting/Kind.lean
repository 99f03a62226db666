/-
  This file defines the kinds of exotic nodes and the kinds of
  production rules.

  Key definitions include:
    * `ExoticKind`
    * `ExoticKind.AdmitsDegree`
    * `RuleKind`
    * `RuleKind.exotic?`
    * `RuleKind.ofExotic`
-/

namespace GraphRewriting

------------------------------------------------------------
-- Exotic nodes
------------------------------------------------------------

/-
  An anchor must be bound to a node of the target graph, a
  wildcard may stay unmatched.
-/
inductive ExoticKind where
  | anchor
  | wildcard
  deriving DecidableEq, Inhabited, Repr

namespace ExoticKind

/- The kind as it is written in documents and messages. -/
def text : ExoticKind → String
  | anchor => "anchor"
  | wildcard => "wildcard"

instance : ToString ExoticKind := ⟨text⟩

/-
  The degree of an image must equal the degree of its pattern
  node when every exotic neighbour has to be bound, and may be
  smaller when some may stay unmatched.
-/
def AdmitsDegree
    (kind : ExoticKind)
    (patternDegree targetDegree : Nat) : Prop :=
  match kind with
  | anchor => targetDegree = patternDegree
  | wildcard => targetDegree ≤ patternDegree

instance
    (kind : ExoticKind)
    (patternDegree targetDegree : Nat) :
    Decidable
      (kind.AdmitsDegree patternDegree targetDegree) := by
  cases kind <;>
    unfold AdmitsDegree <;>
    infer_instance

end ExoticKind

------------------------------------------------------------
-- Rules
------------------------------------------------------------

/-
  A context-free rule rewrites one node, an anchor or wildcard
  rule rewrites a region between exotic nodes of its kind.
-/
inductive RuleKind where
  | contextFree
  | anchor
  | wildcard
  deriving DecidableEq, Inhabited, Repr

namespace RuleKind

/- The kind as it is written in documents and messages. -/
def text : RuleKind → String
  | contextFree => "context_free"
  | anchor => "anchor"
  | wildcard => "wildcard"

instance : ToString RuleKind := ⟨text⟩

/- The kind of the exotic nodes in rules of a kind. -/
def exotic? : RuleKind → Option ExoticKind
  | contextFree => none
  | anchor => some .anchor
  | wildcard => some .wildcard

/- The kind of the rules built on exotic nodes of a kind. -/
def ofExotic : ExoticKind → RuleKind
  | .anchor => anchor
  | .wildcard => wildcard

@[simp]
theorem exotic?_ofExotic (kind : ExoticKind) :
    (ofExotic kind).exotic? = some kind := by
  cases kind <;> rfl

end RuleKind

end GraphRewriting

------------------------------------------------------------
-- Orders
------------------------------------------------------------

namespace GraphRewriting

/- Anchors come before wildcards. -/
def ExoticKind.rank : ExoticKind → Nat
  | .anchor => 0
  | .wildcard => 1

instance : Ord ExoticKind :=
  ⟨fun a b => compare a.rank b.rank⟩

/-
  Context-free rules come first, then anchors, then wildcards.
-/
def RuleKind.rank : RuleKind → Nat
  | .contextFree => 0
  | .anchor => 1
  | .wildcard => 2

instance : Ord RuleKind :=
  ⟨fun a b => compare a.rank b.rank⟩

instance : Std.OrientedOrd RuleKind where
  eq_swap {a b} := by
    cases a <;> cases b <;> rfl

instance : Std.TransOrd RuleKind where
  isLE_trans {a b c} := by
    cases a <;> cases b <;> cases c <;> decide

instance : Std.LawfulEqOrd RuleKind where
  eq_of_compare {a b} := by
    cases a <;> cases b <;> decide

end GraphRewriting
