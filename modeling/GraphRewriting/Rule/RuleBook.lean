import GraphRewriting.Rule.Basic

/-
  This file defines collections of rules. Names are unique
  across all kinds, and an index lists the names of each kind.

  Key definitions include:
    * `RuleBook`
    * `RuleBook.insert`
    * `RuleBook.remove`
    * `RuleBook.namesOfKind`
-/

namespace GraphRewriting

/- Rules by name, and the names of each kind that has a rule. -/
structure RuleBook where
  rules : Std.ExtTreeMap String Rule
  byKind : Std.ExtTreeMap RuleKind (Std.ExtTreeSet String)
  deriving DecidableEq

namespace RuleBook

/- The book without rules. -/
def empty : RuleBook :=
  ⟨∅, ∅⟩

instance : EmptyCollection RuleBook := ⟨empty⟩

instance : Inhabited RuleBook := ⟨empty⟩

/- The same book without document ids. -/
def plain (book : RuleBook) : RuleBook :=
  ⟨book.rules.map fun _ rule => rule.plain, book.byKind⟩

/- The rule with a name. -/
def get?
    (book : RuleBook)
    (name : String) : Option Rule :=
  book.rules[name]?

/- Whether there is a rule with a name. -/
def contains
    (book : RuleBook)
    (name : String) : Bool :=
  book.rules.contains name

/- The names of all rules, ascending. -/
def names (book : RuleBook) : List String :=
  book.rules.keys

/- All rules, by ascending name. -/
def toList (book : RuleBook) : List Rule :=
  book.rules.values

/- The number of rules. -/
def size (book : RuleBook) : Nat :=
  book.rules.size

/- The names of the rules of a kind, ascending. -/
def namesOfKind
    (book : RuleBook)
    (kind : RuleKind) : List String :=
  (book.byKind.getD kind ∅).toList

/- The rules of a kind, by ascending name. -/
def ofKind
    (book : RuleBook)
    (kind : RuleKind) : List Rule :=
  (book.namesOfKind kind).filterMap book.get?

/- Add a rule under a name that is not taken yet. -/
def insert
    (book : RuleBook)
    (rule : Rule) : Except GrammarError RuleBook :=
  if book.contains rule.name then
    .error (.ruleExists rule.name)
  else
    let names := book.byKind.getD rule.kind ∅
    .ok ⟨book.rules.insert rule.name rule,
      book.byKind.insert rule.kind (names.insert rule.name)⟩

/-
  Drop a name from the names of a kind, and the kind with its
  last name.
-/
def forgetName
    (byKind : Std.ExtTreeMap RuleKind (Std.ExtTreeSet String))
    (kind : RuleKind)
    (name : String) :
      Std.ExtTreeMap RuleKind (Std.ExtTreeSet String) :=
  let names := (byKind.getD kind ∅).erase name
  if names.isEmpty then
    byKind.erase kind
  else
    byKind.insert kind names

/- Remove the rule with a name. -/
def remove
    (book : RuleBook)
    (name : String) : Except GrammarError RuleBook :=
  match book.get? name with
  | none => .error (.ruleAbsent name)
  | some rule =>
      .ok
        ⟨book.rules.erase name,
          forgetName book.byKind rule.kind name⟩

end RuleBook

end GraphRewriting
