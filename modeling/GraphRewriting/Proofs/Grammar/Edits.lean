import GraphRewriting.Proofs.Grammar.Start

/-
  Grammars that are changed in place. Each operation is a run of
  checks and of writes to one store after the other; it comes to
  what the operation makes of the grammar as a whole, and an
  error is found before anything is different.

  Main declarations:
    * `Edit`
    * `Edit.program`
    * `Edit.run_program`
    * `Grammar.afterEdits`
    * `Grammar.Makes`
    * `Grammar.IsInOrder`
    * `Grammar.in_order_after_edits`
-/

------------------------------------------------------------
-- Edits
------------------------------------------------------------

namespace GraphRewriting

/- Something to do to a grammar. -/
inductive Edit where
  | defineTerminal (symbol : String)
  | defineNonTerminal (symbol : String)
  | undefineTerminal (symbol : String)
  | undefineNonTerminal (symbol : String)
  | defineStartSymbol (symbol : String) (labels : Labels)
  | defineStartGraph (graph : Graph)
  | undefineStart
  | addRule (rule : Rule)
  | undefineRule (name : String)

namespace Edit

/- What an edit without error returns. -/
inductive Answer where
  | done
  | wasDefined (found : Bool)
  | removed (rule : Rule)
  deriving DecidableEq

/-
  Steps on a grammar that is changed in place, up
  to the first error.
-/
abbrev Steps :=
  EStateM GrammarError Grammar

/- Forget the start graph, then the start symbol. -/
def clearStart : Steps Unit := do
  modify fun g => { g with startGraph := none }
  modify fun g => { g with startSymbol := none }

/- Forget a start that makes use of a symbol. -/
def clearStartUsing
    (symbol : String) : Steps Unit := do
  let g ← get
  if g.startUses symbol then clearStart else return ()

/- Make a symbol a non-terminal. -/
def enterNonTerminal
    (symbol : String) : Steps Unit := do
  let g ← get
  if g.isTerminal symbol then
    throw (.definedAsTerminal symbol)
  else
    modify fun g =>
      { g with nonTerminals := g.nonTerminals.insert symbol }

/-
  Enter a rule in the index of names, then under its own name.
-/
def enterRule
    (rule : Rule) : Steps Unit := do
  modify fun g =>
    { g with
      rules.byKind :=
        g.rules.byKind.insert rule.kind
          ((g.rules.byKind.getD rule.kind ∅).insert rule.name) }
  modify fun g =>
    { g with
      rules.rules := g.rules.rules.insert rule.name rule }

/-
  The checks and writes of an edit. Symbols and rules are taken
  out before it is known whether they were there.
-/
def program : Edit → Steps Answer
  | .defineTerminal symbol => do
      let g ← get
      if g.isNonTerminal symbol then
        throw (.definedAsNonTerminal symbol)
      else
        modify fun g =>
          { g with terminals := g.terminals.insert symbol }
        return .done
  | .defineNonTerminal symbol => do
      enterNonTerminal symbol
      return .done
  | .undefineTerminal symbol => do
      let found := (← get).isTerminal symbol
      modify fun g =>
        { g with terminals := g.terminals.erase symbol }
      if found then clearStartUsing symbol else pure ()
      return .wasDefined found
  | .undefineNonTerminal symbol => do
      let found := (← get).isNonTerminal symbol
      modify fun g =>
        { g with nonTerminals := g.nonTerminals.erase symbol }
      if found then clearStartUsing symbol else pure ()
      return .wasDefined found
  | .defineStartSymbol symbol labels => do
      enterNonTerminal symbol
      modify fun g =>
        { g with
          startGraph :=
            some (Grammar.symbolGraph symbol labels) }
      modify fun g => { g with startSymbol := some symbol }
      return .done
  | .defineStartGraph graph => do
      match (← get).graphFault? graph .startGraph with
      | some error => throw error
      | none =>
          modify fun g => { g with startGraph := some graph }
          modify fun g => { g with startSymbol := none }
          return .done
  | .undefineStart => do
      clearStart
      return .done
  | .addRule rule => do
      match (← get).ruleFault? rule with
      | some error => throw error
      | none =>
          if (← get).rules.contains rule.name then
            throw (.ruleExists rule.name)
          else
            enterRule rule
            return .done
  | .undefineRule name => do
      let found := (← get).rules.get? name
      modify fun g =>
        { g with rules.rules := g.rules.rules.erase name }
      match found with
      | none => throw (.ruleAbsent name)
      | some rule =>
          modify fun g =>
            { g with
              rules.byKind :=
                RuleBook.forgetName g.rules.byKind rule.kind
                  name }
          return .removed rule

end Edit

namespace Grammar

/- The answer to an edit, along with the grammar it makes. -/
def edit
    (g : Grammar) :
    Edit → Except GrammarError (Edit.Answer × Grammar)
  | .defineTerminal symbol =>
      (g.defineTerminal symbol).map fun next => (.done, next)
  | .defineNonTerminal symbol =>
      (g.defineNonTerminal symbol).map fun next => (.done, next)
  | .undefineTerminal symbol =>
      .ok
        (.wasDefined (g.isTerminal symbol),
          g.undefineTerminal symbol)
  | .undefineNonTerminal symbol =>
      .ok
        (.wasDefined (g.isNonTerminal symbol),
          g.undefineNonTerminal symbol)
  | .defineStartSymbol symbol labels =>
      (g.defineStartSymbol symbol labels).map fun next =>
        (.done, next)
  | .defineStartGraph graph =>
      (g.defineStartGraph graph).map fun next => (.done, next)
  | .undefineStart => .ok (.done, g.undefineStart)
  | .addRule rule =>
      (g.addRule rule).map fun next => (.done, next)
  | .undefineRule name =>
      match g.rules.get? name with
      | none => .error (.ruleAbsent name)
      | some rule =>
          (g.undefineRule name).map fun next =>
            (.removed rule, next)

end Grammar

end GraphRewriting

------------------------------------------------------------
-- Programs
------------------------------------------------------------

namespace GraphRewriting

namespace Edit

variable {g : Grammar}

/- What is left of a step that makes a new grammar, or none. -/
def settle
    {α : Type}
    (g : Grammar) :
    Except GrammarError (α × Grammar) →
      EStateM.Result GrammarError Grammar α
  | .ok (answer, next) => .ok answer next
  | .error error => .error error g

/- The two writes together forget the start. -/
theorem run_clearStart
    (g : Grammar) :
    clearStart.run g = .ok () g.undefineStart := by
  simp only [clearStart, EStateM.run_bind, EStateM.run_modify]
  rfl

/- The start is only cleared if it uses the symbol. -/
theorem run_clearStartUsing
    (g : Grammar)
    (symbol : String) :
    (clearStartUsing symbol).run g =
      .ok () (g.dropStartUsing symbol) := by
  unfold clearStartUsing Grammar.dropStartUsing
  simp only [EStateM.run_bind, EStateM.run_get]
  split
  · exact run_clearStart g
  · rfl

/-
  The check comes before the write, so a failure
  leaves the grammar.
-/
theorem run_enterNonTerminal
    (g : Grammar)
    (symbol : String) :
    (enterNonTerminal symbol).run g =
      settle g
        ((g.defineNonTerminal symbol).map fun next =>
          ((), next)) := by
  unfold enterNonTerminal Grammar.defineNonTerminal
  simp only [EStateM.run_bind, EStateM.run_get]
  split <;> rfl

theorem run_enterRule
    (g : Grammar)
    (rule : Rule) :
    (enterRule rule).run g =
      .ok () { g with rules := g.rules.put rule } := by
  simp only [enterRule, EStateM.run_bind, EStateM.run_modify]
  rfl

/-
  The steps for a terminal always end. They answer
  whether it was there.
-/
theorem run_undefineTerminal
    (g : Grammar)
    (symbol : String) :
    (program (.undefineTerminal symbol)).run g =
      .ok (.wasDefined (g.isTerminal symbol))
        (g.undefineTerminal symbol) := by
  unfold Grammar.undefineTerminal
  simp only [program, EStateM.run_bind, EStateM.run_get,
    EStateM.run_modify]
  cases hFound : g.isTerminal symbol with
  | true =>
      simp only [if_true, EStateM.run_bind, run_clearStartUsing]
      rfl
  | false =>
      -- The write has been made all the same, to no effect.
      have hNone : symbol ∉ g.terminals := by
        rw [← Grammar.isTerminal_iff, hFound]
        exact Bool.false_ne_true
      rw [erase_eq_self_of_notMem hNone]
      rfl

/-
  The steps for a non-terminal always end. They answer
  whether it was there.
-/
theorem run_undefineNonTerminal
    (g : Grammar)
    (symbol : String) :
    (program (.undefineNonTerminal symbol)).run g =
      .ok (.wasDefined (g.isNonTerminal symbol))
        (g.undefineNonTerminal symbol) := by
  unfold Grammar.undefineNonTerminal
  simp only [program, EStateM.run_bind, EStateM.run_get,
    EStateM.run_modify]
  cases hFound : g.isNonTerminal symbol with
  | true =>
      simp only [if_true, EStateM.run_bind, run_clearStartUsing]
      rfl
  | false =>
      have hNone : symbol ∉ g.nonTerminals := by
        rw [← Grammar.isNonTerminal_iff, hFound]
        exact Bool.false_ne_true
      rw [erase_eq_self_of_notMem hNone]
      rfl

/- The steps for a start symbol do as the operation does. -/
theorem run_defineStartSymbol
    (g : Grammar)
    (symbol : String)
    (labels : Labels) :
    (program (.defineStartSymbol symbol labels)).run g =
      settle g (g.edit (.defineStartSymbol symbol labels)) := by
  simp only [program, EStateM.run_bind, run_enterNonTerminal,
    Grammar.edit, Grammar.defineStartSymbol]
  cases g.defineNonTerminal symbol <;> rfl

/- The steps for a new rule do as the operation does. -/
theorem run_addRule
    (g : Grammar)
    (rule : Rule) :
    (program (.addRule rule)).run g =
      settle g (g.edit (.addRule rule)) := by
  simp only [program, EStateM.run_bind, EStateM.run_get,
    Grammar.edit, Grammar.addRule, RuleBook.insert]
  cases g.ruleFault? rule with
  | some error => rfl
  | none =>
      simp only [EStateM.run_bind, EStateM.run_get]
      split
      · rfl
      · simp only [EStateM.run_bind, run_enterRule]
        rfl

/- The steps that take a rule out do as the operation does. -/
private theorem run_undefineRule
    (g : Grammar)
    (name : String) :
    (program (.undefineRule name)).run g =
      settle g (g.edit (.undefineRule name)) := by
  simp only [program, EStateM.run_bind, EStateM.run_get,
    EStateM.run_modify, Grammar.edit, Grammar.undefineRule,
    RuleBook.remove]
  cases hFound : g.rules.get? name with
  | none =>
      rw [erase_eq_self hFound]
      rfl
  | some rule => rfl

/-
  The steps of an edit make the grammar that the operation makes
  in one, and no step is taken before an error.
-/
theorem run_program
    (g : Grammar)
    (edit : Edit) :
    (program edit).run g = settle g (g.edit edit) := by
  cases edit with
  | defineTerminal symbol =>
      simp only [program, EStateM.run_bind, EStateM.run_get,
        Grammar.edit, Grammar.defineTerminal]
      split <;> rfl
  | defineNonTerminal symbol =>
      simp only [program, EStateM.run_bind,
        run_enterNonTerminal, Grammar.edit]
      cases g.defineNonTerminal symbol <;> rfl
  | undefineTerminal symbol =>
      exact run_undefineTerminal g symbol
  | undefineNonTerminal symbol =>
      exact run_undefineNonTerminal g symbol
  | defineStartSymbol symbol labels =>
      exact run_defineStartSymbol g symbol labels
  | defineStartGraph graph =>
      simp only [program, EStateM.run_bind, EStateM.run_get,
        Grammar.edit, Grammar.defineStartGraph]
      cases g.graphFault? graph .startGraph <;> rfl
  | undefineStart =>
      simp only [program, EStateM.run_bind, run_clearStart]
      rfl
  | addRule rule => exact run_addRule g rule
  | undefineRule name => exact run_undefineRule g name

end Edit

end GraphRewriting

------------------------------------------------------------
-- Runs Of Edits
------------------------------------------------------------

namespace GraphRewriting

namespace Grammar

/-
  The grammar that the steps of an edit leave
  behind, and the answer.
-/
def perform
    (g : Grammar)
    (edit : Edit) : Grammar × Except GrammarError Edit.Answer :=
  match edit.program.run g with
  | .ok answer next => (next, .ok answer)
  | .error error reached => (reached, .error error)

/- The grammar after some edits, those that fail included. -/
def afterEdits
    (g : Grammar)
    (edits : List Edit) : Grammar :=
  edits.foldl (fun g edit => (g.perform edit).1) g

/-
  What an edit without error makes of a grammar, by the
  operation behind it.
-/
def Makes
    (g next : Grammar) :
    Edit → Prop
  | .defineTerminal symbol => g.defineTerminal symbol = .ok next
  | .defineNonTerminal symbol =>
      g.defineNonTerminal symbol = .ok next
  | .undefineTerminal symbol => g.undefineTerminal symbol = next
  | .undefineNonTerminal symbol =>
      g.undefineNonTerminal symbol = next
  | .defineStartSymbol symbol labels =>
      g.defineStartSymbol symbol labels = .ok next
  | .defineStartGraph graph =>
      g.defineStartGraph graph = .ok next
  | .undefineStart => g.undefineStart = next
  | .addRule rule => g.addRule rule = .ok next
  | .undefineRule name => g.undefineRule name = .ok next

variable {g next : Grammar}

private theorem ok_of_answered
    {α : Type}
    {answer given : α}
    {made : Except GrammarError Grammar}
    (h :
      (made.map fun next => (given, next)) =
        .ok (answer, next)) :
    made = .ok next := by
  rcases map_eq_ok_iff.1 h with ⟨defined, hMade, hEq⟩
  cases hEq
  exact hMade

/-
  An edit without error goes through the operation behind it.
-/
theorem makes_of_edit
    {edit : Edit}
    {answer : Edit.Answer}
    (h : g.edit edit = .ok (answer, next)) :
    g.Makes next edit := by
  cases edit with
  | undefineTerminal symbol =>
      cases h
      rfl
  | undefineNonTerminal symbol =>
      cases h
      rfl
  | undefineStart =>
      cases h
      rfl
  | undefineRule name =>
      unfold Grammar.edit at h
      dsimp only at h
      cases hFound : g.rules.get? name with
      | none =>
          rw [hFound] at h
          cases h
      | some rule =>
          rw [hFound] at h
          exact ok_of_answered h
  | _ => exact ok_of_answered h

theorem perform_of_ok
    {edit : Edit}
    {answer : Edit.Answer}
    (h : g.edit edit = .ok (answer, next)) :
    g.perform edit = (next, .ok answer) := by
  unfold perform
  rw [Edit.run_program, h]
  rfl

/- An edit that fails leaves the grammar as it was. -/
theorem perform_of_error
    {edit : Edit}
    {error : GrammarError}
    (h : g.edit edit = .error error) :
    g.perform edit = (g, .error error) := by
  unfold perform
  rw [Edit.run_program, h]
  rfl

/- Nothing is different after an error. -/
theorem perform_fst_of_error
    {edit : Edit}
    {error : GrammarError}
    (h : (g.perform edit).2 = .error error) :
    (g.perform edit).1 = g := by
  cases hEdit : g.edit edit with
  | ok made =>
      rcases made with ⟨answer, next⟩
      rw [perform_of_ok hEdit] at h
      cases h
  | error other => rw [perform_of_error hEdit]

theorem afterEdits_cons
    (g : Grammar)
    (edit : Edit)
    (edits : List Edit) :
    g.afterEdits (edit :: edits) =
      (g.perform edit).1.afterEdits edits :=
  rfl

theorem afterEdits_append
    (g : Grammar)
    (edits later : List Edit) :
    g.afterEdits (edits ++ later) =
      (g.afterEdits edits).afterEdits later :=
  List.foldl_append

/- An edit without error makes a grammar that is built. -/
theorem IsBuilt.edit
    (hg : g.IsBuilt)
    {edit : Edit}
    {answer : Edit.Answer}
    (h : g.edit edit = .ok (answer, next)) :
    next.IsBuilt := by
  have hMakes := makes_of_edit h
  cases edit with
  | defineTerminal symbol => exact hg.defineTerminal hMakes
  | defineNonTerminal symbol =>
      exact hg.defineNonTerminal hMakes
  | undefineTerminal symbol =>
      cases hMakes
      exact hg.undefineTerminal symbol
  | undefineNonTerminal symbol =>
      cases hMakes
      exact hg.undefineNonTerminal symbol
  | defineStartSymbol symbol labels =>
      exact hg.defineStartSymbol hMakes
  | defineStartGraph graph => exact hg.defineStartGraph hMakes
  | undefineStart =>
      cases hMakes
      exact hg.undefineStart
  | addRule rule => exact hg.addRule hMakes
  | undefineRule name => exact hg.undefineRule hMakes

/- Any edit leaves a grammar that is built. -/
theorem IsBuilt.perform
    (hg : g.IsBuilt)
    (edit : Edit) :
    (g.perform edit).1.IsBuilt := by
  cases hEdit : g.edit edit with
  | ok made =>
      rcases made with ⟨answer, next⟩
      rw [perform_of_ok hEdit]
      exact hg.edit hEdit
  | error error =>
      rw [perform_of_error hEdit]
      exact hg

theorem IsBuilt.afterEdits
    (hg : g.IsBuilt)
    (edits : List Edit) :
    (g.afterEdits edits).IsBuilt := by
  induction edits generalizing g with
  | nil => exact hg
  | cons edit edits ih =>
      rw [afterEdits_cons]
      exact ih (hg.perform edit)

end Grammar

end GraphRewriting

------------------------------------------------------------
-- Grammars In Order
------------------------------------------------------------

namespace GraphRewriting

namespace Grammar

/-
  What a grammar shows to be in order: its symbols are of one
  sort, its start is over them and is that of its start symbol,
  and its rules are found under their names and listed by kind.
-/
structure IsInOrder (g : Grammar) : Prop where
  disjoint :
    ∀ symbol : String,
      symbol ∈ g.terminals → symbol ∉ g.nonTerminals
  startKnown :
    ∀ (graph : Graph) (holder : Holder),
      g.startGraph = some graph →
        g.graphFault? graph holder = none
  startSingle :
    ∀ symbol : String,
      g.startSymbol = some symbol →
        symbol ∈ g.nonTerminals ∧
          ∃ (graph : Graph) (labels : Labels),
            g.startGraph = some graph ∧
              graph.nodes.nodes = [⟨NodeId.base, labels⟩] ∧
                labels.symbol = symbol ∧ graph.edges = ∅
  named :
    ∀ (name : String) (rule : Rule),
      g.rules.get? name = some rule → rule.name = name
  listed :
    ∀ kind : RuleKind,
      g.rules.namesOfKind kind =
        (g.rules.toList.filter fun rule =>
            rule.kind == kind).map
          Rule.name
  inhabited :
    ∀ (kind : RuleKind) (names : Std.ExtTreeSet String),
      g.rules.byKind[kind]? = some names → names ≠ ∅

variable {g : Grammar}

/- A grammar that is built shows to be in order. -/
theorem IsBuilt.isInOrder
    (hg : g.IsBuilt) :
    g.IsInOrder where
  disjoint := hg.isConsistent.disjoint
  startKnown graph _ hGraph :=
    graphFault?_eq_none_iff.2 (hg.knowsStart graph hGraph)
  startSingle symbol hSymbol := by
    rcases hg.isConsistent.start symbol hSymbol with
      ⟨hMem, labels, hGraph⟩
    exact
      ⟨hMem, _, labels.setSymbol symbol, hGraph, rfl,
        Labels.symbol_setSymbol _ _, rfl⟩
  named := hg.isConsistent.indexed.named
  listed := hg.isConsistent.indexed.namesOfKind_eq
  inhabited := hg.isConsistent.indexed.inhabited

/-
  Whatever is done to a grammar, it stays in order, its book of
  rules is told by the rules in it, and what fails leaves the
  grammar as it was.
-/
theorem in_order_after_edits
    (config : GrammarConfig)
    (edits : List Edit) :
    let g := (ofConfig config).afterEdits edits
    g.IsInOrder ∧
      (∀ (otherConfig : GrammarConfig) (otherEdits : List Edit),
        let other :=
          (ofConfig otherConfig).afterEdits otherEdits
        (g.rules = other.rules ↔
            ∀ rule : Rule,
              rule ∈ g.rules.toList ↔
                rule ∈ other.rules.toList) ∧
          (g.rules.plain = other.rules.plain ↔
            ∀ rule : Rule,
              rule ∈ g.rules.toList.map Rule.plain ↔
                rule ∈ other.rules.toList.map Rule.plain)) ∧
        ∀ (edit : Edit) (error : GrammarError),
          (g.perform edit).2 = .error error →
            (g.perform edit).1 = g := by
  intro g
  have hBuilt : g.IsBuilt :=
    (IsBuilt.ofConfig config).afterEdits edits
  refine
    ⟨hBuilt.isInOrder, ?_,
      fun edit error hError => perform_fst_of_error hError⟩
  intro otherConfig otherEdits other
  have hIndexed := hBuilt.isConsistent.indexed
  have hOther : other.IsBuilt :=
    (IsBuilt.ofConfig otherConfig).afterEdits otherEdits
  exact
    ⟨hIndexed.eq_iff_mem hOther.isConsistent.indexed,
      hIndexed.plain_eq_iff_mem hOther.isConsistent.indexed⟩

/- A shoot that puts out leaves, once it is a non-terminal. -/
def leafing : Rule :=
  .node
    ⟨"leaf", .ofSymbol "shoot", symbolGraph "leaf" ∅,
      Labels.nameKey_mem_ofSymbol "shoot",
      by decide +kernel⟩

/- The rule comes too early at first, and twice at last. -/
def leafingEdits : List Edit :=
  [.addRule leafing, .defineTerminal "leaf",
    .defineStartSymbol "leaf" ∅,
    .defineStartSymbol "shoot" ∅, .addRule leafing,
    .addRule leafing,
    .undefineRule "root"]

/- The edits that fail in between do no harm to the order. -/
theorem in_order_after_leafingEdits :
    let g := (ofConfig .standard).afterEdits leafingEdits
    (g.startSymbol = some "shoot" ∧ g.rules.names = ["leaf"] ∧
        (g.perform (.defineStartSymbol "leaf" ∅)).2 =
          .error (.definedAsTerminal "leaf")) ∧
      g.IsInOrder ∧
        (g.perform (.defineStartSymbol "leaf" ∅)).1 = g := by
  intro g
  have hRefused :
      (g.perform (.defineStartSymbol "leaf" ∅)).2 =
        .error (.definedAsTerminal "leaf") := by
    decide +kernel
  rcases in_order_after_edits .standard leafingEdits with
    ⟨hOrder, -, hKept⟩
  exact
    ⟨⟨by decide +kernel, by decide +kernel, hRefused⟩, hOrder,
      hKept _ _ hRefused⟩

end Grammar

end GraphRewriting
