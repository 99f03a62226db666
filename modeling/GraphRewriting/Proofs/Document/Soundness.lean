import GraphRewriting.Proofs.Derivation.Lookups
import GraphRewriting.Proofs.Document.Loaded
import Mathlib.Data.List.Forall2

/-
  Grammars that are read from documents are well formed,
  whatever the documents hold, and so can be used without
  looking up an id that is not there.

  Main declarations:
    * `Grammar.IsWellFormed`
    * `Rule.FindsIds`
    * `GrammarDocument.DescribesRules`
    * `GrammarDocument.isWellFormed_of_toGrammar`
-/

------------------------------------------------------------
-- Well-Formed Grammars
------------------------------------------------------------

namespace GraphRewriting

/-
  The symbols of a grammar are consistent, and its start graph
  and rules are well formed and over the vocabulary.
-/
structure Grammar.IsWellFormed (g : Grammar) : Prop where
  consistent : g.IsConsistent
  start :
    ∀ graph : Graph,
      g.startGraph = some graph →
        g.Knows graph ∧ graph.IsWellFormed
  rules :
    ∀ rule ∈ g.rules.toList,
      g.KnowsRule rule ∧ rule.IsWellFormed

/-
  Once ids are drawn for the nodes that a rule copies, each id
  that its application looks up is among them, and at no match
  does it come upon an edge without its ends.
-/
structure Rule.FindsIds (rule : Rule) : Prop where
  drawn :
    ∀ (σ : Type) (source : IdSource σ) (target : Graph)
        (supply rest : σ) (fresh : FreshIds),
      drawIds rule.name target source ∅ rule.copiedIds supply =
        (.ok fresh, rest) →
        ∀ id ∈ rule.lookedUp, id ∈ fresh
  ends :
    ∀ (σ : Type) (source : IdSource σ) (found : RuleMatch)
        (target : Graph) (supply : σ) (error : GrammarError),
      (rule.apply source found target supply).result =
          .error error →
        error.kind ≠ .fatal

/-
  The edges of a well-formed rule have the ends that its
  application looks up.
-/
private theorem Rule.IsWellFormed.hasSoundReplacement
    {rule : Rule}
    (h : rule.IsWellFormed) :
    rule.HasSoundReplacement := by
  cases rule with
  | node r => exact h.2.integrity
  | region r => exact ⟨h.2.2.integrity, h.2.2.separate⟩

/- A well-formed rule finds an id for all that it copies. -/
theorem Rule.IsWellFormed.findsIds
    {rule : Rule}
    (h : rule.IsWellFormed) :
    rule.FindsIds where
  drawn _ _ _ _ _ _ hDraw _ hId :=
    mem_fresh_of_mem_lookedUp h.hasSoundReplacement hDraw hId
  ends _ _ _ _ _ _ hResult :=
    kind_ne_fatal_of_apply h.hasSoundReplacement hResult

end GraphRewriting

------------------------------------------------------------
-- Documents
------------------------------------------------------------

namespace GraphRewriting

/- A graph of a single node has no edges. -/
theorem Grammar.isWellFormed_symbolGraph
    (symbol : String)
    (labels : Labels) :
    (symbolGraph symbol labels).IsWellFormed where
  integrity := by
    intro edge hEdge
    cases hEdge
  ids := by
    constructor
    · intro edge hEdge
      cases hEdge
    · exact List.nodup_nil

namespace GrammarDocument

/-
  Rules correspond one by one to the rule elements of a
  document. A rule has the name of its element, which no other
  rule has, and the first accepted kind for which the element
  has a left-hand side.
-/
def DescribesRules
    (document : GrammarDocument)
    (config : GrammarConfig)
    (rules : List Rule) : Prop :=
  ∃ (elements : List RuleElement) (listed : List Rule),
    document.rules = some elements ∧
      List.Forall₂
        (fun element rule =>
          element.name = some rule.name ∧
            config.acceptableKinds.find? element.hasSide =
              some rule.kind)
        elements listed ∧
        listed.Perm rules ∧ (rules.map Rule.name).Nodup

variable {document : GrammarDocument}
variable {config : GrammarConfig}
variable {g : Grammar}

/- The rules of the grammar are those of the document. -/
theorem describesRules_of_toGrammar
    (h : document.toGrammar config = .ok g) :
    document.DescribesRules config g.rules.toList := by
  rcases exists_rules_of_toGrammar h with
    ⟨-, elements, rules, hElements, hRead, hPerm, -⟩
  refine ⟨elements, rules, hElements, ?_, hPerm.symm,
    (isBuilt_of_toGrammar h).isConsistent.indexed.names_nodup⟩
  refine ((map_eq_ok_iff_forall₂ Iff.rfl).1 hRead).imp ?_
  intro element rule hToRule
  exact (RuleElement.isWellFormed_of_toRule hToRule).1

/-
  Whatever document a grammar is read from, it is well formed,
  and has the start and the rules that the document describes.
  A derivation starts from it exactly if it has a start graph,
  and its rules find the ids that they look up.
-/
theorem isWellFormed_of_toGrammar
    (h : document.toGrammar config = .ok g) :
    (g.config = config ∧ g.IsWellFormed) ∧
      (document.DescribesStart g ∧
        document.DescribesRules config g.rules.toList) ∧
        (∀ chunkSize : Nat,
          (∃ d : Derivation,
            Derivation.start g chunkSize = .ok d) ↔
            ∃ graph : Graph, g.startGraph = some graph) ∧
          ∀ rule ∈ g.rules.toList, rule.FindsIds := by
  have hBuilt := isBuilt_of_toGrammar h
  rcases exists_rules_of_toGrammar h with
    ⟨hConfig, elements, rules, -, hRead, hPerm, hKnows⟩
  have hStart :
      ∀ graph : Graph,
        g.startGraph = some graph → graph.IsWellFormed := by
    intro graph hGraph
    rcases startGraph_of_toGrammar h hGraph with
      ⟨symbol, labels, rfl⟩ | ⟨element, -, hRead⟩
    · exact Grammar.isWellFormed_symbolGraph symbol labels
    · exact GraphElement.isWellFormed_of_toGraph hRead
  have hRules :
      ∀ rule ∈ g.rules.toList,
        g.KnowsRule rule ∧ rule.IsWellFormed := by
    intro rule hRule
    have hMem := hPerm.mem_iff.1 hRule
    rcases exists_of_mem_of_map_eq_ok hRead hMem with
      ⟨element, -, hToRule⟩
    exact
      ⟨hKnows rule hMem,
        (RuleElement.isWellFormed_of_toRule hToRule).2⟩
  refine
    ⟨⟨hConfig, hBuilt.isConsistent, ?_, hRules⟩,
      ⟨describesStart_of_toGrammar h,
        describesRules_of_toGrammar h⟩,
      ?_, ?_⟩
  · exact fun graph hMem =>
      ⟨hBuilt.knowsStart graph hMem, hStart graph hMem⟩
  · intro chunkSize
    exact Derivation.exists_start_eq_ok_iff fun graph hMem =>
      (hStart graph hMem).integrity
  · exact fun rule hRule => (hRules rule hRule).2.findsIds

/-
  A document with a start graph, a rule with two left-hand sides
  and a rule whose replacement inherits its exotic node.
-/
def thicket : GrammarDocument :=
  let edge := fun (id start stop : NodeId) =>
    (⟨some id, some start, some stop, none, ∅⟩ : EdgeElement)
  let stalk :=
    fun (symbol : String) (leaves : List ExoticElement) =>
      (⟨some symbol, ∅, [],
          [edge (.num 1) .base (.name "leaf")], [], leaves⟩ :
        GraphElement)
  let leaf : ExoticElement := ⟨some (.name "leaf")⟩
  let bud : NodeElement := ⟨some (.name "bud"), some "S", ∅⟩
  let start : GraphElement :=
    ⟨some "S", ∅, [bud], [edge (.num 1) .base (.name "bud")],
      [], []⟩
  let sprouted : GraphElement :=
    ⟨some "a", ∅, [bud],
      [edge (.num 1) .base (.name "bud"),
        edge (.num 2) (.name "bud") .base], [], []⟩
  let sprout : RuleElement :=
    ⟨some "sprout", some ⟨some "S", ∅⟩, none,
      some (stalk "S" [leaf]), some sprouted⟩
  let ripen : RuleElement :=
    ⟨some "ripen", none, none, some (stalk "S" [leaf]),
      some (stalk "a" [])⟩
  ⟨some ["a"], some ["S"], none, [start], some [sprout, ripen]⟩

theorem isWellFormed_of_toGrammar_thicket :
    ∃ g : Grammar,
      thicket.toGrammar .standard = .ok g ∧ g.IsWellFormed ∧
        (thicket.DescribesStart g ∧
          thicket.DescribesRules .standard g.rules.toList) ∧
          (∃ d : Derivation,
            Derivation.start g standardChunkSize = .ok d) ∧
            ∀ rule ∈ g.rules.toList, rule.FindsIds := by
  have hLoads :
      ((thicket.toGrammar .standard).toOption.bind
          Grammar.startGraph).isSome =
        true := by
    decide +kernel
  cases h : thicket.toGrammar .standard with
  | error error =>
      rw [h] at hLoads
      cases hLoads
  | ok g =>
      rw [h] at hLoads
      rcases isWellFormed_of_toGrammar h with
        ⟨⟨-, hFormed⟩, hDescribed, hStarts, hFinds⟩
      have hStart :=
        (hStarts standardChunkSize).2
          (Option.isSome_iff_exists.1 hLoads)
      exact ⟨g, rfl, hFormed, hDescribed, hStart, hFinds⟩

end GrammarDocument

end GraphRewriting
