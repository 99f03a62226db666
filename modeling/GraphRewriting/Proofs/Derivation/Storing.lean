import GraphRewriting.Proofs.Derivation.Provenance
import GraphRewriting.Proofs.Document.EdgeIds

/-
  Derived graphs as start graphs. A working graph can always be
  stored, but copies of an edge carry its document id, and what
  is saved with two of them does not load again.

  Main declarations:
    * `Grammar.IsDescribable.isMarked_of_mem_sources`
    * `Derivation.stored_after`
-/

------------------------------------------------------------
-- Sources That Can Be Described
------------------------------------------------------------

namespace GraphRewriting

namespace Rule

variable {rule : Rule}

theorem IsDescribable.hasSoundReplacement
    (h : rule.IsDescribable) :
    rule.HasSoundReplacement := by
  cases rule with
  | node r => exact Graph.IsDescribable.integrity h
  | region r => exact ⟨h.2.integrity, h.2.separate⟩

private theorem IsDescribable.isMarked_replacement
    (h : rule.IsDescribable) :
    rule.replacement.IsMarked := by
  cases rule with
  | node r => exact Graph.IsDescribable.marked h
  | region r => exact h.2.marked

end Rule

/- Whatever derivations copy has named nodes and edges. -/
theorem Grammar.IsDescribable.isMarked_of_mem_sources
    {g : Grammar}
    (h : g.IsDescribable) :
    ∀ source ∈ g.sources, source.IsMarked := by
  intro source hSource
  rcases Grammar.mem_sources.1 hSource with
    hStart | ⟨rule, hRule, rfl⟩
  · exact (h.start source hStart).marked
  · exact (h.rules rule hRule).isMarked_replacement

end GraphRewriting

------------------------------------------------------------
-- Storing
------------------------------------------------------------

namespace GraphRewriting

namespace Derivation

/- A working graph over the vocabulary can be stored. -/
theorem IsSound.defineStartGraph_eq
    {d : Derivation}
    {g : Grammar}
    (h : d.IsSound g g.NodeSymbol g.EdgeSymbol) :
    g.defineStartGraph d.graph =
      .ok (g.withStart none (some d.graph)) := by
  refine Grammar.defineStartGraph_eq_ok_iff.2 ⟨?_, rfl⟩
  rw [Grammar.graphFault?_eq_none_iff,
    Grammar.knows_iff_carries]
  exact h.graph.symbols

/-
  Wherever rewriting leads in a grammar that was loaded, the
  working graph draws on the start graph and the replacements,
  and can be stored as another start graph. The edges of what
  is then saved have distinct ids exactly if no two edges of
  the working graph carry the same. If so, it loads as the
  stored grammar, and otherwise it is refused over an id.
-/
theorem stored_after
    {document : GrammarDocument}
    {g : Grammar}
    {chunkSize : Nat}
    {d : Derivation}
    (hLoad : document.toGrammar .standard = .ok g)
    (hStart : start g chunkSize = .ok d)
    {actions : List Action}
    (hActions : ∀ action ∈ actions, action.Rewrites) :
    let graph := (d.after actions).graph
    graph.DrawsOn g.sources ∧
      ∃ stored : Grammar,
        g.defineStartGraph graph = .ok stored ∧
          ∀ saved : GrammarDocument,
            GrammarDocument.ofGrammar stored = .ok saved →
              (saved.HasDistinctIds ↔
                (carriedIds graph.edges.toList).Nodup) ∧
                (saved.HasDistinctIds →
                    ∃ again : Grammar,
                      saved.toGrammar .standard = .ok again ∧
                        again ≈ stored) ∧
                  (¬ saved.HasDistinctIds →
                    ∃ id : String,
                      saved.toGrammar .standard =
                        .error
                          (.badDocument
                            (.edgeIdRedeclared id))) := by
  intro graph
  have hBuilt := GrammarDocument.isBuilt_of_toGrammar hLoad
  rcases GrammarDocument.describable_of_toGrammar hLoad with
    ⟨hConfig, hDescribable, -⟩
  rcases GrammarDocument.mem_terminals_of_toGrammar hLoad with
    ⟨terminals, -, hMem⟩
  have hEmpty :
      "" ∈ g.terminals ↔
        g.config.emptySymbolIsTerminal = true := by
    rw [hConfig, hMem]
    exact ⟨fun _ => rfl, fun _ => Or.inl ⟨rfl, rfl⟩⟩
  have hLetsIn := hBuilt.letsIn fun rule hRule =>
    Grammar.ruleFault?_eq_none_iff.2
      (hDescribable.rulesKnown rule hRule)
  have hSound :=
    (isSound_of_start hLetsIn hStart).after hLetsIn actions
  have hDraws := (draws_of_start hStart).after
    (fun rule hRule =>
        (hDescribable.rules rule hRule).hasSoundReplacement)
      hActions
  have hMarked := hDescribable.isMarked_of_mem_sources
  have hStored := hSound.defineStartGraph_eq
  refine ⟨hDraws.graph, _, hStored, ?_⟩
  intro saved hSaved
  rw [← hConfig]
  refine GrammarDocument.reload_of_defineStartGraph hBuilt
    hEmpty hDescribable hSound.graph.integrity ?_ ?_ hStored
    hSaved
  · exact hDraws.graph.forall_node
      (fun labels => Labels.nameKey ∈ labels)
      fun source hSource => (hMarked source hSource).nodesNamed
  · exact hDraws.graph.forall_edge
      (fun info => Labels.nameKey ∈ info.labels)
      fun source hSource => (hMarked source hSource).edgesNamed

/-
  A bud becomes a twig with another bud, over
  an edge with an id.
-/
def vineElement : RuleElement :=
  let bud : NodeElement := ⟨some (.name "n"), some "S", ∅⟩
  let stem : EdgeElement :=
    ⟨some (.name "e"), some NodeId.base, some (.name "n"), none,
      ∅⟩
  ⟨some "grow", some ⟨some "S", ∅⟩, none, none,
    some ⟨some "t", ∅, [bud], [stem], [], []⟩⟩

/- A document that starts from a bud. -/
def vineDocument : GrammarDocument where
  terminals := some ["t"]
  nonTerminals := some ["S"]
  startSymbol := some ⟨some "S", ∅⟩
  startGraphs := []
  rules := some [vineElement]

/- The bud of the start grows. -/
def vineGrowth : Action :=
  .applyRule "grow" (.node (.num 0))

/- So does the bud that it grew. -/
def vineRegrowth : Action :=
  .applyRule "grow" (.node (.num 2))

/-
  Load a grammar, derive in it, store the working graph
  and save the grammar.
-/
def saveAfter
    (document : GrammarDocument)
    (actions : List Action) :
    Except GrammarError
      (Derivation × Grammar × GrammarDocument) := do
  let g ← document.toGrammar .standard
  let d ← start g 1
  let stored ← g.defineStartGraph (d.after actions).graph
  let saved ← GrammarDocument.ofGrammar stored
  return (d, stored, saved)

/- The whole path goes through if each of its steps does. -/
theorem saveAfter_eq_ok_iff
    {document saved : GrammarDocument}
    {actions : List Action}
    {d : Derivation}
    {stored : Grammar} :
    saveAfter document actions = .ok (d, stored, saved) ↔
      ∃ g : Grammar,
        document.toGrammar .standard = .ok g ∧
          start g 1 = .ok d ∧
          g.defineStartGraph (d.after actions).graph =
            .ok stored ∧
            GrammarDocument.ofGrammar stored = .ok saved := by
  constructor
  · intro h
    rcases bind_eq_ok_iff.1 h with ⟨g, hLoad, h⟩
    rcases bind_eq_ok_iff.1 h with ⟨opened, hStart, h⟩
    rcases bind_eq_ok_iff.1 h with ⟨next, hStored, h⟩
    rcases bind_eq_ok_iff.1 h with ⟨written, hSaved, h⟩
    cases h
    exact ⟨g, hLoad, hStart, hStored, hSaved⟩
  · rintro ⟨g, hLoad, hStart, hStored, hSaved⟩
    unfold saveAfter
    rw [bind_of_eq_ok hLoad, bind_of_eq_ok hStart,
      bind_of_eq_ok hStored, bind_of_eq_ok hSaved]
    rfl

/-
  A bud that grows once makes a start graph that loads again.
-/
theorem stored_after_vineGrowth :
    ∃ (d : Derivation) (stored again : Grammar)
        (saved : GrammarDocument),
      saveAfter vineDocument [vineGrowth] =
        .ok (d, stored, saved) ∧
        carriedIds (d.after [vineGrowth]).graph.edges.toList =
          ["e"] ∧
          saved.HasDistinctIds ∧
            saved.toGrammar .standard = .ok again ∧
              again ≈ stored := by
  have hRun :
      ((saveAfter vineDocument [vineGrowth]).map fun run =>
          carriedIds
            (run.1.after [vineGrowth]).graph.edges.toList) =
        .ok ["e"] := by
    decide +kernel
  rcases map_eq_ok_iff.1 hRun with
    ⟨⟨d, stored, saved⟩, hSave, hIds⟩
  rcases saveAfter_eq_ok_iff.1 hSave with
    ⟨g, hLoad, hStart, hDefine, hSaved⟩
  have hActions : ∀ action ∈ [vineGrowth], action.Rewrites := by
    simp [vineGrowth, Action.Rewrites]
  rcases stored_after hLoad hStart hActions with
    ⟨-, next, hNext, hAll⟩
  rw [hDefine] at hNext
  cases hNext
  rcases hAll saved hSaved with ⟨hDistinct, hLoads, -⟩
  rw [← hIds] at hDistinct
  have hNodup : saved.HasDistinctIds := hDistinct.2 (by decide)
  rcases hLoads hNodup with ⟨again, hAgain, hEquiv⟩
  exact
    ⟨d, stored, again, saved, hSave, hIds.symm, hNodup, hAgain,
      hEquiv⟩

/-
  A bud that grows twice makes one with two edges under one
  id, which does not.
-/
theorem stored_after_vineRegrowth :
    ∃ (d : Derivation) (stored : Grammar)
        (saved : GrammarDocument),
      saveAfter vineDocument [vineGrowth, vineRegrowth] =
        .ok (d, stored, saved) ∧
        (d.answers [vineGrowth, vineRegrowth]).map Except.isOk =
          [true, true] ∧
          ¬ saved.HasDistinctIds ∧
            saved.toGrammar .standard =
              .error
                (.badDocument (.edgeIdRedeclared "e")) := by
  have hRun :
      ((saveAfter vineDocument [vineGrowth, vineRegrowth]).map
        fun run =>
          ((run.1.answers [vineGrowth, vineRegrowth]).map
            Except.isOk,
            decide run.2.2.HasDistinctIds,
            run.2.2.toGrammar .standard)) =
        .ok
          ([true, true], false,
            .error (.badDocument (.edgeIdRedeclared "e"))) := by
    decide +kernel
  rcases map_eq_ok_iff.1 hRun with
    ⟨⟨d, stored, saved⟩, hSave, hFacts⟩
  rw [Prod.mk.injEq, Prod.mk.injEq] at hFacts
  rcases hFacts with ⟨hAnswers, hDistinct, hRefused⟩
  exact
    ⟨d, stored, saved, hSave, hAnswers.symm,
      of_decide_eq_false hDistinct.symm, hRefused.symm⟩

end Derivation

end GraphRewriting
