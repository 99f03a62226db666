import GraphRewriting.Proofs.Derivation.Soundness
import GraphRewriting.Proofs.Derivation.Tracking
import GraphRewriting.Proofs.Rewriting.Atomicity

/-
  Actions that fail: without them, a run of a derivation gives
  the same answers and leaves the same graphs.

  Main declarations:
    * `Derivation.graph_perform_of_error`
    * `Derivation.IsTracked.alike_of_error`
    * `Derivation.answers_without_failure`
-/

------------------------------------------------------------
-- Runs In Parts
------------------------------------------------------------

namespace GraphRewriting

namespace Derivation

variable {d : Derivation}
variable {before later : List Action}

theorem after_append :
    d.after (before ++ later) = (d.after before).after later :=
  List.foldl_append

theorem after_cons
    {action : Action} :
    d.after (action :: later) =
      (d.perform action).1.after later := rfl

/- Later actions are answered where the earlier ones lead. -/
theorem answers_append :
    d.answers (before ++ later) =
      d.answers before ++ (d.after before).answers later := by
  induction before generalizing d with
  | nil => rfl
  | cons action before ih =>
      rw [List.cons_append, answers, answers, ih, after_cons,
        List.cons_append]

/- Every action has an answer, those that fail included. -/
theorem length_answers :
    (d.answers before).length = before.length := by
  induction before generalizing d with
  | nil => rfl
  | cons action before ih =>
      rw [answers, List.length_cons, ih, List.length_cons]

/-
  Room for all actions is room for the first ones, and for the
  others where these lead.
-/
theorem hasRoom_append :
    d.HasRoom (before ++ later) ↔
      d.HasRoom before ∧ (d.after before).HasRoom later := by
  induction before generalizing d with
  | nil => exact (and_iff_right trivial).symm
  | cons action before ih =>
      exact (and_congr_right' ih).trans and_assoc.symm

/-
  No action exchanges the grammar, nor the graph that
  a reset returns to.
-/
theorem frame_perform
    (d : Derivation)
    (action : Action) :
    (d.perform action).1.grammar = d.grammar ∧
      (d.perform action).1.initial = d.initial := by
  cases action with
  | applyRule name found =>
      unfold perform Derivation.applyRule
      dsimp only
      split <;> exact ⟨rfl, rfl⟩
  | addNode symbol labels =>
      unfold perform Derivation.addNode
      dsimp only
      split <;> exact ⟨rfl, rfl⟩
  | removeNode id =>
      unfold perform Derivation.removeNode
      dsimp only
      cases d.graph.removeNode id <;> exact ⟨rfl, rfl⟩
  | addEdge edge =>
      unfold perform Derivation.addEdge
      dsimp only
      split
      · exact ⟨rfl, rfl⟩
      · cases d.graph.addEdge edge <;> exact ⟨rfl, rfl⟩
  | removeEdge start stop =>
      unfold perform Derivation.removeEdge
      dsimp only
      cases d.graph.removeEdge start stop <;> exact ⟨rfl, rfl⟩
  | reset => exact ⟨rfl, rfl⟩

/- No action changes the grammar. -/
theorem grammar_after
    (d : Derivation)
    (actions : List Action) :
    (d.after actions).grammar = d.grammar :=
  after_preserves (fun reached => reached.grammar = d.grammar)
    rfl
    fun reached action _ hReached =>
      (reached.frame_perform action).1.trans hReached

/- A derivation opens with the grammar it is given. -/
theorem grammar_of_opening
    {opening : Opening}
    {grammar : Grammar}
    {chunkSize : Nat}
    (hOpening : opening.derivation grammar chunkSize = .ok d) :
    d.grammar = grammar := by
  cases opening with
  | start =>
      rcases start_eq_ok_iff.1 hOpening with
        ⟨graph, copy, -, -, rfl⟩
      rfl
  | continueFrom graph =>
      rcases continueFrom_eq_ok_iff.1 hOpening with ⟨-, rfl⟩
      rfl

end Derivation

end GraphRewriting

------------------------------------------------------------
-- Failures
------------------------------------------------------------

namespace GraphRewriting

namespace Derivation

variable {d e : Derivation}

/- A rule that fails leaves the graph as it was. -/
private theorem graph_outcome_of_error
    (hGraph : d.graph.HasIntegrity)
    (hRules :
      ∀ rule ∈ d.grammar.rules.toList, rule.HasSoundReplacement)
    {name : String}
    {found : RuleMatch}
    {error : GrammarError}
    (hError : (d.outcome name found).result = .error error) :
    (d.outcome name found).graph = d.graph := by
  unfold outcome Grammar.applyRule at hError ⊢
  cases hRule : d.grammar.rules.get? name with
  | none => rfl
  | some rule =>
      rw [hRule] at hError
      have hSound := hRules rule (mem_values.2 ⟨name, hRule⟩)
      exact Rule.graph_of_apply_eq_error hSound hGraph hError

/-
  A rule application that fails leaves the
  working graph as it was.
-/
theorem graph_applyRule_of_error
    (hGraph : d.graph.HasIntegrity)
    (hRules :
      ∀ rule ∈ d.grammar.rules.toList, rule.HasSoundReplacement)
    {name : String}
    {found : RuleMatch}
    {error : GrammarError}
    (hError : (d.applyRule name found).2 = .error error) :
    (d.applyRule name found).1.graph = d.graph := by
  rw [applyRule_eq_outcome] at hError ⊢
  cases hResult : (d.outcome name found).result with
  | error other =>
      exact graph_outcome_of_error hGraph hRules hResult
  | ok rewrite =>
      rw [hResult] at hError
      cases hError

private theorem attempt_of_error
    {reply : Reply}
    {next : Except GrammarError Derivation}
    {error : GrammarError}
    (hError : (d.attempt reply next).2 = .error error) :
    (d.attempt reply next).1 = d := by
  cases next with
  | error other => rfl
  | ok next => cases hError

/- Every action that fails does. -/
theorem graph_perform_of_error
    (hGraph : d.graph.HasIntegrity)
    (hRules :
      ∀ rule ∈ d.grammar.rules.toList, rule.HasSoundReplacement)
    {action : Action}
    {error : GrammarError}
    (hError : (d.perform action).2 = .error error) :
    (d.perform action).1.graph = d.graph := by
  cases action with
  | applyRule name found =>
      unfold perform at hError
      cases hApplied : (d.applyRule name found).2 with
      | error other =>
          exact graph_applyRule_of_error hGraph hRules hApplied
      | ok rewrite =>
          dsimp only at hError
          rw [hApplied] at hError
          cases hError
  | addNode symbol labels =>
      unfold perform Derivation.addNode at hError ⊢
      dsimp only at hError ⊢
      split at hError
      · rfl
      · cases hError
  | removeNode id => rw [perform, attempt_of_error hError]
  | addEdge edge => rw [perform, attempt_of_error hError]
  | removeEdge start stop =>
      rw [perform, attempt_of_error hError]
  | reset => cases hError

/-
  The pool of a tracked derivation is told by its graph, as
  far as answers go.
-/
theorem IsTracked.alike
    (h : d.IsTracked)
    (h' : e.IsTracked)
    (hGrammar : d.grammar = e.grammar)
    (hInitial : d.initial = e.initial)
    (hGraph : d.graph = e.graph) :
    Alike d e where
  grammar := hGrammar
  initial := hInitial
  graph := hGraph
  pool := by
    refine ⟨h.consistent, h'.consistent, ?_⟩
    intro n
    rw [h.inUse_iff, h'.inUse_iff, hGraph]

/- An action that fails gives back every id that it drew. -/
theorem IsTracked.alike_of_error
    (h : d.IsTracked)
    (hGraph : d.graph.HasIntegrity)
    (hRules :
      ∀ rule ∈ d.grammar.rules.toList, rule.HasSoundReplacement)
    {action : Action}
    (hRoom : (d.inUseDuring action).card < idLimit)
    {error : GrammarError}
    (hError : (d.perform action).2 = .error error) :
    Alike (d.perform action).1 d := by
  rcases d.frame_perform action with ⟨hGrammar, hInitial⟩
  have hKept := graph_perform_of_error hGraph hRules hError
  exact (h.perform hRoom).1.alike h hGrammar hInitial hKept

end Derivation

end GraphRewriting

------------------------------------------------------------
-- Runs Without Their Failures
------------------------------------------------------------

namespace GraphRewriting

namespace Derivation

/-
  An action that fails leaves no trace. Where it is left out of
  a run, all other answers are the same, ids included, and so
  are the graphs that the run comes to. The pools have the same
  numbers in use, and may differ in how many are free without a
  further chunk. The edges of the graph must have their ends
  where the action fails, as they always do if they have them
  at the start.
-/
theorem answers_without_failure
    {opening : Opening}
    {grammar : Grammar}
    {chunkSize : Nat}
    {start : Derivation}
    {before : List Action}
    {failed : Action}
    {error : GrammarError}
    (hRules :
      ∀ rule ∈ grammar.rules.toList, rule.HasSoundReplacement)
    (hOpening :
      opening.derivation grammar chunkSize = .ok start)
    (hDrawn :
      (NodeId.numbers (opening.drawn grammar chunkSize)).card <
        idLimit)
    (hRoom : start.HasRoom (before ++ [failed]))
    (hGraph : (start.after before).graph.HasIntegrity)
    (hError :
      ((start.after before).perform failed).2 = .error error)
    (later : List Action) :
    let whole := before ++ failed :: later
    let rest := before ++ later
    (start.answers whole).eraseIdx before.length =
      start.answers rest ∧
      (start.after whole).graph = (start.after rest).graph ∧
        IdPool.SameUse (start.after whole).pool
          (start.after rest).pool := by
  intro whole rest
  rw [hasRoom_append] at hRoom
  have hTracked : (start.after before).IsTracked :=
    (isTracked_of_opening hOpening hDrawn).1.after hRoom.1
  have hGrammar : (start.after before).grammar = grammar := by
    rw [grammar_after, grammar_of_opening hOpening]
  rw [← hGrammar] at hRules
  have hAlike :=
    hTracked.alike_of_error hGraph hRules hRoom.2.1 hError
  have hAfter :
      Alike (start.after whole) (start.after rest) := by
    show
      Alike (start.after (before ++ failed :: later))
        (start.after (before ++ later))
    rw [after_append, after_append, after_cons]
    exact hAlike.after later
  have hAnswers :
      (start.answers whole).eraseIdx before.length =
        start.answers rest := by
    show
      (start.answers (before ++ failed :: later)).eraseIdx
          before.length = start.answers (before ++ later)
    rw [answers_append, answers_append,
      ← length_answers (d := start),
      List.eraseIdx_append_of_length_le (Nat.le_refl _),
      Nat.sub_self, answers, List.eraseIdx_cons_zero,
      hAlike.answers_eq later]
  exact ⟨hAnswers, hAfter.graph, hAfter.pool⟩

/-
  A single node that the rule of `sprouting`
  can be applied to.
-/
def seed : Graph :=
  (∅ : Graph).addNode (.ofSymbol (.num 3) "A")

def atSeed : Derivation :=
  ⟨sprouting, (IdPool.ofChunkSize 1).reserveAll seed.nodeIds,
    seed, seed⟩

/-
  An unknown symbol costs the pool a chunk, and nothing else.
-/
theorem answers_without_failure_seed :
    (Opening.continueFrom seed).derivation sprouting 1 =
      .ok atSeed ∧
      ((atSeed.after
          [.applyRule "bud" (.node (.num 3))]).addNode
        "C" ∅).2 =
          .error
            (.undefinedSymbol "C"
              (.element (.node (.num 2)) .workingGraph)) ∧
        (atSeed.after
          [.applyRule "bud" (.node (.num 3)),
            .addNode "C" ∅]).pool.available ≠
            (atSeed.after
              [.applyRule "bud"
                (.node (.num 3))]).pool.available ∧
          (atSeed.answers
                [.applyRule "bud" (.node (.num 3)),
                  .addNode "C" ∅, .addNode "B" ∅]).eraseIdx 1 =
            atSeed.answers
              [.applyRule "bud" (.node (.num 3)),
                .addNode "B" ∅] := by
  have hOpening :
      (Opening.continueFrom seed).derivation sprouting 1 =
        .ok atSeed := by
    have hFault :
        sprouting.graphFault? seed .workingGraph = none := by
      decide +kernel
    unfold Opening.derivation continueFrom
    dsimp only
    rw [hFault]
    rfl
  have hRules :
      ∀ rule ∈ sprouting.rules.toList,
        rule.HasSoundReplacement := by
    decide +kernel
  have hDrawn :
      (NodeId.numbers
          ((Opening.continueFrom seed).drawn sprouting
            1)).card < idLimit := by
    decide +kernel
  have hRoom :
      atSeed.HasRoom
        ([.applyRule "bud" (.node (.num 3))] ++
          [.addNode "C" ∅]) := by
    decide +kernel
  have hSeed : (Opening.continueFrom seed).HasIntegrity := by
    have hIntegrity : seed.HasIntegrity := by decide +kernel
    exact hIntegrity
  have hGraph :=
    hasIntegrity_after hSeed hOpening
      [.applyRule "bud" (.node (.num 3))]
  have hRefused :
      ((atSeed.after
          [.applyRule "bud" (.node (.num 3))]).addNode
        "C" ∅).2 =
        .error
          (.undefinedSymbol "C"
            (.element (.node (.num 2)) .workingGraph)) := by
    decide +kernel
  have hError :
      ((atSeed.after
          [.applyRule "bud" (.node (.num 3))]).perform
        (.addNode "C" ∅)).2 =
        .error
          (.undefinedSymbol "C"
            (.element (.node (.num 2)) .workingGraph)) := by
    rw [perform, hRefused]
    rfl
  refine ⟨hOpening, hRefused, by decide +kernel, ?_⟩
  exact (answers_without_failure hRules hOpening hDrawn hRoom
    hGraph hError [.addNode "B" ∅]).1

end Derivation

end GraphRewriting
