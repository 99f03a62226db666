import GraphRewriting.Proofs.Rewriting.Commuting
import GraphRewriting.Proofs.Rewriting.Outcomes

/-
  Rule applications at any match, listed or not: they succeed
  when the match fits and the ids are new, and otherwise leave
  the graph as it was.

  Main declarations:
    * `Rule.HasSoundReplacement`
    * `Rule.FitsAt`
    * `Rule.apply_of_not_fitsAt`
    * `Rule.apply_of_fitsAt`
    * `Rule.kind_ne_fatal_of_apply`
    * `Rule.apply_all_or_nothing`
-/

------------------------------------------------------------
-- Matches That Fit
------------------------------------------------------------

namespace GraphRewriting

namespace Rule

/-
  The edges of a replacement have their ends, and none
  joins two exotic nodes.
-/
def HasSoundReplacement : Rule → Prop
  | node r => r.rhs.HasIntegrity
  | region r => r.rhs.HasIntegrity ∧ r.rhs.HasSeparateExotics

instance (rule : Rule) : Decidable rule.HasSoundReplacement :=
  match rule with
  | node r => inferInstanceAs (Decidable r.rhs.HasIntegrity)
  | region r =>
      inferInstanceAs (Decidable
        (r.rhs.HasIntegrity ∧ r.rhs.HasSeparateExotics))

/-
  A match of the shape of a rule: a node with the symbol that
  is rewritten, or a morphism that the rule accepts.
-/
def FitsAt
    (rule : Rule)
    (found : RuleMatch)
    (target : Graph) : Prop :=
  match rule, found with
  | node r, .node id => target.symbol? id = some r.symbol
  | region r, .morphism m => r.Accepts m target
  | _, _ => False

variable {σ : Type}
variable {rule : Rule}
variable {found : RuleMatch}
variable {target : Graph}

theorem copiedIds_nodup
    (rule : Rule) :
    rule.copiedIds.Nodup := by
  rw [copiedIds_eq]
  exact rule.replacement.nodeIds_nodup

/- The local ids are asked for in ascending order. -/
theorem copiedIds_ascending (rule : Rule) :
    rule.copiedIds.Pairwise fun a b => compare a b = .lt := by
  rw [copiedIds_eq]
  exact Std.ExtTreeMap.ordered_keys

/-
  A match that does not fit is refused with no id asked for,
  from whatever source.
-/
theorem apply_of_not_fitsAt
    (h : ¬ rule.FitsAt found target) :
    ∃ error : GrammarError,
      ∀ (σ : Type) (source : IdSource σ) (supply : σ),
        rule.apply source found target supply =
          ⟨target, supply, .error error⟩ := by
  cases rule <;> cases found
  case node.morphism r m => exact ⟨_, fun _ _ _ => rfl⟩
  case region.node r id => exact ⟨_, fun _ _ _ => rfl⟩
  case node.node r node =>
    cases hSymbol : target.symbol? node with
    | none =>
        refine ⟨.ruleNodeAbsent r.name node, ?_⟩
        intro σ source supply
        unfold apply ContextFreeRule.apply
        dsimp only
        rw [hSymbol]
    | some symbol =>
        have hOther : symbol ≠ r.symbol := by
          rintro rfl
          exact h hSymbol
        refine
          ⟨.badMatch r.name (.otherSymbol r.symbol node symbol),
            ?_⟩
        intro σ source supply
        unfold apply ContextFreeRule.apply
        dsimp only
        rw [hSymbol]
        exact if_pos hOther
  case region.morphism r m =>
    cases hCheck : r.checkMorphism m target with
    | error error =>
        refine ⟨error, ?_⟩
        intro σ source supply
        unfold apply ExoticRule.apply
        dsimp only
        rw [hCheck]
    | ok matched =>
        exact absurd
          (ExoticRule.checkMorphism_eq_ok_iff.1 hCheck).1 h

variable {source : IdSource σ}
variable {supply rest : σ}

/-
  Once a match fits, an id that is in use leaves
  the graph as it was.
-/
theorem apply_of_draw_error
    (h : rule.FitsAt found target)
    {error : GrammarError}
    (hDraw :
      drawIds rule.name target source ∅ rule.copiedIds supply =
        (.error error, rest)) :
    rule.apply source found target supply =
      ⟨target, rest, .error error⟩ := by
  cases rule <;> cases found
  case node.node r node =>
    have hSymbol : target.symbol? node = some r.symbol := h
    have hDraw :
        drawIds r.name target source ∅ r.rhs.nodeIds supply =
          (.error error, rest) :=
      hDraw
    unfold apply ContextFreeRule.apply
    dsimp only
    rw [hSymbol]
    dsimp only
    rw [if_neg (not_not.2 rfl), hDraw]
  case region.morphism r m =>
    have hCheck := ExoticRule.checkMorphism_eq_ok_iff.2 ⟨h, rfl⟩
    have hDraw :
        drawIds r.name target source ∅ r.rhs.graph.nodeIds
            supply = (.error error, rest) :=
      hDraw
    unfold apply ExoticRule.apply
    dsimp only
    rw [hCheck]
    dsimp only
    rw [hDraw]
  all_goals exact h.elim

/- A match that fits and new ids are all that it takes. -/
theorem apply_of_fitsAt
    (hRule : rule.HasSoundReplacement)
    (ht : target.HasIntegrity)
    (h : rule.FitsAt found target)
    {fresh : FreshIds}
    (hDraw :
      drawIds rule.name target source ∅ rule.copiedIds supply =
        (.ok fresh, rest)) :
    rule.apply source found target supply =
      ⟨rule.resultAt fresh found target, rest,
        .ok ⟨fresh.values, rule.replacedAt found⟩⟩ := by
  cases rule <;> cases found
  case node.node r node =>
    exact ContextFreeRule.apply_eq_result ht hRule h hDraw
  case region.morphism r m =>
    exact ExoticRule.apply_eq_result h hDraw
  all_goals exact h.elim

/-
  An application ends with a match that does not fit, or with an
  id that is in use, or with the result of the rule.
-/
theorem apply_ends
    (hRule : rule.HasSoundReplacement)
    (ht : target.HasIntegrity)
    (source : IdSource σ)
    (found : RuleMatch)
    (supply : σ) :
    (¬ rule.FitsAt found target ∧
        ∃ error : GrammarError,
          rule.apply source found target supply =
            ⟨target, supply, .error error⟩) ∨
      (∃ (error : GrammarError) (rest : σ),
        drawIds rule.name target source ∅ rule.copiedIds
            supply = (.error error, rest) ∧
          rule.apply source found target supply =
            ⟨target, rest, .error error⟩) ∨
        rule.FitsAt found target ∧
          ∃ (fresh : FreshIds) (rest : σ),
            drawIds rule.name target source ∅ rule.copiedIds
                supply = (.ok fresh, rest) ∧
              rule.apply source found target supply =
                ⟨rule.resultAt fresh found target, rest,
                  .ok
                    ⟨fresh.values, rule.replacedAt found⟩⟩ := by
  by_cases h : rule.FitsAt found target
  · right
    rcases
        hDraw :
          drawIds rule.name target source ∅ rule.copiedIds
            supply with
      ⟨error | fresh, rest⟩
    · exact
        Or.inl ⟨error, rest, rfl, apply_of_draw_error h hDraw⟩
    · exact Or.inr
        ⟨h, fresh, rest, rfl, apply_of_fitsAt hRule ht h hDraw⟩
  · rcases apply_of_not_fitsAt h with ⟨error, hApply⟩
    exact Or.inl ⟨h, error, hApply σ source supply⟩

/- An application that fails leaves the graph as it was. -/
theorem graph_of_apply_eq_error
    (hRule : rule.HasSoundReplacement)
    (ht : target.HasIntegrity)
    {error : GrammarError}
    (h :
      (rule.apply source found target supply).result =
        .error error) :
    (rule.apply source found target supply).graph = target := by
  rcases apply_ends hRule ht source found supply with
    ⟨-, other, hOutcome⟩ | ⟨other, rest, -, hOutcome⟩ | ⟨-,
      fresh, rest, -, hOutcome⟩
  · rw [hOutcome]
  · rw [hOutcome]
  · rw [hOutcome] at h
    cases h

end Rule

end GraphRewriting

------------------------------------------------------------
-- Errors
------------------------------------------------------------

namespace GraphRewriting

variable {σ : Type}
variable {source : IdSource σ}
variable {target : Graph}
variable {supply rest : σ}

/- Drawing only fails at an id that is there already. -/
theorem kind_of_drawIds_eq_error
    {rule : String}
    {fresh : FreshIds}
    {ids : List NodeId}
    {error : GrammarError}
    (h :
      drawIds rule target source fresh ids supply =
        (.error error, rest)) :
    error.kind = .duplicateId := by
  induction ids generalizing fresh supply with
  | nil => cases h
  | cons localId ids ih =>
      unfold drawIds at h
      dsimp only at h
      split at h
      · cases h
        rfl
      · exact ih h

/-
  Where every edge of a replacement has its ends, only the
  target graph can lack some.
-/
private theorem ContextFreeRule.isRefusal_of_replace
    {r : ContextFreeRule}
    {fresh : FreshIds}
    {node : NodeId}
    (hRhs : r.rhs.HasIntegrity)
    (hFresh : fresh.IsFresh target r.rhs.nodeIds)
    {error : GrammarError}
    (h : (r.replace fresh node target).2 = .error error) :
    error.IsRefusal := by
  unfold replace at h
  dsimp only at h
  rw [newEdges_eq hFresh hRhs, advance_addRenamed_map_ok] at h
  split at h
  · rename_i reached other hRun
    cases h
    rcases exists_error_of_advance (congrArg Prod.snd hRun) with
      ⟨stuck, edge, -, hError⟩
    exact isRefusal_of_addEdge hError
  · rename_i reached hRun
    split at h
    · cases h
    · rename_i other hRemove
      cases h
      unfold Graph.removeNode at hRemove
      split at hRemove
      · cases hRemove
      · cases hRemove
        exact Or.inl rfl

/-
  A rule with a sound replacement never comes upon an end of its
  edges that has no id, wherever and with whatever ids it is
  applied.
-/
theorem Rule.kind_ne_fatal_of_apply
    {rule : Rule}
    {found : RuleMatch}
    (hRule : rule.HasSoundReplacement)
    {error : GrammarError}
    (h :
      (rule.apply source found target supply).result =
        .error error) :
    error.kind ≠ .fatal := by
  cases rule <;> cases found
  case node.morphism r m =>
    cases h
    exact ErrorKind.noConfusion
  case region.node r id =>
    cases h
    exact ErrorKind.noConfusion
  case node.node r node =>
    unfold apply ContextFreeRule.apply at h
    dsimp only at h
    split at h
    · cases h
      exact ErrorKind.noConfusion
    · split at h
      · cases h
        exact ErrorKind.noConfusion
      · split at h
        · rename_i other rest hDraw
          cases h
          rw [kind_of_drawIds_eq_error hDraw]
          exact ErrorKind.noConfusion
        · rename_i fresh rest hDraw
          exact (ContextFreeRule.isRefusal_of_replace hRule
            (drawIds_isFresh hDraw) h).kind_ne_fatal
  case region.morphism r m =>
    unfold apply ExoticRule.apply at h
    dsimp only at h
    cases hCheck : r.checkMorphism m target with
    | error other =>
        rw [hCheck] at h
        cases h
        exact (ExoticRule.isRefusal_of_checkMorphism
          hCheck).kind_ne_fatal
    | ok matched =>
        rcases ExoticRule.checkMorphism_eq_ok_iff.1 hCheck with
          ⟨hAccepts, rfl⟩
        rw [hCheck] at h
        dsimp only at h
        split at h
        · rename_i other rest hDraw
          cases h
          rw [kind_of_drawIds_eq_error hDraw]
          exact ErrorKind.noConfusion
        · rename_i fresh rest hDraw
          rw [ExoticRule.replace_eq_result hAccepts
            (drawIds_isFresh hDraw)] at h
          cases h

end GraphRewriting

------------------------------------------------------------
-- All Or Nothing
------------------------------------------------------------

namespace GraphRewriting

namespace Rule

variable {σ : Type}

/-
  Whatever match a rule is given, and whatever ids: it is
  applied exactly if the match fits and the ids, asked for in
  ascending order of the nodes, are new and distinct. An error
  leaves the graph as it was. If the match does not fit, no id
  is asked for: any source stays in its state.
-/
theorem apply_all_or_nothing
    {rule : Rule}
    {target : Graph}
    (hRule : rule.HasSoundReplacement)
    (ht : target.HasIntegrity)
    (source : IdSource σ)
    (found : RuleMatch)
    (supply : σ) :
    let outcome := rule.apply source found target supply
    rule.copiedIds.Pairwise (fun a b => compare a b = .lt) ∧
      ((∃ rewrite : Rewrite, outcome.result = .ok rewrite) ↔
        rule.FitsAt found target ∧
          (source.drawn rule.copiedIds supply).Nodup ∧
            ∀ id ∈ source.drawn rule.copiedIds supply,
              id ∉ target.nodes) ∧
        (∀ error : GrammarError,
          outcome.result = .error error →
            outcome.graph = target) ∧
          (¬ rule.FitsAt found target →
            ∃ error : GrammarError,
              ∀ (τ : Type) (other : IdSource τ) (start : τ),
                rule.apply other found target start =
                  ⟨target, start, .error error⟩) := by
  intro outcome
  have hAccepted :
      (∃ (fresh : FreshIds) (rest : σ),
          drawIds rule.name target source ∅ rule.copiedIds
            supply = (.ok fresh, rest)) ↔
        (source.drawn rule.copiedIds supply).Nodup ∧
          ∀ id ∈ source.drawn rule.copiedIds supply,
            id ∉ target.nodes :=
    exists_drawIds_eq_ok_iff rule.copiedIds_nodup
  refine ⟨rule.copiedIds_ascending, ?_, ?_, apply_of_not_fitsAt⟩
  · rw [← hAccepted]
    constructor
    · rintro ⟨rewrite, hResult⟩
      rcases apply_ends hRule ht source found supply with
        ⟨-, error, hOutcome⟩ | ⟨error, rest, -,
          hOutcome⟩ | ⟨hFits,
          fresh, rest, hDraw, -⟩
      · cases hResult.symm.trans
          (congrArg Outcome.result hOutcome)
      · cases hResult.symm.trans
          (congrArg Outcome.result hOutcome)
      · exact ⟨hFits, fresh, rest, hDraw⟩
    · rintro ⟨hFits, fresh, rest, hDraw⟩
      have hOutcome := apply_of_fitsAt hRule ht hFits hDraw
      exact ⟨_, congrArg Outcome.result hOutcome⟩
  · intro error hResult
    exact graph_of_apply_eq_error hRule ht hResult

/-
  The ids from 1 are in use, those from 2 are not, and
  there is no node 5.
-/
theorem apply_all_or_nothing_couple :
    (node ContextFreeRule.budding).HasSoundReplacement ∧
      ContextFreeRule.couple.HasIntegrity ∧
        (∃ rewrite : Rewrite,
          ((node ContextFreeRule.budding).apply Grammar.countUp
            (.node (.num 0))
            ContextFreeRule.couple 2).result = .ok rewrite) ∧
          ((node ContextFreeRule.budding).apply Grammar.countUp
            (.node (.num 0))
              ContextFreeRule.couple 1).graph =
                ContextFreeRule.couple ∧
            ((node ContextFreeRule.budding).apply
              Grammar.countUp (.node (.num 5))
              ContextFreeRule.couple 2).supply = 2 := by
  have hRule :
      (node ContextFreeRule.budding).HasSoundReplacement := by
    decide +kernel
  have hCouple : ContextFreeRule.couple.HasIntegrity := by
    decide +kernel
  have hApply := fun (id : NodeId) (next : UInt64) =>
    apply_all_or_nothing hRule hCouple Grammar.countUp
      (.node id) next
  refine ⟨hRule, hCouple, ?_, ?_, ?_⟩
  · apply (hApply (.num 0) 2).2.1.2
    have hFits :
        (node ContextFreeRule.budding).FitsAt (.node (.num 0))
          ContextFreeRule.couple := by
      have hSymbol :
          ContextFreeRule.couple.symbol? (.num 0) =
            some "A" := by
        decide +kernel
      exact hSymbol
    exact ⟨hFits, by decide +kernel, by decide +kernel⟩
  · have hResult :
        ((node ContextFreeRule.budding).apply Grammar.countUp
          (.node (.num 0))
            ContextFreeRule.couple 1).result =
          .error (.idInUse "bud" (.num 1) .base) := by
      decide +kernel
    exact (hApply (.num 0) 1).2.2.1 _ hResult
  · have hFits :
        ¬ (node ContextFreeRule.budding).FitsAt (.node (.num 5))
          ContextFreeRule.couple := by
      have hSymbol :
          ContextFreeRule.couple.symbol? (.num 5) ≠
            some "A" := by
        decide +kernel
      exact hSymbol
    rcases (hApply (.num 5) 2).2.2.2 hFits with
      ⟨error, hRefused⟩
    rw [hRefused]

end Rule

end GraphRewriting
