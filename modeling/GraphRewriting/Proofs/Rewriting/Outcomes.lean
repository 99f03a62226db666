import GraphRewriting.Proofs.Grammar.Gluing

/-
  What a rule application leaves behind, whether it succeeds,
  fails before it draws ids, or fails halfway: the nodes of the
  graph, and the state of the id source.

  Main declarations:
    * `GrammarError.IsRefusal`
    * `Rule.LeavesNodes`
    * `Rule.apply_cases`
    * `IdSource.Simulates`
    * `Rule.apply_simulates`
-/

------------------------------------------------------------
-- Errors
------------------------------------------------------------

namespace GraphRewriting

/-
  An error that does not complain about an id that is in use.
-/
def GrammarError.SparesIds (error : GrammarError) : Prop :=
  error.kind ≠ .duplicateId

/-
  An error of a node that is not there, or of a match
  that does not fit.
-/
def GrammarError.IsRefusal (error : GrammarError) : Prop :=
  error.kind = .nodeAbsent ∨ error.kind = .ruleApplication

theorem GrammarError.IsRefusal.sparesIds
    {error : GrammarError}
    (h : error.IsRefusal) :
    error.SparesIds := by
  intro hKind
  rcases h with h | h
  · cases hKind.symm.trans h
  · cases hKind.symm.trans h

/- A refusal is no sign of an edge without its ends. -/
theorem GrammarError.IsRefusal.kind_ne_fatal
    {error : GrammarError}
    (h : error.IsRefusal) :
    error.kind ≠ .fatal := by
  intro hKind
  rcases h with h | h
  · cases hKind.symm.trans h
  · cases hKind.symm.trans h

namespace ExoticRule

variable {r : ExoticRule}
variable {m : Morphism}
variable {target : Graph}

/- A check that fails refuses the application. -/
theorem isRefusal_of_checkLive
    {id : NodeId}
    {error : GrammarError}
    (h : r.checkLive target id = .error error) :
    error.IsRefusal := by
  unfold checkLive at h
  split at h
  · cases h
  · cases h
    exact Or.inl rfl

theorem isRefusal_of_matchedTargets
    {seen ids : List NodeId}
    {error : GrammarError}
    (h : r.matchedTargets m target seen ids = .error error) :
    error.IsRefusal := by
  induction ids generalizing seen with
  | nil => cases h
  | cons id ids ih =>
      unfold matchedTargets at h
      split at h
      · cases h
        exact Or.inr rfl
      · rename_i bound hBound
        cases hLive : r.checkLive target bound with
        | error other =>
            rw [hLive] at h
            cases h
            exact isRefusal_of_checkLive hLive
        | ok _ =>
            rw [hLive] at h
            simp only [Bind.bind, Except.bind] at h
            split at h
            · cases h
              exact Or.inr rfl
            · exact ih h

private theorem isRefusal_of_checkExotics
    {matched context ids : List NodeId}
    {error : GrammarError}
    (h :
      r.checkExotics m target matched context ids =
        .error error) :
    error.IsRefusal := by
  induction ids generalizing context with
  | nil => cases h
  | cons id ids ih =>
      unfold checkExotics at h
      by_cases hKey : m.contains id = true
      · have hGo : (!m.contains id) = false := by rw [hKey]; rfl
        rw [hGo, if_neg Bool.false_ne_true] at h
        cases hTarget : m.target? id with
        | none =>
            rw [hTarget] at h
            cases hKind : r.kind with
            | anchor =>
                rw [hKind] at h
                cases h
                exact Or.inr rfl
            | wildcard =>
                rw [hKind] at h
                exact ih h
        | some bound =>
            rw [hTarget] at h
            dsimp only at h
            cases hLive : r.checkLive target bound with
            | error other =>
                rw [hLive] at h
                cases h
                exact isRefusal_of_checkLive hLive
            | ok _ =>
                rw [hLive] at h
                simp only [Bind.bind, Except.bind] at h
                split at h
                · cases h
                  exact Or.inr rfl
                · split at h
                  · cases h
                    exact Or.inr rfl
                  · exact ih h
      · rw [Bool.not_eq_true] at hKey
        rw [hKey] at h
        cases h
        exact Or.inr rfl

/- A morphism that fails a check is refused. -/
theorem isRefusal_of_checkMorphism
    {error : GrammarError}
    (h : r.checkMorphism m target = .error error) :
    error.IsRefusal := by
  unfold checkMorphism at h
  simp only [Bind.bind, Except.bind] at h
  cases hMatched :
    r.matchedTargets m target [] r.lhs.graph.nodeIds with
  | error other =>
      rw [hMatched] at h
      cases h
      exact isRefusal_of_matchedTargets hMatched
  | ok matched =>
      rw [hMatched] at h
      dsimp only at h
      cases hExotics :
        r.checkExotics m target matched [] r.lhs.exoticIds with
      | error other =>
          rw [hExotics] at h
          cases h
          exact isRefusal_of_checkExotics hExotics
      | ok _ =>
          rw [hExotics] at h
          cases h

end ExoticRule

end GraphRewriting

------------------------------------------------------------
-- Nodes That Are Left
------------------------------------------------------------

namespace GraphRewriting

/-
  The nodes that an application leaves once ids are drawn. All
  copies are there, and a success takes nodes of the target
  graph away. A failure takes none.
-/
def Rule.LeavesNodes
    (target : Graph)
    (fresh : FreshIds)
    (graph : Graph) : Except GrammarError Rewrite → Prop
  | .ok rewrite =>
      (∀ id ∈ rewrite.removed, id ∈ target.nodes) ∧
        ∀ id : NodeId,
          id ∈ graph.nodes ↔
            (id ∉ rewrite.removed ∧ id ∈ target.nodes) ∨
              id ∈ fresh.values
  | .error error =>
      error.SparesIds ∧
        ∀ id : NodeId,
          id ∈ graph.nodes ↔
            id ∈ target.nodes ∨ id ∈ fresh.values

namespace ContextFreeRule

variable {r : ContextFreeRule}
variable {target : Graph}
variable {fresh : FreshIds}
variable {node : NodeId}

/- Adding an edge leaves the nodes as they were. -/
private theorem nodes_eq_of_addRenamed
    {graph next : Graph}
    {edge : Except GrammarError Edge}
    (h : addRenamed graph edge = .ok next) :
    next.nodes = graph.nodes := by
  cases edge with
  | error error => cases h
  | ok edge =>
      rcases Graph.addEdge_eq_ok.1 h with ⟨-, -, rfl⟩
      rfl

/-
  Wherever a run that adds edges stops, the nodes are
  those it began with.
-/
theorem nodes_advance_addRenamed
    (graph : Graph)
    (edges : List (Except GrammarError Edge)) :
    (advance addRenamed graph edges).1.nodes = graph.nodes := by
  have hStep :
      ∀ (reached next : Graph)
          (edge : Except GrammarError Edge),
        reached.nodes = graph.nodes →
          addRenamed reached edge = .ok next →
            next.nodes = graph.nodes :=
    fun _ _ _ hReached hNext =>
      (nodes_eq_of_addRenamed hNext).trans hReached
  exact advance_preserves hStep rfl edges

theorem isRefusal_of_addEdge
    {graph : Graph}
    {edge : Edge}
    {error : GrammarError}
    (h : graph.addEdge edge = .error error) :
    error.IsRefusal := by
  unfold Graph.addEdge at h
  split at h
  · cases h
    exact Or.inl rfl
  · split at h
    · cases h
      exact Or.inl rfl
    · cases h

private theorem sparesIds_of_mem_newEdges
    {error : GrammarError}
    (h : .error error ∈ r.newEdges fresh node target) :
    error.SparesIds := by
  unfold newEdges at h
  rw [List.mem_append, List.mem_append] at h
  rcases h with h | h | h
  · rcases List.mem_map.1 h with ⟨edge, -, hEdge⟩
    unfold FreshIds.renameEdge at hEdge
    split at hEdge
    · cases hEdge
    · cases hEdge
      exact ErrorKind.noConfusion
  · rcases List.mem_map.1 h with ⟨edge, -, hEdge⟩
    cases hEdge
  · rcases List.mem_map.1 h with ⟨edge, -, hEdge⟩
    cases hEdge

/-
  A rewrite of a node stops with the copies in the graph, or
  goes on to its end.
-/
theorem replace_leavesNodes
    (hFresh : fresh.IsFresh target r.rhs.nodeIds)
    (hNode : node ∈ target.nodes) :
    Rule.LeavesNodes target fresh
      (r.replace fresh node target).1
      (r.replace fresh node target).2 := by
  have hWidened :
      ∀ id : NodeId,
        id ∈ (target.widen fresh r.rhs.nodes).nodes ↔
          id ∈ target.nodes ∨ id ∈ fresh.values := by
    intro id
    rw [hFresh.mem_nodes_widen_iff, mem_values]
  have hNodes :=
    nodes_advance_addRenamed (target.widen fresh r.rhs.nodes)
      (r.newEdges fresh node target)
  unfold Graph.widen at hWidened hNodes
  unfold replace
  dsimp only
  split
  · rename_i reached error hRun
    rw [hRun] at hNodes
    rcases exists_error_of_advance (congrArg Prod.snd hRun) with
      ⟨stuck, edge, hEdge, hError⟩
    refine ⟨?_, fun id => hNodes ▸ hWidened id⟩
    cases edge with
    | error other =>
        cases hError
        exact sparesIds_of_mem_newEdges hEdge
    | ok edge => exact (isRefusal_of_addEdge hError).sparesIds
  · rename_i reached hRun
    rw [hRun] at hNodes
    have hMem : node ∈ reached.nodes := by
      rw [hNodes]
      exact (hWidened node).2 (Or.inl hNode)
    have hRemove : reached.removeNode node =
        .ok
          ⟨reached.nodes.erase node,
            reached.edges.detach node⟩ :=
      Graph.removeNode_eq_ok.2 ⟨hMem, rfl⟩
    rw [hRemove]
    refine ⟨fun id hId => List.mem_singleton.1 hId ▸ hNode, ?_⟩
    intro id
    dsimp only
    rw [Std.ExtTreeMap.mem_erase, hNodes, hWidened, ne_eq,
      Std.compare_eq_iff_eq, List.mem_singleton,
      eq_comm (a := node)]
    constructor
    · rintro ⟨hNe, hOld | hCopy⟩
      · exact Or.inl ⟨hNe, hOld⟩
      · exact Or.inr hCopy
    · rintro (⟨hNe, hOld⟩ | hCopy)
      · exact ⟨hNe, Or.inl hOld⟩
      · refine ⟨?_, Or.inr hCopy⟩
        rintro rfl
        rcases mem_values.1 hCopy with ⟨a, ha⟩
        exact hFresh.absent a id ha hNode

end ContextFreeRule

namespace Rule

variable {σ : Type}
variable {source : IdSource σ}
variable {supply : σ}
variable {target : Graph}

/-
  An application fails before it draws ids, or fails to draw
  them, or goes on to rewrite with all of them.
-/
theorem apply_cases
    (rule : Rule)
    (source : IdSource σ)
    (found : RuleMatch)
    (target : Graph)
    (supply : σ) :
    (∃ error : GrammarError,
        error.SparesIds ∧
          rule.apply source found target supply =
            ⟨target, supply, .error error⟩) ∨
      (∃ (error : GrammarError) (rest : σ),
        drawIds rule.name target source ∅ rule.copiedIds
            supply = (.error error, rest) ∧
          rule.apply source found target supply =
            ⟨target, rest, .error error⟩) ∨
        ∃ (fresh : FreshIds) (rest : σ) (graph : Graph)
            (result : Except GrammarError Rewrite),
          drawIds rule.name target source ∅ rule.copiedIds
              supply = (.ok fresh, rest) ∧
            rule.apply source found target supply =
              ⟨graph, rest, result⟩ ∧
              LeavesNodes target fresh graph result := by
  cases rule <;> cases found
  case node.morphism r m =>
    exact Or.inl
      ⟨.matchShape r.name .contextFree, ErrorKind.noConfusion,
        rfl⟩
  case region.node r id =>
    exact Or.inl
      ⟨.matchShape r.name (.ofExotic r.kind),
        ErrorKind.noConfusion, rfl⟩
  case node.node r node =>
    unfold apply ContextFreeRule.apply copiedIds name
    dsimp only
    cases hSymbol : target.symbol? node with
    | none =>
        exact Or.inl
          ⟨.ruleNodeAbsent r.name node, ErrorKind.noConfusion,
            rfl⟩
    | some symbol =>
        dsimp only
        by_cases hEq : symbol = r.symbol
        · rw [if_neg (not_not.2 hEq)]
          have hNode : node ∈ target.nodes := by
            rw [← Graph.isSome_symbol?, hSymbol]
            rfl
          right
          rcases
              hDraw :
                drawIds r.name target source ∅ r.rhs.nodeIds
                  supply with
            ⟨error | fresh, rest⟩
          · exact Or.inl ⟨error, rest, rfl, rfl⟩
          · exact Or.inr
              ⟨fresh, rest, _, _, rfl, rfl,
                ContextFreeRule.replace_leavesNodes
                  (drawIds_isFresh hDraw) hNode⟩
        · rw [if_pos hEq]
          exact Or.inl
            ⟨.badMatch r.name
                (.otherSymbol r.symbol node symbol),
              ErrorKind.noConfusion, rfl⟩
  case region.morphism r m =>
    unfold apply ExoticRule.apply copiedIds name
    dsimp only
    cases hCheck : r.checkMorphism m target with
    | error error =>
        exact Or.inl
          ⟨error,
            (ExoticRule.isRefusal_of_checkMorphism
              hCheck).sparesIds,
            rfl⟩
    | ok matched =>
        rcases ExoticRule.checkMorphism_eq_ok_iff.1 hCheck with
          ⟨hAccepts, rfl⟩
        right
        rcases
            hDraw :
              drawIds r.name target source ∅ r.rhs.graph.nodeIds
                supply with
          ⟨error | fresh, rest⟩
        · exact Or.inl ⟨error, rest, rfl, rfl⟩
        · have hFresh := drawIds_isFresh hDraw
          dsimp only
          rw [ExoticRule.replace_eq_result hAccepts hFresh]
          refine Or.inr ⟨fresh, rest, _, _, rfl, rfl, ?_, ?_⟩
          · intro id hId
            exact hAccepts.mem_nodes_of_mem_replaced hId
          · intro id
            rw [ExoticRule.mem_nodes_result_iff hAccepts hFresh,
              mem_values]

end Rule

end GraphRewriting

------------------------------------------------------------
-- Sources That Give The Same Ids
------------------------------------------------------------

namespace GraphRewriting

variable {σ τ : Type}

/-
  From related states, two sources give the same
  id and stay related.
-/
def IdSource.Simulates
    (source : IdSource σ)
    (other : IdSource τ)
    (related : σ → τ → Prop) : Prop :=
  ∀ (supply : σ) (start : τ) (localId : NodeId),
    related supply start →
      (source localId supply).1 = (other localId start).1 ∧
        related (source localId supply).2
          (other localId start).2

/-
  Two applications leave the same graph and result,
  and related states.
-/
structure Outcome.Agrees
    (outcome : Outcome σ)
    (other : Outcome τ)
    (related : σ → τ → Prop) : Prop where
  graph : outcome.graph = other.graph
  result : outcome.result = other.result
  supply : related outcome.supply other.supply

variable {source : IdSource σ}
variable {other : IdSource τ}
variable {related : σ → τ → Prop}
variable {supply : σ}
variable {start : τ}

/- Sources that simulate each other lead to the same draws. -/
theorem drawIds_simulates
    (hSources : source.Simulates other related)
    (hRelated : related supply start)
    (rule : String)
    (target : Graph)
    (fresh : FreshIds)
    (ids : List NodeId) :
    (drawIds rule target source fresh ids supply).1 =
        (drawIds rule target other fresh ids start).1 ∧
      related (drawIds rule target source fresh ids supply).2
        (drawIds rule target other fresh ids start).2 := by
  induction ids generalizing fresh supply start with
  | nil => exact ⟨rfl, hRelated⟩
  | cons localId ids ih =>
      rcases hSources supply start localId hRelated with
        ⟨hId, hNext⟩
      unfold drawIds
      dsimp only
      rw [hId]
      split
      · exact ⟨rfl, hNext⟩
      · exact ih hNext _

/-
  A context-free rule has the same outcome with either source.
-/
theorem ContextFreeRule.apply_simulates
    (hSources : source.Simulates other related)
    (hRelated : related supply start)
    (r : ContextFreeRule)
    (node : NodeId)
    (target : Graph) :
    (r.apply source node target supply).Agrees
      (r.apply other node target start)
      related := by
  rcases
      drawIds_simulates hSources hRelated r.name target ∅
        r.rhs.nodeIds with
    ⟨hResult, hRest⟩
  unfold apply
  cases target.symbol? node with
  | none => exact ⟨rfl, rfl, hRelated⟩
  | some symbol =>
      dsimp only
      split
      · exact ⟨rfl, rfl, hRelated⟩
      · generalize drawIds r.name target source ∅ r.rhs.nodeIds
            supply = drawn at *
        generalize drawIds r.name target other ∅ r.rhs.nodeIds
            start = drawn' at *
        rcases drawn with ⟨result, rest⟩
        rcases drawn' with ⟨result', rest'⟩
        cases hResult
        cases result with
        | error error => exact ⟨rfl, rfl, hRest⟩
        | ok fresh => exact ⟨rfl, rfl, hRest⟩

/-
  A rule with exotic nodes has the same outcome
  with either source.
-/
theorem ExoticRule.apply_simulates
    (hSources : source.Simulates other related)
    (hRelated : related supply start)
    (r : ExoticRule)
    (m : Morphism)
    (target : Graph) :
    (r.apply source m target supply).Agrees
      (r.apply other m target start) related := by
  rcases
      drawIds_simulates hSources hRelated r.name target ∅
        r.rhs.graph.nodeIds with
    ⟨hResult, hRest⟩
  unfold apply
  cases r.checkMorphism m target with
  | error error => exact ⟨rfl, rfl, hRelated⟩
  | ok matched =>
      dsimp only
      generalize drawIds r.name target source ∅
          r.rhs.graph.nodeIds supply =
        drawn at *
      generalize drawIds r.name target other ∅
          r.rhs.graph.nodeIds start =
        drawn' at *
      rcases drawn with ⟨result, rest⟩
      rcases drawn' with ⟨result', rest'⟩
      cases hResult
      cases result with
      | error error => exact ⟨rfl, rfl, hRest⟩
      | ok fresh => exact ⟨rfl, rfl, hRest⟩

/-
  A rule application depends on its source by the ids
  that it gets alone.
-/
theorem Rule.apply_simulates
    (hSources : source.Simulates other related)
    (hRelated : related supply start)
    (rule : Rule)
    (found : RuleMatch)
    (target : Graph) :
    (rule.apply source found target supply).Agrees
      (rule.apply other found target start) related := by
  cases rule <;> cases found
  case node.node r node =>
    exact r.apply_simulates hSources hRelated node target
  case region.morphism r m =>
    exact r.apply_simulates hSources hRelated m target
  all_goals exact ⟨rfl, rfl, hRelated⟩

/- A rule that is given by its name has the same outcome. -/
theorem Grammar.applyRule_simulates
    (hSources : source.Simulates other related)
    (hRelated : related supply start)
    (g : Grammar)
    (name : String)
    (found : RuleMatch)
    (graph : Graph) :
    (g.applyRule source name found graph supply).Agrees
      (g.applyRule other name found graph start) related := by
  unfold applyRule
  cases g.rules.get? name with
  | none => exact ⟨rfl, rfl, hRelated⟩
  | some rule =>
      exact rule.apply_simulates hSources hRelated found graph

end GraphRewriting
