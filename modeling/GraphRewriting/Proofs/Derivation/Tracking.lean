import GraphRewriting.Proofs.Derivation.Drawing
import GraphRewriting.Proofs.Rewriting.Commuting

/-
  The pool of a derivation and its working graph: the numbers
  that the pool keeps in use are those of the nodes, whatever
  is done and however it ends.

  Main declarations:
    * `Derivation.IsTracked`
    * `Derivation.HasRoom`
    * `Derivation.IsTracked.applies`
    * `Derivation.IsTracked.perform`
    * `Derivation.isTracked_of_opening`
    * `Derivation.pool_matches_graph`
-/

------------------------------------------------------------
-- Tracked Derivations
------------------------------------------------------------

namespace GraphRewriting

namespace Derivation

variable {d : Derivation}
variable {name : String}
variable {found : RuleMatch}

/-
  The pool keeps the numbers of the nodes of the working graph
  in use, and no others.
-/
def IsTracked (d : Derivation) : Prop :=
  d.pool.Keeps (NodeId.numbers d.graph.nodeIds)

/-
  The rule of a name, applied to the working graph with
  ids from the pool.
-/
def outcome
    (d : Derivation)
    (name : String)
    (found : RuleMatch) : Outcome (IdPool × List NodeId) :=
  d.grammar.applyRule drawFromPool name found d.graph
    (d.pool, [])

/- The ids that an action draws, in their order. -/
def drawn
    (d : Derivation) :
    Action → List NodeId
  | .applyRule name found => (d.outcome name found).supply.2
  | .addNode _ _ => [d.pool.pop.1]
  | .removeNode _ | .addEdge _ | .removeEdge _ _ | .reset => []

/- The numbers that are in use while an action is taken. -/
def inUseDuring
    (d : Derivation)
    (action : Action) : Finset Nat :=
  NodeId.numbers (d.drawn action) ∪
    NodeId.numbers d.graph.nodeIds

/-
  During some actions, there are always fewer numbers in use
  than there are ids.
-/
def HasRoom
    (d : Derivation) :
    List Action → Prop
  | [] => True
  | action :: actions =>
      (d.inUseDuring action).card < idLimit ∧
        (d.perform action).1.HasRoom actions

instance decidableHasRoom
    (d : Derivation)
    (actions : List Action) :
    Decidable (d.HasRoom actions) :=
  match actions with
  | [] => inferInstanceAs (Decidable True)
  | action :: actions =>
      have := decidableHasRoom (d.perform action).1 actions
      inferInstanceAs
        (Decidable
          ((d.inUseDuring action).card < idLimit ∧
            (d.perform action).1.HasRoom actions))

theorem drawn_applyRule :
    d.drawn (.applyRule name found) =
      (d.outcome name found).supply.2 := rfl

/-
  An application in terms of its outcome: a rewrite gives back
  what it removed, and a failure what was drawn in vain.
-/
theorem applyRule_eq_outcome :
    d.applyRule name found =
      match (d.outcome name found).result with
      | .ok rewrite =>
          (⟨d.grammar,
            (d.outcome name found).supply.1.pushAll
              rewrite.removed, d.initial,
            (d.outcome name found).graph⟩, .ok rewrite)
      | .error error =>
          (⟨d.grammar,
            (d.outcome name found).supply.1.pushAll
              ((d.outcome name found).supply.2.filter
                fun id =>
                  !(d.outcome name found).graph.nodes.contains
                    id),
            d.initial, (d.outcome name found).graph⟩,
            .error error) := rfl

/-
  A pool keeps the numbers of a graph when it keeps those of a
  list with its nodes.
-/
theorem isTracked_of_mem_iff
    {ids : List NodeId}
    (hKeeps : d.pool.Keeps (NodeId.numbers ids))
    (hIds : ∀ id : NodeId, id ∈ d.graph.nodes ↔ id ∈ ids) :
    d.IsTracked := by
  unfold IsTracked
  rw [NodeId.numbers_congr fun id =>
    Graph.mem_nodeIds.trans (hIds id)]
  exact hKeeps

/- What a rule application owes to a tracked derivation. -/
structure Applies
    (d : Derivation)
    (name : String)
    (found : RuleMatch) : Prop where
  tracked : (d.applyRule name found).1.IsTracked
  least :
    NodeId.AreLeast (NodeId.numbers d.graph.nodeIds)
      (d.drawn (.applyRule name found))
  spares :
    ∀ error : GrammarError,
      (d.applyRule name found).2 = .error error →
        error.SparesIds

/-
  An application that fails before it draws
  ids changes nothing.
-/
theorem IsTracked.applies_of_no_draw
    (h : d.IsTracked)
    {error : GrammarError}
    (hError : error.SparesIds)
    (hOutcome :
      d.outcome name found =
        ⟨d.graph, (d.pool, []), .error error⟩) :
    d.Applies name found := by
  have hApplied :
      d.applyRule name found = (d, .error error) := by
    rw [applyRule_eq_outcome, hOutcome]
    rfl
  constructor
  · rw [hApplied]
    exact h
  · rw [drawn_applyRule, hOutcome]
    trivial
  · intro other hOther
    rw [hApplied] at hOther
    cases hOther
    exact hError

/-
  Once ids are drawn, those that name copies stay drawn, and
  the numbers of removed nodes are given back. The copies of a
  rewrite that fails halfway stay in the graph.
-/
theorem isTracked_of_leavesNodes
    {fresh : FreshIds}
    {record : List NodeId}
    {pool : IdPool}
    {graph : Graph}
    {result : Except GrammarError Rewrite}
    (hOutcome :
      d.outcome name found = ⟨graph, (pool, record), result⟩)
    (hPool :
      pool.Keeps
        (NodeId.numbers record ∪
          NodeId.numbers d.graph.nodeIds))
    (hValues : ∀ id : NodeId, id ∈ fresh.values ↔ id ∈ record)
    (hAbsent : ∀ id ∈ fresh.values, id ∉ d.graph.nodes)
    (hLeaves : Rule.LeavesNodes d.graph fresh graph result) :
    (d.applyRule name found).1.IsTracked := by
  rw [applyRule_eq_outcome, hOutcome]
  rw [← NodeId.numbers_append] at hPool
  cases result with
  | ok rewrite =>
      rcases hLeaves with ⟨hRemoved, hNodes⟩
      have hPushed := hPool.pushAll rewrite.removed
      rw [NodeId.numbers_sdiff] at hPushed
      apply isTracked_of_mem_iff hPushed
      intro id
      dsimp only
      rw [hNodes, List.mem_filter, List.mem_append,
        Graph.mem_nodeIds, ← hValues, decide_eq_true_eq]
      constructor
      · rintro (⟨hKept, hOld⟩ | hCopy)
        · exact ⟨Or.inr hOld, hKept⟩
        · exact
            ⟨Or.inl hCopy,
              fun hId => hAbsent id hCopy (hRemoved id hId)⟩
      · rintro ⟨hCopy | hOld, hKept⟩
        · exact Or.inr hCopy
        · exact Or.inl ⟨hKept, hOld⟩
  | error error =>
      rcases hLeaves with ⟨-, hNodes⟩
      have hUnused :
          (record.filter fun id => !graph.nodes.contains id) =
            [] := by
        rw [List.filter_eq_nil_iff]
        intro id hId
        have hMem := (hNodes id).2 (Or.inr ((hValues id).2 hId))
        rw [Bool.not_eq_true', Bool.not_eq_false,
          Std.ExtTreeMap.contains_iff_mem]
        exact hMem
      dsimp only
      rw [hUnused]
      apply isTracked_of_mem_iff hPool
      intro id
      dsimp only
      rw [hNodes, List.mem_append, Graph.mem_nodeIds, ← hValues,
        or_comm]

/-
  With room left, a tracked derivation draws ids
  that are all accepted.
-/
theorem IsTracked.drawsAll
    (h : d.IsTracked)
    {rule : String}
    {ids : List NodeId}
    {drawing :
      Except GrammarError FreshIds × IdPool × List NodeId}
    (hDraw :
      drawIds rule d.graph drawFromPool ∅ ids (d.pool, []) =
        drawing)
    (hNodup : ids.Nodup)
    (hRoom :
      (NodeId.numbers drawing.2.2 ∪
        NodeId.numbers d.graph.nodeIds).card < idLimit) :
    DrawsAll drawing ∅ (NodeId.numbers d.graph.nodeIds)
      drawing.2.2 := by
  subst hDraw
  apply drawIds_of_keeps h (Finset.Subset.refl _) _ hNodup _ rfl
    hRoom
  · intro n hn
    rcases NodeId.mem_numbers_iff.1 hn with ⟨value, hValue, -⟩
    exact absurd hValue (notMem_values_empty _)
  · intro a _
    exact Std.ExtTreeMap.getElem?_empty

/-
  A rule application keeps a derivation tracked, whether it
  succeeds or fails.
-/
theorem IsTracked.applies
    (h : d.IsTracked)
    (hRoom :
      (d.inUseDuring (.applyRule name found)).card < idLimit) :
    d.Applies name found := by
  have hOutcome :
      d.outcome name found =
        d.grammar.applyRule drawFromPool name found d.graph
          (d.pool, []) := rfl
  unfold Grammar.applyRule at hOutcome
  cases hRule : d.grammar.rules.get? name with
  | none =>
      rw [hRule] at hOutcome
      have hError : (GrammarError.ruleAbsent name).SparesIds :=
        ErrorKind.noConfusion
      exact h.applies_of_no_draw hError hOutcome
  | some rule =>
      rw [hRule] at hOutcome
      dsimp only at hOutcome
      unfold inUseDuring at hRoom
      rw [drawn_applyRule, hOutcome] at hRoom
      have hIds : rule.copiedIds.Nodup := by
        rw [Rule.copiedIds_eq]
        exact rule.replacement.nodeIds_nodup
      rcases
          rule.apply_cases drawFromPool found d.graph
            (d.pool, []) with
        ⟨error, hError, hApply⟩ | ⟨error, rest, hDraw, hApply⟩ |
          ⟨fresh, ⟨pool, record⟩, graph, result, hDraw, hApply,
            hLeaves⟩
      · exact
          h.applies_of_no_draw hError (hOutcome.trans hApply)
      · rw [hApply] at hRoom
        rcases h.drawsAll hDraw hIds hRoom with
          ⟨⟨found, hFound, -⟩, -, -⟩
        cases hFound
      · rw [hApply] at hOutcome hRoom
        rcases h.drawsAll hDraw hIds hRoom with
          ⟨⟨_, hFound, hValues⟩, hLeast, hKeeps⟩
        cases hFound
        have hFresh := drawIds_isFresh hDraw
        have hRecorded :
            ∀ id : NodeId, id ∈ fresh.values ↔ id ∈ record := by
          intro id
          rw [hValues]
          exact or_iff_right (notMem_values_empty id)
        have hAbsent :
            ∀ id ∈ fresh.values, id ∉ d.graph.nodes := by
          intro id hId
          rcases mem_values.1 hId with ⟨a, ha⟩
          exact hFresh.absent a id ha
        constructor
        · exact isTracked_of_leavesNodes hOutcome hKeeps
            hRecorded hAbsent hLeaves
        · rw [drawn_applyRule, hOutcome]
          exact hLeast
        · intro error hError
          rw [applyRule_eq_outcome, hOutcome] at hError
          cases result with
          | ok rewrite => cases hError
          | error other =>
              cases hError
              exact hLeaves.1

end Derivation

end GraphRewriting

------------------------------------------------------------
-- Actions On Tracked Derivations
------------------------------------------------------------

namespace GraphRewriting

namespace Derivation

variable {d : Derivation}

/- A new node has the least number that is not in use. -/
theorem IsTracked.addNode
    (h : d.IsTracked)
    {symbol : String}
    {labels : Labels}
    (hRoom :
      (d.inUseDuring (.addNode symbol labels)).card < idLimit) :
    (d.addNode symbol labels).1.IsTracked ∧
      NodeId.AreLeast (NodeId.numbers d.graph.nodeIds)
        [d.pool.pop.1] := by
  have hUsed :
      (NodeId.numbers d.graph.nodeIds).card < idLimit :=
    Nat.lt_of_le_of_lt
      (Finset.card_le_card Finset.subset_union_right) hRoom
  rcases h.pop hUsed with ⟨hLeast, hApart, hNext⟩
  refine ⟨?_, hLeast, trivial⟩
  unfold Derivation.addNode
  dsimp only
  split
  · have hBack := hNext.pushAll [d.pool.pop.1]
    rw [Finset.union_sdiff_cancel_left] at hBack
    · exact hBack
    · exact Finset.disjoint_left.2 hApart
  · rw [← NodeId.numbers_append] at hNext
    apply isTracked_of_mem_iff hNext
    intro id
    dsimp only
    rw [Graph.mem_nodes_addNode, List.mem_append,
      Graph.mem_nodeIds, List.mem_singleton, eq_comm]

/- The pool gets the number of the node back. -/
theorem IsTracked.removeNode
    (h : d.IsTracked)
    {id : NodeId}
    {next : Derivation}
    (hNext : d.removeNode id = .ok next) :
    next.IsTracked := by
  rcases removeNode_eq_ok_iff.1 hNext with ⟨graph, hGraph, rfl⟩
  rcases Graph.removeNode_eq_ok.1 hGraph with ⟨-, rfl⟩
  have hPushed := h.pushAll [id]
  rw [NodeId.numbers_sdiff] at hPushed
  apply isTracked_of_mem_iff hPushed
  intro other
  dsimp only
  rw [Std.ExtTreeMap.mem_erase, List.mem_filter,
    Graph.mem_nodeIds, decide_eq_true_eq, List.mem_singleton,
    ne_eq, Std.compare_eq_iff_eq, and_comm, eq_comm (a := id)]

/-
  A change of edges leaves the nodes and the pool as they are.
-/
theorem IsTracked.of_nodes_eq
    (h : d.IsTracked)
    {graph : Graph}
    (hNodes : graph.nodes = d.graph.nodes) :
    IsTracked { d with graph := graph } := by
  unfold IsTracked Graph.nodeIds at h ⊢
  dsimp only
  rw [hNodes]
  exact h

theorem IsTracked.addEdge
    (h : d.IsTracked)
    {edge : Edge}
    {next : Derivation}
    (hNext : d.addEdge edge = .ok next) :
    next.IsTracked := by
  rcases addEdge_eq_ok_iff.1 hNext with ⟨-, graph, hGraph, rfl⟩
  rcases Graph.addEdge_eq_ok.1 hGraph with ⟨-, -, rfl⟩
  exact h.of_nodes_eq rfl

theorem IsTracked.removeEdge
    (h : d.IsTracked)
    {start stop : NodeId}
    {next : Derivation}
    (hNext : d.removeEdge start stop = .ok next) :
    next.IsTracked := by
  rcases removeEdge_eq_ok_iff.1 hNext with ⟨graph, hGraph, rfl⟩
  rcases Graph.removeEdge_eq_ok.1 hGraph with ⟨-, rfl⟩
  exact h.of_nodes_eq rfl

/-
  After a reset the pool has the numbers of the graph in use.
-/
theorem isTracked_reset : d.reset.IsTracked := by
  have hReset : d.pool.reset.Keeps ∅ := IdPool.Keeps.reset
  have hKeeps := hReset.reserveAll d.initial.nodeIds
  rw [Finset.union_empty] at hKeeps
  exact hKeeps

/-
  Every action keeps a derivation tracked, and draws the least
  ids that are new.
-/
theorem IsTracked.perform
    (h : d.IsTracked)
    {action : Action}
    (hRoom : (d.inUseDuring action).card < idLimit) :
    (d.perform action).1.IsTracked ∧
      NodeId.AreLeast (NodeId.numbers d.graph.nodeIds)
        (d.drawn action) := by
  cases action with
  | applyRule name found =>
      have hApplies := h.applies hRoom
      exact ⟨hApplies.tracked, hApplies.least⟩
  | addNode symbol labels => exact h.addNode hRoom
  | removeNode id =>
      exact
        ⟨attempt_preserves h fun _ hNext => h.removeNode hNext,
          trivial⟩
  | addEdge edge =>
      exact
        ⟨attempt_preserves h fun _ hNext => h.addEdge hNext,
          trivial⟩
  | removeEdge start stop =>
      exact
        ⟨attempt_preserves h fun _ hNext => h.removeEdge hNext,
          trivial⟩
  | reset => exact ⟨isTracked_reset, trivial⟩

/- Any actions with room for them keep the pool on track. -/
theorem IsTracked.after
    (h : d.IsTracked)
    {actions : List Action}
    (hRoom : d.HasRoom actions) :
    (d.after actions).IsTracked := by
  unfold Derivation.after
  induction actions generalizing d with
  | nil => exact h
  | cons action actions ih =>
      exact ih (h.perform hRoom.1).1 hRoom.2

end Derivation

end GraphRewriting

------------------------------------------------------------
-- Openings
------------------------------------------------------------

namespace GraphRewriting

/-
  The ids that an opening draws, one for each node
  of the start graph.
-/
def Opening.drawn
    (opening : Opening)
    (grammar : Grammar)
    (chunkSize : Nat) : List NodeId :=
  match opening, grammar.startGraph with
  | .start, some graph =>
      ((IdPool.ofChunkSize chunkSize).popMany
        graph.nodeIds.length).1
  | _, _ => []

namespace Derivation

variable {d : Derivation}
variable {grammar : Grammar}
variable {chunkSize : Nat}

/-
  The nodes of a start graph get the least
  ids, in their order.
-/
theorem exists_numberNodes_eq
    {pool : IdPool}
    {ids : List NodeId}
    (hPool : pool.Keeps ∅)
    (hNodup : ids.Nodup)
    (hRoom :
      (NodeId.numbers (pool.popMany ids.length).1).card <
        idLimit) :
    ∃ (fresh : FreshIds) (rest : IdPool),
      numberNodes ∅ pool ids = (fresh, rest) ∧
        fresh.IsFresh ∅ ids ∧
          (∀ id : NodeId,
            id ∈ fresh.values ↔
              id ∈ (pool.popMany ids.length).1) ∧
            NodeId.AreLeast ∅ (pool.popMany ids.length).1 ∧
              rest.Keeps
                (NodeId.numbers
                  (pool.popMany ids.length).1) := by
  rcases exists_record "" ∅ pool ∅ ids [] with
    ⟨drawn, left, hRecord, hPopped⟩
  have hRoomDrawn :
      (NodeId.numbers drawn ∪ ∅).card < idLimit := by
    rw [hPopped, NodeId.numbers_append] at hRoom
    rw [Finset.union_empty]
    exact Nat.lt_of_le_of_lt
      (Finset.card_le_card Finset.subset_union_left) hRoom
  have hDraws :
      DrawsAll (drawIds "" ∅ drawFromPool ∅ ids (pool, [])) ∅ ∅
        drawn := by
    apply drawIds_of_keeps hPool _ _ hNodup _ hRecord hRoomDrawn
    · intro n hn
      rcases NodeId.mem_numbers_iff.1 hn with ⟨value, hValue, -⟩
      exact absurd (Graph.mem_nodeIds.1 hValue)
        Std.ExtTreeMap.not_mem_empty
    · intro n hn
      rcases NodeId.mem_numbers_iff.1 hn with ⟨value, hValue, -⟩
      exact absurd hValue (notMem_values_empty _)
    · intro a _
      exact Std.ExtTreeMap.getElem?_empty
  rcases hDraw : drawIds "" ∅ drawFromPool ∅ ids (pool, []) with
    ⟨result, rest, record⟩
  rw [hDraw] at hDraws hRecord
  rcases hDraws with ⟨⟨fresh, hFresh, hValues⟩, hLeast, hKeeps⟩
  cases hFresh
  rcases numberNodes_eq_of_drawIds hDraw with ⟨hNumbered, hAll⟩
  have hDrawn : drawn = (pool.popMany ids.length).1 :=
    hRecord.symm.trans hAll
  subst hDrawn
  rw [Finset.union_empty] at hKeeps
  refine
    ⟨fresh, rest, hNumbered, drawIds_isFresh hDraw, ?_, hLeast,
      hKeeps⟩
  intro id
  rw [hValues]
  exact or_iff_right (notMem_values_empty id)

/- At the start the nodes get the least numbers. -/
theorem isTracked_of_start
    (hStart : start grammar chunkSize = .ok d)
    (hRoom :
      (NodeId.numbers
          (Opening.start.drawn grammar chunkSize)).card <
        idLimit) :
    d.IsTracked ∧
      NodeId.AreLeast ∅
        (Opening.start.drawn grammar chunkSize) := by
  unfold Opening.drawn at hRoom ⊢
  rcases start_eq_ok_iff.1 hStart with
    ⟨graph, copy, hGraph, hRun, rfl⟩
  rw [hGraph] at hRoom ⊢
  dsimp only at hRoom ⊢
  rcases
      exists_numberNodes_eq (.ofChunkSize chunkSize)
        graph.nodeIds_nodup hRoom with
     ⟨fresh, rest, hNumbered, hFresh, hValues, hLeast, hKeeps⟩
  refine ⟨?_, hLeast⟩
  rw [hNumbered] at hRun ⊢
  have hNodes :=
    ContextFreeRule.nodes_advance_addRenamed
      ((∅ : Graph).widen fresh graph.nodes)
      (graph.edges.toList.map fresh.renameEdge)
  unfold Graph.widen at hNodes
  rw [hRun] at hNodes
  apply isTracked_of_mem_iff hKeeps
  intro id
  rw [← hValues, mem_values]
  dsimp only at hNodes ⊢
  rw [hNodes]
  refine hFresh.mem_nodes_widen_iff.trans (or_iff_right ?_)
  exact Std.ExtTreeMap.not_mem_empty

/- The numbers of a graph to continue from are taken. -/
private theorem isTracked_of_continueFrom
    {graph : Graph}
    (hOpening : continueFrom grammar graph chunkSize = .ok d) :
    d.IsTracked := by
  rcases continueFrom_eq_ok_iff.1 hOpening with ⟨-, rfl⟩
  have hKeeps :=
    (IdPool.Keeps.ofChunkSize chunkSize).reserveAll
      graph.nodeIds
  rw [Finset.union_empty] at hKeeps
  exact hKeeps

/- Every derivation is tracked at its start. -/
theorem isTracked_of_opening
    {opening : Opening}
    (hOpening : opening.derivation grammar chunkSize = .ok d)
    (hRoom :
      (NodeId.numbers (opening.drawn grammar chunkSize)).card <
        idLimit) :
    d.IsTracked ∧
      NodeId.AreLeast ∅ (opening.drawn grammar chunkSize) := by
  cases opening with
  | start => exact isTracked_of_start hOpening hRoom
  | continueFrom graph =>
      exact ⟨isTracked_of_continueFrom hOpening, trivial⟩

end Derivation

end GraphRewriting

------------------------------------------------------------
-- Runs
------------------------------------------------------------

namespace GraphRewriting

namespace Derivation

/-
  Wherever a derivation gets with room left, its pool keeps
  exactly the numbers of the nodes of its working graph in use.
  So every id that is drawn, at the start or by an action, is
  the least one that is new, and a rule application does not
  fail for an id that is in use. Graphs and answers do not
  depend on the size of chunks.
-/
theorem pool_matches_graph
    {opening : Opening}
    {grammar : Grammar}
    {chunkSize : Nat}
    {d : Derivation}
    {actions : List Action}
    (hOpening : opening.derivation grammar chunkSize = .ok d)
    (hDrawn :
      (NodeId.numbers (opening.drawn grammar chunkSize)).card <
        idLimit)
    (hRoom : d.HasRoom actions) :
    let e := d.after actions
    (∀ n : Nat,
      e.pool.InUse n ↔ n ∈ NodeId.numbers e.graph.nodeIds) ∧
      NodeId.AreLeast ∅ (opening.drawn grammar chunkSize) ∧
        (∀ action : Action,
          (e.inUseDuring action).card < idLimit →
          NodeId.AreLeast (NodeId.numbers e.graph.nodeIds)
            (e.drawn action) ∧
            ∀ (name : String) (found : RuleMatch)
                (error : GrammarError),
              action = .applyRule name found →
                (e.applyRule name found).2 = .error error →
                  error.kind ≠ .duplicateId) ∧
          ∀ otherSize : Nat, ∃ other : Derivation,
            opening.derivation grammar otherSize = .ok other ∧
              (other.after actions).graph = e.graph ∧
                other.answers actions = d.answers actions := by
  intro e
  rcases isTracked_of_opening hOpening hDrawn with
    ⟨hTracked, hLeast⟩
  have hAfter : e.IsTracked := hTracked.after hRoom
  refine ⟨hAfter.inUse_iff, hLeast, ?_, ?_⟩
  · intro action hMore
    refine ⟨(hAfter.perform hMore).2, ?_⟩
    rintro name found error rfl
    exact (hAfter.applies hMore).spares error
  · intro otherSize
    have hAlike :=
      opening_alike opening grammar chunkSize otherSize
    rw [hOpening] at hAlike
    generalize opening.derivation grammar otherSize =
      reached at hAlike ⊢
    cases hAlike with
    | ok hAlike =>
        rename_i other
        exact
          ⟨other, rfl, (hAlike.after actions).graph.symm,
            (hAlike.answers_eq actions).symm⟩

/- A grammar whose one rule gives a node a neighbour. -/
def sprouting : Grammar :=
  { Grammar.ofConfig .standard with
    nonTerminals :=
      ((∅ : Std.ExtTreeSet String).insert "A").insert "B"
    rules :=
      (∅ : RuleBook).put (.node ContextFreeRule.budding) }

/- A node with an edge into it from a node that is not there. -/
def stump : Graph :=
  ((∅ : Graph).addNode (.ofSymbol (.num 3) "A")).putEdge
    (.ofLabels (.num 7) (.num 3) ∅)

def atStump : Derivation :=
  ⟨sprouting, (IdPool.ofChunkSize 1).reserveAll stump.nodeIds,
    stump, stump⟩

/-
  The first application stops at the edge, with its
  copies in the graph.
-/
def stumpActions : List Action :=
  [.applyRule "bud" (.node (.num 3)), .removeNode (.num 0),
    .addNode "B" ∅,
    .applyRule "bud" (.node (.num 0)), .addNode "C" ∅,
    .applyRule "bud" (.node (.num 9))]

/-
  The application fails half way, and what it
  drew is given back.
-/
theorem pool_matches_graph_stump :
    (Opening.continueFrom stump).derivation sprouting 1 =
      .ok atStump ∧
      (atStump.applyRule "bud" (.node (.num 3))).2 =
          .error (.endAbsent (.num 7) (.num 7) (.num 0)) ∧
        ∀ n : Nat,
          (atStump.after stumpActions).pool.InUse n ↔
            n ∈ ({0, 1, 3} : Finset Nat) := by
  have hOpening :
      (Opening.continueFrom stump).derivation sprouting 1 =
        .ok atStump := by
    have hFault :
        sprouting.graphFault? stump .workingGraph = none := by
      decide +kernel
    unfold Opening.derivation continueFrom
    dsimp only
    rw [hFault]
    rfl
  have hDrawn :
      (NodeId.numbers
          ((Opening.continueFrom stump).drawn sprouting
            1)).card < idLimit := by
    decide +kernel
  have hRoom : atStump.HasRoom stumpActions := by decide +kernel
  have hIds :
      NodeId.numbers
          (atStump.after stumpActions).graph.nodeIds =
        {0, 1, 3} := by
    decide +kernel
  refine ⟨hOpening, by decide +kernel, ?_⟩
  rw [← hIds]
  exact (pool_matches_graph hOpening hDrawn hRoom).1

end Derivation

end GraphRewriting
