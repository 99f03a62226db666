import GraphRewriting.Proofs.Derivation.Tracking
import GraphRewriting.Proofs.Rewriting.Splicing

/-
  Derivations in grammars of trees. The start graph is copied
  edge by edge, every rewrite splices a tree into a tree, and so
  nothing but trees is derived.

  Main declarations:
    * `Graph.renumber`
    * `Graph.isTree_renumber`
    * `Derivation.exists_start_eq`
    * `Derivation.GrowsTrees`
    * `Derivation.isTree_after`
-/

------------------------------------------------------------
-- Graphs Under Other Ids
------------------------------------------------------------

namespace GraphRewriting

namespace Graph

/- The graph under the ids drawn for its nodes. -/
def renumber
    (g : Graph)
    (fresh : FreshIds) : Graph :=
  ⟨((∅ : Graph).widen fresh g.nodes).nodes,
    (∅ : EdgeStore).insertAll (fresh.copyEdges g)⟩

variable {g : Graph}
variable {fresh : FreshIds}

theorem mem_nodes_renumber_iff
    (hFresh : fresh.IsFresh ∅ g.nodeIds)
    {id : NodeId} :
    id ∈ (g.renumber fresh).nodes ↔
      ∃ a : NodeId, fresh[a]? = some id := by
  refine hFresh.mem_nodes_widen_iff.trans (or_iff_right ?_)
  exact Std.ExtTreeMap.not_mem_empty

/- The edges join the new ids of their ends. -/
theorem get?_edges_renumber_iff
    (hFresh : fresh.IsFresh ∅ g.nodeIds)
    (hg : g.HasIntegrity)
    {a b : NodeId}
    {info : EdgeInfo} :
    (g.renumber fresh).edges.get? a b = some info ↔
      ∃ x y : NodeId,
        g.edges.get? x y = some info ∧ fresh[x]? = some a ∧
          fresh[y]? = some b := by
  unfold renumber
  dsimp only
  rw [EdgeStore.get?_insertAll_iff_of_ends
      (hFresh.copyEdges_ends hg),
    hFresh.mem_copyEdges_iff hg, EdgeStore.get?_empty]
  simp

/- New numbers keep the integrity of a graph. -/
theorem hasIntegrity_renumber
    (hFresh : fresh.IsFresh ∅ g.nodeIds)
    (hg : g.HasIntegrity) :
    (g.renumber fresh).HasIntegrity := by
  rw [hasIntegrity_iff]
  intro a b hSome
  rcases Option.isSome_iff_exists.1 hSome with ⟨info, hInfo⟩
  rcases (get?_edges_renumber_iff hFresh hg).1 hInfo with
    ⟨x, y, -, hx, hy⟩
  exact
    ⟨(mem_nodes_renumber_iff hFresh).2 ⟨x, hx⟩,
      (mem_nodes_renumber_iff hFresh).2 ⟨y, hy⟩⟩

/- There are as many nodes as before. -/
theorem size_nodes_renumber
    (hFresh : fresh.IsFresh ∅ g.nodeIds) :
    (g.renumber fresh).nodes.size = g.nodes.size := by
  have hNodes :
      (g.renumber fresh).nodeSet = fresh.copySet g := by
    ext id
    rw [mem_nodeSet, mem_nodes_renumber_iff hFresh,
      hFresh.mem_copySet]
  rw [← card_nodeSet, hNodes, hFresh.card_copySet]

private theorem size_edges_renumber_le
    (hFresh : fresh.IsFresh ∅ g.nodeIds)
    (hg : g.HasIntegrity) :
    (g.renumber fresh).edges.size ≤ g.edges.size := by
  have hSubset :
      (g.renumber fresh).endPairs ⊆ fresh.copyPairs g := by
    rintro ⟨a, b⟩ hEnds
    rcases
        Option.isSome_iff_exists.1 (mem_endPairs.1 hEnds) with
      ⟨info, hInfo⟩
    rcases (get?_edges_renumber_iff hFresh hg).1 hInfo with
      ⟨x, y, hOld, hx, hy⟩
    exact FreshIds.mem_copyPairs (Option.isSome_of_eq_some hOld)
      hx hy
  rw [← card_endPairs]
  exact (Finset.card_le_card hSubset).trans
    (fresh.card_copyPairs_le g)

/- A tree under new numbers is a tree. -/
theorem isTree_renumber
    (hFresh : fresh.IsFresh ∅ g.nodeIds)
    (hg : g.IsTree) :
    (g.renumber fresh).IsTree := by
  have hCopy :
      ∀ x y : NodeId,
        (g.edges.get? x y).isSome = true →
          Relation.ReflTransGen (g.renumber fresh).Touches
            (fresh.getD x x) (fresh.getD y y) := by
    intro x y hEdge
    rcases Option.isSome_iff_exists.1 hEdge with ⟨info, hInfo⟩
    have hEnds := hasIntegrity_iff.1 hg.integrity x y hEdge
    rcases hFresh.exists_id hEnds.1 with ⟨a, ha⟩
    rcases hFresh.exists_id hEnds.2 with ⟨b, hb⟩
    have hCopied :=
      (get?_edges_renumber_iff hFresh hg.integrity).2
        ⟨x, y, hInfo, ha, hb⟩
    rw [FreshIds.getD_eq_of_getElem? ha,
      FreshIds.getD_eq_of_getElem? hb]
    exact .single (Or.inl (Option.isSome_of_eq_some hCopied))
  apply isTree_of_size_edges_le
    (hasIntegrity_renumber hFresh hg.integrity)
  · intro a ha b hb
    rcases (mem_nodes_renumber_iff hFresh).1 ha with ⟨x, hx⟩
    rcases (mem_nodes_renumber_iff hFresh).1 hb with ⟨y, hy⟩
    have hPath :=
      path_map (f := fun a => fresh.getD a a) hCopy
        (hg.connected x (hFresh.mem_nodes_of_getElem? hx) y
          (hFresh.mem_nodes_of_getElem? hy))
    rwa [FreshIds.getD_eq_of_getElem? hx,
      FreshIds.getD_eq_of_getElem? hy] at hPath
  · rw [size_nodes_renumber hFresh, ← hg.count]
    exact Nat.add_le_add_right
      (size_edges_renumber_le hFresh hg.integrity) 1

end Graph

end GraphRewriting

------------------------------------------------------------
-- Starts
------------------------------------------------------------

namespace GraphRewriting

namespace Derivation

/-
  A start graph whose edges have their ends can be started from,
  with room left, and is at first the same under other ids.
-/
theorem exists_start_eq
    {grammar : Grammar}
    {chunkSize : Nat}
    {graph : Graph}
    (hStart : grammar.startGraph = some graph)
    (hGraph : graph.HasIntegrity)
    (hDrawn :
      (NodeId.numbers
          (Opening.start.drawn grammar chunkSize)).card <
        idLimit) :
    ∃ (fresh : FreshIds) (rest : IdPool),
      fresh.IsFresh ∅ graph.nodeIds ∧
        start grammar chunkSize =
          .ok
            ⟨grammar, rest, graph.renumber fresh,
              graph.renumber fresh⟩ := by
  unfold Opening.drawn at hDrawn
  rw [hStart] at hDrawn
  rcases
      exists_numberNodes_eq (.ofChunkSize chunkSize)
        graph.nodeIds_nodup hDrawn with
    ⟨fresh, rest, hNumbered, hFresh, -⟩
  refine ⟨fresh, rest, hFresh, ?_⟩
  have hRun :
      advance addRenamed ((∅ : Graph).widen fresh graph.nodes)
          (graph.edges.toList.map fresh.renameEdge) =
        (graph.renumber fresh, none) := by
    rw [FreshIds.renameEdges_eq
        (fun _ => hFresh.mem_of_mem_nodes) hGraph,
      ContextFreeRule.advance_addRenamed_map_ok,
      Graph.addEdges_of_ends (FreshIds.ends_copyEdges hGraph),
      hFresh.edges_widen]
    rfl
  unfold Graph.widen at hRun
  unfold start
  rw [hStart]
  dsimp only
  rw [hNumbered]
  dsimp only
  rw [hRun]

end Derivation

end GraphRewriting

------------------------------------------------------------
-- Runs
------------------------------------------------------------

namespace GraphRewriting

/-
  The actions that rewrite the working graph or
  return to the start.
-/
def Action.Rewrites : Action → Prop
  | .applyRule _ _ | .reset => True
  | .addNode _ _ | .removeNode _ | .addEdge _
  | .removeEdge _ _ => False

namespace Derivation

/-
  Its rules rewrite nodes into trees, and its graphs are
  trees.
-/
structure GrowsTrees (d : Derivation) : Prop where
  rules : ∀ rule ∈ d.grammar.rules.toList, rule.GrowsTrees
  initial : d.initial.IsTree
  graph : d.graph.IsTree

variable {d : Derivation}

/-
  Where all right-hand sides are trees, a rule
  makes a tree of a tree.
-/
theorem GrowsTrees.applyRule
    (h : d.GrowsTrees)
    (name : String)
    (found : RuleMatch) :
    (d.applyRule name found).1.GrowsTrees := by
  have hGraph : (d.outcome name found).graph.IsTree := by
    unfold outcome Grammar.applyRule
    cases hRule : d.grammar.rules.get? name with
    | none => exact h.graph
    | some rule =>
        exact Rule.isTree_apply h.graph
          (h.rules rule (mem_values.2 ⟨name, hRule⟩)) _ found _
  rw [applyRule_eq_outcome]
  split
  · exact ⟨h.rules, h.initial, hGraph⟩
  · exact ⟨h.rules, h.initial, hGraph⟩

theorem GrowsTrees.perform
    (h : d.GrowsTrees)
    {action : Action}
    (hAction : action.Rewrites) :
    (d.perform action).1.GrowsTrees := by
  cases action with
  | applyRule name found => exact h.applyRule name found
  | reset => exact ⟨h.rules, h.initial, h.initial⟩
  | _ => exact hAction.elim

/- Over all rules and resets the graph stays a tree. -/
theorem GrowsTrees.after
    (h : d.GrowsTrees)
    {actions : List Action}
    (hActions : ∀ action ∈ actions, action.Rewrites) :
    (d.after actions).GrowsTrees :=
  after_preserves GrowsTrees h
    fun _ action hAction hReached =>
      hReached.perform (hActions action hAction)

/-
  From a tree, rules that rewrite nodes into trees derive trees
  and nothing else, whichever of them is applied at whichever
  match, and whether it succeeds or fails.
-/
theorem isTree_after
    {grammar : Grammar}
    {chunkSize : Nat}
    {graph : Graph}
    (hRules : ∀ rule ∈ grammar.rules.toList, rule.GrowsTrees)
    (hStart : grammar.startGraph = some graph)
    (hGraph : graph.IsTree)
    (hDrawn :
      (NodeId.numbers
          (Opening.start.drawn grammar chunkSize)).card <
        idLimit) :
    ∃ d : Derivation,
      start grammar chunkSize = .ok d ∧
        ∀ actions : List Action,
          (∀ action ∈ actions, action.Rewrites) →
            (d.after actions).graph.IsTree := by
  rcases exists_start_eq hStart hGraph.integrity hDrawn with
    ⟨fresh, rest, hFresh, hMade⟩
  have hTree := Graph.isTree_renumber hFresh hGraph
  refine ⟨_, hMade, ?_⟩
  intro actions hActions
  exact (GrowsTrees.after ⟨hRules, hTree, hTree⟩ hActions).graph

/- A branch with a bud at its end. -/
def twig : Graph :=
  (((∅ : Graph).addNode (.ofSymbol .base "branch")).addNode
    (.ofSymbol (.num 0) "bud")).putEdge
    (.ofLabels .base (.num 0) ∅)

/- A bud becomes such a branch. -/
def branching : ContextFreeRule :=
  ⟨"branch", .ofSymbol "bud", twig,
    Labels.nameKey_mem_ofSymbol "bud", by decide +kernel⟩

def branchingGrammar : Grammar :=
  { Grammar.ofConfig .standard with
    nonTerminals :=
      ((∅ : Std.ExtTreeSet String).insert "branch").insert "bud"
    startGraph := some twig
    rules := (∅ : RuleBook).put (.node branching) }

/-
  The bud of the start is rewritten, no longer found, and the
  new one is rewritten.
-/
def branchingActions : List Action :=
  [.applyRule "branch" (.node (.num 0)),
    .applyRule "branch" (.node (.num 0)),
    .applyRule "branch" (.node (.num 2))]

theorem isTree_after_branching :
    ((start branchingGrammar 1).map fun d =>
      (d.after branchingActions).graph.nodeIds) =
        .ok [.num 0, .num 1, .num 3, .num 4] ∧
      ∃ d : Derivation,
        start branchingGrammar 1 = .ok d ∧
          (d.after branchingActions).graph.IsTree := by
  have hTwig : twig.IsTree := by
    refine ⟨by decide +kernel, ?_, by decide +kernel⟩
    exact
      Graph.isWeaklyConnected_of_star .base (by decide +kernel)
  have hRules :
      ∀ rule ∈ branchingGrammar.rules.toList,
        rule.GrowsTrees := by
    have hList :
        branchingGrammar.rules.toList = [.node branching] := by
      decide +kernel
    rw [hList]
    intro rule hRule
    rw [List.mem_singleton.1 hRule]
    exact hTwig
  have hDrawn :
      (NodeId.numbers
          (Opening.start.drawn branchingGrammar 1)).card <
        idLimit := by
    decide +kernel
  rcases isTree_after hRules rfl hTwig hDrawn with
    ⟨d, hMade, hTrees⟩
  refine
    ⟨by decide +kernel, d, hMade, hTrees branchingActions ?_⟩
  simp [branchingActions, Action.Rewrites]

end Derivation

end GraphRewriting
