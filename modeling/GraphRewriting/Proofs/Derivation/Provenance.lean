import GraphRewriting.Proofs.Derivation.Soundness
import GraphRewriting.Proofs.Derivation.Trees
import GraphRewriting.Proofs.Rewriting.Atomicity

/-
  Where derived graphs come from. Rewrites copy and move, so
  every node has the labels of a node, and every edge the labels
  and the document id of an edge, of the start graph or of the
  replacement of some rule.

  Main declarations:
    * `Graph.DrawsOn`
    * `Graph.DrawsOn.apply`
    * `Grammar.sources`
    * `Derivation.Draws`
    * `Derivation.draws_of_start`
    * `Derivation.Draws.after`
-/

------------------------------------------------------------
-- Graphs
------------------------------------------------------------

namespace GraphRewriting

namespace Graph

/-
  Some source has a node with the labels of each node, and some
  source an edge with the labels and the document id of each
  edge.
-/
structure DrawsOn
    (graph : Graph)
    (sources : List Graph) : Prop where
  nodes :
    ∀ {id : NodeId} {labels : Labels},
      graph.nodes[id]? = some labels →
        ∃ source ∈ sources,
          ∃ a : NodeId, source.nodes[a]? = some labels
  edges :
    ∀ {a b : NodeId} {info : EdgeInfo},
      graph.edges.get? a b = some info →
        ∃ source ∈ sources,
          ∃ x y : NodeId, source.edges.get? x y = some info

variable {graph next : Graph}
variable {sources : List Graph}

/- The empty graph has no edge that came from anywhere. -/
theorem drawsOn_empty : (∅ : Graph).DrawsOn sources where
  nodes hLabels := by
    have hNone : ∀ id : NodeId, (∅ : Graph).nodes[id]? = none :=
      fun _ => Std.ExtTreeMap.getElem?_empty
    rw [hNone] at hLabels
    cases hLabels
  edges hInfo := by
    have hNone :
        ∀ a b : NodeId, (∅ : Graph).edges.get? a b = none :=
      EdgeStore.get?_empty
    rw [hNone] at hInfo
    cases hInfo

namespace DrawsOn

/-
  What all labels of the sources have in common, those of
  the graph have too.
-/
theorem forall_node
    (h : graph.DrawsOn sources)
    (holds : Labels → Prop)
    (hSources :
      ∀ source ∈ sources,
        ∀ node ∈ source.nodes.nodes, holds node.labels) :
    ∀ node ∈ graph.nodes.nodes, holds node.labels := by
  intro node hNode
  rcases h.nodes (NodeStore.mem_nodes.1 hNode) with
    ⟨source, hSource, a, ha⟩
  exact hSources source hSource ⟨a, node.labels⟩
    (NodeStore.mem_nodes.2 ha)

/-
  What goes for the edges of all sources goes for
  those of the graph.
-/
theorem forall_edge
    (h : graph.DrawsOn sources)
    (holds : EdgeInfo → Prop)
    (hSources :
      ∀ source ∈ sources,
        ∀ edge ∈ source.edges.toList, holds edge.toEdgeInfo) :
    ∀ edge ∈ graph.edges.toList, holds edge.toEdgeInfo := by
  intro edge hEdge
  rcases h.edges (EdgeStore.mem_toList.1 hEdge) with
    ⟨source, hSource, x, y, hInfo⟩
  exact hSources source hSource ⟨edge.toEdgeInfo, x, y⟩
    (EdgeStore.mem_toList.2 hInfo)

/- A node with the labels of another can be added. -/
theorem addNode
    (h : graph.DrawsOn sources)
    {node : Node}
    (hNode :
      ∃ source ∈ sources,
        ∃ a : NodeId, source.nodes[a]? = some node.labels) :
    (graph.addNode node).DrawsOn sources where
  nodes hLabels := by
    rw [getElem?_nodes_addNode] at hLabels
    split at hLabels
    · cases hLabels
      exact hNode
    · exact h.nodes hLabels
  edges hInfo := by
    rw [get?_edges_addNode] at hInfo
    split at hInfo
    · cases hInfo
    · exact h.edges hInfo

/-
  An edge that only differs from another in its
  ends can be added.
-/
theorem addEdge
    (h : graph.DrawsOn sources)
    {edge : Edge}
    (hEdge :
      ∃ source ∈ sources,
        ∃ x y : NodeId,
          source.edges.get? x y = some edge.toEdgeInfo)
    (hAdd : graph.addEdge edge = .ok next) :
    next.DrawsOn sources := by
  rcases addEdge_eq_ok.1 hAdd with ⟨-, -, rfl⟩
  refine ⟨fun hLabels => h.nodes hLabels, ?_⟩
  intro a b info hInfo
  rw [get?_edges_putEdge] at hInfo
  split at hInfo
  · cases hInfo
    exact hEdge
  · exact h.edges hInfo

/- The nodes of a source can be added under other ids. -/
theorem addRenamedNodes
    (h : graph.DrawsOn sources)
    {source : Graph}
    (hSource : source ∈ sources)
    (fresh : FreshIds) :
    (graph.addNodes (fresh.rename source.nodes.nodes)).DrawsOn
      sources := by
  have hLabels :
      ∀ node ∈ fresh.rename source.nodes.nodes,
        ∃ source ∈ sources,
          ∃ a : NodeId,
            source.nodes[a]? = some node.labels := by
    intro node hNode
    rcases List.mem_map.1 hNode with ⟨old, hOld, rfl⟩
    exact ⟨source, hSource, old.id, NodeStore.mem_nodes.1 hOld⟩
  generalize fresh.rename source.nodes.nodes = nodes at hLabels
  induction nodes generalizing graph with
  | nil => exact h
  | cons node nodes ih =>
      rw [List.forall_mem_cons] at hLabels
      rw [addNodes_cons]
      exact ih (h.addNode hLabels.1) hLabels.2

/-
  The edges of a source can be added between other ends,
  wherever that stops.
-/
theorem addRenamedEdges
    (h : graph.DrawsOn sources)
    {source : Graph}
    (hSource : source ∈ sources)
    (fresh : FreshIds) :
    (advance addRenamed graph
      (source.edges.toList.map fresh.renameEdge)).1.DrawsOn
      sources := by
  have hStep :
      ∀ (reached next : Graph),
        ∀ edge ∈ source.edges.toList.map fresh.renameEdge,
        reached.DrawsOn sources →
          GraphRewriting.addRenamed reached edge = .ok next →
            next.DrawsOn sources := by
    intro reached next edge hEdge hReached hNext
    rcases List.mem_map.1 hEdge with ⟨old, hOld, rfl⟩
    unfold FreshIds.renameEdge at hNext
    split at hNext
    · rename_i start stop _ _
      have hInfo :
          ∃ source ∈ sources, ∃ x y : NodeId,
            source.edges.get? x y =
              some (old.moved start stop).toEdgeInfo :=
        ⟨source, hSource, old.start, old.stop,
          EdgeStore.mem_toList.1 hOld⟩
      exact hReached.addEdge hInfo hNext
    · cases hNext
  exact advance_preserves_of_mem hStep h

/- A rule leaves what it found and copies of its replacement. -/
theorem resultAt
    (h : graph.DrawsOn sources)
    (hGraph : graph.HasIntegrity)
    {rule : Rule}
    (hRule : rule.HasSoundReplacement)
    (hSource : rule.replacement ∈ sources)
    {found : RuleMatch}
    (hFits : rule.FitsAt found graph)
    {fresh : FreshIds}
    (hFresh : fresh.IsFresh graph rule.copiedIds) :
    (rule.resultAt fresh found graph).DrawsOn sources := by
  cases rule <;> cases found
  case node.node r node =>
    have hNode : node ∈ graph.nodes :=
      Rule.mem_nodes_of_symbol?_eq_some hFits
    constructor
    · intro id labels hLabels
      rcases
          (ContextFreeRule.labels_result_iff hFresh hNode).1
            hLabels with
        ⟨-, hKept⟩ | ⟨a, -, hCopied⟩
      · exact h.nodes hKept
      · exact ⟨r.rhs, hSource, a, hCopied⟩
    · intro a b info hInfo
      rcases
          (ContextFreeRule.get?_edges_result_iff hFresh hGraph
              hRule hNode).1
            hInfo with
        ⟨x, y, hMoved, -⟩ | ⟨x, y, hCopied, -⟩
      · exact h.edges hMoved
      · exact ⟨r.rhs, hSource, x, y, hCopied⟩
  case region.morphism r m =>
    constructor
    · intro id labels hLabels
      rcases
          (ExoticRule.labels_result_iff hFits hFresh).1
            hLabels with
        ⟨-, hKept⟩ | ⟨a, -, hCopied⟩
      · exact h.nodes hKept
      · exact ⟨r.rhs.graph, hSource, a, hCopied⟩
    · intro a b info hInfo
      rcases
          (ExoticRule.get?_edges_result_iff hFits hFresh hGraph
              hRule.2).1
            hInfo with
        ⟨-, hKept⟩ | ⟨x, y, hCopied, -⟩
      · exact h.edges hKept
      · exact ⟨r.rhs.graph, hSource, x, y, hCopied⟩
  all_goals exact hFits.elim

/-
  Wherever a rule is applied and however that ends,
  nothing else comes in.
-/
theorem apply
    (h : graph.DrawsOn sources)
    (hGraph : graph.HasIntegrity)
    {rule : Rule}
    (hRule : rule.HasSoundReplacement)
    (hSource : rule.replacement ∈ sources)
    {σ : Type}
    (source : IdSource σ)
    (found : RuleMatch)
    (supply : σ) :
    (rule.apply source found graph supply).graph.DrawsOn
      sources := by
  rcases rule.apply_ends hRule hGraph source found supply with
    ⟨-, error, hApply⟩ | ⟨error, rest, -, hApply⟩ | ⟨hFits,
      fresh, rest, hDraw, hApply⟩
  · rw [hApply]
    exact h
  · rw [hApply]
    exact h
  · rw [hApply]
    exact h.resultAt hGraph hRule hSource hFits
      (drawIds_isFresh hDraw)

end DrawsOn

end Graph

end GraphRewriting

------------------------------------------------------------
-- Derivations
------------------------------------------------------------

namespace GraphRewriting

/-
  The graphs of a grammar that derivations copy: its start
  graph and the replacements.
-/
def Grammar.sources (g : Grammar) : List Graph :=
  g.startGraph.toList ++ g.rules.toList.map Rule.replacement

theorem Grammar.mem_sources
    {g : Grammar}
    {graph : Graph} :
    graph ∈ g.sources ↔
      g.startGraph = some graph ∨
        ∃ rule ∈ g.rules.toList, rule.replacement = graph := by
  unfold sources
  rw [List.mem_append, Option.mem_toList, List.mem_map]

namespace Derivation

/-
  A derivation in a grammar whose graphs draw on the sources of
  the grammar, and whose edges have their ends.
-/
structure Draws
    (d : Derivation)
    (g : Grammar) : Prop where
  sound : d.IsSound g (fun _ => True) (fun _ => True)
  initial : d.initial.DrawsOn g.sources
  graph : d.graph.DrawsOn g.sources

variable {d : Derivation}
variable {g : Grammar}

/- A start graph is copied into an empty graph. -/
theorem draws_of_start
    {chunkSize : Nat}
    (hStart : start g chunkSize = .ok d) :
    d.Draws g := by
  have hSound := isSound_of_start g.letsIn_all hStart
  rcases start_eq_ok_iff.1 hStart with
    ⟨graph, copy, hGraph, hRun, rfl⟩
  generalize
      (numberNodes ∅ (.ofChunkSize chunkSize) graph.nodeIds).1 =
    fresh at hRun
  have hSource : graph ∈ g.sources :=
    Grammar.mem_sources.2 (Or.inl hGraph)
  have hCopied :=
    Graph.drawsOn_empty.addRenamedNodes hSource fresh
  have hJoined := hCopied.addRenamedEdges hSource fresh
  rw [hRun] at hJoined
  exact ⟨hSound, hJoined, hJoined⟩

/- Applying a rule brings in copies of its replacement alone. -/
theorem Draws.applyRule
    (h : d.Draws g)
    (hRules : ∀ rule ∈ g.rules.toList, rule.HasSoundReplacement)
    (name : String)
    (found : RuleMatch) :
    (d.applyRule name found).1.Draws g := by
  have hGraph :
      (d.outcome name found).graph.DrawsOn g.sources := by
    unfold outcome Grammar.applyRule
    rw [h.sound.grammar]
    cases hRule : g.rules.get? name with
    | none => exact h.graph
    | some rule =>
        have hMem : rule ∈ g.rules.toList :=
          mem_values.2 ⟨name, hRule⟩
        have hSource :=
          Grammar.mem_sources.2 (Or.inr ⟨rule, hMem, rfl⟩)
        exact h.graph.apply h.sound.graph.integrity
          (hRules rule hMem) hSource _ found _
  refine ⟨h.sound.applyRule g.letsIn_all name found, ?_, ?_⟩
  · rw [applyRule_eq_outcome]
    split
    · exact h.initial
    · exact h.initial
  · rw [applyRule_eq_outcome]
    split
    · exact hGraph
    · exact hGraph

/- No rewriting makes edges of another source. -/
theorem Draws.perform
    (h : d.Draws g)
    (hRules : ∀ rule ∈ g.rules.toList, rule.HasSoundReplacement)
    {action : Action}
    (hAction : action.Rewrites) :
    (d.perform action).1.Draws g := by
  cases action with
  | applyRule name found => exact h.applyRule hRules name found
  | reset =>
      exact
        ⟨h.sound.perform g.letsIn_all .reset, h.initial,
          h.initial⟩
  | _ => exact hAction.elim

/-
  Rewriting keeps to the sources, whether it
  succeeds or fails.
-/
theorem Draws.after
    (h : d.Draws g)
    (hRules : ∀ rule ∈ g.rules.toList, rule.HasSoundReplacement)
    {actions : List Action}
    (hActions : ∀ action ∈ actions, action.Rewrites) :
    (d.after actions).Draws g :=
  after_preserves (fun reached => reached.Draws g) h
    fun _ action hAction hReached =>
      hReached.perform hRules (hActions action hAction)

end Derivation

end GraphRewriting
