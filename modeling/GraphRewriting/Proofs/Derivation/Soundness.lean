import GraphRewriting.Proofs.Derivation.Actions
import GraphRewriting.Proofs.Grammar.Start
import GraphRewriting.Proofs.Rewriting.Symbols

/-
  Sound derivations: every edge of the working graph has its
  ends, and the symbols are those that the grammar lets in,
  whatever is done and however it ends.

  Main declarations:
    * `Grammar.LetsIn`
    * `Derivation.IsSound`
    * `Derivation.IsSound.perform`
    * `Derivation.isSound_of_opening`
    * `Derivation.hasIntegrity_after`
    * `Derivation.sound_after`
-/

------------------------------------------------------------
-- Symbols That A Grammar Lets In
------------------------------------------------------------

namespace GraphRewriting

namespace Grammar

/-
  The start graph, the replacements of rules and the elements
  without fault carry symbols of two kinds.
-/
structure LetsIn
    (g : Grammar)
    (onNodes onEdges : String → Prop) : Prop where
  start :
    ∀ graph : Graph,
      g.startGraph = some graph → graph.Carries onNodes onEdges
  rules :
    ∀ rule ∈ g.rules.toList,
      rule.replacement.Carries onNodes onEdges
  elements :
    ∀ (nodes : List Node) (edges : List Edge) (holder : Holder),
      g.elementFault? nodes edges holder = none →
        (∀ node ∈ nodes, onNodes node.symbol) ∧
          ∀ edge ∈ edges, onEdges edge.symbol

/- Whatever a grammar lets in carries some symbols. -/
theorem letsIn_all
    (g : Grammar) :
    g.LetsIn (fun _ => True) (fun _ => True) where
  start _ _ := ⟨fun _ _ => trivial, fun _ _ => trivial⟩
  rules _ _ := ⟨fun _ _ => trivial, fun _ _ => trivial⟩
  elements _ _ _ _ := ⟨fun _ _ => trivial, fun _ _ => trivial⟩

/-
  With rules over the vocabulary, a built grammar lets in
  known symbols alone.
-/
theorem IsBuilt.letsIn
    {g : Grammar}
    (hBuilt : g.IsBuilt)
    (hRules :
      ∀ rule ∈ g.rules.toList, g.ruleFault? rule = none) :
    g.LetsIn g.NodeSymbol g.EdgeSymbol where
  start graph hGraph :=
    knows_iff_carries.1 (hBuilt.knowsStart graph hGraph)
  rules rule hRule :=
    (ruleFault?_eq_none_iff.1
      (hRules rule hRule)).carries_replacement
  elements _ _ _ := symbols_of_elementFault?_eq_none

end Grammar

end GraphRewriting

------------------------------------------------------------
-- Sound Derivations
------------------------------------------------------------

namespace GraphRewriting

namespace Derivation

/-
  A derivation in a grammar whose working graph is sound, and so
  is the graph that a reset returns to.
-/
structure IsSound
    (d : Derivation)
    (g : Grammar)
    (onNodes onEdges : String → Prop) : Prop where
  grammar : d.grammar = g
  graph : d.graph.IsSound onNodes onEdges
  initial : d.initial.IsSound onNodes onEdges

variable {d : Derivation}
variable {g : Grammar}
variable {onNodes onEdges : String → Prop}

/- A rule of the grammar keeps a derivation sound. -/
theorem IsSound.applyRule
    (h : d.IsSound g onNodes onEdges)
    (hg : g.LetsIn onNodes onEdges)
    (name : String)
    (found : RuleMatch) :
    (d.applyRule name found).1.IsSound g onNodes onEdges := by
  have hGraph :
      (g.applyRule drawFromPool name found d.graph
          (d.pool, [])).graph.IsSound
        onNodes
        onEdges := by
    unfold Grammar.applyRule
    cases hRule : g.rules.get? name with
    | none => exact h.graph
    | some rule =>
        have hReplacement :=
          hg.rules rule (mem_values.2 ⟨name, hRule⟩)
        exact Graph.isKept_isSound.apply h.graph hReplacement _
          found _
  unfold Derivation.applyRule
  dsimp only
  rw [h.grammar]
  split
  · exact ⟨rfl, hGraph, h.initial⟩
  · exact ⟨rfl, hGraph, h.initial⟩

/- A node is only added with a known symbol. -/
theorem IsSound.addNode
    (h : d.IsSound g onNodes onEdges)
    (hg : g.LetsIn onNodes onEdges)
    (symbol : String)
    (labels : Labels) :
    (d.addNode symbol labels).1.IsSound g onNodes onEdges := by
  unfold Derivation.addNode
  dsimp only
  rw [h.grammar]
  split
  · exact ⟨rfl, h.graph, h.initial⟩
  · rename_i hFault
    have hNode :=
      (hg.elements _ _ _ hFault).1 _ List.mem_cons_self
    exact ⟨rfl, h.graph.addNode hNode, h.initial⟩

theorem IsSound.removeNode
    (h : d.IsSound g onNodes onEdges)
    {id : NodeId}
    {next : Derivation}
    (hNext : d.removeNode id = .ok next) :
    next.IsSound g onNodes onEdges := by
  rcases removeNode_eq_ok_iff.1 hNext with ⟨graph, hGraph, rfl⟩
  exact ⟨h.grammar, h.graph.removeNode hGraph, h.initial⟩

/-
  An edge is only added between nodes, with a
  symbol that is let in.
-/
theorem IsSound.addEdge
    (h : d.IsSound g onNodes onEdges)
    (hg : g.LetsIn onNodes onEdges)
    {edge : Edge}
    {next : Derivation}
    (hNext : d.addEdge edge = .ok next) :
    next.IsSound g onNodes onEdges := by
  rcases addEdge_eq_ok_iff.1 hNext with
    ⟨hFault, graph, hGraph, rfl⟩
  rw [h.grammar] at hFault
  have hEdge :=
    (hg.elements _ _ _ hFault).2 edge List.mem_cons_self
  exact ⟨h.grammar, h.graph.addEdge hEdge hGraph, h.initial⟩

theorem IsSound.removeEdge
    (h : d.IsSound g onNodes onEdges)
    {start stop : NodeId}
    {next : Derivation}
    (hNext : d.removeEdge start stop = .ok next) :
    next.IsSound g onNodes onEdges := by
  rcases removeEdge_eq_ok_iff.1 hNext with ⟨graph, hGraph, rfl⟩
  exact ⟨h.grammar, h.graph.removeEdge hGraph, h.initial⟩

/-
  Every action keeps a derivation sound, whether it
  succeeds or fails.
-/
theorem IsSound.perform
    (h : d.IsSound g onNodes onEdges)
    (hg : g.LetsIn onNodes onEdges)
    (action : Action) :
    (d.perform action).1.IsSound g onNodes onEdges := by
  cases action with
  | applyRule name found => exact h.applyRule hg name found
  | addNode symbol labels => exact h.addNode hg symbol labels
  | removeNode id =>
      exact
        attempt_preserves h fun _ hNext => h.removeNode hNext
  | addEdge edge =>
      exact
        attempt_preserves h fun _ hNext => h.addEdge hg hNext
  | removeEdge start stop =>
      exact
        attempt_preserves h fun _ hNext => h.removeEdge hNext
  | reset => exact ⟨h.grammar, h.initial, h.initial⟩

/- Any actions in sequence keep a derivation sound. -/
theorem IsSound.after
    (h : d.IsSound g onNodes onEdges)
    (hg : g.LetsIn onNodes onEdges)
    (actions : List Action) :
    (d.after actions).IsSound g onNodes onEdges :=
  after_preserves
    (fun reached => reached.IsSound g onNodes onEdges) h
    fun _ action _ hReached => hReached.perform hg action

end Derivation

end GraphRewriting

------------------------------------------------------------
-- Sound Openings
------------------------------------------------------------

namespace GraphRewriting

/-
  An opening at a graph needs one in which every
  edge has its ends.
-/
def Opening.HasIntegrity : Opening → Prop
  | .start => True
  | .continueFrom graph => graph.HasIntegrity

namespace Derivation

variable {d : Derivation}
variable {grammar : Grammar}
variable {chunkSize : Nat}
variable {onNodes onEdges : String → Prop}

/-
  A start graph is copied into an empty graph, which is sound.
-/
theorem isSound_of_start
    (hg : grammar.LetsIn onNodes onEdges)
    (hStart : start grammar chunkSize = .ok d) :
    d.IsSound grammar onNodes onEdges := by
  rcases start_eq_ok_iff.1 hStart with
    ⟨graph, copy, hGraph, hRun, rfl⟩
  generalize numberNodes ∅ (.ofChunkSize chunkSize)
      graph.nodeIds = numbered at hRun
  have hSymbols := hg.start graph hGraph
  have hEmpty : (∅ : Graph).IsSound onNodes onEdges :=
    Graph.isSound_empty
  have hEdges :
      ∀ edge : Edge,
        .ok edge ∈
          graph.edges.toList.map numbered.1.renameEdge →
        onEdges edge.symbol :=
    fun _ => hSymbols.renameEdge
  have hCopied :=
    Graph.isKept_isSound.addNodes hEmpty
      (hSymbols.rename numbered.1)
  have hJoined := Graph.isKept_isSound.addRenamed hCopied hEdges
  rw [hRun] at hJoined
  exact ⟨rfl, hJoined, hJoined⟩

/- A graph to continue from is checked first. -/
private theorem isSound_of_continueFrom
    (hg : grammar.LetsIn onNodes onEdges)
    {graph : Graph}
    (hGraph : graph.HasIntegrity)
    (hOpening : continueFrom grammar graph chunkSize = .ok d) :
    d.IsSound grammar onNodes onEdges := by
  rcases continueFrom_eq_ok_iff.1 hOpening with ⟨hFault, rfl⟩
  rcases hg.elements _ _ _ hFault with ⟨hNodes, hEdges⟩
  have hSound : graph.IsSound onNodes onEdges :=
    ⟨hGraph, hNodes, hEdges⟩
  exact ⟨rfl, hSound, hSound⟩

/- Every way to open a derivation leaves it sound. -/
theorem isSound_of_opening
    (hg : grammar.LetsIn onNodes onEdges)
    {opening : Opening}
    (hGraph : opening.HasIntegrity)
    (hOpening : opening.derivation grammar chunkSize = .ok d) :
    d.IsSound grammar onNodes onEdges := by
  cases opening with
  | start => exact isSound_of_start hg hOpening
  | continueFrom graph =>
      exact isSound_of_continueFrom hg hGraph hOpening

/-
  Edges that have their ends at the start have them wherever
  a derivation gets.
-/
theorem hasIntegrity_after
    {opening : Opening}
    (hGraph : opening.HasIntegrity)
    (hOpening : opening.derivation grammar chunkSize = .ok d)
    (actions : List Action) :
    (d.after actions).graph.HasIntegrity :=
  ((isSound_of_opening grammar.letsIn_all hGraph hOpening).after
    grammar.letsIn_all
    actions).graph.integrity

end Derivation

end GraphRewriting

------------------------------------------------------------
-- Terminal And Non-Terminal Nodes
------------------------------------------------------------

namespace GraphRewriting

namespace Derivation

variable {d : Derivation}
variable {g : Grammar}

/-
  As the grammar knows each symbol, a node is a non-terminal
  if it is not a terminal.
-/
theorem IsSound.isNonTerminal_eq
    (h : d.IsSound g g.NodeSymbol g.EdgeSymbol)
    (hDisjoint :
      ∀ symbol : String,
        symbol ∈ g.terminals → symbol ∉ g.nonTerminals)
    {node : Node}
    (hNode : node ∈ d.graph.nodes.nodes) :
    d.grammar.isNonTerminal node.symbol =
      !d.grammar.isTerminal node.symbol := by
  have hKnown :=
    Grammar.isVocabulary_iff.1
      (h.graph.symbols.nodes node hNode)
  rw [h.grammar, Bool.eq_iff_iff, Bool.not_eq_true',
    ← Bool.not_eq_true, Grammar.isNonTerminal_iff,
    Grammar.isTerminal_iff]
  constructor
  · exact fun hNonTerminal hTerminal =>
      hDisjoint node.symbol hTerminal hNonTerminal
  · exact hKnown.resolve_left

/-
  The nodes are those that carry terminals, and those that
  carry non-terminals.
-/
theorem IsSound.nodes_perm
    (h : d.IsSound g g.NodeSymbol g.EdgeSymbol)
    (hDisjoint :
      ∀ symbol : String,
        symbol ∈ g.terminals → symbol ∉ g.nonTerminals) :
    (d.terminalNodes ++ d.nonTerminalNodes).Perm
      d.graph.nodeIds := by
  have hRest :
      (d.graph.nodes.nodes.filter fun node =>
        d.grammar.isNonTerminal node.symbol) =
        d.graph.nodes.nodes.filter fun node =>
          !d.grammar.isTerminal node.symbol :=
    List.filter_congr fun _ hNode =>
      h.isNonTerminal_eq hDisjoint hNode
  have hIds :
      d.graph.nodeIds = d.graph.nodes.nodes.map Node.id :=
    d.graph.nodes.map_id_nodes.symm
  unfold terminalNodes nonTerminalNodes nodesWhere
  rw [hRest, ← List.map_append, hIds]
  exact (List.filter_append_perm _ _).map Node.id

/- A sentence is a graph without non-terminal nodes. -/
theorem IsSound.isSentence_iff
    (h : d.IsSound g g.NodeSymbol g.EdgeSymbol)
    (hDisjoint :
      ∀ symbol : String,
        symbol ∈ g.terminals → symbol ∉ g.nonTerminals) :
    d.isSentence = true ↔ d.nonTerminalNodes = [] := by
  unfold isSentence Grammar.isSentence nonTerminalNodes
    nodesWhere
  rw [List.all_eq_true, List.map_eq_nil_iff,
    List.filter_eq_nil_iff]
  apply forall₂_congr
  intro node hNode
  rw [h.isNonTerminal_eq hDisjoint hNode]
  cases d.grammar.isTerminal node.symbol <;> simp

end Derivation

end GraphRewriting

------------------------------------------------------------
-- Runs
------------------------------------------------------------

namespace GraphRewriting

namespace Derivation

/-
  Whatever is done to a derivation in a built grammar, its
  working graph is over the vocabulary and every edge has its
  ends. Each node carries either a terminal or a non-terminal,
  and a sentence is a graph with no non-terminal. A graph of a
  rule may lack ends of its edges: the rewrite stops there.
-/
theorem sound_after
    {grammar : Grammar}
    {opening : Opening}
    {chunkSize : Nat}
    {d : Derivation}
    (hBuilt : grammar.IsBuilt)
    (hRules :
      ∀ rule ∈ grammar.rules.toList,
        grammar.ruleFault? rule = none)
    (hGraph : opening.HasIntegrity)
    (hOpening : opening.derivation grammar chunkSize = .ok d)
    (actions : List Action) :
    let e := d.after actions
    e.grammar = grammar ∧
      e.graph.HasIntegrity ∧
        grammar.isSymbolGraph e.graph = true ∧
          (e.terminalNodes ++ e.nonTerminalNodes).Perm
            e.graph.nodeIds ∧
            (∀ id ∈ e.graph.nodes,
              Xor (id ∈ e.terminalNodes)
                (id ∈ e.nonTerminalNodes)) ∧
              (e.isSentence = true ↔
                e.nonTerminalNodes = []) := by
  intro e
  have hLetsIn := hBuilt.letsIn hRules
  have hSound :
      e.IsSound grammar grammar.NodeSymbol grammar.EdgeSymbol :=
    (isSound_of_opening hLetsIn hGraph hOpening).after hLetsIn
      actions
  have hDisjoint := hBuilt.isConsistent.disjoint
  have hPerm := hSound.nodes_perm hDisjoint
  have hSentence := hSound.isSentence_iff hDisjoint
  refine
    ⟨hSound.grammar, hSound.graph.integrity, ?_, hPerm, ?_,
      hSentence⟩
  · unfold Grammar.isSymbolGraph
    rw [Option.isNone_iff_eq_none,
      Grammar.graphFault?_eq_none_iff,
      Grammar.knows_iff_carries]
    exact hSound.graph.symbols
  · intro id hId
    have hNodup :
        (e.terminalNodes ++ e.nonTerminalNodes).Nodup :=
      hPerm.nodup_iff.2 e.graph.nodeIds_nodup
    have hApart := List.disjoint_of_nodup_append hNodup
    have hMem := hPerm.mem_iff.2 (Graph.mem_nodeIds.2 hId)
    rcases List.mem_append.1 hMem with hTerminal | hNonTerminal
    · exact Or.inl
        ⟨hTerminal,
          fun hNonTerminal => hApart hTerminal hNonTerminal⟩
    · exact Or.inr
        ⟨hNonTerminal,
          fun hTerminal => hApart hTerminal hNonTerminal⟩

/- An arrow under the rule that gives its tip another symbol. -/
def atArrow : Derivation :=
  ⟨Grammar.retippingGrammar,
    (IdPool.ofChunkSize 1).reserveAll Grammar.pointing.nodeIds,
    Grammar.pointing, Grammar.pointing⟩

/-
  The tip is rewritten, twice something is refused, and the
  tail goes with its edge.
-/
def arrowActions : List Action :=
  [.applyRule "retip" (.morphism Grammar.pointed),
    .applyRule "retip" (.node (.num 9)),
    .addNode "C" ∅, .addNode "A" ∅, .removeNode (.num 1)]

/-
  The general statement, at an arrow whose head is rewritten.
-/
theorem sound_after_arrow :
    (Opening.continueFrom Grammar.pointing).derivation
      Grammar.retippingGrammar 1 =
        .ok atArrow ∧
      (atArrow.after arrowActions).graph.nodeIds =
        [.num 0, .num 2] ∧
        (atArrow.after arrowActions).graph.HasIntegrity ∧
          Grammar.retippingGrammar.isSymbolGraph
              (atArrow.after arrowActions).graph =
            true := by
  have hOpening :
      (Opening.continueFrom Grammar.pointing).derivation
        Grammar.retippingGrammar 1 =
        .ok atArrow := by
    have hFault :
        Grammar.retippingGrammar.graphFault? Grammar.pointing
            .workingGraph = none := by
      decide +kernel
    unfold Opening.derivation continueFrom
    dsimp only
    rw [hFault]
    rfl
  have hGraph :
      (Opening.continueFrom Grammar.pointing).HasIntegrity := by
    have hPointing : Grammar.pointing.HasIntegrity := by
      decide +kernel
    exact hPointing
  rcases
      sound_after Grammar.retippingGrammar_isBuilt
        (by decide +kernel) hGraph hOpening arrowActions with
    ⟨-, hIntegrity, hSymbols, -⟩
  exact ⟨hOpening, by decide +kernel, hIntegrity, hSymbols⟩

end Derivation

end GraphRewriting
