import GraphRewriting.Proofs.Document.Loaded

/-
  The ids that edges have in documents. An id that an edge
  carries is kept, and only the others are made up, so edges
  that carry the same id make a document that is not read back.

  Main declarations:
    * `GraphElement.HasDistinctIds`
    * `GraphElement.hasDistinctIds_ofGraph_iff`
    * `GraphElement.Describes.exists_idRedeclared`
    * `GrammarDocument.HasDistinctIds`
    * `GrammarDocument.hasDistinctIds_iff`
    * `GrammarDocument.exists_idRedeclared_of_toGrammar`
    * `GrammarDocument.reload_of_defineStartGraph`
-/

------------------------------------------------------------
-- Graphs
------------------------------------------------------------

namespace GraphRewriting

/- The edges of an element have distinct ids. -/
def GraphElement.HasDistinctIds
    (element : GraphElement) : Prop :=
  (element.edges.map EdgeElement.id).Nodup

instance
    (element : GraphElement) :
    Decidable element.HasDistinctIds :=
  inferInstanceAs
    (Decidable (element.edges.map EdgeElement.id).Nodup)

private theorem EdgeElement.id_of_ofEdge
    {edge : Edge}
    {id : String}
    {element : EdgeElement}
    (h : EdgeElement.ofEdge edge id = .ok element) :
    element.id = some (.name id) := by
  rcases bind_eq_ok_iff.1 h with ⟨attributes, -, h⟩
  cases h
  rfl

/-
  The ids of elements are those that numbering
  gives their edges.
-/
theorem map_id_edgeElements
    {taken : Std.ExtTreeSet String}
    {last : Nat}
    {edges : List Edge}
    {elements : List EdgeElement}
    (h : edgeElements taken last edges = .ok elements) :
    elements.map EdgeElement.id =
      ((numberEdges taken last edges).map Edge.displayedId).map
        fun id => some (.name id) := by
  induction edges generalizing taken last elements with
  | nil =>
      cases h
      rfl
  | cons edge edges ih =>
      unfold edgeElements at h
      unfold numberEdges
      cases hId : edge.documentId with
      | some own =>
          rw [hId] at h
          rcases bind_eq_ok_iff.1 h with ⟨first, hFirst, h⟩
          rcases bind_eq_ok_iff.1 h with ⟨rest, hRest, h⟩
          cases h
          dsimp only
          rw [List.map_cons, List.map_cons, List.map_cons,
            ih hRest, EdgeElement.id_of_ofEdge hFirst,
            Edge.displayedId_of_documentId hId]
      | none =>
          rw [hId] at h
          rcases bind_eq_ok_iff.1 h with ⟨first, hFirst, h⟩
          rcases bind_eq_ok_iff.1 h with ⟨rest, hRest, h⟩
          cases h
          dsimp only
          rw [List.map_cons, List.map_cons, List.map_cons,
            ih hRest, EdgeElement.id_of_ofEdge hFirst]
          rfl

namespace GraphElement

variable {element : GraphElement}
variable {g : Graph}

/-
  The edges of a graph get distinct ids exactly if no two of
  them carry the same.
-/
theorem hasDistinctIds_ofGraph_iff
    (h : ofGraph g = .ok element) :
    element.HasDistinctIds ↔
      (carriedIds g.edges.toList).Nodup := by
  have hInjective :
      Function.Injective fun id : String =>
        some (NodeId.name id) :=
    fun _ _ hSame => NodeId.name.inj (Option.some.inj hSame)
  rcases bind_eq_ok_iff.1 h with ⟨nodes, -, h⟩
  rcases bind_eq_ok_iff.1 h with ⟨edges, hEdges, h⟩
  cases h
  unfold HasDistinctIds
  dsimp only
  rw [map_id_edgeElements hEdges, List.nodup_map_iff hInjective,
    displayedIds_documentIds_nodup_iff]

/-
  Written edges have distinct ids if the ids
  that they carry are.
-/
theorem hasDistinctIds_ofPattern_iff
    {p : ExoticGraph}
    (h : ofPattern p = .ok element) :
    element.HasDistinctIds ↔ (carriedIds p.edges).Nodup := by
  rcases bind_eq_ok_iff.1 h with ⟨plain, hPlain, h⟩
  have hIds := hasDistinctIds_ofGraph_iff hPlain
  cases hKind : p.kind with
  | anchor =>
      rw [hKind] at h
      cases h
      exact hIds
  | wildcard =>
      rw [hKind] at h
      cases h
      exact hIds

/-
  An element of a graph whose edges share an id is
  refused over that id.
-/
theorem Describes.exists_idRedeclared
    (h : element.Describes g)
    (hg : g.HasIntegrity)
    (hIds : ¬ (carriedIds g.edges.toList).Nodup) :
    ∃ id : String,
      element.toGraph false =
        .error (.badDocument (.edgeIdRedeclared id)) := by
  let p : ExoticGraph := .ofGraph .anchor g
  have hJoins : p.JoinsProperly :=
    ExoticGraph.joinsProperly_ofGraph hg
  have hPlain :
      (describedEdges g).map Edge.plain =
        p.edges.map Edge.plain :=
    map_plain_numberEdges
  have hNodup := g.nodes.baseFirst_nodup
  have hMem :
      ∀ node : Node,
        node ∈ g.nodes.baseFirst ↔ node ∈ p.graph.nodes.nodes :=
    fun _ => NodeStore.mem_baseFirst
  have hFit :
      FitNodes (.ofExotics p.kind p.exotic) g.nodes.baseFirst :=
    ExoticGraph.fitNodes_of_mem hNodup hMem
  have hEnds :
      ((describedEdges g).map fun edge =>
        (edge.start, edge.stop)).Nodup := by
    rw [map_ends_eq_of_map_plain_eq hPlain]
    exact EdgeStore.ends_nodup g.edges
  have hBase : false = true → element.base.isSome := by simp
  rcases exists_idRedeclared_of_fill hBase h.declares hFit hEnds
    (fun edge _ =>
      hFit.get?_edges_addNodes edge.start edge.stop)
    (hJoins.admits hNodup hMem hPlain)
    (fun hEdges =>
      hIds
        (displayedIds_documentIds_nodup_iff.1
          hEdges.idsNodup)) with
    ⟨id, hId⟩
  refine ⟨id, ?_⟩
  unfold toGraph
  rw [h.anchors, h.wildcards]
  exact congrArg (Except.map ExoticGraph.graph) hId

end GraphElement

end GraphRewriting

------------------------------------------------------------
-- Documents
------------------------------------------------------------

namespace GraphRewriting

/-
  The graphs of a rule: its left-hand side, if it is one,
  and its replacement.
-/
def RuleElement.graphs
    (element : RuleElement) : List GraphElement :=
  element.anchorGraph.toList ++ element.wildcardGraph.toList ++
    element.graph.toList

/-
  A rule that can be described has edges under distinct ids in
  each of its graphs.
-/
theorem RuleElement.hasDistinctIds_of_ofRule
    {rule : Rule}
    {element : RuleElement}
    (hRule : rule.IsDescribable)
    (h : RuleElement.ofRule rule = .ok element) :
    ∀ graph ∈ element.graphs, graph.HasDistinctIds := by
  cases rule with
  | node rule =>
      rcases bind_eq_ok_iff.1 h with
        ⟨replacement, hReplacement, h⟩
      cases h
      have hRhs : rule.rhs.IsDescribable := hRule
      intro graph hGraph
      rw [List.mem_singleton.1 hGraph]
      exact (GraphElement.hasDistinctIds_ofGraph_iff
          hReplacement).2
        hRhs.marked.idsNodup
  | region rule =>
      rcases bind_eq_ok_iff.1 h with ⟨pattern, hPattern, h⟩
      rcases bind_eq_ok_iff.1 h with
        ⟨replacement, hReplacement, h⟩
      have hGraphs :
          element.graphs = [pattern, replacement] := by
        cases hKind : rule.kind with
        | anchor =>
            rw [hKind] at h
            cases h
            rfl
        | wildcard =>
            rw [hKind] at h
            cases h
            rfl
      rw [hGraphs]
      simp only [List.forall_mem_cons, List.not_mem_nil,
        false_implies, implies_true, and_true]
      exact
        ⟨(GraphElement.hasDistinctIds_ofPattern_iff hPattern).2
            hRule.1.marked.idsNodup,
          (GraphElement.hasDistinctIds_ofGraph_iff
              hReplacement).2
            hRule.2.marked.idsNodup⟩

namespace GrammarDocument

/-
  The graphs of a document: its start graphs and
  those of its rules.
-/
def graphs (document : GrammarDocument) : List GraphElement :=
  document.startGraphs ++
    (document.rules.getD []).flatMap RuleElement.graphs

/- In each graph of a document the edges have distinct ids. -/
def HasDistinctIds (document : GrammarDocument) : Prop :=
  ∀ element ∈ document.graphs, element.HasDistinctIds

instance
    (document : GrammarDocument) :
    Decidable document.HasDistinctIds :=
  inferInstanceAs (Decidable
    (∀ element ∈ document.graphs, element.HasDistinctIds))

variable {g : Grammar}
variable {graph : Graph}
variable {document : GrammarDocument}

/-
  A grammar with a start graph and no start symbol is
  described rule by rule, then its start.
-/
theorem ofGrammar_eq_ok_of_startGraph
    (hSymbol : g.startSymbol = none)
    (hGraph : g.startGraph = some graph)
    (h : ofGrammar g = .ok document) :
    ∃ (elements : List RuleElement) (element : GraphElement),
      g.rules.toList.mapM RuleElement.ofRule = .ok elements ∧
        GraphElement.ofGraph graph = .ok element ∧
          document =
            ⟨some (listedTerminals g),
              some g.nonTerminals.toList, none, [element],
              some elements⟩ := by
  unfold ofGrammar at h
  rw [hSymbol, hGraph] at h
  rcases bind_eq_ok_iff.1 h with ⟨elements, hElements, h⟩
  rcases bind_eq_ok_iff.1 h with ⟨element, hElement, h⟩
  cases h
  exact ⟨elements, element, hElements, hElement, rfl⟩

/-
  Next to rules that can be described, the ids are distinct
  exactly if no two edges of the start graph carry the same.
-/
theorem hasDistinctIds_iff
    (hSymbol : g.startSymbol = none)
    (hGraph : g.startGraph = some graph)
    (hRules : ∀ rule ∈ g.rules.toList, rule.IsDescribable)
    (h : ofGrammar g = .ok document) :
    document.HasDistinctIds ↔
      (carriedIds graph.edges.toList).Nodup := by
  rcases ofGrammar_eq_ok_of_startGraph hSymbol hGraph h with
    ⟨elements, element, hElements, hElement, rfl⟩
  rw [← GraphElement.hasDistinctIds_ofGraph_iff hElement]
  constructor
  · exact fun hAll => hAll element List.mem_cons_self
  · intro hStart other hOther
    rcases List.mem_cons.1 hOther with rfl | hOther
    · exact hStart
    · rcases List.mem_flatMap.1 hOther with
        ⟨ruleElement, hRuleElement, hMem⟩
      rcases
          exists_of_mem_of_mapM_eq_ok hElements
            hRuleElement with
        ⟨rule, hRule, hOf⟩
      exact RuleElement.hasDistinctIds_of_ofRule
        (hRules rule hRule) hOf other hMem

/-
  A document of a start graph whose edges share an id is
  refused over that id.
-/
theorem exists_idRedeclared_of_toGrammar
    (hg : g.IsConsistent)
    (hEmpty :
      "" ∈ g.terminals ↔ g.config.emptySymbolIsTerminal = true)
    (hSymbol : g.startSymbol = none)
    (hGraph : g.startGraph = some graph)
    (hIntegrity : graph.HasIntegrity)
    (hNodeNames :
      ∀ node ∈ graph.nodes.nodes, Labels.nameKey ∈ node.labels)
    (hEdgeNames :
      ∀ edge ∈ graph.edges.toList, Labels.nameKey ∈ edge.labels)
    (hIds : ¬ (carriedIds graph.edges.toList).Nodup)
    (h : ofGrammar g = .ok document) :
    ∃ id : String,
      document.toGrammar g.config =
        .error (.badDocument (.edgeIdRedeclared id)) := by
  rcases ofGrammar_eq_ok_of_startGraph hSymbol hGraph h with
    ⟨elements, element, -, hElement, rfl⟩
  have hDescribes :=
    (GraphElement.ofGraph_describes hNodeNames
        hEdgeNames).good_of_eq_ok
      hElement
  rcases hDescribes.exists_idRedeclared hIntegrity hIds with
    ⟨id, hError⟩
  refine
    ⟨id,
      toGrammar_eq_error_of_defineStart rfl rfl
        (hg.notMem_listedTerminals hEmpty) ?_⟩
  unfold defineStart
  dsimp only
  rw [hError]
  rfl

end GrammarDocument

end GraphRewriting

------------------------------------------------------------
-- Other Start Graphs
------------------------------------------------------------

namespace GraphRewriting

variable {g stored : Grammar}
variable {graph : Graph}
variable {document : GrammarDocument}

/-
  A describable grammar stays so with a
  describable start graph.
-/
theorem Grammar.IsDescribable.defineStartGraph
    (hg : g.IsDescribable)
    (hGraph : graph.IsDescribable)
    (h : g.defineStartGraph graph = .ok stored) :
    stored.IsDescribable := by
  have hKnown := Grammar.knowsStart_of_defineStartGraph h
  rcases Grammar.defineStartGraph_eq_ok_iff.1 h with ⟨-, rfl⟩
  refine ⟨hKnown, ?_, ?_, hg.rulesAccepted, hg.rules⟩
  · rintro other ⟨⟩
    exact hGraph
  · intro rule hRule
    refine (Grammar.knowsRule_congr ?_ ?_ ?_).2
        (hg.rulesKnown rule hRule) <;>
      rfl

/-
  A grammar that gets another start graph, with named nodes and
  edges between them, is read back from its document if its ids
  are distinct there, and otherwise not at all.
-/
theorem GrammarDocument.reload_of_defineStartGraph
    (hg : g.IsBuilt)
    (hEmpty :
      "" ∈ g.terminals ↔ g.config.emptySymbolIsTerminal = true)
    (hDescribable : g.IsDescribable)
    (hIntegrity : graph.HasIntegrity)
    (hNodeNames :
      ∀ node ∈ graph.nodes.nodes, Labels.nameKey ∈ node.labels)
    (hEdgeNames :
      ∀ edge ∈ graph.edges.toList, Labels.nameKey ∈ edge.labels)
    (hStored : g.defineStartGraph graph = .ok stored)
    (h : GrammarDocument.ofGrammar stored = .ok document) :
    (document.HasDistinctIds ↔
      (carriedIds graph.edges.toList).Nodup) ∧
      (document.HasDistinctIds →
          ∃ again : Grammar,
            document.toGrammar g.config = .ok again ∧
              again ≈ stored) ∧
        (¬ document.HasDistinctIds →
          ∃ id : String,
            document.toGrammar g.config =
              .error
                (.badDocument (.edgeIdRedeclared id))) := by
  have hConsistent := (hg.defineStartGraph hStored).isConsistent
  have hDistinct :
      (carriedIds graph.edges.toList).Nodup →
        stored.IsDescribable :=
    fun hNodup =>
      hDescribable.defineStartGraph
        ⟨hIntegrity, hNodeNames, hEdgeNames, hNodup⟩ hStored
  rcases Grammar.defineStartGraph_eq_ok_iff.1 hStored with
    ⟨-, hSame⟩
  have hSymbol : stored.startSymbol = none := by rw [hSame]
  have hGraph : stored.startGraph = some graph := by rw [hSame]
  have hConfig : stored.config = g.config := by rw [hSame]
  have hRules : stored.rules = g.rules := by rw [hSame]
  have hTerminals : stored.terminals = g.terminals := by
    rw [hSame]
  rw [← hTerminals, ← hConfig] at hEmpty
  rw [← hConfig]
  have hIds :
      document.HasDistinctIds ↔
        (carriedIds graph.edges.toList).Nodup := by
    refine
      GrammarDocument.hasDistinctIds_iff hSymbol hGraph ?_ h
    rw [hRules]
    exact hDescribable.rules
  refine ⟨hIds, ?_, ?_⟩
  · intro hNodup
    have hNext := hDistinct (hIds.1 hNodup)
    exact GrammarDocument.toGrammar_of_isOf hConsistent hEmpty
      hNext
      ((GrammarDocument.ofGrammar_spec hConsistent
          hNext).good_of_eq_ok
        h)
  · intro hRepeated
    have hCarried := fun hNodup => hRepeated (hIds.2 hNodup)
    exact GrammarDocument.exists_idRedeclared_of_toGrammar
      hConsistent hEmpty hSymbol hGraph hIntegrity hNodeNames
      hEdgeNames hCarried h

end GraphRewriting
