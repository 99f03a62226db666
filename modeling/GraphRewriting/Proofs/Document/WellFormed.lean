import GraphRewriting.Proofs.Document.Describing
import GraphRewriting.Proofs.Document.Exotics
import GraphRewriting.Proofs.Document.Loading

/-
  What is read from an element is well formed: the edges of a
  graph have their ends and carry distinct document ids, and
  the sides of a rule agree. A rule has the name of its element
  and the first kind for which the element has a side.

  Main declarations:
    * `ExoticGraph.IsWellFormed`
    * `GraphElement.isWellFormed_of_toGraph`
    * `GraphElement.isWellFormed_of_toExoticGraph`
    * `RuleElement.toRule_eq_ok_iff`
    * `RuleElement.isWellFormed_of_toRule`
-/

------------------------------------------------------------
-- Well-Formed Graphs And Rules
------------------------------------------------------------

namespace GraphRewriting

/-
  Edges that all carry document ids, no two of them the same.
-/
structure HaveIds (edges : List Edge) : Prop where
  carried : ∀ edge ∈ edges, edge.documentId ≠ none
  nodup : (carriedIds edges).Nodup

instance (edges : List Edge) : Decidable (HaveIds edges) :=
  decidable_of_iff
    ((∀ edge ∈ edges, edge.documentId ≠ none) ∧
      (carriedIds edges).Nodup)
    ⟨fun h => ⟨h.1, h.2⟩, fun h => ⟨h.carried, h.nodup⟩⟩

/- Every edge has its ends and an id of its own. -/
structure Graph.IsWellFormed (g : Graph) : Prop where
  integrity : g.HasIntegrity
  ids : HaveIds g.edges.toList

instance (g : Graph) : Decidable g.IsWellFormed :=
  decidable_of_iff
    (g.HasIntegrity ∧ HaveIds g.edges.toList)
    ⟨fun h => ⟨h.1, h.2⟩, fun h => ⟨h.integrity, h.ids⟩⟩

/-
  Every edge has its ends, not both of them exotic,
  and an id of its own.
-/
structure ExoticGraph.IsWellFormed
    (p : ExoticGraph) : Prop where
  integrity : p.HasIntegrity
  separate : p.HasSeparateExotics
  ids : HaveIds p.edges

instance (p : ExoticGraph) : Decidable p.IsWellFormed :=
  decidable_of_iff
    (p.HasIntegrity ∧ p.HasSeparateExotics ∧ HaveIds p.edges)
    ⟨fun h => ⟨h.1, h.2.1, h.2.2⟩,
      fun h => ⟨h.integrity, h.separate, h.ids⟩⟩

/-
  The graphs of a rule are well formed. A replacement for a node
  has a base; the sides of any other rule have exotic nodes of
  the same kind under the same ids.
-/
def Rule.IsWellFormed : Rule → Prop
  | node r => NodeId.base ∈ r.rhs.nodes ∧ r.rhs.IsWellFormed
  | region r =>
      (r.lhs.kind = r.rhs.kind ∧
        r.lhs.exoticIds = r.rhs.exoticIds) ∧
        r.lhs.IsWellFormed ∧ r.rhs.IsWellFormed

instance (rule : Rule) : Decidable rule.IsWellFormed :=
  match rule with
  | .node r =>
      inferInstanceAs (Decidable
        (NodeId.base ∈ r.rhs.nodes ∧ r.rhs.IsWellFormed))
  | .region r =>
      inferInstanceAs
        (Decidable
          ((r.lhs.kind = r.rhs.kind ∧
            r.lhs.exoticIds = r.rhs.exoticIds) ∧
            r.lhs.IsWellFormed ∧ r.rhs.IsWellFormed))

end GraphRewriting

------------------------------------------------------------
-- Graphs
------------------------------------------------------------

namespace GraphRewriting

namespace IsAcceptable

variable {kind : ExoticKind}
variable {exotic : NodeStore}
variable {nodes : List Node}
variable {edges : List Edge}

/- The edges of the graph join as they were checked to. -/
theorem joinsProperly_assemble
    (h : IsAcceptable exotic nodes edges) :
    (ExoticGraph.assemble kind exotic nodes
      edges).JoinsProperly := by
  have hContains :
      ∀ id : NodeId,
        id ∈ nodes.map Node.id ∨ id ∈ exotic →
          (ExoticGraph.assemble kind exotic nodes
                edges).contains
              id = true := by
    rintro id (hOrdinary | hExotic)
    · rcases List.mem_map.1 hOrdinary with ⟨node, hNode, rfl⟩
      have hMem :
          node ∈
            (ExoticGraph.assemble kind exotic nodes
              edges).graph.nodes.nodes :=
        h.mem_nodes_assemble.2 hNode
      exact ExoticGraph.contains_iff.2
        (Or.inl
          (mem_iff_exists_getElem?.2
            ⟨_, NodeStore.mem_nodes.1 hMem⟩))
    · refine ExoticGraph.contains_iff.2 (Or.inr ?_)
      rw [h.exotic_assemble]
      exact hExotic
  rw [ExoticGraph.joinsProperly_iff]
  constructor
  · intro edge hEdge
    have hMem := h.mem_edges_assemble.1 hEdge
    exact
      ⟨hContains _ (h.starts edge hMem),
        hContains _ (h.stops edge hMem)⟩
  · intro edge hEdge
    rw [ExoticGraph.isExotic_iff, ExoticGraph.isExotic_iff,
      h.exotic_assemble]
    exact h.separate edge (h.mem_edges_assemble.1 hEdge)

/- The document ids of the edges stay distinct. -/
private theorem carriedIds_assemble_nodup
    (h : IsAcceptable exotic nodes edges) :
    (carriedIds
      (ExoticGraph.assemble kind exotic nodes
        edges).edges).Nodup := by
  have hEdges :
      (ExoticGraph.assemble kind exotic nodes
        edges).edges.Nodup :=
    (EdgeStore.ends_nodup _).of_map
  unfold carriedIds
  rw [nodup_filterMap_iff hEdges]
  intro first hFirst second hSecond id hId hSame
  apply List.inj_on_of_nodup_map h.idsNodup
  · exact h.mem_edges_assemble.1 hFirst
  · exact h.mem_edges_assemble.1 hSecond
  · unfold Edge.displayedId
    rw [hId, hSame]

/- What is acceptable makes a well-formed graph. -/
theorem isWellFormed_assemble
    (h : IsAcceptable exotic nodes edges)
    (hCarried : ∀ edge ∈ edges, edge.documentId ≠ none) :
    (ExoticGraph.assemble kind exotic nodes
      edges).IsWellFormed := by
  rcases
      ExoticGraph.joinsProperly_iff.1
        h.joinsProperly_assemble with
    ⟨hIntegrity, hSeparate⟩
  refine
    ⟨hIntegrity, hSeparate, ?_, h.carriedIds_assemble_nodup⟩
  intro edge hEdge
  exact hCarried edge (h.mem_edges_assemble.1 hEdge)

end IsAcceptable

/- The edge of an element carries a document id. -/
private theorem EdgeElement.documentId_ne_none
    {element : EdgeElement}
    {edge : Edge}
    (h : element.toEdge = .ok edge) :
    edge.documentId ≠ none := by
  rcases bind_eq_ok_iff.1 h with ⟨id, -, h⟩
  rcases bind_eq_ok_iff.1 h with ⟨start, -, h⟩
  rcases bind_eq_ok_iff.1 h with ⟨stop, -, h⟩
  cases h
  exact Option.some_ne_none id.text

namespace GraphElement

variable {element : GraphElement}
variable {kind : ExoticKind}
variable {q : ExoticGraph}

/- Every edge of a document has an id. -/
private theorem Declares.documentId_ne_none
    {nodes : List Node}
    {edges : List Edge}
    (h : element.Declares nodes edges) :
    ∀ edge ∈ edges, edge.documentId ≠ none := by
  intro edge hEdge
  rcases exists_of_mem_of_map_eq_ok h.edges hEdge with
    ⟨source, -, hRead⟩
  exact EdgeElement.documentId_ne_none hRead

/-
  What an element fills in is well formed, and leaves the
  exotic nodes as they are.
-/
theorem isWellFormed_of_fill
    {requireBase : Bool}
    {exotic : NodeStore}
    (h :
      element.fill requireBase (.ofExotics kind exotic) =
        .ok q) :
    (q.kind = kind ∧ q.exotic = exotic) ∧ q.IsWellFormed := by
  rcases fill_ofExotics_eq_ok_iff.1 h with
    ⟨-, nodes, edges, hDeclares, hAcceptable, rfl⟩
  exact
    ⟨⟨hAcceptable.kind_assemble, hAcceptable.exotic_assemble⟩,
      hAcceptable.isWellFormed_assemble
        hDeclares.documentId_ne_none⟩

/- A graph that is read is well-formed. -/
theorem isWellFormed_of_toGraph
    {requireBase : Bool}
    {g : Graph}
    (h : element.toGraph requireBase = .ok g) :
    g.IsWellFormed := by
  rcases toGraph_eq_ok_iff.1 h with ⟨-, q, hFill, rfl⟩
  rcases isWellFormed_of_fill hFill with ⟨⟨-, hExotic⟩, hq⟩
  refine ⟨?_, hq.ids⟩
  intro edge hEdge
  have hJoined := hq.integrity edge hEdge
  rw [ExoticGraph.contains_iff, ExoticGraph.contains_iff,
    hExotic, or_iff_left Std.ExtTreeMap.not_mem_empty,
    or_iff_left Std.ExtTreeMap.not_mem_empty] at hJoined
  exact hJoined

/- A pattern that is read is well-formed, and of its kind. -/
theorem isWellFormed_of_toExoticGraph
    {inherited : List Node}
    (h : element.toExoticGraph kind inherited = .ok q) :
    q.kind = kind ∧ q.IsWellFormed := by
  rcases toExoticGraph_eq_ok_iff.1 h with ⟨-, ids, -, hFill⟩
  rcases isWellFormed_of_fill hFill with ⟨⟨hKind, -⟩, hq⟩
  exact ⟨hKind, hq⟩

end GraphElement

end GraphRewriting

------------------------------------------------------------
-- Rules
------------------------------------------------------------

namespace GraphRewriting

namespace Rule

theorem contextFreeOfLabels_eq_ok
    {name : String}
    {lhs : Labels}
    {rhs : Graph}
    {rule : Rule}
    (h : contextFreeOfLabels name lhs rhs = .ok rule) :
    ∃ inner : ContextFreeRule,
      rule = node inner ∧ inner.name = name ∧
        inner.lhs = lhs.fillSymbol ∧
        inner.rhs = rhs := by
  unfold contextFreeOfLabels ContextFreeRule.make at h
  split at h
  · cases h
    exact ⟨_, rfl, rfl, rfl, rfl⟩
  · cases h

theorem exotic_eq_ok
    {name : String}
    {lhs rhs : ExoticGraph}
    {rule : Rule}
    (h : exotic name lhs rhs = .ok rule) :
    ∃ inner : ExoticRule,
      rule = region inner ∧ inner.name = name ∧
        inner.lhs = lhs ∧ inner.rhs = rhs := by
  unfold exotic ExoticRule.make at h
  split at h
  · split at h
    · cases h
      exact ⟨_, rfl, rfl, rfl, rfl⟩
    · cases h
  · cases h

end Rule

namespace RuleElement

variable {element : RuleElement}
variable {name : String}
variable {rule : Rule}

/-
  Whether an element has a left-hand side for rules of a kind.
-/
def hasSide
    (element : RuleElement) :
    RuleKind → Bool
  | .contextFree => element.symbol.isSome
  | .anchor => element.anchorGraph.isSome
  | .wildcard => element.wildcardGraph.isSome

private theorem isSome_ofKind?
    (element : RuleElement)
    (name : String)
    (kind : RuleKind) :
    (element.ofKind? name kind).isSome =
      element.hasSide kind := by
  cases kind <;> exact Option.isSome_map

/- The first kind with a side is the one that is read. -/
private theorem findSome?_ofKind?
    (element : RuleElement)
    (name : String)
    (kinds : List RuleKind) :
    kinds.findSome? (element.ofKind? name) =
      (kinds.find? element.hasSide).bind
        (element.ofKind? name) := by
  induction kinds with
  | nil => rfl
  | cons kind kinds ih =>
      have hSide := element.isSome_ofKind? name kind
      rw [List.findSome?_cons, List.find?_cons, ← hSide]
      cases hRead : element.ofKind? name kind with
      | none => exact ih
      | some result => exact hRead.symm

/-
  The first kind for which an element has a side
  decides what is read.
-/
theorem toRule_eq_ok_iff
    {kinds : List RuleKind} :
    element.toRule kinds = .ok rule ↔
      ∃ (name : String) (kind : RuleKind),
        element.name = some name ∧
          kinds.find? element.hasSide = some kind ∧
            element.ofKind? name kind = some (.ok rule) := by
  unfold toRule
  rw [bind_eq_ok_iff]
  refine exists_congr fun name => ?_
  rw [GrammarDocument.require_eq_ok_iff, exists_and_left,
    findSome?_ofKind?]
  refine and_congr_right fun _ => ?_
  cases kinds.find? element.hasSide with
  | none => simp
  | some kind =>
      rw [Option.bind_some]
      cases hRead : element.ofKind? name kind with
      | none => simp [hRead]
      | some result => simp [hRead]

/- A context-free rule that is read is well-formed. -/
theorem isWellFormed_of_toContextFree
    {lhs : SymbolElement}
    (h : element.toContextFree name lhs = .ok rule) :
    rule.name = name ∧ rule.kind = .contextFree ∧
      rule.IsWellFormed := by
  rcases bind_eq_ok_iff.1 h with ⟨symbol, -, h⟩
  rcases bind_eq_ok_iff.1 h with ⟨replacement, -, h⟩
  rcases bind_eq_ok_iff.1 h with ⟨rhs, hRhs, h⟩
  rcases Rule.contextFreeOfLabels_eq_ok h with
    ⟨inner, rfl, hName, -, rfl⟩
  exact
    ⟨hName, rfl, inner.base_mem,
      GraphElement.isWellFormed_of_toGraph hRhs⟩

theorem isWellFormed_of_toExotic
    {kind : ExoticKind}
    {lhs : GraphElement}
    (h : element.toExotic kind name lhs = .ok rule) :
    rule.name = name ∧ rule.kind = .ofExotic kind ∧
      rule.IsWellFormed := by
  rcases bind_eq_ok_iff.1 h with ⟨pattern, hPattern, h⟩
  rcases bind_eq_ok_iff.1 h with ⟨replacement, -, h⟩
  rcases bind_eq_ok_iff.1 h with ⟨rhs, hRhs, h⟩
  rcases
      GraphElement.isWellFormed_of_toExoticGraph hPattern with
    ⟨hKind, hLeft⟩
  rcases GraphElement.isWellFormed_of_toExoticGraph hRhs with
    ⟨-, hRight⟩
  rcases Rule.exotic_eq_ok h with ⟨inner, rfl, hName, rfl, rfl⟩
  exact
    ⟨hName, congrArg RuleKind.ofExotic hKind,
      ⟨inner.kind_eq, inner.exoticIds_eq⟩, hLeft, hRight⟩

/-
  A rule has the name of its element, the kind that decided,
  and is well formed.
-/
theorem isWellFormed_of_toRule
    {kinds : List RuleKind}
    (h : element.toRule kinds = .ok rule) :
    (element.name = some rule.name ∧
      kinds.find? element.hasSide = some rule.kind) ∧
      rule.IsWellFormed := by
  rcases toRule_eq_ok_iff.1 h with
    ⟨name, kind, hName, hKind, hRead⟩
  have hSpec :
      rule.name = name ∧ rule.kind = kind ∧
        rule.IsWellFormed := by
    cases kind with
    | contextFree =>
        rcases Option.map_eq_some_iff.1 hRead with
          ⟨lhs, -, hRule⟩
        exact isWellFormed_of_toContextFree hRule
    | anchor =>
        rcases Option.map_eq_some_iff.1 hRead with
          ⟨lhs, -, hRule⟩
        exact isWellFormed_of_toExotic hRule
    | wildcard =>
        rcases Option.map_eq_some_iff.1 hRead with
          ⟨lhs, -, hRule⟩
        exact isWellFormed_of_toExotic hRule
  rw [hName, hKind, hSpec.1, hSpec.2.1]
  exact ⟨⟨rfl, rfl⟩, hSpec.2.2⟩

end RuleElement

end GraphRewriting
