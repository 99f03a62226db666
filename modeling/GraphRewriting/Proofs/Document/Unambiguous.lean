import GraphRewriting.Proofs.Document.Clashes
import GraphRewriting.Proofs.Document.Transcription

/-
  Documents are unambiguous: those that are read from JSON,
  where a member is either under a key or an attribute, and
  those that describe grammars, where labels that clash with a
  key are refused.

  Main declarations:
    * `GrammarDocument.isUnambiguous_of_ofJson?`
    * `GrammarDocument.isUnambiguous_of_ofGrammar`
-/

------------------------------------------------------------
-- Fields That Were Read
------------------------------------------------------------

namespace GraphRewriting

variable {α : Type}
variable {read : Json → Option α}
variable {fields : Fields}
variable {key : String}

/- A part that is found was read from some value. -/
theorem exists_of_optional?
    {part : Option α}
    (h : optional? read fields key = some part)
    {value : α}
    (hValue : value ∈ part) :
    ∃ json : Json, read json = some value := by
  unfold optional? at h
  split at h
  · cases h
    cases hValue
  · cases h
    cases hValue
  · rename_i json _ _
    rcases Option.map_eq_some_iff.1 h with
      ⟨result, hResult, rfl⟩
    cases hValue
    exact ⟨json, hResult⟩

/- Each item of a list was read from some value. -/
theorem exists_of_list?
    {json : Json}
    {items : List α}
    (h : list? read json = some items)
    {item : α}
    (hItem : item ∈ items) :
    ∃ json : Json, read json = some item := by
  unfold list? at h
  rcases Option.bind_eq_some_iff.1 h with ⟨values, -, hValues⟩
  rw [← (mapM_eq_some_iff.1 hValues).2] at hItem
  rcases List.mem_filterMap.1 hItem with ⟨value, -, hValue⟩
  exact ⟨value, hValue⟩

theorem exists_of_fieldD?_list
    {items : List α}
    (h : fieldD? (list? read) [] fields key = some items)
    {item : α}
    (hItem : item ∈ items) :
    ∃ json : Json, read json = some item := by
  unfold fieldD? at h
  split at h
  · cases h
    cases hItem
  · exact exists_of_list? h hItem

end GraphRewriting

------------------------------------------------------------
-- Documents That Were Read
------------------------------------------------------------

namespace GraphRewriting

/-
  The labels read are those left after the
  keys of the element.
-/
theorem SymbolElement.isUnambiguous_of_ofJson?
    {json : Json}
    {element : SymbolElement}
    (h : ofJson? json = some element) :
    element.IsUnambiguous := by
  unfold ofJson? at h
  rcases Option.bind_eq_some_iff.1 h with
    ⟨⟨fields, attributes⟩, hAttributes, h⟩
  rcases Option.bind_eq_some_iff.1 h with ⟨name, -, h⟩
  cases h
  exact avoid_of_attributeFields? hAttributes

theorem NodeElement.isUnambiguous_of_ofJson?
    {json : Json}
    {element : NodeElement}
    (h : ofJson? json = some element) :
    element.IsUnambiguous := by
  unfold ofJson? at h
  rcases Option.bind_eq_some_iff.1 h with
    ⟨⟨fields, attributes⟩, hAttributes, h⟩
  rcases Option.bind_eq_some_iff.1 h with ⟨id, -, h⟩
  rcases Option.bind_eq_some_iff.1 h with ⟨name, -, h⟩
  cases h
  exact avoid_of_attributeFields? hAttributes

theorem EdgeElement.isUnambiguous_of_ofJson?
    {json : Json}
    {element : EdgeElement}
    (h : ofJson? json = some element) :
    element.IsUnambiguous := by
  unfold ofJson? at h
  rcases Option.bind_eq_some_iff.1 h with
    ⟨⟨fields, attributes⟩, hAttributes, h⟩
  rcases Option.bind_eq_some_iff.1 h with ⟨id, -, h⟩
  rcases Option.bind_eq_some_iff.1 h with ⟨start, -, h⟩
  rcases Option.bind_eq_some_iff.1 h with ⟨stop, -, h⟩
  rcases Option.bind_eq_some_iff.1 h with ⟨name, -, h⟩
  cases h
  exact avoid_of_attributeFields? hAttributes

/- All parts of a graph element are read unambiguously. -/
theorem GraphElement.isUnambiguous_of_ofJson?
    {json : Json}
    {element : GraphElement}
    (h : ofJson? json = some element) :
    element.IsUnambiguous := by
  unfold ofJson? at h
  rcases Option.bind_eq_some_iff.1 h with ⟨fields, -, h⟩
  rcases Option.bind_eq_some_iff.1 h with ⟨base, -, h⟩
  rcases Option.bind_eq_some_iff.1 h with ⟨baseLabels, -, h⟩
  rcases Option.bind_eq_some_iff.1 h with ⟨nodes, hNodes, h⟩
  rcases Option.bind_eq_some_iff.1 h with ⟨edges, hEdges, h⟩
  rcases Option.bind_eq_some_iff.1 h with ⟨anchors, -, h⟩
  rcases Option.bind_eq_some_iff.1 h with ⟨wildcards, -, h⟩
  cases h
  constructor
  · intro node hNode
    rcases exists_of_fieldD?_list hNodes hNode with
      ⟨value, hValue⟩
    exact NodeElement.isUnambiguous_of_ofJson? hValue
  · intro edge hEdge
    rcases exists_of_fieldD?_list hEdges hEdge with
      ⟨value, hValue⟩
    exact EdgeElement.isUnambiguous_of_ofJson? hValue

/- Both sides of a rule are read unambiguously. -/
theorem RuleElement.isUnambiguous_of_ofJson?
    {json : Json}
    {element : RuleElement}
    (h : ofJson? json = some element) :
    element.IsUnambiguous := by
  unfold ofJson? at h
  rcases Option.bind_eq_some_iff.1 h with ⟨fields, -, h⟩
  rcases Option.bind_eq_some_iff.1 h with ⟨name, -, h⟩
  rcases Option.bind_eq_some_iff.1 h with ⟨symbol, hSymbol, h⟩
  rcases Option.bind_eq_some_iff.1 h with
    ⟨anchorGraph, hAnchor, h⟩
  rcases Option.bind_eq_some_iff.1 h with
    ⟨wildcardGraph, hWildcard, h⟩
  rcases Option.bind_eq_some_iff.1 h with ⟨graph, hGraph, h⟩
  cases h
  constructor
  · intro symbol hMem
    rcases exists_of_optional? hSymbol hMem with ⟨value, hValue⟩
    exact SymbolElement.isUnambiguous_of_ofJson? hValue
  · intro graph hMem
    rcases exists_of_optional? hAnchor hMem with ⟨value, hValue⟩
    exact GraphElement.isUnambiguous_of_ofJson? hValue
  · intro graph hMem
    rcases exists_of_optional? hWildcard hMem with
      ⟨value, hValue⟩
    exact GraphElement.isUnambiguous_of_ofJson? hValue
  · intro graph hMem
    rcases exists_of_optional? hGraph hMem with ⟨value, hValue⟩
    exact GraphElement.isUnambiguous_of_ofJson? hValue

/- A document that is read from JSON is unambiguous. -/
theorem GrammarDocument.isUnambiguous_of_ofJson?
    {json : Json}
    {document : GrammarDocument}
    (h : ofJson? json = some document) :
    document.IsUnambiguous := by
  unfold ofJson? at h
  rcases Option.bind_eq_some_iff.1 h with ⟨fields, -, h⟩
  rcases Option.bind_eq_some_iff.1 h with ⟨terminals, -, h⟩
  rcases Option.bind_eq_some_iff.1 h with ⟨nonTerminals, -, h⟩
  rcases Option.bind_eq_some_iff.1 h with
    ⟨startSymbol, hSymbol, h⟩
  rcases Option.bind_eq_some_iff.1 h with
    ⟨startGraphs, hGraphs, h⟩
  rcases Option.bind_eq_some_iff.1 h with ⟨rules, hRules, h⟩
  cases h
  constructor
  · intro symbol hMem
    rcases exists_of_optional? hSymbol hMem with ⟨value, hValue⟩
    exact SymbolElement.isUnambiguous_of_ofJson? hValue
  · intro graph hMem
    rcases exists_of_fieldD?_list hGraphs hMem with
      ⟨value, hValue⟩
    exact GraphElement.isUnambiguous_of_ofJson? hValue
  · intro elements hMem rule hRule
    rcases exists_of_optional? hRules hMem with ⟨value, hValue⟩
    rcases exists_of_list? hValue hRule with ⟨item, hItem⟩
    exact RuleElement.isUnambiguous_of_ofJson? hItem

end GraphRewriting

------------------------------------------------------------
-- Documents That Describe
------------------------------------------------------------

namespace GraphRewriting

/- Labels without their symbol can stand next to it. -/
theorem Labels.avoid_withoutSymbol
    (labels : Labels) :
    (Labels.withoutSymbol labels).Avoid ["name"] := by
  intro key hKey hMem
  rw [List.mem_singleton] at hKey
  unfold withoutSymbol at hMem
  rw [Std.ExtTreeMap.mem_erase, hKey] at hMem
  exact hMem.1 (Std.compare_eq_iff_eq.2 rfl)

/-
  The attributes that labels give avoid the
  keys and the symbol.
-/
theorem Labels.avoid_of_attributes
    {labels attributes : Labels}
    {keys : List String}
    {item : ElementRef}
    (h : Labels.attributes labels keys item = .ok attributes) :
    attributes.Avoid (keys ++ ["name"]) := by
  have hSpec := Labels.attributes_spec labels keys item
  have hNone : ¬ ∃ key ∈ keys, key ∈ labels := by
    intro hClash
    rcases hSpec.fails hClash with ⟨other, key, hError⟩
    rw [hError] at h
    cases h
  rcases hSpec.succeeds hNone with ⟨value, hValue, rfl⟩
  rw [hValue] at h
  cases h
  intro key hKey
  rcases List.mem_append.1 hKey with hKey | hKey
  · intro hMem
    exact hNone ⟨key, hKey, (Std.ExtTreeMap.mem_erase.1 hMem).2⟩
  · exact labels.avoid_withoutSymbol key hKey

/- A node with a label in the way is not written. -/
theorem NodeElement.isUnambiguous_of_ofNode
    {node : Node}
    {element : NodeElement}
    (h : ofNode node = .ok element) :
    element.IsUnambiguous := by
  rcases bind_eq_ok_iff.1 h with ⟨attributes, hAttributes, h⟩
  cases h
  exact Labels.avoid_of_attributes hAttributes

/- An edge with a label in the way is not written. -/
private theorem EdgeElement.isUnambiguous_of_ofEdge
    {edge : Edge}
    {id : String}
    {element : EdgeElement}
    (h : ofEdge edge id = .ok element) :
    element.IsUnambiguous := by
  rcases bind_eq_ok_iff.1 h with ⟨attributes, hAttributes, h⟩
  cases h
  exact Labels.avoid_of_attributes hAttributes

private theorem isUnambiguous_of_edgeElements
    {taken : Std.ExtTreeSet String}
    {last : Nat}
    {edges : List Edge}
    {elements : List EdgeElement}
    (h : edgeElements taken last edges = .ok elements) :
    ∀ element ∈ elements, element.IsUnambiguous := by
  induction edges generalizing taken last elements with
  | nil =>
      cases h
      simp
  | cons edge edges ih =>
      unfold edgeElements at h
      split at h
      · rcases bind_eq_ok_iff.1 h with ⟨element, hElement, h⟩
        rcases bind_eq_ok_iff.1 h with ⟨rest, hRest, h⟩
        cases h
        exact List.forall_mem_cons.2
          ⟨EdgeElement.isUnambiguous_of_ofEdge hElement,
            ih hRest⟩
      · rcases bind_eq_ok_iff.1 h with ⟨element, hElement, h⟩
        rcases bind_eq_ok_iff.1 h with ⟨rest, hRest, h⟩
        cases h
        exact List.forall_mem_cons.2
          ⟨EdgeElement.isUnambiguous_of_ofEdge hElement,
            ih hRest⟩

namespace GraphElement

variable {element : GraphElement}

/- A graph that is written has no clash. -/
theorem isUnambiguous_of_ofGraph
    {graph : Graph}
    (h : ofGraph graph = .ok element) :
    element.IsUnambiguous := by
  rcases bind_eq_ok_iff.1 h with ⟨nodes, hNodes, h⟩
  rcases bind_eq_ok_iff.1 h with ⟨edges, hEdges, h⟩
  cases h
  refine ⟨?_, isUnambiguous_of_edgeElements hEdges⟩
  intro node hNode
  rcases exists_of_mem_of_mapM_eq_ok hNodes hNode with
    ⟨source, -, hSource⟩
  exact NodeElement.isUnambiguous_of_ofNode hSource

/- A pattern that is written has none either. -/
theorem isUnambiguous_of_ofPattern
    {graph : ExoticGraph}
    (h : ofPattern graph = .ok element) :
    element.IsUnambiguous := by
  rcases bind_eq_ok_iff.1 h with ⟨plain, hPlain, h⟩
  have hUnambiguous := isUnambiguous_of_ofGraph hPlain
  cases hKind : graph.kind with
  | anchor =>
      rw [hKind] at h
      cases h
      exact ⟨hUnambiguous.nodes, hUnambiguous.edges⟩
  | wildcard =>
      rw [hKind] at h
      cases h
      exact ⟨hUnambiguous.nodes, hUnambiguous.edges⟩

end GraphElement

/-
  A rule that is written has no label in the
  way on either side.
-/
theorem RuleElement.isUnambiguous_of_ofRule
    {rule : Rule}
    {element : RuleElement}
    (h : ofRule rule = .ok element) :
    element.IsUnambiguous := by
  cases rule with
  | node rule =>
      rcases bind_eq_ok_iff.1 h with ⟨graph, hGraph, h⟩
      cases h
      constructor
      · rintro symbol ⟨⟩
        exact rule.lhs.avoid_withoutSymbol
      · rintro graph ⟨⟩
      · rintro graph ⟨⟩
      · rintro graph ⟨⟩
        exact GraphElement.isUnambiguous_of_ofGraph hGraph
  | region rule =>
      rcases bind_eq_ok_iff.1 h with ⟨lhs, hLhs, h⟩
      rcases bind_eq_ok_iff.1 h with ⟨graph, hGraph, h⟩
      have hPattern :=
        GraphElement.isUnambiguous_of_ofPattern hLhs
      have hReplacement :=
        GraphElement.isUnambiguous_of_ofGraph hGraph
      cases hKind : rule.kind with
      | anchor =>
          rw [hKind] at h
          cases h
          constructor
          · rintro symbol ⟨⟩
          · rintro graph ⟨⟩
            exact hPattern
          · rintro graph ⟨⟩
          · rintro graph ⟨⟩
            exact hReplacement
      | wildcard =>
          rw [hKind] at h
          cases h
          constructor
          · rintro symbol ⟨⟩
          · rintro graph ⟨⟩
          · rintro graph ⟨⟩
            exact hPattern
          · rintro graph ⟨⟩
            exact hReplacement

namespace GrammarDocument

private theorem avoid_startAttributes
    (g : Grammar) :
    (startAttributes g).Avoid ["name"] := by
  unfold startAttributes
  cases g.startGraph.bind fun graph =>
    graph.node? NodeId.base with
  | none => exact fun _ _ => Std.ExtTreeMap.not_mem_empty
  | some node => exact node.labels.avoid_withoutSymbol

/- The document of a grammar is unambiguous. -/
theorem isUnambiguous_of_ofGrammar
    {g : Grammar}
    {document : GrammarDocument}
    (h : ofGrammar g = .ok document) :
    document.IsUnambiguous := by
  rcases bind_eq_ok_iff.1 h with ⟨elements, hElements, h⟩
  have hRules :
      ∀ element ∈ elements, element.IsUnambiguous := by
    intro element hElement
    rcases exists_of_mem_of_mapM_eq_ok hElements hElement with
      ⟨rule, -, hRule⟩
    exact RuleElement.isUnambiguous_of_ofRule hRule
  dsimp only at h
  split at h
  · cases h
    refine ⟨?_, by simp, ?_⟩
    · rintro symbol ⟨⟩
      exact avoid_startAttributes g
    · rintro rules ⟨⟩
      exact hRules
  · rcases bind_eq_ok_iff.1 h with ⟨element, hElement, h⟩
    cases h
    refine ⟨by simp, ?_, ?_⟩
    · intro graph hGraph
      rw [List.mem_singleton] at hGraph
      rw [hGraph]
      exact GraphElement.isUnambiguous_of_ofGraph hElement
    · rintro rules ⟨⟩
      exact hRules
  · cases h
    refine ⟨by simp, by simp, ?_⟩
    rintro rules ⟨⟩
    exact hRules

end GrammarDocument

end GraphRewriting
