import GraphRewriting.Proofs.Document.Records

/-
  Documents that are read back from the JSON that is written
  for them, which they are when their attributes can be told
  apart from the keys of their elements.

  Main declarations:
    * `GraphElement.IsUnambiguous`
    * `RuleElement.IsUnambiguous`
    * `GrammarDocument.IsUnambiguous`
    * `GrammarDocument.isReadBack`
-/

------------------------------------------------------------
-- Unambiguous Documents
------------------------------------------------------------

namespace GraphRewriting

/- The labels next to a symbol do not have its key. -/
def SymbolElement.IsUnambiguous
    (element : SymbolElement) : Prop :=
  element.attributes.Avoid ["name"]

/- The labels of a node do not have the keys of its element. -/
def NodeElement.IsUnambiguous (element : NodeElement) : Prop :=
  element.attributes.Avoid ["id", "name"]

/- The labels of an edge do not have the keys of its element. -/
def EdgeElement.IsUnambiguous (element : EdgeElement) : Prop :=
  element.attributes.Avoid ["id", "from", "to", "name"]

/-
  The labels in a graph do not have the keys that
  they stand next to.
-/
structure GraphElement.IsUnambiguous
    (element : GraphElement) : Prop where
  nodes : ∀ node ∈ element.nodes, node.IsUnambiguous
  edges : ∀ edge ∈ element.edges, edge.IsUnambiguous

/-
  The labels in a rule do not have the keys that
  they stand next to.
-/
structure RuleElement.IsUnambiguous
    (element : RuleElement) : Prop where
  symbol : ∀ symbol ∈ element.symbol, symbol.IsUnambiguous
  anchorGraph :
    ∀ graph ∈ element.anchorGraph, graph.IsUnambiguous
  wildcardGraph :
    ∀ graph ∈ element.wildcardGraph, graph.IsUnambiguous
  graph : ∀ graph ∈ element.graph, graph.IsUnambiguous

/-
  The labels in a document do not have the keys that
  they stand next to.
-/
structure GrammarDocument.IsUnambiguous
    (document : GrammarDocument) : Prop where
  startSymbol :
    ∀ symbol ∈ document.startSymbol, symbol.IsUnambiguous
  startGraphs :
    ∀ graph ∈ document.startGraphs, graph.IsUnambiguous
  rules :
    ∀ rules ∈ document.rules, ∀ rule ∈ rules, rule.IsUnambiguous

instance
    (labels : Labels)
    (keys : List String) : Decidable (labels.Avoid keys) :=
  inferInstanceAs (Decidable (∀ key ∈ keys, key ∉ labels))

instance
    (element : SymbolElement) :
    Decidable element.IsUnambiguous :=
  inferInstanceAs (Decidable (element.attributes.Avoid _))

instance
    (element : NodeElement) : Decidable element.IsUnambiguous :=
  inferInstanceAs (Decidable (element.attributes.Avoid _))

instance
    (element : EdgeElement) : Decidable element.IsUnambiguous :=
  inferInstanceAs (Decidable (element.attributes.Avoid _))

instance
    (element : GraphElement) :
    Decidable element.IsUnambiguous :=
  decidable_of_iff
    ((∀ node ∈ element.nodes, node.IsUnambiguous) ∧
      ∀ edge ∈ element.edges, edge.IsUnambiguous)
    ⟨fun h => ⟨h.1, h.2⟩, fun h => ⟨h.nodes, h.edges⟩⟩

instance
    (element : RuleElement) : Decidable element.IsUnambiguous :=
  decidable_of_iff
    ((∀ symbol ∈ element.symbol, symbol.IsUnambiguous) ∧
      (∀ graph ∈ element.anchorGraph, graph.IsUnambiguous) ∧
        (∀ graph ∈ element.wildcardGraph, graph.IsUnambiguous) ∧
          ∀ graph ∈ element.graph, graph.IsUnambiguous)
    ⟨fun h => ⟨h.1, h.2.1, h.2.2.1, h.2.2.2⟩,
      fun h =>
        ⟨h.symbol, h.anchorGraph, h.wildcardGraph, h.graph⟩⟩

instance
    (document : GrammarDocument) :
    Decidable document.IsUnambiguous :=
  decidable_of_iff
    ((∀ symbol ∈ document.startSymbol, symbol.IsUnambiguous) ∧
      (∀ graph ∈ document.startGraphs, graph.IsUnambiguous) ∧
        ∀ rules ∈ document.rules,
          ∀ rule ∈ rules, rule.IsUnambiguous)
    ⟨fun h => ⟨h.1, h.2.1, h.2.2⟩,
      fun h => ⟨h.startSymbol, h.startGraphs, h.rules⟩⟩

end GraphRewriting

------------------------------------------------------------
-- Symbols, Nodes And Edges
------------------------------------------------------------

namespace GraphRewriting

/-
  A symbol element has no label named after its own key, so
  both parts are found again.
-/
theorem SymbolElement.isReadBack
    {element : SymbolElement}
    (h : element.IsUnambiguous) :
    IsReadBack toJson ofJson? element := by
  have hMembers :
      MembersOf ["name"]
        (optionalMember .text "name" element.name) :=
    .single fun text _ => .text text
  have hName :
      optional? Json.text?
        (optionalMember .text "name" element.name) "name" =
        some element.name :=
    optional?_of_lookup (fun text _ => isReadBack_text text)
      (by simp)
  refine
    ⟨?_, hMembers.isKept_append element.attributes,
      by simp [toJson]⟩
  unfold toJson ofJson?
  refine Option.bind_eq_some_iff.2
    ⟨_, hMembers.attributeFields? (by decide) h, ?_⟩
  exact Option.bind_eq_some_iff.2 ⟨_, hName, rfl⟩

/- The members of a node under the keys of its element. -/
def NodeElement.keyMembers (element : NodeElement) : Fields :=
  optionalMember NodeId.toJson "id" element.id ++
    optionalMember .text "name" element.name

/- The same goes for the id and the symbol of a node. -/
theorem NodeElement.isReadBack
    {element : NodeElement}
    (h : element.IsUnambiguous) :
    IsReadBack toJson ofJson? element := by
  have hMembers : MembersOf ["id", "name"] element.keyMembers :=
    .cons (.single fun text _ => .text text) fun id _ =>
      id.isReadBack.kept
  have hJson :
      element.toJson =
        .object
          (element.keyMembers ++
            element.attributes.members) := by
    unfold toJson keyMembers
    rw [List.append_assoc]
  have hId :
      optional? NodeId.ofJson? element.keyMembers "id" =
        some element.id :=
    optional?_of_lookup (fun id _ => id.isReadBack)
      (by simp [keyMembers])
  have hName :
      optional? Json.text? element.keyMembers "name" =
        some element.name :=
    optional?_of_lookup (fun text _ => isReadBack_text text)
      (by simp [keyMembers])
  refine ⟨?_, ?_, by simp [toJson]⟩
  · rw [hJson]
    unfold ofJson?
    refine Option.bind_eq_some_iff.2
      ⟨_, hMembers.attributeFields? (by decide) h, ?_⟩
    refine Option.bind_eq_some_iff.2 ⟨_, hId, ?_⟩
    exact Option.bind_eq_some_iff.2 ⟨_, hName, rfl⟩
  · rw [hJson]
    exact hMembers.isKept_append element.attributes

/- The members of an edge under the keys of its element. -/
def EdgeElement.keyMembers (element : EdgeElement) : Fields :=
  optionalMember NodeId.toJson "id" element.id ++
    (optionalMember NodeId.toJson "from" element.start ++
      (optionalMember NodeId.toJson "to" element.stop ++
        optionalMember .text "name" element.name))

/- It goes for the id, the ends and the symbol of an edge. -/
theorem EdgeElement.isReadBack
    {element : EdgeElement}
    (h : element.IsUnambiguous) :
    IsReadBack toJson ofJson? element := by
  have hKept :
      ∀ (part : Option NodeId), ∀ id ∈ part, id.toJson.IsKept :=
    fun _ id _ => id.isReadBack.kept
  have hMembers :
      MembersOf ["id", "from", "to", "name"]
        element.keyMembers :=
    (((MembersOf.single fun text _ => .text text).cons
        (hKept _)).cons
      (hKept _)).cons
      (hKept _)
  have hJson :
      element.toJson =
        .object
          (element.keyMembers ++
            element.attributes.members) := by
    unfold toJson keyMembers
    rw [List.append_assoc, List.append_assoc, List.append_assoc]
  have hId :
      optional? NodeId.ofJson? element.keyMembers "id" =
        some element.id :=
    optional?_of_lookup (fun id _ => id.isReadBack)
      (by simp [keyMembers])
  have hStart :
      optional? NodeId.ofJson? element.keyMembers "from" =
        some element.start :=
    optional?_of_lookup (fun id _ => id.isReadBack)
      (by simp [keyMembers])
  have hStop :
      optional? NodeId.ofJson? element.keyMembers "to" =
        some element.stop :=
    optional?_of_lookup (fun id _ => id.isReadBack)
      (by simp [keyMembers])
  have hName :
      optional? Json.text? element.keyMembers "name" =
        some element.name :=
    optional?_of_lookup (fun text _ => isReadBack_text text)
      (by simp [keyMembers])
  refine ⟨?_, ?_, by simp [toJson]⟩
  · rw [hJson]
    unfold ofJson?
    refine Option.bind_eq_some_iff.2
      ⟨_, hMembers.attributeFields? (by decide) h, ?_⟩
    refine Option.bind_eq_some_iff.2 ⟨_, hId, ?_⟩
    refine Option.bind_eq_some_iff.2 ⟨_, hStart, ?_⟩
    refine Option.bind_eq_some_iff.2 ⟨_, hStop, ?_⟩
    exact Option.bind_eq_some_iff.2 ⟨_, hName, rfl⟩
  · rw [hJson]
    exact hMembers.isKept_append element.attributes

/-
  An exotic element has no labels, so nothing
  can be in the way.
-/
theorem ExoticElement.isReadBack
    (element : ExoticElement) :
    IsReadBack toJson ofJson? element := by
  have hMembers :
      MembersOf ["id"]
        (optionalMember NodeId.toJson "id" element.id) :=
    .single fun id _ => id.isReadBack.kept
  have hId :
      optional? NodeId.ofJson?
        (optionalMember NodeId.toJson "id" element.id) "id" =
        some element.id :=
    optional?_of_lookup (fun id _ => id.isReadBack) (by simp)
  refine ⟨?_, hMembers.isKept, by simp [toJson]⟩
  unfold toJson ofJson?
  refine Option.bind_eq_some_iff.2
    ⟨_, hMembers.knownFields? (by decide), ?_⟩
  exact Option.bind_eq_some_iff.2 ⟨_, hId, rfl⟩

end GraphRewriting

------------------------------------------------------------
-- Graphs And Rules
------------------------------------------------------------

namespace GraphRewriting

/-
  The members of a graph, with those for empty parts left out.
-/
def GraphElement.members (element : GraphElement) : Fields :=
  optionalMember .text "base" element.base ++
    (optionalMember Labels.toJson "base_labels"
      (someLabels? element.baseLabels) ++
      (optionalMember
        (fun nodes => .array (nodes.map NodeElement.toJson))
          "nodes"
          (someItems? element.nodes) ++
        (optionalMember
          (fun edges => .array (edges.map EdgeElement.toJson))
            "edges"
            (someItems? element.edges) ++
          (optionalMember
            (fun exotics =>
              .array (exotics.map ExoticElement.toJson))
              "anodes" (someItems? element.anchors) ++
            optionalMember
              (fun exotics =>
                .array (exotics.map ExoticElement.toJson))
              "wnodes" (someItems? element.wildcards)))))

private theorem GraphElement.toJson_eq_object
    (element : GraphElement) :
    element.toJson = .object element.members := by
  unfold toJson members
  rw [baseLabelsMember_eq_optionalMember]
  simp only [listMember_eq_optionalMember]

/-
  The sections of a graph element are read back part by part.
-/
theorem GraphElement.isReadBack
    {element : GraphElement}
    (h : element.IsUnambiguous) :
    IsReadBack toJson ofJson? element := by
  have hNode :
      ∀ node ∈ element.nodes,
        IsReadBack NodeElement.toJson _ node :=
    fun node hNode =>
      NodeElement.isReadBack (h.nodes node hNode)
  have hEdge :
      ∀ edge ∈ element.edges,
        IsReadBack EdgeElement.toJson _ edge :=
    fun edge hEdge =>
      EdgeElement.isReadBack (h.edges edge hEdge)
  have hExotic : ∀ exotics : List ExoticElement,
      ∀ exotic ∈ exotics,
        IsReadBack ExoticElement.toJson _ exotic :=
    fun _ exotic _ => exotic.isReadBack
  have hMembers :
      MembersOf
        ["base", "base_labels", "nodes", "edges", "anodes",
          "wnodes"]
        element.members := by
    refine .cons
      (.cons (.cons (.cons (.cons (.single ?_) ?_) ?_) ?_) ?_)
      ?_
    · exact fun _ =>
        isKept_array_of_mem_someItems?
          (hExotic element.wildcards)
    · exact fun _ =>
        isKept_array_of_mem_someItems? (hExotic element.anchors)
    · exact fun _ => isKept_array_of_mem_someItems? hEdge
    · exact fun _ => isKept_array_of_mem_someItems? hNode
    · exact fun labels _ => labels.isReadBack.kept
    · exact fun text _ => .text text
  have hBase :
      optional? Json.text? element.members "base" =
        some element.base :=
    optional?_of_lookup (fun text _ => isReadBack_text text)
      (by simp [members])
  have hBaseLabels :
      fieldD? Labels.ofJson? ∅ element.members "base_labels" =
        some element.baseLabels :=
    fieldD?_labels_of_lookup (by simp [members])
  have hNodes :
      fieldD? (list? NodeElement.ofJson?) [] element.members
          "nodes" = some element.nodes :=
    fieldD?_list_of_lookup hNode (by simp [members])
  have hEdges :
      fieldD? (list? EdgeElement.ofJson?) [] element.members
          "edges" = some element.edges :=
    fieldD?_list_of_lookup hEdge (by simp [members])
  have hAnchors :
      fieldD? (list? ExoticElement.ofJson?) [] element.members
        "anodes" =
        some element.anchors :=
    fieldD?_list_of_lookup (hExotic element.anchors)
      (by simp [members])
  have hWildcards :
      fieldD? (list? ExoticElement.ofJson?) [] element.members
        "wnodes" =
        some element.wildcards :=
    fieldD?_list_of_lookup (hExotic element.wildcards)
      (by simp [members])
  refine ⟨?_, ?_, by simp [toJson]⟩
  · rw [toJson_eq_object]
    unfold ofJson?
    refine Option.bind_eq_some_iff.2
      ⟨_, hMembers.knownFields? (by decide), ?_⟩
    refine Option.bind_eq_some_iff.2 ⟨_, hBase, ?_⟩
    refine Option.bind_eq_some_iff.2 ⟨_, hBaseLabels, ?_⟩
    refine Option.bind_eq_some_iff.2 ⟨_, hNodes, ?_⟩
    refine Option.bind_eq_some_iff.2 ⟨_, hEdges, ?_⟩
    refine Option.bind_eq_some_iff.2 ⟨_, hAnchors, ?_⟩
    exact Option.bind_eq_some_iff.2 ⟨_, hWildcards, rfl⟩
  · rw [toJson_eq_object]
    exact hMembers.isKept

/- The members of a rule. -/
def RuleElement.members (element : RuleElement) : Fields :=
  optionalMember .text "name" element.name ++
    (optionalMember SymbolElement.toJson "nt" element.symbol ++
      (optionalMember GraphElement.toJson "agraph"
        element.anchorGraph ++
        (optionalMember GraphElement.toJson "wgraph"
          element.wildcardGraph ++
          optionalMember GraphElement.toJson "graph"
            element.graph)))

/- A rule has sections of its own, and those of its sides. -/
theorem RuleElement.isReadBack
    {element : RuleElement}
    (h : element.IsUnambiguous) :
    IsReadBack toJson ofJson? element := by
  have hSymbol :
      ∀ symbol ∈ element.symbol,
        IsReadBack SymbolElement.toJson _ symbol :=
    fun symbol hSymbol =>
      SymbolElement.isReadBack (h.symbol symbol hSymbol)
  have hAnchor :
      ∀ graph ∈ element.anchorGraph,
        IsReadBack GraphElement.toJson _ graph :=
    fun graph hGraph =>
      GraphElement.isReadBack (h.anchorGraph graph hGraph)
  have hWildcard :
      ∀ graph ∈ element.wildcardGraph,
        IsReadBack GraphElement.toJson _ graph :=
    fun graph hGraph =>
      GraphElement.isReadBack (h.wildcardGraph graph hGraph)
  have hGraph :
      ∀ graph ∈ element.graph,
        IsReadBack GraphElement.toJson _ graph :=
    fun graph hGraph =>
      GraphElement.isReadBack (h.graph graph hGraph)
  have hMembers :
      MembersOf ["name", "nt", "agraph", "wgraph", "graph"]
        element.members := by
    refine
      .cons (.cons (.cons (.cons (.single ?_) ?_) ?_) ?_) ?_
    · exact fun graph hMem => (hGraph graph hMem).kept
    · exact fun graph hMem => (hWildcard graph hMem).kept
    · exact fun graph hMem => (hAnchor graph hMem).kept
    · exact fun symbol hMem => (hSymbol symbol hMem).kept
    · exact fun text _ => .text text
  have hName :
      optional? Json.text? element.members "name" =
        some element.name :=
    optional?_of_lookup (fun text _ => isReadBack_text text)
      (by simp [members])
  have hSymbols :
      optional? SymbolElement.ofJson? element.members "nt" =
        some element.symbol :=
    optional?_of_lookup hSymbol (by simp [members])
  have hAnchors :
      optional? GraphElement.ofJson? element.members "agraph" =
        some element.anchorGraph :=
    optional?_of_lookup hAnchor (by simp [members])
  have hWildcards :
      optional? GraphElement.ofJson? element.members "wgraph" =
        some element.wildcardGraph :=
    optional?_of_lookup hWildcard (by simp [members])
  have hGraphs :
      optional? GraphElement.ofJson? element.members "graph" =
        some element.graph :=
    optional?_of_lookup hGraph (by simp [members])
  refine ⟨?_, hMembers.isKept, by simp [toJson]⟩
  unfold ofJson?
  refine Option.bind_eq_some_iff.2
    ⟨_, hMembers.knownFields? (by decide), ?_⟩
  refine Option.bind_eq_some_iff.2 ⟨_, hName, ?_⟩
  refine Option.bind_eq_some_iff.2 ⟨_, hSymbols, ?_⟩
  refine Option.bind_eq_some_iff.2 ⟨_, hAnchors, ?_⟩
  refine Option.bind_eq_some_iff.2 ⟨_, hWildcards, ?_⟩
  exact Option.bind_eq_some_iff.2 ⟨_, hGraphs, rfl⟩

end GraphRewriting

------------------------------------------------------------
-- Grammars
------------------------------------------------------------

namespace GraphRewriting

namespace GrammarDocument

/-
  The members of a grammar, with that for an absent
  start graph left out.
-/
def members (document : GrammarDocument) : Fields :=
  optionalMember textsToJson "terminal_symbols"
    document.terminals ++
    (optionalMember textsToJson "non_terminal_symbols"
      document.nonTerminals ++
      (optionalMember SymbolElement.toJson "start_symbol"
        document.startSymbol ++
        (optionalMember
          (fun graphs =>
            .array (graphs.map GraphElement.toJson))
            "start_graph" (someItems? document.startGraphs) ++
          optionalMember
            (fun rules => .array (rules.map RuleElement.toJson))
            "production_rules" document.rules)))

private theorem toJson_eq_object
    (document : GrammarDocument) :
    document.toJson = .object document.members := by
  unfold toJson members
  rw [listMember_eq_optionalMember]

variable {document : GrammarDocument}

/-
  An unambiguous document is read back from what
  is written for it.
-/
theorem isReadBack
    (h : document.IsUnambiguous) :
    IsReadBack toJson ofJson? document := by
  have hSymbols :
      ∀ symbols : List String,
        IsReadBack textsToJson (list? Json.text?) symbols :=
    fun _ => isReadBack_list fun text _ => isReadBack_text text
  have hStart :
      ∀ symbol ∈ document.startSymbol,
        IsReadBack SymbolElement.toJson _ symbol :=
    fun symbol hSymbol =>
      SymbolElement.isReadBack (h.startSymbol symbol hSymbol)
  have hGraph :
      ∀ graph ∈ document.startGraphs,
        IsReadBack GraphElement.toJson _ graph :=
    fun graph hGraph =>
      GraphElement.isReadBack (h.startGraphs graph hGraph)
  have hRules :
      ∀ rules ∈ document.rules,
        IsReadBack
          (fun rules => .array (rules.map RuleElement.toJson))
          (list? RuleElement.ofJson?) rules :=
    fun rules hMem => isReadBack_list fun rule hRule =>
      RuleElement.isReadBack (h.rules rules hMem rule hRule)
  have hMembers :
      MembersOf
        ["terminal_symbols", "non_terminal_symbols",
          "start_symbol", "start_graph",
          "production_rules"]
        document.members := by
    refine
      .cons (.cons (.cons (.cons (.single ?_) ?_) ?_) ?_) ?_
    · exact fun rules hMem => (hRules rules hMem).kept
    · exact fun _ => isKept_array_of_mem_someItems? hGraph
    · exact fun symbol hMem => (hStart symbol hMem).kept
    · exact fun symbols _ => (hSymbols symbols).kept
    · exact fun symbols _ => (hSymbols symbols).kept
  have hTerminals :
      optional? (list? Json.text?) document.members
        "terminal_symbols" =
        some document.terminals :=
    optional?_of_lookup (fun symbols _ => hSymbols symbols)
      (by simp [members])
  have hNonTerminals :
      optional? (list? Json.text?) document.members
        "non_terminal_symbols" =
        some document.nonTerminals :=
    optional?_of_lookup (fun symbols _ => hSymbols symbols)
      (by simp [members])
  have hStartSymbol :
      optional? SymbolElement.ofJson? document.members
        "start_symbol" =
        some document.startSymbol :=
    optional?_of_lookup hStart (by simp [members])
  have hStartGraphs :
      fieldD? (list? GraphElement.ofJson?) [] document.members
        "start_graph" =
        some document.startGraphs :=
    fieldD?_list_of_lookup hGraph (by simp [members])
  have hProductions :
      optional? (list? RuleElement.ofJson?) document.members
        "production_rules" =
        some document.rules :=
    optional?_of_lookup hRules (by simp [members])
  refine ⟨?_, ?_, by simp [toJson]⟩
  · rw [toJson_eq_object]
    unfold ofJson?
    refine Option.bind_eq_some_iff.2
      ⟨_, hMembers.knownFields? (by decide), ?_⟩
    refine Option.bind_eq_some_iff.2 ⟨_, hTerminals, ?_⟩
    refine Option.bind_eq_some_iff.2 ⟨_, hNonTerminals, ?_⟩
    refine Option.bind_eq_some_iff.2 ⟨_, hStartSymbol, ?_⟩
    refine Option.bind_eq_some_iff.2 ⟨_, hStartGraphs, ?_⟩
    exact Option.bind_eq_some_iff.2 ⟨_, hProductions, rfl⟩
  · rw [toJson_eq_object]
    exact hMembers.isKept

end GrammarDocument

end GraphRewriting
