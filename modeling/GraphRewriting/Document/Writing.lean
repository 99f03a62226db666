import GraphRewriting.Digraph.Element
import GraphRewriting.Document.Element
import GraphRewriting.Json.Basic
import GraphRewriting.Kind

/-
  This file defines the JSON values of grammar documents and
  their elements, and of nodes, edges and kinds.

  Keys come in a fixed order, absent and empty parts of an
  element are left out, and attributes come last, by ascending
  key.

  Key definitions include:
    * `NodeId.toJson`
    * `Node.toJson`
    * `Edge.toJson`
    * `GrammarDocument.toJson`
-/

namespace GraphRewriting

------------------------------------------------------------
-- Records
------------------------------------------------------------

/- A member for a part that may be absent. -/
def optionalMember
    {α : Type}
    (write : α → Json)
    (key : String) :
    Option α → List (String × Json)
  | none => []
  | some value => [(key, write value)]

/- A member for a list that is left out when it is empty. -/
def listMember
    {α : Type}
    (write : α → Json)
    (key : String) :
    List α → List (String × Json)
  | [] => []
  | items => [(key, .array (items.map write))]

/- Labels as members, by ascending key. -/
def Labels.members (labels : Labels) : List (String × Json) :=
  labels.toList.map fun (key, value) => (key, .text value)

/- A list of texts. -/
def textsToJson (texts : List String) : Json :=
  .array (texts.map .text)

------------------------------------------------------------
-- Graph parts
------------------------------------------------------------

/- Numbers stay numbers, names are texts. -/
def NodeId.toJson : NodeId → Json
  | .num value => .natural value.toNat
  | .name text => .text text

/- An object of texts. -/
def Labels.toJson (labels : Labels) : Json :=
  .object labels.members

/- An id and labels. -/
def Node.toJson (node : Node) : Json :=
  .object
    [("id", node.id.toJson),
      ("labels", Labels.toJson node.labels)]

/-
  Two ends, labels and a document id, which is `null`
  when there is none.
-/
def Edge.toJson (edge : Edge) : Json :=
  .object
    [("start", edge.start.toJson), ("end", edge.stop.toJson),
      ("labels", Labels.toJson edge.labels),
      ("id", (edge.documentId.map Json.text).getD .null)]

/- The name of the kind. -/
def ExoticKind.toJson (kind : ExoticKind) : Json :=
  .text kind.text

/- The name of the kind. -/
def RuleKind.toJson (kind : RuleKind) : Json :=
  .text kind.text

------------------------------------------------------------
-- Elements
------------------------------------------------------------

/- The symbol, then its labels. -/
def SymbolElement.toJson (element : SymbolElement) : Json :=
  .object
    (optionalMember .text "name" element.name ++
      element.attributes.members)

/- The id and the symbol, then the labels. -/
def NodeElement.toJson (element : NodeElement) : Json :=
  .object
    (optionalMember NodeId.toJson "id" element.id ++
      (optionalMember .text "name" element.name ++
        element.attributes.members))

/- The id, the ends and the symbol, then the labels. -/
def EdgeElement.toJson (element : EdgeElement) : Json :=
  .object
    (optionalMember NodeId.toJson "id" element.id ++
      (optionalMember NodeId.toJson "from" element.start ++
        (optionalMember NodeId.toJson "to" element.stop ++
          (optionalMember .text "name" element.name ++
            element.attributes.members))))

/- The id alone. -/
def ExoticElement.toJson (element : ExoticElement) : Json :=
  .object (optionalMember NodeId.toJson "id" element.id)

/-
  The member for the labels of `base`, left out
  when there are none.
-/
def GraphElement.baseLabelsMember
    (element : GraphElement) : List (String × Json) :=
  if element.baseLabels.isEmpty then
    []
  else
    [("base_labels", Labels.toJson element.baseLabels)]

/-
  The base, then the nodes and edges, then the exotic
  nodes of each kind.
-/
def GraphElement.toJson (element : GraphElement) : Json :=
  .object
    (optionalMember .text "base" element.base ++
      (element.baseLabelsMember ++
        (listMember NodeElement.toJson "nodes" element.nodes ++
          (listMember EdgeElement.toJson "edges"
            element.edges ++
            (listMember ExoticElement.toJson "anodes"
              element.anchors ++
              listMember ExoticElement.toJson "wnodes"
                element.wildcards)))))

/- The name, the left-hand side, then the replacement graph. -/
def RuleElement.toJson (element : RuleElement) : Json :=
  .object
    (optionalMember .text "name" element.name ++
      (optionalMember SymbolElement.toJson "nt"
        element.symbol ++
        (optionalMember GraphElement.toJson "agraph"
          element.anchorGraph ++
          (optionalMember GraphElement.toJson "wgraph"
            element.wildcardGraph ++
            optionalMember GraphElement.toJson "graph"
              element.graph))))

/- The symbols, the start, then the rules. -/
def GrammarDocument.toJson
    (document : GrammarDocument) : Json :=
  .object
    (optionalMember textsToJson "terminal_symbols"
      document.terminals ++
      (optionalMember textsToJson "non_terminal_symbols"
        document.nonTerminals ++
        (optionalMember SymbolElement.toJson "start_symbol"
          document.startSymbol ++
          (listMember GraphElement.toJson "start_graph"
            document.startGraphs ++
            optionalMember
              (fun rules =>
                .array (rules.map RuleElement.toJson))
              "production_rules" document.rules))))

end GraphRewriting
