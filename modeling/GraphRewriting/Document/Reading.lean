import GraphRewriting.Digraph.Element
import GraphRewriting.Document.Element
import GraphRewriting.Json.Basic
import GraphRewriting.Kind

/-
  This file defines which JSON values are grammar documents,
  and which are their elements, nodes, edges and kinds.

  A record with keys of its own is an object, in which unknown
  keys are skipped, or an array of its fields in order. A
  record with attributes is an object whose unknown keys are
  its attributes. A known key must not be repeated; of repeated
  attributes the last one counts.

  Key definitions include:
    * `fields?`
    * `attributeFields?`
    * `NodeId.ofJson?`
    * `Node.ofJson?`
    * `Edge.ofJson?`
    * `GrammarDocument.ofJson?`
-/

namespace GraphRewriting

------------------------------------------------------------
-- Records
------------------------------------------------------------

/- Members of an object, or named fields of a record. -/
abbrev Fields :=
  List (String × Json)

/-
  The members with known keys, unless one of
  these is repeated.
-/
def knownFields?
    (keys : List String)
    (members : Fields) : Option Fields :=
  let known :=
    members.filter fun member => keys.contains member.1
  if (known.map Prod.fst).Nodup then some known else none

/- The fields of a record with keys of its own. -/
def fields?
    (keys : List String) :
    Json → Option Fields
  | .object members => knownFields? keys members
  | .array items =>
      if items.length ≤ keys.length then
        some (keys.zip items)
      else
        none
  | _ => none

/-
  The fields of a record of which an array must hold every one.
-/
def completeFields?
    (keys : List String) :
    Json → Option Fields
  | .object members => knownFields? keys members
  | .array items =>
      if items.length = keys.length then
        some (keys.zip items)
      else
        none
  | _ => none

/- A member whose value is a text. -/
def textMember?
    (member : String × Json) : Option (String × String) :=
  member.2.text?.map fun text => (member.1, text)

/-
  Labels from members with texts; of repeated keys
  the last one counts.
-/
def labelsOfMembers? (members : Fields) : Option Labels :=
  (members.mapM textMember?).map fun pairs =>
    Std.ExtTreeMap.ofList pairs

/-
  The known fields of a record with attributes,
  and the attributes.
-/
def attributeFields?
    (keys : List String)
    (value : Json) : Option (Fields × Labels) := do
  let members ← value.members?
  let known ← knownFields? keys members
  let attributes ←
    labelsOfMembers?
      (members.filter fun member => !keys.contains member.1)
  return (known, attributes)

/- A field that may be absent or `null`. -/
def optional?
    {α : Type}
    (read : Json → Option α)
    (fields : Fields)
    (key : String) : Option (Option α) :=
  match fields.lookup key with
  | none => some none
  | some .null => some none
  | some value => (read value).map some

/- A field that has a default when it is absent. -/
def fieldD?
    {α : Type}
    (read : Json → Option α)
    (fallback : α)
    (fields : Fields)
    (key : String) : Option α :=
  match fields.lookup key with
  | none => some fallback
  | some value => read value

/- A field that must be there. -/
def field?
    {α : Type}
    (read : Json → Option α)
    (fields : Fields)
    (key : String) : Option α :=
  (fields.lookup key).bind read

/- A list of values of one form. -/
def list?
    {α : Type}
    (read : Json → Option α)
    (value : Json) : Option (List α) :=
  value.items?.bind fun items => items.mapM read

------------------------------------------------------------
-- Graph parts
------------------------------------------------------------

/- An id is a natural number of 64 bits or a text. -/
def NodeId.ofJson? : Json → Option NodeId
  | .natural value =>
      if value < UInt64.size then
        some (.num (UInt64.ofNat value))
      else
        none
  | .text value => some (.name value)
  | _ => none

/- Labels are an object of texts. -/
def Labels.ofJson? (value : Json) : Option Labels :=
  value.members?.bind labelsOfMembers?

/- A node is a record of its id and labels. -/
def Node.ofJson? (value : Json) : Option Node := do
  let fields ← completeFields? ["id", "labels"] value
  let id ← field? NodeId.ofJson? fields "id"
  let labels ← field? Labels.ofJson? fields "labels"
  return ⟨id, labels⟩

/-
  An edge is a record of its ends, its labels
  and its document id.
-/
def Edge.ofJson? (value : Json) : Option Edge := do
  let fields ←
    completeFields? ["start", "end", "labels", "id"] value
  let start ← field? NodeId.ofJson? fields "start"
  let stop ← field? NodeId.ofJson? fields "end"
  let labels ← field? Labels.ofJson? fields "labels"
  let documentId ← optional? Json.text? fields "id"
  return ⟨⟨labels, documentId⟩, start, stop⟩

/-
  A kind is its name, or an object that maps
  the name to `null`.
-/
def kindName? : Json → Option String
  | .text name => some name
  | .object [(name, .null)] => some name
  | _ => none

/- The exotic kind of a name. -/
def ExoticKind.ofText? : String → Option ExoticKind
  | "anchor" => some .anchor
  | "wildcard" => some .wildcard
  | _ => none

/- The rule kind of a name. -/
def RuleKind.ofText? : String → Option RuleKind
  | "context_free" => some .contextFree
  | "anchor" => some .anchor
  | "wildcard" => some .wildcard
  | _ => none

/- An exotic kind, by its name. -/
def ExoticKind.ofJson? (value : Json) : Option ExoticKind :=
  (kindName? value).bind ExoticKind.ofText?

/- A rule kind, by its name. -/
def RuleKind.ofJson? (value : Json) : Option RuleKind :=
  (kindName? value).bind RuleKind.ofText?

------------------------------------------------------------
-- Elements
------------------------------------------------------------

/- A symbol is an object; the other members are its labels. -/
def SymbolElement.ofJson?
    (value : Json) : Option SymbolElement := do
  let (fields, attributes) ← attributeFields? ["name"] value
  let name ← optional? Json.text? fields "name"
  return ⟨name, attributes⟩

/- A node is an object; the other members are its labels. -/
def NodeElement.ofJson?
    (value : Json) : Option NodeElement := do
  let (fields, attributes) ←
    attributeFields? ["id", "name"] value
  let id ← optional? NodeId.ofJson? fields "id"
  let name ← optional? Json.text? fields "name"
  return ⟨id, name, attributes⟩

/- An edge is an object; the other members are its labels. -/
def EdgeElement.ofJson?
    (value : Json) : Option EdgeElement := do
  let (fields, attributes) ←
    attributeFields? ["id", "from", "to", "name"] value
  let id ← optional? NodeId.ofJson? fields "id"
  let start ← optional? NodeId.ofJson? fields "from"
  let stop ← optional? NodeId.ofJson? fields "to"
  let name ← optional? Json.text? fields "name"
  return ⟨id, start, stop, name, attributes⟩

/- An exotic node is a record of its id. -/
def ExoticElement.ofJson?
    (value : Json) : Option ExoticElement := do
  let fields ← fields? ["id"] value
  let id ← optional? NodeId.ofJson? fields "id"
  return ⟨id⟩

/-
  A graph is a record; its base and its lists may be left out.
-/
def GraphElement.ofJson?
    (value : Json) : Option GraphElement := do
  let fields ←
    fields?
      ["base", "base_labels", "nodes", "edges", "anodes",
        "wnodes"]
      value
  let base ← optional? Json.text? fields "base"
  let baseLabels ← fieldD? Labels.ofJson? ∅ fields "base_labels"
  let nodes ←
    fieldD? (list? NodeElement.ofJson?) [] fields "nodes"
  let edges ←
    fieldD? (list? EdgeElement.ofJson?) [] fields "edges"
  let anchors ←
    fieldD? (list? ExoticElement.ofJson?) [] fields "anodes"
  let wildcards ←
    fieldD? (list? ExoticElement.ofJson?) [] fields "wnodes"
  return ⟨base, baseLabels, nodes, edges, anchors, wildcards⟩

/- A rule is a record, any of whose parts may be left out. -/
def RuleElement.ofJson?
    (value : Json) : Option RuleElement := do
  let fields ←
    fields? ["name", "nt", "agraph", "wgraph", "graph"] value
  let name ← optional? Json.text? fields "name"
  let symbol ← optional? SymbolElement.ofJson? fields "nt"
  let anchorGraph ←
    optional? GraphElement.ofJson? fields "agraph"
  let wildcardGraph ←
    optional? GraphElement.ofJson? fields "wgraph"
  let graph ← optional? GraphElement.ofJson? fields "graph"
  return ⟨name, symbol, anchorGraph, wildcardGraph, graph⟩

/-
  A grammar is a record, any of whose
  sections may be left out.
-/
def GrammarDocument.ofJson?
    (value : Json) : Option GrammarDocument := do
  let fields ←
    fields?
      ["terminal_symbols", "non_terminal_symbols",
        "start_symbol", "start_graph",
        "production_rules"]
      value
  let terminals ←
    optional? (list? Json.text?) fields "terminal_symbols"
  let nonTerminals ←
    optional? (list? Json.text?) fields "non_terminal_symbols"
  let startSymbol ←
    optional? SymbolElement.ofJson? fields "start_symbol"
  let startGraphs ←
    fieldD? (list? GraphElement.ofJson?) [] fields "start_graph"
  let rules ←
    optional? (list? RuleElement.ofJson?) fields
      "production_rules"
  return ⟨terminals, nonTerminals, startSymbol, startGraphs,
    rules⟩

end GraphRewriting
