import GraphRewriting.Document.Text
import GraphRewriting.Proofs.Document.RoundTrip
import GraphRewriting.Proofs.Document.Unambiguous
import GraphRewriting.Proofs.Json.Writing

/-
  Documents and the texts that spell them. A document is what
  its own text spells, on one line or on many, exactly if the
  labels in it can be told apart from the keys of its elements.
  The documents of grammars are of this kind.

  Main declarations:
    * `GrammarDocument.ofText?`
    * `Grammar.ofText_eq_ofText?`
    * `GrammarDocument.ofText?_written`
-/

------------------------------------------------------------
-- Texts Of Documents
------------------------------------------------------------

namespace GraphRewriting

/- The document that a text spells, if it spells one. -/
def GrammarDocument.ofText?
    (text : String) : Option GrammarDocument :=
  (Json.ofString? text).bind ofJson?

/- A text loads as the document that it spells. -/
theorem Grammar.ofText_eq_ofText?
    (config : GrammarConfig)
    (text : String) :
    ofText config text =
      match GrammarDocument.ofText? text with
      | some document => document.toGrammar config
      | none => .error .unreadableText :=
  rfl

namespace GrammarDocument

variable {document : GrammarDocument}

/-
  A text of the JSON of a document, in any layout, spells the
  document if it is unambiguous. If it is not, then no text
  does, as the keys of elements are never read as labels.
-/
theorem ofText?_eq_some_iff
    {text : String}
    (hText :
      document.toJson.IsKept →
        Json.ofString? text = some document.toJson) :
    ofText? text = some document ↔ document.IsUnambiguous := by
  unfold ofText?
  constructor
  · intro h
    rcases Option.bind_eq_some_iff.1 h with ⟨json, -, hJson⟩
    exact isUnambiguous_of_ofJson? hJson
  · intro h
    have hBack := isReadBack h
    rw [hText hBack.kept, Option.bind_some]
    exact hBack.read

/-
  What is written for a document is read as that document,
  exactly if it is unambiguous, and the documents of grammars
  are.
-/
theorem ofText?_written :
    (∀ document : GrammarDocument,
      (ofText? document.toJson.compact = some document ↔
        document.IsUnambiguous) ∧
        (ofText? document.toJson.pretty = some document ↔
          document.IsUnambiguous)) ∧
      ∀ (g : Grammar) (document : GrammarDocument),
        ofGrammar g = .ok document →
          document.IsUnambiguous := by
  refine
    ⟨fun document => ⟨?_, ?_⟩,
      fun _ _ => isUnambiguous_of_ofGrammar⟩
  · exact ofText?_eq_some_iff Json.ofString?_compact
  · exact ofText?_eq_some_iff Json.ofString?_pretty

/-
  Labels with keys of other elements, next to
  ids of either kind.
-/
def hedgeGraph : GraphElement :=
  let largest : NodeElement :=
    ⟨some (.num 18446744073709551615), none,
      (∅ : Labels).insert "from" "\"1\""⟩
  let digits : NodeElement :=
    ⟨some (.name "1"), some "é\n",
      (∅ : Labels).insert "" "\\u00e9"⟩
  let edge : EdgeElement :=
    ⟨some (.name "7"), some (.num 7), none, some "",
      (∅ : Labels).insert "nodes" "\t"⟩
  ⟨some "S", (∅ : Labels).insert "id" "𝄞", [largest, digits],
    [edge], [⟨none⟩], []⟩

/-
  A document with sections that are there but empty, and
  others that are not there.
-/
def hedge : GrammarDocument where
  terminals := some []
  nonTerminals := none
  startSymbol := some ⟨none, (∅ : Labels).insert "id" "name"⟩
  startGraphs := [hedgeGraph]
  rules := some []

theorem ofText?_written_hedge :
    (ofText? hedge.toJson.compact = some hedge ∧
        ofText? hedge.toJson.pretty = some hedge) ∧
      ∃ document : GrammarDocument,
        ofGrammar Grammar.meadow = .ok document ∧
          document.IsUnambiguous := by
  have hHedge : hedge.IsUnambiguous := by decide +kernel
  rcases ofText?_written with ⟨hBack, hEmitted⟩
  refine
    ⟨⟨(hBack hedge).1.2 hHedge, (hBack hedge).2.2 hHedge⟩, ?_⟩
  have hOk : (ofGrammar Grammar.meadow).isOk = true := by
    decide +kernel
  cases h : ofGrammar Grammar.meadow with
  | error error =>
      rw [h] at hOk
      cases hOk
  | ok document => exact ⟨document, rfl, hEmitted _ document h⟩

end GrammarDocument

end GraphRewriting
