import GraphRewriting.Document.Text
import GraphRewriting.Proofs.Document.Loaded

/-
  Texts that are loaded, saved and loaded again. Whatever loads
  can be saved. It loads again as it was unless the empty
  symbol is a terminal that the options do not imply, as saved
  texts do not list it.

  Main declarations:
    * `Grammar.ofText_pretty`
    * `Grammar.toText_of_ofText`
-/

------------------------------------------------------------
-- Texts And Documents
------------------------------------------------------------

namespace GraphRewriting

namespace Grammar

variable {config : GrammarConfig}
variable {g : Grammar}

/-
  A text loads if it is the JSON of a document that
  describes a grammar.
-/
theorem ofText_eq_ok_iff
    {text : String} :
    ofText config text = .ok g ↔
      ∃ (json : Json) (document : GrammarDocument),
        Json.ofString? text = some json ∧
          GrammarDocument.ofJson? json = some document ∧
          document.toGrammar config = .ok g := by
  unfold ofText ofGlyphs
  cases hJson : Json.ofGlyphs? (glyphsOfString text) with
  | none => simp [Json.ofString?, hJson]
  | some json =>
      rw [Option.bind_some]
      cases hDocument : GrammarDocument.ofJson? json with
      | none => simp [Json.ofString?, hJson, hDocument]
      | some document => simp [Json.ofString?, hJson, hDocument]

/-
  The text of an unambiguous document loads as the
  document itself does.
-/
theorem ofText_pretty
    {document : GrammarDocument}
    (h : document.IsUnambiguous) :
    ofText config document.toJson.pretty =
      document.toGrammar config := by
  have hBack := GrammarDocument.isReadBack h
  have hJson :
      Json.ofGlyphs? (glyphsOfString document.toJson.pretty) =
        some document.toJson :=
    Json.ofString?_pretty hBack.kept
  unfold ofText ofGlyphs
  rw [hJson, Option.bind_some, hBack.read]

/- The text is the document in the pretty layout. -/
theorem toText_eq_ok_iff
    {text : String} :
    g.toText = .ok text ↔
      ∃ document : GrammarDocument,
        GrammarDocument.ofGrammar g = .ok document ∧
          text = document.toJson.pretty :=
  map_eq_ok_iff

theorem terminals_eq_of_equiv
    {other : Grammar}
    (h : other ≈ g) :
    other.terminals = g.terminals := by
  have hPlain : other.plain = g.plain := h
  show other.plain.terminals = g.plain.terminals
  rw [hPlain]

end Grammar

end GraphRewriting

------------------------------------------------------------
-- Loading, Saving And Loading Again
------------------------------------------------------------

namespace GraphRewriting

namespace Grammar

/-
  What loads can be saved, and its saved text loads as an equal
  grammar exactly if the empty symbol is no terminal without
  being implied.
-/
theorem toText_of_ofText
    {config : GrammarConfig}
    {text : String}
    {g : Grammar}
    (h : ofText config text = .ok g) :
    ∃ saved : String,
      g.toText = .ok saved ∧
        ((∃ again : Grammar,
          ofText config saved = .ok again ∧ again ≈ g) ↔
          ("" ∈ g.terminals →
            config.emptySymbolIsTerminal = true)) := by
  rcases ofText_eq_ok_iff.1 h with
    ⟨json, source, -, hSource, hLoad⟩
  have hConsistent :=
    (GrammarDocument.isBuilt_of_toGrammar hLoad).isConsistent
  rcases GrammarDocument.isDescribable_of_toGrammar
    (GrammarDocument.isUnambiguous_of_ofJson? hSource)
      hLoad with
    ⟨hConfig, hDescribable, hClash⟩
  rcases
      (GrammarDocument.ofGrammar_spec hConsistent
          hDescribable).succeeds
        hClash with
    ⟨document, hDocument, hOf⟩
  have hUnambiguous :=
    GrammarDocument.isUnambiguous_of_ofGrammar hDocument
  refine
    ⟨document.toJson.pretty,
      toText_eq_ok_iff.2 ⟨document, hDocument, rfl⟩, ?_⟩
  rw [ofText_pretty hUnambiguous]
  constructor
  · rintro ⟨again, hAgain, hEquiv⟩ hEmpty
    rcases
        GrammarDocument.mem_terminals_of_toGrammar hAgain with
      ⟨terminals, hTerminals, hMem⟩
    rw [hOf.terminals] at hTerminals
    cases hTerminals
    rw [← terminals_eq_of_equiv hEquiv, hMem] at hEmpty
    rcases hEmpty with ⟨hImplied, -⟩ | hListed
    · exact hImplied
    · exact absurd rfl (mem_listedTerminals.1 hListed).2
  · intro hImplied
    rcases GrammarDocument.mem_terminals_of_toGrammar hLoad with
      ⟨terminals, -, hMem⟩
    have hEmpty :
        "" ∈ g.terminals ↔
          g.config.emptySymbolIsTerminal = true := by
      rw [hConfig]
      exact
        ⟨hImplied,
          fun hOption => (hMem "").2 (Or.inl ⟨hOption, rfl⟩)⟩
    rw [← hConfig]
    exact GrammarDocument.toGrammar_of_isOf hConsistent hEmpty
      hDescribable hOf

/- A rule whose replacement declares its exotic node again. -/
def ripeningElement : RuleElement :=
  let stem : NodeElement :=
    ⟨some NodeId.base, some "S", (∅ : Labels).insert "age" "1"⟩
  let stalk : EdgeElement :=
    ⟨some (.num 1), some NodeId.base, some (.name "leaf"), none,
      ∅⟩
  let leaf : ExoticElement := ⟨some (.name "leaf")⟩
  ⟨some "ripen", none, none,
    some ⟨none, ∅, [stem], [stalk], [], [leaf]⟩,
    some ⟨some "a", (∅ : Labels).insert "id" "stem", [], [], [],
      [leaf]⟩⟩

/-
  A document that leaves the start symbol out of its symbols.
-/
def ripeningDocument : GrammarDocument where
  terminals := some ["a"]
  nonTerminals := some []
  startSymbol :=
    some ⟨some "S", (∅ : Labels).insert "id" "root"⟩
  startGraphs := []
  rules := some [ripeningElement]

theorem toText_of_ofText_ripening :
    ∃ g : Grammar,
      ofText .standard ripeningDocument.toJson.pretty = .ok g ∧
        ∃ saved : String,
          g.toText = .ok saved ∧
            ∃ again : Grammar,
              ofText .standard saved = .ok again ∧
                again ≈ g := by
  have hRead :
      GrammarDocument.ofJson? ripeningDocument.toJson =
        some ripeningDocument := by
    decide +kernel
  have hLoads :
      (ripeningDocument.toGrammar .standard).isOk = true := by
    decide +kernel
  rw [← ofText_pretty
    (GrammarDocument.isUnambiguous_of_ofJson? hRead)] at hLoads
  cases h : ofText .standard ripeningDocument.toJson.pretty with
  | error error =>
      rw [h] at hLoads
      cases hLoads
  | ok g =>
      rcases toText_of_ofText h with ⟨saved, hSaved, hAgain⟩
      exact ⟨g, rfl, saved, hSaved, hAgain.2 fun _ => rfl⟩

/- The options under which the empty symbol is not implied. -/
def withoutEmptySymbol : GrammarConfig :=
  { GrammarConfig.standard with emptySymbolIsTerminal := false }

/- A text that lists the empty symbol as a terminal. -/
def emptySymbolText : String :=
  "\x7b\"terminal_symbols\":[\"\"],\"non_terminal_symbols\":[],\"production_rules\":[]\x7d"

/-
  The empty symbol is lost where it is listed but not implied.
-/
theorem ofText_toText_emptySymbol :
    ∃ (g again : Grammar) (saved : String),
      ofText withoutEmptySymbol emptySymbolText = .ok g ∧
        g.toText = .ok saved ∧
        ofText withoutEmptySymbol saved = .ok again ∧
          ¬ again ≈ g := by
  let document : GrammarDocument :=
    ⟨some [], some [], none, [], some []⟩
  have hDocument :
      GrammarDocument.ofGrammar
          (ofSymbols withoutEmptySymbol [""] []) =
        .ok document := by
    decide +kernel
  have hAgain :
      ofText withoutEmptySymbol document.toJson.pretty =
      .ok (ofSymbols withoutEmptySymbol [] []) := by
    rw [ofText_pretty
      (GrammarDocument.isUnambiguous_of_ofGrammar hDocument)]
    decide +kernel
  refine
    ⟨_, _, _, ?_, toText_eq_ok_iff.2 ⟨document, hDocument, rfl⟩,
      hAgain, ?_⟩
  · decide +kernel
  · decide +kernel

end Grammar

end GraphRewriting
