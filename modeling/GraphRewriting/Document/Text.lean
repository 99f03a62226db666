import GraphRewriting.Document.Description
import GraphRewriting.Document.Interpretation
import GraphRewriting.Document.Reading
import GraphRewriting.Document.Writing
import GraphRewriting.Json.Layout
import GraphRewriting.Json.Nesting

/-
  This file defines the text of grammars: how a grammar is read
  from a text or from the bytes of a file, and how it is
  written.

  Key definitions include:
    * `Grammar.ofText`
    * `Grammar.ofFile`
    * `Grammar.toText`
    * `Grammar.save`
    * `Grammar.reread`
-/

namespace GraphRewriting

namespace Grammar

/- The grammar of a document in JSON. -/
def ofGlyphs
    (config : GrammarConfig)
    (glyphs : Glyphs) : Except GrammarError Grammar :=
  match (Json.ofGlyphs? glyphs).bind
    GrammarDocument.ofJson? with
  | some document => document.toGrammar config
  | none => .error .unreadableText

/- The grammar of a text. -/
def ofText
    (config : GrammarConfig)
    (text : String) : Except GrammarError Grammar :=
  ofGlyphs config (glyphsOfString text)

/-
  The grammar of a file with some content, if
  the file is there.
-/
def ofFile
    (config : GrammarConfig) :
    Option ByteArray → Except GrammarError Grammar
  | some bytes => ofGlyphs config (glyphsOfBytes bytes)
  | none => .error .unreachableFile

/- The text of a grammar, on indented lines. -/
def toText (g : Grammar) : Except GrammarError String :=
  (GrammarDocument.ofGrammar g).map fun document =>
    document.toJson.pretty

/-
  The content of the file that a grammar is saved to. The
  grammar is described before the file is made.
-/
def save
    (g : Grammar)
    (isWritable : Bool) : Except GrammarError String := do
  let text ← g.toText
  if isWritable then .ok text else .error .unreachableFile

/-
  The grammar that the document of a grammar describes
  under its own options.
-/
def reread (g : Grammar) : Except GrammarError Grammar := do
  let document ← GrammarDocument.ofGrammar g
  document.toGrammar g.config

end Grammar

end GraphRewriting
