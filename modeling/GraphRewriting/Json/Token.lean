import GraphRewriting.Json.Basic
import GraphRewriting.Json.Text

/-
  This file defines the tokens of JSON documents and how a
  document is cut into them, glyph by glyph.

  Outside string literals, glyphs other than blanks and
  punctuation form runs, and every run must spell `null`,
  `true`, `false` or a number.

  Key definitions include:
    * `Token`
    * `scalar?`
    * `ScanMode`
    * `scan`
    * `tokens?`
-/

namespace GraphRewriting

------------------------------------------------------------
-- Tokens
------------------------------------------------------------

/-
  A token. A scalar is a value other than a string; a string
  literal without a text is kept without its content.
-/
inductive Token where
  | openArray
  | closeArray
  | openObject
  | closeObject
  | comma
  | colon
  | scalar (value : Json)
  | text (value : Option String)
  deriving Inhabited

------------------------------------------------------------
-- Scalars
------------------------------------------------------------

/- Drop digits, of which there must be one at least. -/
def dropDigits? : List Char → Option (List Char)
  | [] => none
  | c :: rest =>
      if c.isDigit then
        some (rest.dropWhile Char.isDigit)
      else
        none

/-
  Drop a whole number: a zero, or digits that do
  not start with one.
-/
def dropWhole? : List Char → Option (List Char)
  | '0' :: rest => some rest
  | rest => dropDigits? rest

/- Drop a fraction if there is one. -/
def dropFraction? : List Char → Option (List Char)
  | '.' :: rest => dropDigits? rest
  | rest => some rest

/- Drop a sign if there is one. -/
def dropSign : List Char → List Char
  | '+' :: rest => rest
  | '-' :: rest => rest
  | rest => rest

/- Drop an exponent if there is one. -/
def dropExponent? : List Char → Option (List Char)
  | 'e' :: rest => dropDigits? (dropSign rest)
  | 'E' :: rest => dropDigits? (dropSign rest)
  | rest => some rest

/- Drop a minus sign if there is one. -/
def dropMinus : List Char → List Char
  | '-' :: rest => rest
  | rest => rest

/-
  A run is a number if it is a whole number with an optional
  minus sign, fraction and exponent, and nothing is left.
-/
def IsNumber (run : List Char) : Prop :=
  (do
    let rest ← dropWhole? (dropMinus run)
    let rest ← dropFraction? rest
    dropExponent? rest) = some []

instance (run : List Char) : Decidable (IsNumber run) := by
  unfold IsNumber
  infer_instance

/- The value that a run spells. -/
def scalar? (run : List Char) : Option Json :=
  if run = ['n', 'u', 'l', 'l'] then
    some .null
  else if run = ['t', 'r', 'u', 'e'] then
    some (.bool true)
  else if run = ['f', 'a', 'l', 's', 'e'] then
    some (.bool false)
  else if dropWhole? run = some [] then
    some (.natural (Nat.ofDigitChars 10 run 0))
  else if IsNumber run then
    some (.number (String.ofList run))
  else
    none

------------------------------------------------------------
-- Scanning
------------------------------------------------------------

/-
  Where a scan stands: between tokens, in a run, in a string
  literal, behind its backslash, or among the digits of a unit.
  Glyphs and pieces seen so far are kept in reverse.
-/
inductive ScanMode where
  | between
  | run (reversed : List Char)
  | literal (pieces : List TextPiece)
  | escape (pieces : List TextPiece)
  | unit (pieces : List TextPiece) (digits value : Nat)

/- The blanks of JSON. -/
def isBlank (c : Char) : Bool :=
  c = ' ' || c = '\t' || c = '\n' || c = '\r'

/- The token of a punctuation mark. -/
def punctuation? : Char → Option Token
  | '[' => some .openArray
  | ']' => some .closeArray
  | '\x7b' => some .openObject
  | '\x7d' => some .closeObject
  | ',' => some .comma
  | ':' => some .colon
  | _ => none

/- The token of a string literal. -/
def literalToken (pieces : List TextPiece) : Token :=
  .text ((textOfPieces? pieces.reverse).map String.ofList)

/-
  The tokens, in reverse, and the mode after a
  glyph outside literals.
-/
def scanOutside
    (tokens : List Token)
    (c : Char) : List Token × ScanMode :=
  if isBlank c then
    (tokens, .between)
  else if c = '"' then
    (tokens, .literal [])
  else
    match punctuation? c with
    | some token => (token :: tokens, .between)
    | none => (tokens, .run [c])

/- Whether a glyph ends a run. -/
def endsRun (c : Char) : Bool :=
  isBlank c || c = '"' || (punctuation? c).isSome

/-
  The next mode inside a literal, or the token that it makes.
-/
def scanLiteral
    (tokens : List Token)
    (pieces : List TextPiece) :
    Option Char → Option (List Token × ScanMode)
  | none => some (tokens, .literal (.stray :: pieces))
  | some c =>
      if c = '"' then
        some (literalToken pieces :: tokens, .between)
      else if c = '\\' then
        some (tokens, .escape pieces)
      else if c.toNat < 0x20 then
        none
      else
        some (tokens, .literal (.char c :: pieces))

/- The next mode behind a backslash. -/
def scanEscape
    (pieces : List TextPiece)
    (c : Char) : Option ScanMode :=
  if c = 'u' then
    some (.unit pieces 0 0)
  else
    (escapedChar? c).map fun escaped =>
      .literal (.char escaped :: pieces)

/-
  The next mode behind a digit of a unit,
  which has four of them.
-/
def scanUnit
    (pieces : List TextPiece)
    (digits value : Nat)
    (c : Char) : Option ScanMode :=
  (hexValue? c).map fun digit =>
    if digits = 3 then
      .literal (.unit (16 * value + digit) :: pieces)
    else
      .unit pieces (digits + 1) (16 * value + digit)

/- One glyph of a scan. -/
def scanGlyph
    (tokens : List Token) :
    ScanMode → Option Char → Option (List Token × ScanMode)
  | .between, some c => some (scanOutside tokens c)
  | .run reversed, some c =>
      if endsRun c then
        (scalar? reversed.reverse).map fun value =>
          scanOutside (.scalar value :: tokens) c
      else
        some (tokens, .run (c :: reversed))
  | .literal pieces, glyph => scanLiteral tokens pieces glyph
  | .escape pieces, some c =>
      (scanEscape pieces c).map (tokens, ·)
  | .unit pieces digits value, some c =>
      (scanUnit pieces digits value c).map (tokens, ·)
  | _, none => none

/-
  Scan glyphs from a mode on, with the tokens so far in
  reverse. A document may end between tokens or with a run.
-/
def scan
    (tokens : List Token)
    (mode : ScanMode) :
    Glyphs → Option (List Token)
  | [] =>
      match mode with
      | .between => some tokens.reverse
      | .run reversed =>
          (scalar? reversed.reverse).map fun value =>
            (Token.scalar value :: tokens).reverse
      | _ => none
  | glyph :: rest =>
      match scanGlyph tokens mode glyph with
      | none => none
      | some (tokens, mode) => scan tokens mode rest

/- The tokens of a document, if it can be cut into tokens. -/
def tokens? (glyphs : Glyphs) : Option (List Token) :=
  scan [] .between glyphs

end GraphRewriting
