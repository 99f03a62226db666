/-
  This file defines the text of JSON documents and the spelling
  of strings in it.

  A document is a list of glyphs: its characters, with a mark
  for each byte that belongs to no character. A string literal
  is a list of pieces: characters, UTF-16 units written as
  `\uXXXX`, and such stray bytes. It has a text if its units
  pair up and it holds no stray byte.

  Key definitions include:
    * `Glyphs`
    * `glyphsOfString`
    * `glyphsOfBytes`
    * `TextPiece`
    * `textOfPieces?`
    * `escapeChar`
    * `quoted`
-/

namespace GraphRewriting

------------------------------------------------------------
-- Glyphs
------------------------------------------------------------

/-
  Characters in order; `none` stands for a
  byte of no character.
-/
abbrev Glyphs :=
  List (Option Char)

/- The glyphs of a string. -/
def glyphsOfString (s : String) : Glyphs :=
  s.toList.map some

/-
  The glyphs of bytes from a position on, read as UTF-8. A byte
  that starts no character is stray, and reading goes on behind
  it.
-/
def glyphsFrom
    (bytes : ByteArray)
    (position : Nat) : Glyphs :=
  if position < bytes.size then
    match bytes.utf8DecodeChar? position with
    | some c =>
        some c :: glyphsFrom bytes (position + c.utf8Size)
    | none => none :: glyphsFrom bytes (position + 1)
  else
    []
termination_by bytes.size - position
decreasing_by
  · have hSize := c.utf8Size_pos
    omega
  · omega

/- The glyphs of bytes, read as UTF-8. -/
def glyphsOfBytes (bytes : ByteArray) : Glyphs :=
  glyphsFrom bytes 0

------------------------------------------------------------
-- Reading strings
------------------------------------------------------------

/- A piece of a string literal. -/
inductive TextPiece where
  | char (c : Char)
  | unit (value : Nat)
  | stray
  deriving DecidableEq

/- The units that open a surrogate pair. -/
def IsHighSurrogate (unit : Nat) : Prop :=
  0xD800 ≤ unit ∧ unit < 0xDC00

/- The units that close a surrogate pair. -/
def IsLowSurrogate (unit : Nat) : Prop :=
  0xDC00 ≤ unit ∧ unit < 0xE000

instance (unit : Nat) : Decidable (IsHighSurrogate unit) := by
  unfold IsHighSurrogate
  infer_instance

instance (unit : Nat) : Decidable (IsLowSurrogate unit) := by
  unfold IsLowSurrogate
  infer_instance

/- The character that a surrogate pair stands for. -/
def pairedChar (high low : Nat) : Char :=
  Char.ofNat
    (0x10000 + (high - 0xD800) * 0x400 + (low - 0xDC00))

/-
  The text of a string literal: a high surrogate must be
  followed by a low one, and no low one may stand alone.
-/
def textOfPieces? : List TextPiece → Option (List Char)
  | [] => some []
  | .char c :: rest => (textOfPieces? rest).map (c :: ·)
  | .stray :: _ => none
  | .unit high :: .unit low :: rest =>
      if IsHighSurrogate high then
        if IsLowSurrogate low then
          (textOfPieces? rest).map (pairedChar high low :: ·)
        else
          none
      else if IsLowSurrogate high then
        none
      else
        (textOfPieces? (.unit low :: rest)).map
          (Char.ofNat high :: ·)
  | .unit unit :: rest =>
      if IsHighSurrogate unit ∨ IsLowSurrogate unit then
        none
      else
        (textOfPieces? rest).map (Char.ofNat unit :: ·)

/- The character that a letter after a backslash stands for. -/
def escapedChar? : Char → Option Char
  | '"' => some '"'
  | '\\' => some '\\'
  | '/' => some '/'
  | 'b' => some '\x08'
  | 'f' => some '\x0c'
  | 'n' => some '\n'
  | 'r' => some '\r'
  | 't' => some '\t'
  | _ => none

/- The value of a hexadecimal digit of either case. -/
def hexValue? (c : Char) : Option Nat :=
  if '0' ≤ c ∧ c ≤ '9' then
    some (c.toNat - '0'.toNat)
  else if 'a' ≤ c ∧ c ≤ 'f' then
    some (c.toNat - 'a'.toNat + 10)
  else if 'A' ≤ c ∧ c ≤ 'F' then
    some (c.toNat - 'A'.toNat + 10)
  else
    none

------------------------------------------------------------
-- Writing strings
------------------------------------------------------------

/-
  The hexadecimal digit of a value below
  sixteen, in lower case.
-/
def hexDigit (value : Nat) : Char :=
  if value < 10 then
    Char.ofNat ('0'.toNat + value)
  else
    Char.ofNat ('a'.toNat + (value - 10))

/-
  A character inside a string literal. Quotes, backslashes and
  control characters are escaped, the latter by a letter where
  there is one; everything else stands for itself.
-/
def escapeChar (c : Char) : List Char :=
  if c = '"' then
    ['\\', '"']
  else if c = '\\' then
    ['\\', '\\']
  else if c = '\x08' then
    ['\\', 'b']
  else if c = '\x0c' then
    ['\\', 'f']
  else if c = '\n' then
    ['\\', 'n']
  else if c = '\r' then
    ['\\', 'r']
  else if c = '\t' then
    ['\\', 't']
  else if c.toNat < 0x20 then
    ['\\', 'u', '0', '0', hexDigit (c.toNat / 16),
      hexDigit (c.toNat % 16)]
  else
    [c]

/- A string literal. -/
def quoted (s : String) : List Char :=
  '"' :: s.toList.flatMap escapeChar ++ ['"']

end GraphRewriting
