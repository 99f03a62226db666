import GraphRewriting.Json.Token

/-
  This file defines how the tokens of a JSON document nest. The
  arrays and objects around the place of reading are kept on a
  stack, so documents may be nested to any depth.

  Key definitions include:
    * `Frame`
    * `Expecting`
    * `nest`
    * `Json.ofGlyphs?`
    * `Json.ofString?`
-/

namespace GraphRewriting

------------------------------------------------------------
-- Frames
------------------------------------------------------------

/-
  An array or object that is being read, with what it holds so
  far in reverse. An object with a key that has no text goes
  without its members, and `key` belongs to the next member.
-/
inductive Frame where
  | array (items : List Json)
  | object (members : Option (List (String × Json)))
      (key : Option String)

/- The value of a frame that is closed behind one more value. -/
def Frame.close (value : Json) : Frame → Json
  | array items => .array (value :: items).reverse
  | object (some members) (some key) =>
      .object ((key, value) :: members).reverse
  | object _ _ => .garbled

/- The members of an object with one more value. -/
def addMember
    (members : Option (List (String × Json)))
    (key : Option String)
    (value : Json) : Option (List (String × Json)) :=
  match members, key with
  | some members, some key => some ((key, value) :: members)
  | _, _ => none

------------------------------------------------------------
-- Nesting
------------------------------------------------------------

/- What the next token may be. -/
inductive Expecting where
  /- A value. -/
  | value
  /- A value, or the end of the array that was just opened. -/
  | item
  /- A key, or the end of the object that was just opened. -/
  | member
  /- A key. -/
  | key (members : Option (List (String × Json)))
  /- The colon behind a key. -/
  | colon (members : Option (List (String × Json)))
      (key : Option String)
  /- What follows a complete value. -/
  | after (value : Json)

/- A token that may start a value. -/
def openValue
    (stack : List Frame) :
    Token → Option (Expecting × List Frame)
  | .scalar value => some (.after value, stack)
  | .text (some value) => some (.after (.text value), stack)
  | .text none => some (.after .garbled, stack)
  | .openArray => some (.item, .array [] :: stack)
  | .openObject => some (.member, stack)
  | _ => none

/- A token behind a complete value inside a frame. -/
def closeValue
    (value : Json)
    (frame : Frame)
    (stack : List Frame) :
    Token → Option (Expecting × List Frame)
  | .comma =>
      match frame with
      | .array items =>
          some (.value, .array (value :: items) :: stack)
      | .object members key =>
          some (.key (addMember members key value), stack)
  | .closeArray =>
      match frame with
      | .array _ => some (.after (frame.close value), stack)
      | .object _ _ => none
  | .closeObject =>
      match frame with
      | .array _ => none
      | .object _ _ => some (.after (frame.close value), stack)
  | _ => none

/- One token. -/
def nestToken
    (stack : List Frame)
    (token : Token) :
    Expecting → Option (Expecting × List Frame)
  | .value => openValue stack token
  | .item =>
      match token, stack with
      | .closeArray, .array _ :: outer =>
          some (.after (.array []), outer)
      | token, stack => openValue stack token
  | .member =>
      match token with
      | .closeObject => some (.after (.object []), stack)
      | .text key => some (.colon (some []) key, stack)
      | _ => none
  | .key members =>
      match token with
      | .text key => some (.colon members key, stack)
      | _ => none
  | .colon members key =>
      match token with
      | .colon => some (.value, .object members key :: stack)
      | _ => none
  | .after value =>
      match stack with
      | [] => none
      | frame :: outer => closeValue value frame outer token

/- The value that tokens make. It must end with the tokens. -/
def nest
    (expecting : Expecting)
    (stack : List Frame) :
    List Token → Option Json
  | [] =>
      match expecting, stack with
      | .after value, [] => some value
      | _, _ => none
  | token :: rest =>
      match nestToken stack token expecting with
      | none => none
      | some (expecting, stack) => nest expecting stack rest

namespace Json

/- The value of a document. -/
def ofGlyphs? (glyphs : Glyphs) : Option Json :=
  (tokens? glyphs).bind (nest .value [])

/- The value that a string spells. -/
def ofString? (s : String) : Option Json :=
  ofGlyphs? (glyphsOfString s)

end Json

end GraphRewriting
