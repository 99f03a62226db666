/-
  This file defines JSON values.

  Natural numbers keep their value and other numbers keep their
  spelling. A value may hold text that is not Unicode, such as
  half of a surrogate pair; it can be skipped but not read, and
  is kept as `Json.garbled` without its content.

  Key definitions include:
    * `Json`
    * `Json.text?`
    * `Json.items?`
    * `Json.members?`
-/

namespace GraphRewriting

/- A JSON value. The members of an object keep their order. -/
inductive Json where
  | null
  | bool (value : Bool)
  | natural (value : Nat)
  | number (literal : String)
  | text (value : String)
  | garbled
  | array (items : List Json)
  | object (members : List (String × Json))
  deriving Inhabited

namespace Json

/- The text of a string value. -/
def text? : Json → Option String
  | text value => some value
  | _ => none

/- The items of an array. -/
def items? : Json → Option (List Json)
  | array items => some items
  | _ => none

/- The members of an object. -/
def members? : Json → Option (List (String × Json))
  | object members => some members
  | _ => none

end Json

end GraphRewriting
