import GraphRewriting.Json.Basic
import GraphRewriting.Json.Text

/-
  This file defines how JSON values are written: compactly on
  one line, or with every item on a line of its own, indented
  by two blanks per level.

  Key definitions include:
    * `Layout`
    * `Json.write`
    * `Json.compact`
    * `Json.pretty`
-/

namespace GraphRewriting

------------------------------------------------------------
-- Layouts
------------------------------------------------------------

/- One line, or lines indented to a level. -/
inductive Layout where
  | compact
  | indented (level : Nat)
  deriving DecidableEq

namespace Layout

/- The layout of what a value contains. -/
def deeper : Layout → Layout
  | compact => compact
  | indented level => indented (level + 1)

/- What stands before an item and before a closing bracket. -/
def lineBreak : Layout → List Char
  | compact => []
  | indented level => '\n' :: List.replicate (2 * level) ' '

/- What stands between a key and its value. -/
def colon : Layout → List Char
  | compact => [':']
  | indented _ => [':', ' ']

end Layout

------------------------------------------------------------
-- Values
------------------------------------------------------------

namespace Json

mutual

/-
  The text of a value. A value without content is
  written as `null`.
-/
def write (layout : Layout) : Json → List Char
  | null => ['n', 'u', 'l', 'l']
  | garbled => ['n', 'u', 'l', 'l']
  | bool true => ['t', 'r', 'u', 'e']
  | bool false => ['f', 'a', 'l', 's', 'e']
  | natural value => Nat.toDigits 10 value
  | number literal => literal.toList
  | text value => quoted value
  | array [] => ['[', ']']
  | array (item :: items) =>
      '[' ::
        (layout.deeper.lineBreak ++ (write layout.deeper item ++
          (writeItems layout.deeper items ++
            (layout.lineBreak ++ [']']))))
  | object [] => ['\x7b', '\x7d']
  | object ((key, value) :: members) =>
      '\x7b' ::
        (layout.deeper.lineBreak ++
          (quoted key ++ (layout.colon ++
            (write layout.deeper value ++
              (writeMembers layout.deeper members ++
                (layout.lineBreak ++ ['\x7d']))))))

/- The text of the items behind the first one of an array. -/
def writeItems (layout : Layout) : List Json → List Char
  | [] => []
  | item :: items =>
      ',' ::
        (layout.lineBreak ++
          (write layout item ++ writeItems layout items))

/- The text of the members behind the first one of an object. -/
def writeMembers
    (layout : Layout) : List (String × Json) → List Char
  | [] => []
  | (key, value) :: members =>
      ',' ::
        (layout.lineBreak ++ (quoted key ++ (layout.colon ++
        (write layout value ++ writeMembers layout members))))

end

/- A value on one line. -/
def compact (value : Json) : String :=
  String.ofList (write .compact value)

/- A value on indented lines. -/
def pretty (value : Json) : String :=
  String.ofList (write (.indented 0) value)

end Json

end GraphRewriting
