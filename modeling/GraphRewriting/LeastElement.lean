import Std.Data.ExtTreeSet

/-
  This file defines the least element of an ordered set, as the
  first one of an ascending walk.

  Key definitions include:
    * `leastElement?`

  Main statements:
    * `leastElement?_eq_min?`
-/

namespace GraphRewriting

variable {α : Type} [Ord α] [Std.TransOrd α]

/- The least element of a set, if it has any. -/
def leastElement?
    (set : Std.ExtTreeSet α) : Option α := Id.run do
  for element in set do
    return some element
  return none

/- The least element is the first one listed. -/
theorem leastElement?_eq_head?
    (set : Std.ExtTreeSet α) :
    leastElement? set = set.toList.head? := by
  rw [leastElement?, Std.ExtTreeSet.forIn_eq_forIn_toList]
  cases set.toList <;> rfl

/- The first element of an ascending walk is the minimum. -/
theorem leastElement?_eq_min?
    (set : Std.ExtTreeSet α) :
    leastElement? set = set.min? := by
  rw [leastElement?_eq_head?,
    Std.ExtTreeSet.min?_eq_head?_toList]

end GraphRewriting
