/-
  This file defines node identities.

  Rule graphs and start graphs use names, working graphs use
  numbers. All numbers come before all names; numbers are
  ordered by value and names by code points. Every finite map
  and set keyed by node ids iterates in this order.

  Key definitions include:
    * `NodeId`
    * `NodeId.base`
    * `NodeId.num?`
    * `NodeId.text`
-/

namespace GraphRewriting

------------------------------------------------------------
-- Identities
------------------------------------------------------------

/- A node identity: a number or a name. -/
inductive NodeId where
  | num (value : UInt64)
  | name (text : String)
  deriving DecidableEq, Inhabited, Repr

namespace NodeId

/- The name of the splice point of a replacement graph. -/
def base : NodeId :=
  name "base"

/- Whether an id is the splice point. -/
def isBase (id : NodeId) : Bool :=
  id == base

/- The number behind a numeric id. -/
def num? : NodeId → Option UInt64
  | num value => some value
  | name _ => none

/-
  The id as it is written in messages: digits or the bare
  name.
-/
def text : NodeId → String
  | num value => toString value.toNat
  | name text => text

instance : ToString NodeId := ⟨text⟩

end NodeId

end GraphRewriting

------------------------------------------------------------
-- Order
------------------------------------------------------------

namespace GraphRewriting

namespace NodeId

/- Numbers first, by value; then names, by code points. -/
protected def compare : NodeId → NodeId → Ordering
  | num a, num b => compareOfLessAndEq a b
  | num _, name _ => .lt
  | name _, num _ => .gt
  | name a, name b => compareOfLessAndEq a b

instance : Ord NodeId := ⟨NodeId.compare⟩

theorem compare_num
    (a b : UInt64) :
    compare (num a) (num b) = compare a b := rfl

/- Names are ordered by code points. -/
theorem compare_name
    (a b : String) :
    compare (name a) (name b) = compare a b := rfl

/- A number comes before every name. -/
theorem compare_num_name
    (a : UInt64)
    (b : String) :
    compare (num a) (name b) = .lt := rfl

theorem compare_name_num
    (a : String)
    (b : UInt64) :
    compare (name a) (num b) = .gt := rfl

instance : Std.OrientedOrd NodeId where
  eq_swap {a b} := by
    cases a with
    | num x =>
        cases b with
        | num y =>
            rw [compare_num, compare_num]
            exact Std.OrientedCmp.eq_swap
        | name y => rfl
    | name x =>
        cases b with
        | num y => rfl
        | name y =>
            rw [compare_name, compare_name]
            exact Std.OrientedCmp.eq_swap

instance : Std.TransOrd NodeId where
  isLE_trans {a b c} hab hbc := by
    cases a <;> cases b <;> cases c <;>
      simp only [compare_num, compare_name, compare_num_name,
        compare_name_num] at *
    · exact Std.TransCmp.isLE_trans hab hbc
    · rfl
    · simp at hbc
    · rfl
    · simp at hab
    · simp at hab
    · simp at hbc
    · exact Std.TransCmp.isLE_trans hab hbc

instance : Std.LawfulEqOrd NodeId where
  eq_of_compare {a b} h := by
    cases a <;> cases b <;>
      simp only [compare_num, compare_name, compare_num_name,
        compare_name_num] at h
    · rw [Std.LawfulEqCmp.eq_of_compare h]
    · simp at h
    · simp at h
    · rw [Std.LawfulEqCmp.eq_of_compare h]

end NodeId

end GraphRewriting
