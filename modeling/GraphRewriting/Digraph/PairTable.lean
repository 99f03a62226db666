import GraphRewriting.NodeId
import Std.Data.ExtTreeMap

/-
  This file defines finite maps from ordered pairs of nodes,
  kept as one row per first component. No row is empty, so two
  tables with the same lookups are equal.

  Key definitions include:
    * `PairTable`
    * `PairTable.row`
    * `PairTable.get?`
    * `PairTable.insert`
    * `PairTable.erase`
    * `PairTable.map`
    * `PairTable.entries`

  Every operation is described by its effect on `get?`, and
  `PairTable.ext_get?` says that `get?` determines the table.
-/

namespace GraphRewriting

------------------------------------------------------------
-- Tables
------------------------------------------------------------

/- A finite map from ordered pairs of nodes, row by row. -/
structure PairTable (α : Type) where
  rows : Std.ExtTreeMap NodeId (Std.ExtTreeMap NodeId α)
  rows_nonempty : ∀ a : NodeId, rows[a]? ≠ some ∅
  deriving DecidableEq

namespace PairTable

variable {α β : Type}

/-
  The row of a first component; rows that are
  not kept are empty.
-/
def row
    (t : PairTable α)
    (a : NodeId) : Std.ExtTreeMap NodeId α :=
  t.rows.getD a ∅

/- The value at a pair. -/
def get?
    (t : PairTable α)
    (a b : NodeId) : Option α :=
  (t.row a)[b]?

/- The table without any value. -/
def empty : PairTable α where
  rows := ∅
  rows_nonempty := by simp

instance : EmptyCollection (PairTable α) := ⟨empty⟩

instance : Inhabited (PairTable α) := ⟨empty⟩

/- Replace a row, keeping no empty one. -/
def setRow
    (t : PairTable α)
    (a : NodeId)
    (row : Std.ExtTreeMap NodeId α) : PairTable α :=
  if h : row.isEmpty then
    { rows := t.rows.erase a
      rows_nonempty := by
        intro c hc
        rw [Std.ExtTreeMap.getElem?_erase] at hc
        split at hc
        · simp at hc
        · exact t.rows_nonempty c hc }
  else
    { rows := t.rows.insert a row
      rows_nonempty := by
        intro c hc
        rw [Std.ExtTreeMap.getElem?_insert] at hc
        split at hc
        · exact h
            (Std.ExtTreeMap.isEmpty_iff.2 (Option.some.inj hc))
        · exact t.rows_nonempty c hc }

/-
  Store a value at a pair, replacing the value that was there.
-/
def insert
    (t : PairTable α)
    (a b : NodeId)
    (value : α) : PairTable α :=
  t.setRow a ((t.row a).insert b value)

/- Drop the value at a pair. -/
def erase
    (t : PairTable α)
    (a b : NodeId) : PairTable α :=
  t.setRow a ((t.row a).erase b)

/- Change every value. -/
def map
    (f : α → β)
    (t : PairTable α) : PairTable β where
  rows := t.rows.map fun _ row => row.map fun _ value => f value
  rows_nonempty := by
    intro a ha
    rw [Std.ExtTreeMap.getElem?_map] at ha
    rcases Option.map_eq_some_iff.1 ha with ⟨row, hRow, hMap⟩
    have hEmpty : row = ∅ := by
      rw [← Std.ExtTreeMap.isEmpty_iff] at hMap ⊢
      simpa using hMap
    exact t.rows_nonempty a (hEmpty ▸ hRow)

/-
  All pairs with their values, in ascending
  order of the pairs.
-/
def entries (t : PairTable α) : List (NodeId × NodeId × α) :=
  t.rows.toList.flatMap fun (a, row) =>
    row.toList.map fun (b, value) => (a, b, value)

/- The number of pairs with a value. -/
def size (t : PairTable α) : Nat :=
  t.rows.foldr (fun _ row count => row.size + count) 0

/- Whether no pair has a value. -/
def isEmpty (t : PairTable α) : Bool :=
  t.rows.isEmpty

end PairTable

end GraphRewriting

------------------------------------------------------------
-- Lookups
------------------------------------------------------------

namespace GraphRewriting

namespace PairTable

variable {α β : Type}

@[simp]
theorem row_empty (a : NodeId) :
    (∅ : PairTable α).row a = ∅ := by
  show
    (∅ : Std.ExtTreeMap NodeId (Std.ExtTreeMap NodeId α)).getD
        a ∅ = ∅
  simp

@[simp]
theorem get?_empty (a b : NodeId) :
    (∅ : PairTable α).get? a b = none := by
  simp [get?]

/- A row that is set is there, all others stay. -/
theorem row_setRow
    (t : PairTable α)
    (a c : NodeId)
    (row : Std.ExtTreeMap NodeId α) :
    (t.setRow a row).row c =
      if a = c then row else t.row c := by
  unfold setRow
  by_cases hRow : row.isEmpty
  · rw [dif_pos hRow]
    rw [Std.ExtTreeMap.isEmpty_iff] at hRow
    subst hRow
    unfold PairTable.row
    rw [Std.ExtTreeMap.getD_erase]
    simp only [Std.compare_eq_iff_eq]
  · rw [dif_neg hRow]
    unfold PairTable.row
    rw [Std.ExtTreeMap.getD_insert]
    simp only [Std.compare_eq_iff_eq]

/- A value is found at its pair and changes no other entry. -/
theorem get?_insert
    (t : PairTable α)
    (a b c d : NodeId)
    (value : α) :
    (t.insert a b value).get? c d =
      if a = c ∧ b = d then some value else t.get? c d := by
  unfold get? insert
  rw [row_setRow]
  by_cases hac : a = c
  · subst hac
    rw [if_pos rfl, Std.ExtTreeMap.getElem?_insert]
    simp only [Std.compare_eq_iff_eq, true_and]
  · rw [if_neg hac, if_neg (fun h => hac h.1)]

/- No value is left at the pair, and the others stay. -/
theorem get?_erase
    (t : PairTable α)
    (a b c d : NodeId) :
    (t.erase a b).get? c d =
      if a = c ∧ b = d then none else t.get? c d := by
  unfold get? erase
  rw [row_setRow]
  by_cases hac : a = c
  · subst hac
    rw [if_pos rfl, Std.ExtTreeMap.getElem?_erase]
    simp only [Std.compare_eq_iff_eq, true_and]
  · rw [if_neg hac, if_neg (fun h => hac h.1)]

/- Mapping a table maps each of its rows. -/
private theorem row_map
    (f : α → β)
    (t : PairTable α)
    (a : NodeId) :
    (t.map f).row a = (t.row a).map fun _ value => f value := by
  unfold PairTable.row map
  apply Std.ExtTreeMap.ext_getElem?
  intro b
  rw [Std.ExtTreeMap.getD_eq_getD_getElem?,
    Std.ExtTreeMap.getD_eq_getD_getElem?]
  rw [Std.ExtTreeMap.getElem?_map, Std.ExtTreeMap.getElem?_map]
  cases t.rows[a]? with
  | none => simp
  | some row => simp

@[simp]
theorem get?_map
    (f : α → β)
    (t : PairTable α)
    (a b : NodeId) :
    (t.map f).get? a b = (t.get? a b).map f := by
  unfold get?
  rw [row_map, Std.ExtTreeMap.getElem?_map]

/- The rows of a table are its kept rows. -/
theorem getElem?_rows
    (t : PairTable α)
    (a : NodeId) :
    t.rows[a]? =
      if (t.row a).isEmpty then none else some (t.row a) := by
  unfold PairTable.row
  rw [Std.ExtTreeMap.getD_eq_getD_getElem?]
  have hNe := t.rows_nonempty a
  cases hRow : t.rows[a]? with
  | none => simp
  | some row =>
      rw [hRow] at hNe
      have hEmpty : row.isEmpty = false := by
        rw [Bool.eq_false_iff]
        intro h
        exact
          hNe (congrArg some (Std.ExtTreeMap.isEmpty_iff.1 h))
      simp [hEmpty]

/- Tables with the same lookups are equal. -/
@[ext]
theorem ext_get?
    {s t : PairTable α}
    (h : ∀ a b : NodeId, s.get? a b = t.get? a b) :
    s = t := by
  have hRow : ∀ a : NodeId, s.row a = t.row a := by
    intro a
    exact Std.ExtTreeMap.ext_getElem? (h a)
  have hRows : s.rows = t.rows := by
    apply Std.ExtTreeMap.ext_getElem?
    intro a
    rw [getElem?_rows, getElem?_rows, hRow a]
  cases s
  cases t
  cases hRows
  rfl

/- The entries are exactly the pairs with a value. -/
theorem mem_entries
    {t : PairTable α}
    {a b : NodeId}
    {value : α} :
    (a, b, value) ∈ t.entries ↔ t.get? a b = some value := by
  unfold entries get?
  simp only [List.mem_flatMap, List.mem_map, Prod.mk.injEq]
  constructor
  · rintro ⟨⟨a', row⟩, hRow, ⟨b', value'⟩, hValue, rfl, rfl,
      rfl⟩
    rw [Std.ExtTreeMap.mem_toList_iff_getElem?_eq_some]
      at hRow hValue
    unfold PairTable.row
    rw [Std.ExtTreeMap.getD_eq_getD_getElem?, hRow]
    exact hValue
  · intro h
    refine ⟨(a, t.row a), ?_, (b, value), ?_, rfl, rfl, rfl⟩
    · rw [Std.ExtTreeMap.mem_toList_iff_getElem?_eq_some,
        getElem?_rows]
      rw [if_neg]
      intro hEmpty
      rw [Std.ExtTreeMap.isEmpty_iff.1 hEmpty] at h
      simp at h
    · exact Std.ExtTreeMap.mem_toList_iff_getElem?_eq_some.2 h

end PairTable

end GraphRewriting
