import GraphRewriting.Digraph.PairTable
import Mathlib.Data.List.Nodup
import Std.Data.ExtTreeSet

/-
  Facts about finite maps and sets that their lookups decide:
  the values of a map, and maps that are made from lists.

  Main declarations:
    * `values_eq_map_snd`
    * `mem_iff_exists_getElem?`
    * `getElem?_insert_eq_some_iff`
    * `mem_values`
    * `mem_values_insert`
    * `erase_eq_self`
    * `getElem?_ofList_eq_some_iff`
-/

namespace GraphRewriting

variable {κ α : Type}
variable [Ord κ] [Std.TransOrd κ]

/- The values of a map come in the order of its entries. -/
theorem values_eq_map_snd
    (map : Std.ExtTreeMap κ α) :
    map.values = map.toList.map Prod.snd := by
  rcases map with ⟨map⟩
  induction map using Std.ExtDTreeMap.inductionOn with
  | mk tree =>
      show
        tree.inner.values =
          (Std.DTreeMap.Internal.Impl.Const.toList
              tree.inner).map
            Prod.snd
      rw [Std.DTreeMap.Internal.Impl.values_eq_map_snd,
        Std.DTreeMap.Internal.Impl.Const.toList_eq_toListModel_map,
        List.map_map]
      rfl

/- The keys of a map are what it has values for. -/
theorem mem_iff_exists_getElem?
    {map : Std.ExtTreeMap κ α}
    {key : κ} :
    key ∈ map ↔ ∃ value : α, map[key]? = some value := by
  rw [Std.ExtTreeMap.mem_iff_isSome_getElem?,
    Option.isSome_iff_exists]

variable [Std.LawfulEqOrd κ]

/- A new key adds its entry and nothing else. -/
theorem getElem?_insert_eq_some_iff
    {map : Std.ExtTreeMap κ α}
    {key : κ}
    (hNew : map[key]? = none)
    {value : α}
    {other : κ}
    {result : α} :
    (map.insert key value)[other]? = some result ↔
      map[other]? = some result ∨
        (other, result) = (key, value) := by
  rw [Std.ExtTreeMap.getElem?_insert]
  simp only [Std.compare_eq_iff_eq, Prod.mk.injEq]
  by_cases hKey : key = other
  · subst hKey
    simp [hNew, eq_comm]
  · simp [hKey, Ne.symm hKey]

/- The values of a map are those found under some key. -/
theorem mem_values
    {map : Std.ExtTreeMap κ α}
    {value : α} :
    value ∈ map.values ↔ ∃ key : κ, map[key]? = some value := by
  rw [values_eq_map_snd, List.mem_map]
  constructor
  · rintro ⟨⟨key, _⟩, hMem, rfl⟩
    exact
      ⟨key,
        Std.ExtTreeMap.mem_toList_iff_getElem?_eq_some.1 hMem⟩
  · rintro ⟨key, hKey⟩
    exact
      ⟨(key, value),
        Std.ExtTreeMap.mem_toList_iff_getElem?_eq_some.2 hKey,
        rfl⟩

/- A new key adds its value to the values. -/
theorem mem_values_insert
    {map : Std.ExtTreeMap κ α}
    {key : κ}
    (hNew : map[key]? = none)
    {value other : α} :
    other ∈ (map.insert key value).values ↔
      other ∈ map.values ∨ other = value := by
  rw [mem_values, mem_values]
  simp only [getElem?_insert_eq_some_iff hNew, exists_or,
    Prod.mk.injEq, exists_eq_left]

theorem notMem_values_empty
    (value : α) :
    value ∉ (∅ : Std.ExtTreeMap κ α).values := by
  rw [mem_values]
  rintro ⟨key, hKey⟩
  rw [Std.ExtTreeMap.getElem?_empty] at hKey
  cases hKey

/- A key that is not there takes no entry with it. -/
theorem erase_eq_self
    {map : Std.ExtTreeMap κ α}
    {key : κ}
    (h : map[key]? = none) :
    map.erase key = map := by
  apply Std.ExtTreeMap.ext_getElem?
  intro other
  rw [Std.ExtTreeMap.getElem?_erase]
  split
  · rename_i hKey
    rw [← Std.LawfulEqCmp.eq_of_compare hKey, h]
  · rfl

/- Erasing a key that is not there changes nothing. -/
theorem erase_eq_self_of_notMem
    {keys : Std.ExtTreeSet κ}
    {key : κ}
    (h : key ∉ keys) :
    keys.erase key = keys := by
  apply Std.ExtTreeSet.ext_mem
  intro other
  rw [Std.ExtTreeSet.mem_erase, ne_eq, Std.compare_eq_iff_eq]
  apply and_iff_right_of_imp
  rintro hOther rfl
  exact h hOther

/-
  A map that is made from a list without conflicting entries
  holds exactly the entries of the list.
-/
theorem getElem?_ofList_eq_some_iff
    [DecidableEq κ]
    {entries : List (κ × α)}
    (hFunctional :
      ∀ (key : κ) (a b : α),
        (key, a) ∈ entries → (key, b) ∈ entries → a = b)
    {key : κ}
    {value : α} :
    (Std.ExtTreeMap.ofList entries)[key]? = some value ↔
      (key, value) ∈ entries := by
  rw [Std.ExtTreeMap.ofList_eq_insertMany_empty,
    Std.ExtTreeMap.getElem?_insertMany_list,
    Std.ExtTreeMap.getElem?_empty, Option.or_none,
    List.findSomeRev?_eq_findSome?_reverse]
  constructor
  · intro h
    rcases List.exists_of_findSome?_eq_some h with
      ⟨⟨k, v⟩, hMem, hValue⟩
    simp only [Std.compare_eq_iff_eq,
      Option.ite_none_right_eq_some] at hValue
    rcases hValue with ⟨rfl, hv⟩
    cases hv
    exact List.mem_reverse.1 hMem
  · intro hMem
    cases hFind :
        entries.reverse.findSome? fun entry : κ × α =>
          if compare entry.1 key = .eq then
            some entry.2
          else
            none with
    | none =>
        rw [List.findSome?_eq_none_iff] at hFind
        have hNone :=
          hFind (key, value) (List.mem_reverse.2 hMem)
        simp at hNone
    | some other =>
        rcases List.exists_of_findSome?_eq_some hFind with
          ⟨⟨k, v⟩, hOther, hValue⟩
        simp only [Std.compare_eq_iff_eq,
          Option.ite_none_right_eq_some] at hValue
        rcases hValue with ⟨rfl, hv⟩
        cases hv
        rw [hFunctional k other value
          (List.mem_reverse.1 hOther) hMem]

end GraphRewriting
