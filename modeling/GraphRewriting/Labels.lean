import Std.Data.ExtTreeMap
import Std.Data.ExtTreeSet

/-
  This file defines the labels that nodes and edges carry: a
  finite map from label names to texts. The label `name` holds
  the symbol of the element; an element without it carries the
  empty symbol.

  Key definitions include:
    * `Labels`
    * `Labels.symbol`
    * `Labels.ofSymbol`
    * `Labels.setSymbol`
    * `Labels.fillSymbol`
    * `Labels.withoutSymbol`
-/

namespace GraphRewriting

/- Label names with their values, ordered by name. -/
abbrev Labels :=
  Std.ExtTreeMap String String

namespace Labels

instance : DecidableEq Labels :=
  inferInstanceAs (DecidableEq (Std.ExtTreeMap String String))

/- The label that holds the symbol of a node or an edge. -/
def nameKey : String :=
  "name"

/- The symbol: the `name` label, or `""` when there is none. -/
def symbol (labels : Labels) : String :=
  labels.getD nameKey ""

/- Labels that hold a symbol and nothing else. -/
def ofSymbol (symbol : String) : Labels :=
  (∅ : Labels).insert nameKey symbol

/- Replace the symbol, keeping every other label. -/
def setSymbol
    (labels : Labels)
    (symbol : String) : Labels :=
  labels.insert nameKey symbol

/- Give the empty symbol to labels that have none. -/
def fillSymbol (labels : Labels) : Labels :=
  labels.insertIfNew nameKey ""

/- The labels other than the symbol. -/
def withoutSymbol (labels : Labels) : Labels :=
  labels.erase nameKey

/- Labels made from a symbol have one. -/
theorem nameKey_mem_ofSymbol (symbol : String) :
    nameKey ∈ ofSymbol symbol :=
  Std.ExtTreeMap.mem_insert_self

/- No labels are left without a symbol. -/
theorem nameKey_mem_fillSymbol (labels : Labels) :
    nameKey ∈ labels.fillSymbol :=
  Std.ExtTreeMap.mem_insertIfNew_self

@[simp]
theorem symbol_ofSymbol (symbol : String) :
    (ofSymbol symbol).symbol = symbol := by
  simp [ofSymbol, Labels.symbol]

@[simp]
theorem symbol_setSymbol
    (labels : Labels)
    (symbol : String) :
    (labels.setSymbol symbol).symbol = symbol := by
  simp [setSymbol, Labels.symbol]

/- Filling in the empty symbol changes no symbol. -/
@[simp]
theorem symbol_fillSymbol (labels : Labels) :
    labels.fillSymbol.symbol = labels.symbol := by
  unfold fillSymbol Labels.symbol
  rw [Std.ExtTreeMap.getD_insertIfNew]
  split
  · rename_i h
    rw [Std.ExtTreeMap.getD_eq_fallback]
    exact h.2
  · rfl

/- Labels are their symbol and their other labels. -/
theorem setSymbol_withoutSymbol
    {labels : Labels}
    (h : nameKey ∈ labels) :
    labels.withoutSymbol.setSymbol labels.symbol = labels := by
  apply Std.ExtTreeMap.ext_getElem?
  intro key
  unfold setSymbol withoutSymbol Labels.symbol
  rw [Std.ExtTreeMap.getElem?_insert,
    Std.ExtTreeMap.getElem?_erase]
  split
  · rename_i hKey
    have hKey : nameKey = key :=
      Std.LawfulEqCmp.eq_of_compare hKey
    subst hKey
    rw [Std.ExtTreeMap.getD_eq_getD_getElem?]
    rw [Std.ExtTreeMap.getElem?_eq_some_getElem h]
    rfl
  · rfl

end Labels

end GraphRewriting
