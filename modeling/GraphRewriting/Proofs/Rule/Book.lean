import GraphRewriting.Proofs.AscendingList
import GraphRewriting.Proofs.FiniteMap
import GraphRewriting.Rule.RuleBook

/-
  Rule books in order: each rule is kept under its own name,
  and the names of a kind are those of its rules.

  Main declarations:
    * `RuleBook.IsIndexed`
    * `RuleBook.IsIndexed.insert`
    * `RuleBook.IsIndexed.remove`
    * `RuleBook.IsIndexed.ext`
    * `RuleBook.IsIndexed.namesOfKind_eq`
    * `RuleBook.putAll`
    * `RuleBook.rules_putAll_iff`
    * `RuleBook.Admits.perm_toList_putAll`
    * `RuleBook.IsIndexed.eq_iff_mem`
    * `RuleBook.IsIndexed.plain_eq_iff_mem`
-/

------------------------------------------------------------
-- Indexed Books
------------------------------------------------------------

namespace GraphRewriting

namespace RuleBook

/-
  Rules are kept under their own names, the index lists the
  names of each kind, and has no entry without names.
-/
structure IsIndexed (book : RuleBook) : Prop where
  named :
    ∀ (name : String) (rule : Rule),
      book.rules[name]? = some rule → rule.name = name
  listed :
    ∀ (kind : RuleKind) (name : String),
      (∃ names : Std.ExtTreeSet String,
          book.byKind[kind]? = some names ∧ name ∈ names) ↔
        ∃ rule : Rule,
          book.rules[name]? = some rule ∧ rule.kind = kind
  inhabited :
    ∀ (kind : RuleKind) (names : Std.ExtTreeSet String),
      book.byKind[kind]? = some names → names ≠ ∅

/- A book without rules is in order. -/
theorem isIndexed_empty : (∅ : RuleBook).IsIndexed where
  named name rule h := by
    have hNone : (∅ : RuleBook).rules[name]? = none :=
      Std.ExtTreeMap.getElem?_empty
    rw [hNone] at h
    cases h
  listed kind name := by
    have hRules : (∅ : RuleBook).rules[name]? = none :=
      Std.ExtTreeMap.getElem?_empty
    have hKinds : (∅ : RuleBook).byKind[kind]? = none :=
      Std.ExtTreeMap.getElem?_empty
    simp [hRules, hKinds]
  inhabited kind names h := by
    have hNone : (∅ : RuleBook).byKind[kind]? = none :=
      Std.ExtTreeMap.getElem?_empty
    rw [hNone] at h
    cases h

/-
  The names of a kind, as members of an entry
  that may be missing.
-/
theorem mem_getD_byKind_iff
    {book : RuleBook}
    {kind : RuleKind}
    {name : String} :
    name ∈ book.byKind.getD kind ∅ ↔
      ∃ names : Std.ExtTreeSet String,
        book.byKind[kind]? = some names ∧ name ∈ names := by
  rw [Std.ExtTreeMap.getD_eq_getD_getElem?]
  cases book.byKind[kind]? with
  | none => simp
  | some names => simp

/- Books in order that hold the same rules are equal. -/
theorem IsIndexed.ext
    {book other : RuleBook}
    (hBook : book.IsIndexed)
    (hOther : other.IsIndexed)
    (h :
      ∀ name : String, book.rules[name]? = other.rules[name]?) :
    book = other := by
  have hMember :
      ∀ (kind : RuleKind) (name : String),
        name ∈ book.byKind.getD kind ∅ ↔
          name ∈ other.byKind.getD kind ∅ := by
    intro kind name
    rw [mem_getD_byKind_iff, mem_getD_byKind_iff, hBook.listed,
      hOther.listed, h]
  have hNames :
      ∀ kind : RuleKind,
        book.byKind.getD kind ∅ = other.byKind.getD kind ∅ := by
    intro kind
    apply Std.ExtTreeSet.ext_mem
    intro name
    exact hMember kind name
  have hKinds : book.byKind = other.byKind := by
    apply Std.ExtTreeMap.ext_getElem?
    intro kind
    have hSame := hNames kind
    rw [Std.ExtTreeMap.getD_eq_getD_getElem?,
      Std.ExtTreeMap.getD_eq_getD_getElem?] at hSame
    cases hb : book.byKind[kind]? with
    | none =>
        cases ho : other.byKind[kind]? with
        | none => rfl
        | some names =>
            rw [hb, ho] at hSame
            exact
              absurd hSame.symm (hOther.inhabited kind names ho)
    | some names =>
        cases ho : other.byKind[kind]? with
        | none =>
            rw [hb, ho] at hSame
            exact absurd hSame (hBook.inhabited kind names hb)
        | some others =>
            rw [hb, ho] at hSame
            exact congrArg some hSame
  have hRules : book.rules = other.rules :=
    Std.ExtTreeMap.ext_getElem? fun {name} => h name
  cases book
  cases other
  cases hRules
  cases hKinds
  rfl

end RuleBook

end GraphRewriting

------------------------------------------------------------
-- Changes
------------------------------------------------------------

namespace GraphRewriting

namespace RuleBook

variable {book next : RuleBook}

/- The book with a rule under its name. -/
def put
    (book : RuleBook)
    (rule : Rule) : RuleBook where
  rules := book.rules.insert rule.name rule
  byKind :=
    book.byKind.insert rule.kind
      ((book.byKind.getD rule.kind ∅).insert rule.name)

/- A rule is added exactly if its name is free. -/
theorem insert_eq_ok_iff
    {rule : Rule} :
    book.insert rule = .ok next ↔
      book.rules[rule.name]? = none ∧ next = book.put rule := by
  unfold RuleBook.insert contains
  rw [Std.ExtTreeMap.contains_eq_isSome_getElem?]
  cases book.rules[rule.name]? with
  | none => simp [put, eq_comm]
  | some other => simp

/- A rule under a free name keeps the book in order. -/
theorem IsIndexed.insert
    (h : book.IsIndexed)
    {rule : Rule}
    (hInsert : book.insert rule = .ok next) :
    next.IsIndexed := by
  rcases insert_eq_ok_iff.1 hInsert with ⟨hFree, rfl⟩
  unfold put
  constructor
  · intro name other hOther
    dsimp only at hOther
    rw [Std.ExtTreeMap.getElem?_insert] at hOther
    simp only [Std.compare_eq_iff_eq] at hOther
    split at hOther
    · rename_i hName
      cases hOther
      exact hName
    · exact h.named name other hOther
  · intro kind name
    dsimp only
    rw [Std.ExtTreeMap.getElem?_insert,
      Std.ExtTreeMap.getElem?_insert]
    simp only [Std.compare_eq_iff_eq]
    have hOld := h.listed kind name
    by_cases hKind : rule.kind = kind
    · subst hKind
      simp only [if_true, Option.some.injEq, exists_eq_left',
        Std.ExtTreeSet.mem_insert, Std.compare_eq_iff_eq,
        mem_getD_byKind_iff, hOld]
      by_cases hName : rule.name = name
      · simp [hName]
      · simp [hName]
    · simp only [hKind, if_false, hOld]
      by_cases hName : rule.name = name
      · subst hName
        simp [hFree, hKind]
      · simp [hName]
  · intro kind names hNames
    dsimp only at hNames
    rw [Std.ExtTreeMap.getElem?_insert] at hNames
    split at hNames
    · cases hNames
      exact Std.ExtTreeSet.insert_ne_empty
    · exact h.inhabited kind names hNames

/-
  Forgetting a name drops the entry of its kind if it was
  the last one there.
-/
private theorem getElem?_forgetName
    (byKind : Std.ExtTreeMap RuleKind (Std.ExtTreeSet String))
    (kind other : RuleKind)
    (name : String) :
    (forgetName byKind kind name)[other]? =
      if kind = other then
        if ((byKind.getD kind ∅).erase name).isEmpty then none
        else some ((byKind.getD kind ∅).erase name)
      else byKind[other]? := by
  unfold forgetName
  dsimp only
  split
  · rw [Std.ExtTreeMap.getElem?_erase]
    simp only [Std.compare_eq_iff_eq]
  · rw [Std.ExtTreeMap.getElem?_insert]
    simp only [Std.compare_eq_iff_eq]

/- Taking out a rule keeps the book in order. -/
theorem IsIndexed.remove
    (h : book.IsIndexed)
    {name : String}
    (hRemove : book.remove name = .ok next) :
    next.IsIndexed := by
  unfold RuleBook.remove get? at hRemove
  split at hRemove
  · cases hRemove
  · rename_i rule hRule
    cases hRemove
    constructor
    · intro other found hFound
      dsimp only at hFound
      rw [Std.ExtTreeMap.getElem?_erase] at hFound
      split at hFound
      · cases hFound
      · exact h.named other found hFound
    · intro kind other
      dsimp only
      rw [getElem?_forgetName, Std.ExtTreeMap.getElem?_erase]
      simp only [Std.compare_eq_iff_eq]
      have hOld := h.listed kind other
      by_cases hKind : rule.kind = kind
      · subst hKind
        have hNames :
            (∃ names : Std.ExtTreeSet String,
                (if ((book.byKind.getD rule.kind ∅).erase
                  name).isEmpty = true then none
                  else
                    some ((book.byKind.getD rule.kind ∅).erase
                      name)) = some names ∧
                  other ∈ names) ↔
              name ≠ other ∧
                other ∈ book.byKind.getD rule.kind ∅ := by
          split
          · rename_i hEmpty
            have hNone :
                other ∉ (book.byKind.getD rule.kind ∅).erase
                  name := by
              rw [Std.ExtTreeSet.isEmpty_iff.1 hEmpty]
              exact Std.ExtTreeSet.not_mem_empty
            rw [Std.ExtTreeSet.mem_erase, ne_eq,
              Std.compare_eq_iff_eq] at hNone
            simpa using hNone
          · simp [Std.ExtTreeSet.mem_erase]
        rw [if_pos rfl, hNames, mem_getD_byKind_iff, hOld]
        by_cases hName : name = other <;> simp [hName]
      · simp only [hKind, if_false, hOld]
        by_cases hName : name = other
        · subst hName
          simp [hRule, hKind]
        · simp [hName]
    · intro kind names hNames
      dsimp only at hNames
      rw [getElem?_forgetName] at hNames
      split at hNames
      · split at hNames
        · cases hNames
        · rename_i hEmpty
          cases hNames
          rwa [Std.ExtTreeSet.isEmpty_iff] at hEmpty
      · exact h.inhabited kind names hNames

end RuleBook

end GraphRewriting

------------------------------------------------------------
-- Runs Of Insertions
------------------------------------------------------------

namespace GraphRewriting

namespace RuleBook

variable {book : RuleBook}

/- The book with rules under their names. -/
def putAll
    (book : RuleBook)
    (rules : List Rule) : RuleBook :=
  rules.foldl put book

theorem getElem?_rules_put
    (book : RuleBook)
    (rule : Rule)
    (name : String) :
    (book.put rule).rules[name]? =
      if rule.name = name then
        some rule
      else
        book.rules[name]? := by
  unfold put
  rw [Std.ExtTreeMap.getElem?_insert]
  simp only [Std.compare_eq_iff_eq]

/- Rules that find their names free, one after the other. -/
structure Admits
    (book : RuleBook)
    (rules : List Rule) : Prop where
  nodup : (rules.map Rule.name).Nodup
  free : ∀ rule ∈ rules, book.rules[rule.name]? = none

/-
  The first rule finds its name free, the others
  theirs once it is there.
-/
theorem admits_cons
    {rule : Rule}
    {rules : List Rule} :
    book.Admits (rule :: rules) ↔
      book.rules[rule.name]? = none ∧
        (book.put rule).Admits rules := by
  constructor
  · rintro ⟨hNodup, hFree⟩
    rw [List.map_cons, List.nodup_cons] at hNodup
    rw [List.forall_mem_cons] at hFree
    refine ⟨hFree.1, hNodup.2, ?_⟩
    intro other hOther
    rw [getElem?_rules_put, if_neg, hFree.2 other hOther]
    intro hEq
    exact hNodup.1 (hEq ▸ List.mem_map_of_mem hOther)
  · rintro ⟨hRule, hNodup, hFree⟩
    have hOthers :
        ∀ other ∈ rules,
          rule.name ≠ other.name ∧
            book.rules[other.name]? = none := by
      intro other hOther
      have hNone := hFree other hOther
      rw [getElem?_rules_put] at hNone
      split at hNone
      · cases hNone
      · rename_i hNe
        exact ⟨hNe, hNone⟩
    constructor
    · rw [List.map_cons, List.nodup_cons]
      refine ⟨?_, hNodup⟩
      intro hMem
      rcases List.mem_map.1 hMem with ⟨other, hOther, hEq⟩
      exact (hOthers other hOther).1 hEq.symm
    · rw [List.forall_mem_cons]
      exact
        ⟨hRule, fun other hOther => (hOthers other hOther).2⟩

/- Rules under free names keep the book in order. -/
theorem IsIndexed.putAll
    (h : book.IsIndexed)
    {rules : List Rule}
    (hRules : book.Admits rules) :
    (book.putAll rules).IsIndexed := by
  induction rules generalizing book with
  | nil => exact h
  | cons rule rules ih =>
      rcases admits_cons.1 hRules with ⟨hFree, hRest⟩
      exact
        ih (h.insert (insert_eq_ok_iff.2 ⟨hFree, rfl⟩)) hRest

/-
  The rules of a book with more rules are the
  old and the new ones.
-/
theorem rules_putAll_iff
    {rules : List Rule}
    (hRules : book.Admits rules)
    {name : String}
    {rule : Rule} :
    (book.putAll rules).rules[name]? = some rule ↔
      (rule ∈ rules ∧ rule.name = name) ∨
        book.rules[name]? = some rule := by
  induction rules generalizing book with
  | nil => simp [RuleBook.putAll]
  | cons first rules ih =>
      rcases admits_cons.1 hRules with ⟨hFree, hRest⟩
      show ((book.put first).putAll rules).rules[name]? = _ ↔ _
      rw [ih hRest, getElem?_rules_put, List.mem_cons]
      by_cases hName : first.name = name
      · subst hName
        rw [if_pos rfl, hFree]
        constructor
        · rintro (⟨hMem, hEq⟩ | hEq)
          · exact Or.inl ⟨Or.inr hMem, hEq⟩
          · cases hEq
            exact Or.inl ⟨Or.inl rfl, rfl⟩
        · rintro (⟨rfl | hMem, hEq⟩ | hNone)
          · exact Or.inr rfl
          · exact Or.inl ⟨hMem, hEq⟩
          · cases hNone
      · rw [if_neg hName]
        constructor
        · rintro (⟨hMem, hEq⟩ | hOld)
          · exact Or.inl ⟨Or.inr hMem, hEq⟩
          · exact Or.inr hOld
        · rintro (⟨rfl | hMem, hEq⟩ | hOld)
          · exact absurd hEq hName
          · exact Or.inl ⟨hMem, hEq⟩
          · exact Or.inr hOld

end RuleBook

end GraphRewriting

------------------------------------------------------------
-- Rules Of A Book
------------------------------------------------------------

namespace GraphRewriting

namespace RuleBook

variable {book : RuleBook}

/- The rules listed are those found under their names. -/
theorem IsIndexed.mem_toList_iff
    (h : book.IsIndexed)
    {rule : Rule} :
    rule ∈ book.toList ↔
      book.rules[rule.name]? = some rule := by
  unfold toList
  rw [mem_values]
  constructor
  · rintro ⟨name, hName⟩
    rw [h.named name rule hName]
    exact hName
  · intro hRule
    exact ⟨rule.name, hRule⟩

/- Taking out a rule adds no other. -/
theorem IsIndexed.mem_toList_of_remove
    (h : book.IsIndexed)
    {next : RuleBook}
    {name : String}
    (hRemove : book.remove name = .ok next)
    {rule : Rule}
    (hRule : rule ∈ next.toList) :
    rule ∈ book.toList := by
  rw [(h.remove hRemove).mem_toList_iff] at hRule
  unfold RuleBook.remove at hRemove
  split at hRemove
  · cases hRemove
  · cases hRemove
    dsimp only at hRule
    rw [Std.ExtTreeMap.getElem?_erase] at hRule
    split at hRule
    · cases hRule
    · exact h.mem_toList_iff.2 hRule

/- The rules are listed in order of their names. -/
theorem IsIndexed.map_name_toList
    (h : book.IsIndexed) :
    book.toList.map Rule.name = book.names := by
  unfold toList names
  rw [values_eq_map_snd, List.map_map,
    ← Std.ExtTreeMap.map_fst_toList_eq_keys]
  apply List.map_congr_left
  rintro ⟨name, rule⟩ hMem
  exact h.named name rule
    (Std.ExtTreeMap.mem_toList_iff_getElem?_eq_some.1 hMem)

/- Rules in order have distinct names. -/
theorem IsIndexed.names_nodup
    (h : book.IsIndexed) :
    (book.toList.map Rule.name).Nodup := by
  rw [h.map_name_toList]
  exact Std.ExtTreeMap.nodup_keys

/- The index lists the names of the rules of a kind. -/
private theorem IsIndexed.mem_namesOfKind_iff
    (h : book.IsIndexed)
    {kind : RuleKind}
    {name : String} :
    name ∈ book.namesOfKind kind ↔
      ∃ rule ∈ book.toList,
        rule.kind = kind ∧ rule.name = name := by
  unfold namesOfKind
  rw [Std.ExtTreeSet.mem_toList, mem_getD_byKind_iff, h.listed]
  constructor
  · rintro ⟨rule, hRule, hKind⟩
    have hName := h.named name rule hRule
    subst hName
    exact ⟨rule, h.mem_toList_iff.2 hRule, hKind, rfl⟩
  · rintro ⟨rule, hRule, hKind, rfl⟩
    exact ⟨rule, h.mem_toList_iff.1 hRule, hKind⟩

/-
  The names of a kind are those of its rules, both
  in ascending order.
-/
theorem IsIndexed.namesOfKind_eq
    (h : book.IsIndexed)
    (kind : RuleKind) :
    book.namesOfKind kind =
      (book.toList.filter fun rule => rule.kind == kind).map
        Rule.name := by
  have hNames :
      (book.namesOfKind kind).Pairwise fun a b =>
        compare a b = .lt :=
    Std.ExtTreeSet.ordered_toList
  have hOrdered :
      ((book.toList.filter fun rule => rule.kind == kind).map
        Rule.name).Pairwise
        fun a b => compare a b = .lt := by
    apply
      List.Pairwise.sublist (List.filter_sublist.map Rule.name)
    rw [h.map_name_toList]
    exact Std.ExtTreeMap.ordered_keys
  apply eq_of_ascending hNames hOrdered
  intro name
  rw [h.mem_namesOfKind_iff]
  simp [and_assoc]

/- A book made from rules holds these and no others. -/
theorem Admits.perm_toList_putAll
    {rules : List Rule}
    (h : (∅ : RuleBook).Admits rules) :
    ((∅ : RuleBook).putAll rules).toList.Perm rules := by
  have hIndexed := isIndexed_empty.putAll h
  rw [List.perm_ext_iff_of_nodup hIndexed.names_nodup.of_map
    h.nodup.of_map]
  intro rule
  have hNone : (∅ : RuleBook).rules[rule.name]? = none :=
    Std.ExtTreeMap.getElem?_empty
  rw [hIndexed.mem_toList_iff, rules_putAll_iff h, hNone]
  simp

end RuleBook

end GraphRewriting

------------------------------------------------------------
-- Equivalent Books
------------------------------------------------------------

namespace GraphRewriting

theorem Rule.name_plain
    (rule : Rule) :
    rule.plain.name = rule.name := by
  cases rule <;> rfl

theorem Rule.kind_plain
    (rule : Rule) :
    rule.plain.kind = rule.kind := by
  cases rule <;> rfl

namespace RuleBook

variable {book other : RuleBook}

theorem getElem?_rules_plain
    (book : RuleBook)
    (name : String) :
    book.plain.rules[name]? =
      book.rules[name]?.map Rule.plain :=
  Std.ExtTreeMap.getElem?_map

/- A plain book is in order. -/
theorem IsIndexed.plain
    (h : book.IsIndexed) :
    book.plain.IsIndexed where
  named name rule hRule := by
    rw [getElem?_rules_plain, Option.map_eq_some_iff] at hRule
    rcases hRule with ⟨original, hOriginal, rfl⟩
    rw [Rule.name_plain]
    exact h.named name original hOriginal
  listed kind name := by
    refine (h.listed kind name).trans ?_
    constructor
    · rintro ⟨rule, hRule, hKind⟩
      refine ⟨rule.plain, ?_, ?_⟩
      · rw [getElem?_rules_plain, hRule]
        rfl
      · rw [Rule.kind_plain, hKind]
    · rintro ⟨rule, hRule, hKind⟩
      rw [getElem?_rules_plain, Option.map_eq_some_iff] at hRule
      rcases hRule with ⟨original, hOriginal, rfl⟩
      rw [Rule.kind_plain] at hKind
      exact ⟨original, hOriginal, hKind⟩
  inhabited := h.inhabited

theorem IsIndexed.mem_toList_plain_iff
    (h : book.IsIndexed)
    {rule : Rule} :
    rule ∈ book.plain.toList ↔
      rule ∈ book.toList.map Rule.plain := by
  rw [h.plain.mem_toList_iff, getElem?_rules_plain,
    Option.map_eq_some_iff, List.mem_map]
  constructor
  · rintro ⟨original, hOriginal, rfl⟩
    rw [Rule.name_plain] at hOriginal
    exact ⟨original, h.mem_toList_iff.2 hOriginal, rfl⟩
  · rintro ⟨original, hOriginal, rfl⟩
    rw [Rule.name_plain]
    exact ⟨original, h.mem_toList_iff.1 hOriginal, rfl⟩

/-
  Books in order are equal exactly if they
  hold the same rules.
-/
theorem IsIndexed.eq_iff_mem
    (hBook : book.IsIndexed)
    (hOther : other.IsIndexed) :
    book = other ↔
      ∀ rule : Rule,
        rule ∈ book.toList ↔ rule ∈ other.toList := by
  constructor
  · rintro rfl rule
    rfl
  · intro h
    apply hBook.ext hOther
    intro name
    apply Option.ext
    intro rule
    constructor
    · intro hRule
      have hName := hBook.named name rule hRule
      subst hName
      exact hOther.mem_toList_iff.1
        ((h rule).1 (hBook.mem_toList_iff.2 hRule))
    · intro hRule
      have hName := hOther.named name rule hRule
      subst hName
      exact hBook.mem_toList_iff.1
        ((h rule).2 (hOther.mem_toList_iff.2 hRule))

/- They are equivalent exactly if they hold equivalent rules. -/
theorem IsIndexed.plain_eq_iff_mem
    (hBook : book.IsIndexed)
    (hOther : other.IsIndexed) :
    book.plain = other.plain ↔
      ∀ rule : Rule,
        rule ∈ book.toList.map Rule.plain ↔
          rule ∈ other.toList.map Rule.plain := by
  rw [hBook.plain.eq_iff_mem hOther.plain]
  simp only [hBook.mem_toList_plain_iff,
    hOther.mem_toList_plain_iff]

/- Books with the same plain rules are equivalent. -/
theorem equiv_of_mem
    (hBook : book.IsIndexed)
    (hOther : other.IsIndexed)
    (h :
      book.toList.map Rule.plain ⊆ other.toList.map Rule.plain)
    (h' :
      other.toList.map Rule.plain ⊆
        book.toList.map Rule.plain) :
    book.plain = other.plain :=
  (hBook.plain_eq_iff_mem hOther).2 fun _ =>
    ⟨fun hRule => h hRule, fun hRule => h' hRule⟩

end RuleBook

end GraphRewriting
