import GraphRewriting.Document.Reading
import GraphRewriting.Document.Writing
import GraphRewriting.Proofs.FiniteMap
import GraphRewriting.Proofs.Json.Writing
import GraphRewriting.Proofs.Traversal

/-
  Records that are read back from the members that are written
  for them: members come in the order of the keys, absent parts
  are left out, and attributes follow under other keys.

  Main declarations:
    * `IsReadBack`
    * `MembersOf`
    * `MembersOf.attributeFields?`
    * `optional?_of_lookup`
    * `fieldD?_of_lookup`
-/

------------------------------------------------------------
-- Values That Are Read Back
------------------------------------------------------------

namespace GraphRewriting

variable {α : Type}

/-
  A value is read back from the JSON that is written for it,
  which text can hold and which is not taken for an absent
  part.
-/
structure IsReadBack
    (write : α → Json)
    (read : Json → Option α)
    (value : α) : Prop where
  read : read (write value) = some value
  kept : (write value).IsKept
  notNull : write value ≠ .null

theorem isReadBack_text
    (text : String) :
    IsReadBack .text Json.text? text :=
  ⟨rfl, .text text, by simp⟩

/- Numbers of 64 bits stay the numbers that they are. -/
theorem NodeId.isReadBack
    (id : NodeId) :
    IsReadBack toJson ofJson? id := by
  cases id with
  | num value =>
      refine ⟨?_, .natural value.toNat, by simp [toJson]⟩
      unfold toJson ofJson?
      dsimp only
      rw [if_pos value.toNat_lt_size, UInt64.ofNat_toNat]
  | name text => exact ⟨rfl, .text text, by simp [toJson]⟩

/- A list is read back when its items are. -/
theorem isReadBack_list
    {write : α → Json}
    {read : Json → Option α}
    {items : List α}
    (h : ∀ item ∈ items, IsReadBack write read item) :
    IsReadBack (fun items => .array (items.map write))
      (list? read) items := by
  refine ⟨?_, .array ?_, by simp⟩
  · unfold list?
    show (items.map write).mapM read = some items
    rw [List.mapM_map, mapM_eq_some_iff]
    constructor
    · intro item hItem
      rw [Function.comp_apply, (h item hItem).read]
      rfl
    · have hSame :
          items.filterMap (read ∘ write) =
            items.filterMap some :=
        List.filterMap_congr fun item hItem =>
          (h item hItem).read
      rw [hSame, List.filterMap_some]
  · intro value hValue
    rcases List.mem_map.1 hValue with ⟨item, hItem, rfl⟩
    exact (h item hItem).kept

/- Labels are read back from their members. -/
theorem labelsOfMembers?_members
    (labels : Labels) :
    labelsOfMembers? labels.members = some labels := by
  have hPairs :
      labels.members.mapM textMember? = some labels.toList := by
    unfold Labels.members
    rw [List.mapM_map, mapM_eq_some_iff]
    refine ⟨fun _ _ => rfl, ?_⟩
    exact List.filterMap_some
  unfold labelsOfMembers?
  rw [hPairs, Option.map_some]
  refine congrArg
    some (Std.ExtTreeMap.ext_getElem? fun key =>
      Option.ext fun text => ?_)
  rw [getElem?_ofList_eq_some_iff,
    Std.ExtTreeMap.mem_toList_iff_getElem?_eq_some]
  intro key a b ha hb
  rw [Std.ExtTreeMap.mem_toList_iff_getElem?_eq_some] at ha hb
  exact Option.some.inj (ha.symm.trans hb)

theorem Labels.isKept_members
    (labels : Labels) :
    ∀ member ∈ labels.members, member.2.IsKept := by
  intro member hMember
  rcases List.mem_map.1 hMember with ⟨⟨key, text⟩, -, rfl⟩
  exact .text text

/- Labels are read back from the object of their members. -/
theorem Labels.isReadBack
    (labels : Labels) :
    IsReadBack toJson ofJson? labels :=
  ⟨labelsOfMembers?_members labels,
    .object labels.isKept_members, by simp [toJson]⟩

end GraphRewriting

------------------------------------------------------------
-- Members
------------------------------------------------------------

namespace GraphRewriting

/-
  Members that text can hold, with some of the
  keys, in their order.
-/
structure MembersOf
    (keys : List String)
    (members : Fields) : Prop where
  sublist : (members.map Prod.fst).Sublist keys
  kept : ∀ member ∈ members, member.2.IsKept

/- Labels without any of the keys. -/
def Labels.Avoid
    (labels : Labels)
    (keys : List String) : Prop :=
  ∀ key ∈ keys, key ∉ labels

theorem membersOf_nil :
    MembersOf [] [] :=
  ⟨.slnil, by simp⟩

variable {α : Type}
variable {write : α → Json}
variable {key : String}
variable {keys : List String}
variable {members : Fields}
variable {labels : Labels}

/- One more part under a key before the others. -/
theorem MembersOf.cons
    (h : MembersOf keys members)
    {part : Option α}
    (hKept : ∀ value ∈ part, (write value).IsKept) :
    MembersOf (key :: keys)
      (optionalMember write key part ++ members) := by
  cases part with
  | none => exact ⟨h.sublist.cons key, h.kept⟩
  | some value =>
      refine ⟨h.sublist.cons_cons key, ?_⟩
      exact List.forall_mem_cons.2 ⟨hKept value rfl, h.kept⟩

theorem MembersOf.single
    {part : Option α}
    (hKept : ∀ value ∈ part, (write value).IsKept) :
    MembersOf [key] (optionalMember write key part) := by
  have h :
      MembersOf [key] (optionalMember write key part ++ []) :=
    membersOf_nil.cons hKept
  rwa [List.append_nil] at h

private theorem MembersOf.mem_keys
    (h : MembersOf keys members)
    {member : String × Json}
    (hMember : member ∈ members) :
    member.1 ∈ keys :=
  h.sublist.subset (List.mem_map_of_mem hMember)

/-
  Labels that avoid the keys are told apart from the
  members before them.
-/
theorem MembersOf.knownFields?_append
    (h : MembersOf keys members)
    (hKeys : keys.Nodup)
    (hLabels : labels.Avoid keys) :
    knownFields? keys (members ++ labels.members) =
      some members ∧
      (members ++ labels.members).filter
        (fun member => !keys.contains member.1) =
        labels.members := by
  have hKnown :
      ∀ member ∈ members, keys.contains member.1 = true :=
    fun member hMember =>
      List.contains_iff_mem.2 (h.mem_keys hMember)
  have hUnknown :
      ∀ member ∈ labels.members,
        keys.contains member.1 = false := by
    intro member hMember
    rcases List.mem_map.1 hMember with
      ⟨⟨key, text⟩, hEntry, rfl⟩
    rw [← Bool.not_eq_true, List.contains_iff_mem]
    intro hKey
    exact hLabels key hKey
      (mem_iff_exists_getElem?.2
        ⟨text,
          Std.ExtTreeMap.mem_toList_iff_getElem?_eq_some.1
            hEntry⟩)
  constructor
  · unfold knownFields?
    have hFilter :
        (members ++ labels.members).filter
          (fun member => keys.contains member.1) =
          members := by
      rw [List.filter_append, List.filter_eq_self.2 hKnown,
        List.filter_eq_nil_iff.2 (by simpa using hUnknown),
        List.append_nil]
    rw [hFilter, if_pos (hKeys.sublist h.sublist)]
  · rw [List.filter_append,
      List.filter_eq_nil_iff.2 (by simpa using hKnown),
      List.filter_eq_self.2 (by simpa using hUnknown),
      List.nil_append]

/- The members of a record are its fields. -/
theorem MembersOf.knownFields?
    (h : MembersOf keys members)
    (hKeys : keys.Nodup) :
    knownFields? keys members = some members := by
  have hEmpty : (∅ : Labels).Avoid keys := fun _ _ =>
    Std.ExtTreeMap.not_mem_empty
  have hKnown := (h.knownFields?_append hKeys hEmpty).1
  have hMembers : (∅ : Labels).members = [] := rfl
  rwa [hMembers, List.append_nil] at hKnown

/- Members and the labels that follow them are read apart. -/
theorem MembersOf.attributeFields?
    (h : MembersOf keys members)
    (hKeys : keys.Nodup)
    (hLabels : labels.Avoid keys) :
    attributeFields? keys
      (.object (members ++ labels.members)) =
      some (members, labels) := by
  rcases h.knownFields?_append hKeys hLabels with
    ⟨hKnown, hRest⟩
  unfold GraphRewriting.attributeFields?
  refine Option.bind_eq_some_iff.2
    ⟨members ++ labels.members, rfl, ?_⟩
  refine Option.bind_eq_some_iff.2 ⟨members, hKnown, ?_⟩
  refine Option.bind_eq_some_iff.2 ⟨labels, ?_, rfl⟩
  rw [hRest]
  exact labelsOfMembers?_members labels

/- Text can hold a record of such members. -/
theorem MembersOf.isKept
    (h : MembersOf keys members) :
    (Json.object members).IsKept :=
  .object h.kept

/- Text can hold such members with labels behind them. -/
theorem MembersOf.isKept_append
    (h : MembersOf keys members)
    (labels : Labels) :
    (Json.object (members ++ labels.members)).IsKept := by
  refine .object fun member hMember => ?_
  rcases List.mem_append.1 hMember with hMember | hMember
  · exact h.kept member hMember
  · exact labels.isKept_members member hMember

/- Attributes that are read avoid the keys of their record. -/
theorem avoid_of_attributeFields?
    {value : Json}
    (h : attributeFields? keys value = some (members, labels)) :
    labels.Avoid keys := by
  unfold attributeFields? at h
  rcases Option.bind_eq_some_iff.1 h with ⟨all, -, h⟩
  rcases Option.bind_eq_some_iff.1 h with ⟨known, -, h⟩
  rcases Option.bind_eq_some_iff.1 h with
    ⟨attributes, hAttributes, h⟩
  cases h
  unfold labelsOfMembers? at hAttributes
  rcases Option.map_eq_some_iff.1 hAttributes with
    ⟨pairs, hPairs, rfl⟩
  intro key hKey hMem
  rw [Std.ExtTreeMap.mem_ofList, List.contains_iff_mem] at hMem
  rcases List.mem_map.1 hMem with ⟨pair, hPair, rfl⟩
  rw [← (mapM_eq_some_iff.1 hPairs).2] at hPair
  rcases List.mem_filterMap.1 hPair with
    ⟨member, hMember, hText⟩
  rcases Option.map_eq_some_iff.1 hText with ⟨text, -, rfl⟩
  have hOther := (List.mem_filter.1 hMember).2
  rw [List.contains_iff_mem.2 hKey] at hOther
  cases hOther

end GraphRewriting

------------------------------------------------------------
-- Fields
------------------------------------------------------------

namespace GraphRewriting

variable {α : Type}
variable {write : α → Json}
variable {read : Json → Option α}
variable {key other : String}
variable {fields : Fields}

/- A part is found under its key, if it is there. -/
@[simp]
theorem lookup_optionalMember
    {part : Option α} :
    (optionalMember write key part).lookup other =
      if other = key then part.map write else none := by
  cases part with
  | none => simp [optionalMember]
  | some value =>
      unfold optionalMember
      rw [List.lookup_cons, List.lookup_nil]
      by_cases h : other = key
      · rw [if_pos h, beq_iff_eq.2 h, Option.map_some]
      · rw [if_neg h, beq_eq_false_iff_ne.2 h]

@[simp]
theorem lookup_optionalMember_append
    {part : Option α} :
    (optionalMember write key part ++ fields).lookup other =
      if other = key then
        (part.map write).or (fields.lookup other)
      else fields.lookup other := by
  rw [List.lookup_append, lookup_optionalMember]
  split <;> simp

/- A part that may be absent is read back. -/
theorem optional?_of_lookup
    {part : Option α}
    (h : ∀ value ∈ part, IsReadBack write read value)
    (hLookup : fields.lookup key = part.map write) :
    optional? read fields key = some part := by
  unfold optional?
  rw [hLookup]
  cases part with
  | none => rfl
  | some value =>
      rcases h value rfl with ⟨hRead, -, hNull⟩
      rw [Option.map_some]
      split
      · rename_i hNone
        cases hNone
      · rename_i hSome
        exact absurd (Option.some.inj hSome) hNull
      · rename_i hSome
        cases hSome
        rw [hRead, Option.map_some]

/-
  A part that is left out when it is the default is read back.
-/
theorem fieldD?_of_lookup
    {fallback value : α}
    {isWritten : α → Bool}
    (h : IsReadBack write read value)
    (hFallback : isWritten value = false → value = fallback)
    (hLookup :
      fields.lookup key =
        (Option.guard isWritten value).map write) :
    fieldD? read fallback fields key = some value := by
  unfold fieldD?
  rw [hLookup]
  cases hWritten : isWritten value with
  | false =>
      rw [Option.guard_eq_none_iff.2 hWritten,
        hFallback hWritten]
      rfl
  | true =>
      rw [Option.guard_pos hWritten]
      exact h.read

end GraphRewriting

------------------------------------------------------------
-- Parts That Are Left Out When Empty
------------------------------------------------------------

namespace GraphRewriting

/- The items of a list, if there are any. -/
def someItems?
    {α : Type} :
    List α → Option (List α) :=
  Option.guard fun items => !items.isEmpty

/- Labels, if there are any. -/
def someLabels? : Labels → Option Labels :=
  Option.guard fun labels => !labels.isEmpty

variable {α : Type}
variable {write : α → Json}
variable {read : Json → Option α}
variable {key : String}
variable {fields : Fields}

theorem listMember_eq_optionalMember
    (items : List α) :
    listMember write key items =
      optionalMember (fun items => .array (items.map write)) key
        (someItems? items) := by
  cases items with
  | nil => rfl
  | cons item items => rfl

theorem GraphElement.baseLabelsMember_eq_optionalMember
    (element : GraphElement) :
    element.baseLabelsMember =
      optionalMember Labels.toJson "base_labels"
        (someLabels? element.baseLabels) := by
  unfold baseLabelsMember someLabels?
  cases hEmpty : element.baseLabels.isEmpty with
  | true =>
      rw [Option.guard_eq_none_iff.2 (by simp [hEmpty])]
      rfl
  | false =>
      rw [Option.guard_pos (by simp [hEmpty])]
      rfl

/- Items that are read back make an array that text can hold. -/
theorem isKept_array_of_mem_someItems?
    {items written : List α}
    (h : ∀ item ∈ items, IsReadBack write read item)
    (hWritten : written ∈ someItems? items) :
    (Json.array (written.map write)).IsKept := by
  rw [← (Option.guard_eq_some_iff.1 hWritten).1]
  exact (isReadBack_list h).kept

/- A list that may be left out is read back. -/
theorem fieldD?_list_of_lookup
    {items : List α}
    (h : ∀ item ∈ items, IsReadBack write read item)
    (hLookup :
      fields.lookup key =
        (someItems? items).map
          fun items => .array (items.map write)) :
    fieldD? (list? read) [] fields key = some items := by
  refine fieldD?_of_lookup (isReadBack_list h) ?_ hLookup
  intro hEmpty
  rwa [Bool.not_eq_false', List.isEmpty_iff] at hEmpty

/- Labels that may be left out are read back. -/
theorem fieldD?_labels_of_lookup
    {labels : Labels}
    (hLookup :
      fields.lookup key =
        (someLabels? labels).map Labels.toJson) :
    fieldD? Labels.ofJson? ∅ fields key = some labels := by
  refine fieldD?_of_lookup labels.isReadBack ?_ hLookup
  intro hEmpty
  rwa [Bool.not_eq_false', Std.ExtTreeMap.isEmpty_iff] at hEmpty

end GraphRewriting
