import GraphRewriting.Matching.Slot
import GraphRewriting.Proofs.FiniteMap

/-
  The bindings that come out of the slots of a pattern: each
  slot gets one of its choices, an exotic node gets one target
  or none, and no two exotic nodes share a target.

  Main declarations:
    * `Bindings.IsSound`
    * `Bindings.mem_extensions_iff`
    * `Bindings.extensions_nodup`
-/

------------------------------------------------------------
-- Sound Bindings
------------------------------------------------------------

namespace GraphRewriting

namespace Bindings

/-
  The taken nodes are the targets, and no target belongs to two
  exotic nodes.
-/
structure IsSound (b : Bindings) : Prop where
  taken :
    ∀ target : NodeId,
      target ∈ b.taken ↔
        ∃ key : NodeId, b.targets[key]? = some (some target)
  injective :
    ∀ x y target : NodeId,
      b.targets[x]? = some (some target) →
        b.targets[y]? = some (some target) → x = y

theorem isSound_empty : Bindings.empty.IsSound where
  taken target := by simp [Bindings.empty]
  injective x y target hx := by simp [Bindings.empty] at hx

/-
  Sound bindings are determined by what they
  give to exotic nodes.
-/
theorem IsSound.ext
    {b c : Bindings}
    (hb : b.IsSound)
    (hc : c.IsSound)
    (h : ∀ key : NodeId, b.targets[key]? = c.targets[key]?) :
    b = c := by
  have hTargets : b.targets = c.targets :=
    Std.ExtTreeMap.ext_getElem? h
  have hTaken : b.taken = c.taken := by
    apply Std.ExtTreeSet.ext_mem
    intro target
    rw [hb.taken, hc.taken, hTargets]
  cases b
  cases c
  cases hTargets
  cases hTaken
  rfl

/- All that some bindings give is given by others. -/
def IsWithin (b c : Bindings) : Prop :=
  ∀ (key : NodeId) (value : Option NodeId),
    b.targets[key]? = some value → c.targets[key]? = some value

------------------------------------------------------------
-- Adding One Pair
------------------------------------------------------------

/- An exotic node without a target may join sound bindings. -/
theorem IsSound.insert_none
    {b : Bindings}
    (hb : b.IsSound)
    {exotic : NodeId}
    (hNew : b.targets[exotic]? = none) :
    IsSound
      { b with targets := b.targets.insert exotic none } := by
  constructor
  · intro target
    simp [getElem?_insert_eq_some_iff hNew, hb.taken]
  · intro x y target hx hy
    simp only [getElem?_insert_eq_some_iff hNew, Prod.mk.injEq,
      reduceCtorEq, and_false, or_false] at hx hy
    exact hb.injective x y target hx hy

/-
  An exotic node with a target that is not taken may
  join sound bindings.
-/
private theorem IsSound.insert_some
    {b : Bindings}
    (hb : b.IsSound)
    {exotic target : NodeId}
    (hNew : b.targets[exotic]? = none)
    (hFree : target ∉ b.taken) :
    IsSound
      ⟨b.targets.insert exotic (some target),
        b.taken.insert target⟩ := by
  have hUnbound :
      ∀ key : NodeId, b.targets[key]? ≠ some (some target) := by
    intro key hKey
    exact hFree ((hb.taken target).2 ⟨key, hKey⟩)
  constructor
  · intro other
    simp only [getElem?_insert_eq_some_iff hNew,
      Std.ExtTreeSet.mem_insert, Std.compare_eq_iff_eq,
      hb.taken, Prod.mk.injEq, Option.some.injEq]
    constructor
    · rintro (rfl | ⟨key, hKey⟩)
      · exact ⟨exotic, Or.inr ⟨rfl, rfl⟩⟩
      · exact ⟨key, Or.inl hKey⟩
    · rintro ⟨key, hKey | ⟨_, rfl⟩⟩
      · exact Or.inr ⟨key, hKey⟩
      · exact Or.inl rfl
  · intro x y other hx hy
    simp only [getElem?_insert_eq_some_iff hNew, Prod.mk.injEq,
      Option.some.injEq] at hx hy
    rcases hx with
      hx | ⟨rfl, rfl⟩ <;> rcases hy with hy | ⟨rfl, hOther⟩
    · exact hb.injective x y other hx hy
    · exact absurd (hOther ▸ hx) (hUnbound x)
    · exact absurd hy (hUnbound y)
    · rfl

/-
  A pair that is added keeps bindings sound, and is
  all that they gain.
-/
theorem IsSound.add?
    {b next : Bindings}
    (hb : b.IsSound)
    {pair : NodeId × Option NodeId}
    (h : b.add? pair = some next) :
    next.IsSound ∧
      ∀ (key : NodeId) (value : Option NodeId),
        next.targets[key]? = some value ↔
          b.targets[key]? = some value ∨
            (key, value) = pair := by
  rcases pair with ⟨exotic, target⟩
  unfold Bindings.add? at h
  dsimp only at h
  split at h
  · rename_i known hKnown
    rw [Option.ite_none_right_eq_some] at h
    rcases h with ⟨rfl, h⟩
    cases h
    refine ⟨hb, fun key value => ⟨Or.inl, ?_⟩⟩
    rintro (h | h)
    · exact h
    · cases h
      exact hKnown
  · rename_i hKnown
    cases h
    exact
      ⟨hb.insert_none hKnown,
        fun key value => getElem?_insert_eq_some_iff hKnown⟩
  · rename_i target hKnown
    rw [Option.ite_none_left_eq_some] at h
    rcases h with ⟨hFree, h⟩
    cases h
    exact
      ⟨hb.insert_some hKnown hFree,
        fun key value => getElem?_insert_eq_some_iff hKnown⟩

/-
  A pair that sound bindings give can be
  added to part of them.
-/
theorem IsSound.exists_add?
    {b whole : Bindings}
    (hb : b.IsSound)
    (hWhole : whole.IsSound)
    (hWithin : b.IsWithin whole)
    {pair : NodeId × Option NodeId}
    (hPair : whole.targets[pair.1]? = some pair.2) :
    ∃ next : Bindings, b.add? pair = some next := by
  rcases pair with ⟨exotic, target⟩
  unfold Bindings.add?
  dsimp only at hPair ⊢
  split
  · rename_i known hKnown
    have hSame := (hWithin exotic known hKnown).symm.trans hPair
    rw [if_pos (Option.some.inj hSame)]
    exact ⟨b, rfl⟩
  · exact ⟨_, rfl⟩
  · rename_i target hKnown
    rw [if_neg]
    · exact ⟨_, rfl⟩
    · intro hTaken
      rcases (hb.taken target).1 hTaken with ⟨key, hKey⟩
      have hSame :=
        hWhole.injective key exotic target (hWithin key _ hKey)
          hPair
      rw [hSame, hKnown] at hKey
      exact absurd hKey (by simp)

------------------------------------------------------------
-- Adding The Pairs Of A Slot
------------------------------------------------------------

/-
  Pairs that can all be added leave sound bindings, with just
  these pairs in addition.
-/
theorem IsSound.foldlM_add?
    {b next : Bindings}
    (hb : b.IsSound)
    {pairs : List (NodeId × Option NodeId)}
    (h : pairs.foldlM Bindings.add? b = some next) :
    next.IsSound ∧
      ∀ (key : NodeId) (value : Option NodeId),
        next.targets[key]? = some value ↔
          b.targets[key]? = some value ∨
            (key, value) ∈ pairs := by
  induction pairs generalizing b with
  | nil =>
      rw [List.foldlM_nil] at h
      cases h
      exact ⟨hb, by simp⟩
  | cons pair pairs ih =>
      rw [List.foldlM_cons] at h
      rcases Option.bind_eq_some_iff.1 h with ⟨mid, hAdd, hRest⟩
      rcases hb.add? hAdd with ⟨hMid, hLookup⟩
      rcases ih hMid hRest with ⟨hNext, hAll⟩
      refine ⟨hNext, ?_⟩
      intro key value
      rw [hAll, hLookup, List.mem_cons, or_assoc]

/-
  Pairs that sound bindings have can be added to
  any part of these.
-/
theorem IsSound.exists_foldlM_add?
    {b whole : Bindings}
    (hb : b.IsSound)
    (hWhole : whole.IsSound)
    (hWithin : b.IsWithin whole)
    {pairs : List (NodeId × Option NodeId)}
    (hPairs :
      ∀ pair ∈ pairs, whole.targets[pair.1]? = some pair.2) :
    ∃ next : Bindings,
      pairs.foldlM Bindings.add? b = some next := by
  induction pairs generalizing b with
  | nil => exact ⟨b, rfl⟩
  | cons pair pairs ih =>
      rcases
          hb.exists_add? hWhole hWithin
            (hPairs pair (by simp)) with
        ⟨mid, hAdd⟩
      rcases hb.add? hAdd with ⟨hMid, hLookup⟩
      have hMidWithin : mid.IsWithin whole := by
        intro key value hKey
        rcases (hLookup key value).1 hKey with hKey | rfl
        · exact hWithin key value hKey
        · exact hPairs (key, value) (by simp)
      obtain ⟨next, hNext⟩ :=
        ih hMid hMidWithin fun other hOther =>
          hPairs other (by simp [hOther])
      refine ⟨next, ?_⟩
      rw [List.foldlM_cons, hAdd]
      exact hNext

end Bindings

end GraphRewriting

------------------------------------------------------------
-- Slots
------------------------------------------------------------

namespace GraphRewriting

/-
  A slot whose choices say something of each
  of its exotic nodes.
-/
def Slot.IsComplete (slot : Slot) : Prop :=
  ∀ choice ∈ slot.choices, choice.length = slot.exotics.length

namespace Bindings

/-
  What bindings give to the exotic nodes of a slot is a
  choice.
-/
def Gives
    (b : Bindings)
    (slot : Slot)
    (choice : List (Option NodeId)) : Prop :=
  slot.exotics.map (fun exotic => b.targets[exotic]?) =
    choice.map some

/- Bindings give a choice if they have all its pairs. -/
theorem gives_iff
    {b : Bindings}
    {slot : Slot}
    {choice : List (Option NodeId)}
    (hLength : choice.length = slot.exotics.length) :
    b.Gives slot choice ↔
      ∀ pair ∈ slot.pairs choice,
        b.targets[pair.1]? = some pair.2 := by
  rcases slot with ⟨exotics, choices⟩
  unfold Gives Slot.pairs
  dsimp only at hLength ⊢
  induction exotics generalizing choice with
  | nil =>
      cases List.length_eq_zero_iff.1 hLength
      simp
  | cons exotic exotics ih =>
      cases choice with
      | nil => exact absurd hLength (by simp)
      | cons target choice =>
          have hTail := ih (Nat.succ.inj hLength)
          rw [List.map_cons, List.map_cons, List.cons.injEq,
            hTail, List.zip_cons_cons, List.forall_mem_cons]

/-
  The choice that is given is the one to be read
  from the bindings.
-/
theorem Gives.eq_map
    {b : Bindings}
    {slot : Slot}
    {choice : List (Option NodeId)}
    (h : b.Gives slot choice) :
    choice = slot.exotics.map fun exotic =>
      b.targets[exotic]?.join := by
  have hRead : (choice.map some).map Option.join = choice := by
    rw [List.map_map]
    exact List.map_id _
  rw [← hRead, ← h, List.map_map]
  rfl

/-
  Bindings give a choice when they speak of all exotic nodes.
-/
theorem exists_gives_iff
    {b : Bindings}
    {slot : Slot} :
    (∃ choice : List (Option NodeId), b.Gives slot choice) ↔
      ∀ exotic ∈ slot.exotics, exotic ∈ b.targets := by
  constructor
  · rintro ⟨choice, hGives⟩ exotic hExotic
    have hValue : b.targets[exotic]? ∈ choice.map some := by
      rw [← hGives]
      exact List.mem_map_of_mem hExotic
    rcases List.mem_map.1 hValue with ⟨value, -, hValue⟩
    exact mem_iff_exists_getElem?.2 ⟨value, hValue.symm⟩
  · intro hKeys
    refine
      ⟨slot.exotics.map fun exotic => b.targets[exotic]?.join,
        ?_⟩
    unfold Gives
    rw [List.map_map]
    apply List.map_congr_left
    intro exotic hExotic
    rcases mem_iff_exists_getElem?.1 (hKeys exotic hExotic) with
      ⟨value, hValue⟩
    rw [Function.comp_apply, hValue]
    rfl

/- The nodes of a given choice are targets of the slot. -/
theorem Gives.mem_iff
    {b : Bindings}
    {slot : Slot}
    {choice : List (Option NodeId)}
    (h : b.Gives slot choice)
    {target : NodeId} :
    target ∈ choice.filterMap id ↔
      ∃ exotic ∈ slot.exotics,
        b.targets[exotic]? = some (some target) := by
  rw [h.eq_map, List.filterMap_map, List.mem_filterMap]
  simp only [Function.comp_apply, id_eq,
    Option.join_eq_some_iff]

/- A choice that sound bindings give has no target twice. -/
theorem Gives.nodup
    {b : Bindings}
    {slot : Slot}
    {choice : List (Option NodeId)}
    (h : b.Gives slot choice)
    (hb : b.IsSound)
    (hSlot : slot.exotics.Nodup) :
    (choice.filterMap id).Nodup := by
  rw [h.eq_map, List.filterMap_map]
  apply List.Nodup.filterMap _ hSlot
  intro x y target hx hy
  exact hb.injective x y target (Option.join_eq_some_iff.1 hx)
    (Option.join_eq_some_iff.1 hy)

/- A choice of full length speaks of each exotic node. -/
private theorem exists_mem_pairs
    {slot : Slot}
    {choice : List (Option NodeId)}
    (hLength : choice.length = slot.exotics.length)
    {exotic : NodeId}
    (hExotic : exotic ∈ slot.exotics) :
    ∃ target : Option NodeId,
      (exotic, target) ∈ slot.pairs choice := by
  have hKeys :
      (slot.pairs choice).map Prod.fst = slot.exotics := by
    unfold Slot.pairs
    exact List.map_fst_zip (by omega)
  rw [← hKeys] at hExotic
  rcases List.mem_map.1 hExotic with ⟨⟨_, target⟩, hMem, rfl⟩
  exact ⟨target, hMem⟩

/-
  The exotic nodes of a slot become keys, and
  no other nodes do.
-/
theorem IsSound.mem_targets_foldlM_pairs
    {b mid : Bindings}
    (hb : b.IsSound)
    {slot : Slot}
    {choice : List (Option NodeId)}
    (hLength : choice.length = slot.exotics.length)
    (hMid :
      (slot.pairs choice).foldlM Bindings.add? b = some mid)
    {key : NodeId} :
    key ∈ mid.targets ↔
      key ∈ b.targets ∨ key ∈ slot.exotics := by
  have hLookup := (hb.foldlM_add? hMid).2
  constructor
  · intro hKey
    rcases mem_iff_exists_getElem?.1 hKey with ⟨value, hValue⟩
    rcases (hLookup key value).1 hValue with hOld | hPair
    · exact Or.inl (mem_iff_exists_getElem?.2 ⟨value, hOld⟩)
    · exact Or.inr (List.of_mem_zip hPair).1
  · rintro (hOld | hExotic)
    · rcases mem_iff_exists_getElem?.1 hOld with ⟨value, hValue⟩
      exact mem_iff_exists_getElem?.2
        ⟨value, (hLookup key value).2 (Or.inl hValue)⟩
    · rcases exists_mem_pairs hLength hExotic with
        ⟨value, hPair⟩
      exact mem_iff_exists_getElem?.2
        ⟨value, (hLookup key value).2 (Or.inr hPair)⟩

/-
  Sound bindings that keep others and have no more
  keys are the same.
-/
private theorem IsSound.eq_of_isWithin
    {b next : Bindings}
    (hb : b.IsSound)
    (hNext : next.IsSound)
    (hWithin : b.IsWithin next)
    (hKeys : ∀ key ∈ next.targets, key ∈ b.targets) :
    next = b := by
  apply hNext.ext hb
  intro key
  cases hKey : b.targets[key]? with
  | some value => exact hWithin key value hKey
  | none =>
      rw [Std.ExtTreeMap.getElem?_eq_none]
      intro hMem
      rcases mem_iff_exists_getElem?.1 (hKeys key hMem) with
        ⟨value, hValue⟩
      rw [hKey] at hValue
      cases hValue

/- The ways to extend bindings by one choice per slot. -/
theorem mem_extensions_iff
    {b next : Bindings}
    (hb : b.IsSound)
    {slots : List Slot}
    (hSlots : ∀ slot ∈ slots, slot.IsComplete) :
    next ∈ b.extensions slots ↔
      next.IsSound ∧ b.IsWithin next ∧
        (∀ slot ∈ slots,
          ∃ choice ∈ slot.choices, next.Gives slot choice) ∧
        ∀ key ∈ next.targets,
          key ∈ b.targets ∨
            ∃ slot ∈ slots, key ∈ slot.exotics := by
  induction slots generalizing b with
  | nil =>
      rw [extensions, List.mem_singleton]
      constructor
      · rintro rfl
        exact ⟨hb, fun _ _ h => h, by simp, fun _ h => Or.inl h⟩
      · rintro ⟨hNext, hWithin, -, hKeys⟩
        apply hb.eq_of_isWithin hNext hWithin
        intro key hKey
        simpa using hKeys key hKey
  | cons slot slots ih =>
      rw [List.forall_mem_cons] at hSlots
      rcases hSlots with ⟨hSlot, hRest⟩
      rw [extensions, List.mem_flatMap]
      constructor
      · rintro ⟨choice, hChoice, hMem⟩
        split at hMem
        · exact absurd hMem List.not_mem_nil
        · rename_i mid hMid
          rcases hb.foldlM_add? hMid with ⟨hMidSound, hLookup⟩
          rcases (ih hMidSound hRest).1 hMem with
            ⟨hNext, hWithin, hGives, hKeys⟩
          refine
            ⟨hNext, ?_,
              List.forall_mem_cons.2
                ⟨⟨choice, hChoice, ?_⟩, hGives⟩,
              ?_⟩
          · intro key value hKey
            exact hWithin key value
              ((hLookup key value).2 (Or.inl hKey))
          · rw [gives_iff (hSlot choice hChoice)]
            intro pair hPair
            exact hWithin _ _
              ((hLookup pair.1 pair.2).2 (Or.inr hPair))
          · intro key hKey
            rw [List.exists_mem_cons_iff, ← or_assoc,
              ← hb.mem_targets_foldlM_pairs
                (hSlot choice hChoice) hMid]
            exact hKeys key hKey
      · rintro ⟨hNext, hWithin, hGives, hKeys⟩
        rcases List.forall_mem_cons.1 hGives with
          ⟨⟨choice, hChoice, hGive⟩, hOthers⟩
        rw [gives_iff (hSlot choice hChoice)] at hGive
        rcases hb.exists_foldlM_add? hNext hWithin hGive with
          ⟨mid, hMid⟩
        rcases hb.foldlM_add? hMid with ⟨hMidSound, hLookup⟩
        refine ⟨choice, hChoice, ?_⟩
        rw [hMid]
        refine (ih hMidSound hRest).2 ⟨hNext, ?_, hOthers, ?_⟩
        · intro key value hKey
          rcases (hLookup key value).1 hKey with hOld | hPair
          · exact hWithin key value hOld
          · exact hGive _ hPair
        · intro key hKey
          rw [hb.mem_targets_foldlM_pairs (hSlot choice hChoice)
              hMid,
            or_assoc,
            ← List.exists_mem_cons_iff
              (fun slot : Slot => key ∈ slot.exotics)]
          exact hKeys key hKey

/- Bindings keep the choice that they extend. -/
private theorem gives_of_mem_extensions
    {b mid next : Bindings}
    (hb : b.IsSound)
    {slot : Slot}
    {slots : List Slot}
    (hSlots : ∀ slot ∈ slots, slot.IsComplete)
    {choice : List (Option NodeId)}
    (hLength : choice.length = slot.exotics.length)
    (hMid :
      (slot.pairs choice).foldlM Bindings.add? b = some mid)
    (hNext : next ∈ mid.extensions slots) :
    next.Gives slot choice := by
  rcases hb.foldlM_add? hMid with ⟨hSound, hLookup⟩
  have hWithin :=
    ((mem_extensions_iff hSound hSlots).1 hNext).2.1
  rw [gives_iff hLength]
  intro pair hPair
  exact hWithin _ _ ((hLookup pair.1 pair.2).2 (Or.inr hPair))

/- Distinct choices make distinct bindings. -/
theorem extensions_nodup
    {b : Bindings}
    (hb : b.IsSound)
    {slots : List Slot}
    (hSlots : ∀ slot ∈ slots, slot.IsComplete)
    (hChoices : ∀ slot ∈ slots, slot.choices.Nodup) :
    (b.extensions slots).Nodup := by
  induction slots generalizing b with
  | nil => exact List.nodup_singleton b
  | cons slot slots ih =>
      have hSlot : slot.IsComplete := hSlots slot (by simp)
      have hRest : ∀ other ∈ slots, other.IsComplete :=
        fun other hOther => hSlots other (by simp [hOther])
      rw [extensions, List.nodup_flatMap]
      constructor
      · intro choice _
        split
        · exact List.nodup_nil
        · rename_i mid hMid
          exact
            ih (hb.foldlM_add? hMid).1 hRest fun other hOther =>
              hChoices other (by simp [hOther])
      · apply
          List.Pairwise.imp_of_mem _ (hChoices slot (by simp))
        intro first second hFirst hSecond hNe next hNext hOther
        dsimp only at hNext hOther
        split at hNext
        · exact absurd hNext List.not_mem_nil
        · rename_i hMid
          split at hOther
          · exact absurd hOther List.not_mem_nil
          · rename_i hMid'
            have hGive :=
              gives_of_mem_extensions hb hRest
                (hSlot first hFirst) hMid hNext
            have hGive' :=
              gives_of_mem_extensions hb hRest
                (hSlot second hSecond) hMid' hOther
            have hSome :
                Function.Injective (some : Option NodeId → _) :=
              fun _ _ h => Option.some.inj h
            exact hNe
              (List.map_injective_iff.2 hSome
                (hGive.symm.trans hGive'))

end Bindings

end GraphRewriting
