import GraphRewriting.Proofs.FiniteMap
import GraphRewriting.Rule.FreshId

/-
  Drawing ids: distinct ids that a graph does not hold are all
  accepted, and what is accepted names each local id by an id
  of its own.

  Main declarations:
    * `IdSource.drawn`
    * `FreshIds.IsFresh`
    * `drawIds_isFresh`
    * `exists_drawIds_eq_ok`
    * `exists_drawIds_eq_ok_iff`
    * `IdSource.names`
    * `exists_drawIds_eq_names`
-/

namespace GraphRewriting

variable {σ : Type}
variable {source : IdSource σ}
variable {rule : String}
variable {target : Graph}
variable {fresh found : FreshIds}
variable {ids : List NodeId}
variable {supply rest : σ}

/-
  The ids that a source gives for local ids,
  one after the other.
-/
def IdSource.drawn
    (source : IdSource σ) :
    List NodeId → σ → List NodeId
  | [], _ => []
  | localId :: rest, supply =>
      let (id, supply) := source localId supply
      id :: IdSource.drawn source rest supply

/-
  Some local ids have names, all different and none of them in
  the target graph.
-/
structure FreshIds.IsFresh
    (fresh : FreshIds)
    (target : Graph)
    (ids : List NodeId) : Prop where
  keys : ∀ a : NodeId, a ∈ fresh ↔ a ∈ ids
  absent :
    ∀ a id : NodeId, fresh[a]? = some id → id ∉ target.nodes
  injective :
    ∀ a b id : NodeId,
      fresh[a]? = some id → fresh[b]? = some id → a = b

theorem FreshIds.isFresh_empty :
    FreshIds.IsFresh ∅ target [] where
  keys a := by simp
  absent a id h := by simp at h
  injective a b id h := by simp at h

/- A new id for one more local id. -/
theorem FreshIds.IsFresh.insert
    (h : fresh.IsFresh target ids)
    {localId id : NodeId}
    (hAbsent : id ∉ target.nodes)
    (hFree : id ∉ fresh.values) :
    FreshIds.IsFresh (fresh.insert localId id) target
      (ids ++ [localId]) := by
  have hUnused : ∀ a : NodeId, fresh[a]? ≠ some id :=
    fun a ha => hFree (mem_values.2 ⟨a, ha⟩)
  have hLookup :
      ∀ a other : NodeId,
        (fresh.insert localId id)[a]? = some other →
          (a = localId ∧ other = id) ∨
            fresh[a]? = some other := by
    intro a other ha
    rw [Std.ExtTreeMap.getElem?_insert] at ha
    simp only [Std.compare_eq_iff_eq] at ha
    split at ha
    · rename_i hLocal
      cases ha
      exact Or.inl ⟨hLocal.symm, rfl⟩
    · exact Or.inr ha
  constructor
  · intro a
    rw [Std.ExtTreeMap.mem_insert, Std.compare_eq_iff_eq,
      h.keys, List.mem_append, List.mem_singleton, or_comm,
      eq_comm]
  · intro a other ha
    rcases hLookup a other ha with ⟨-, rfl⟩ | hOld
    · exact hAbsent
    · exact h.absent a other hOld
  · intro a b other ha hb
    rcases hLookup a other ha with ⟨rfl, rfl⟩ | hOldA
    · rcases hLookup b other hb with ⟨rfl, -⟩ | hOldB
      · rfl
      · exact absurd hOldB (hUnused b)
    · rcases hLookup b other hb with ⟨-, rfl⟩ | hOldB
      · exact absurd hOldA (hUnused a)
      · exact h.injective a b other hOldA hOldB

/- The ids drawn so far stay fresh as more are drawn. -/
private theorem drawIds_isFresh_append
    {done : List NodeId}
    (h : fresh.IsFresh target done)
    (hDraw :
      drawIds rule target source fresh ids supply =
        (.ok found, rest)) :
    found.IsFresh target (done ++ ids) := by
  induction ids generalizing fresh done supply with
  | nil =>
      unfold drawIds at hDraw
      cases hDraw
      rw [List.append_nil]
      exact h
  | cons localId ids ih =>
      unfold drawIds at hDraw
      dsimp only at hDraw
      split at hDraw
      · cases hDraw
      · rename_i hNew
        rw [not_or] at hNew
        have hNext := ih (h.insert hNew.1 hNew.2) hDraw
        rwa [List.append_assoc] at hNext

/-
  Ids that were drawn name the local ids they were drawn for.
-/
theorem drawIds_isFresh
    (hDraw :
      drawIds rule target source ∅ ids supply =
        (.ok found, rest)) :
    found.IsFresh target ids :=
  drawIds_isFresh_append FreshIds.isFresh_empty hDraw

/-
  Drawing goes through if what the source gives is new to the
  graph and to the ids drawn so far.
-/
private theorem exists_drawIds_append_eq_ok
    (hNodup : (source.drawn ids supply).Nodup)
    (hAbsent :
      ∀ id ∈ source.drawn ids supply, id ∉ target.nodes)
    (hFree :
      ∀ id ∈ source.drawn ids supply, id ∉ fresh.values) :
    ∃ (found : FreshIds) (rest : σ),
      drawIds rule target source fresh ids supply =
        (.ok found, rest) := by
  induction ids generalizing fresh supply with
  | nil => exact ⟨fresh, supply, rfl⟩
  | cons localId ids ih =>
      unfold IdSource.drawn at hNodup hAbsent hFree
      dsimp only at hNodup hAbsent hFree
      rw [List.nodup_cons] at hNodup
      rw [List.forall_mem_cons] at hAbsent hFree
      unfold drawIds
      dsimp only
      rw [if_neg (not_or.2 ⟨hAbsent.1, hFree.1⟩)]
      apply ih hNodup.2 hAbsent.2
      intro id hId hValue
      rcases mem_values.1 hValue with ⟨a, ha⟩
      rw [Std.ExtTreeMap.getElem?_insert] at ha
      split at ha
      · cases ha
        exact hNodup.1 hId
      · exact hFree.2 id hId (mem_values.2 ⟨a, ha⟩)

/- Distinct ids that the graph does not hold are accepted. -/
theorem exists_drawIds_eq_ok
    (hNodup : (source.drawn ids supply).Nodup)
    (hAbsent :
      ∀ id ∈ source.drawn ids supply, id ∉ target.nodes) :
    ∃ (found : FreshIds) (rest : σ),
      drawIds rule target source ∅ ids supply =
        (.ok found, rest) := by
  apply exists_drawIds_append_eq_ok hNodup hAbsent
  intro id _ hValue
  rcases mem_values.1 hValue with ⟨a, ha⟩
  simp at ha

/-
  Ids that are accepted are distinct, and none
  of them was in use.
-/
private theorem drawn_of_drawIds_eq_ok
    (hIds : ids.Nodup)
    (hUnnamed : ∀ a ∈ ids, fresh[a]? = none)
    (hDraw :
      drawIds rule target source fresh ids supply =
        (.ok found, rest)) :
    (source.drawn ids supply).Nodup ∧
      ∀ id ∈ source.drawn ids supply,
        id ∉ target.nodes ∧ id ∉ fresh.values := by
  induction ids generalizing fresh supply with
  | nil =>
      unfold IdSource.drawn
      simp
  | cons localId ids ih =>
      unfold drawIds at hDraw
      dsimp only at hDraw
      split at hDraw
      · cases hDraw
      · rename_i hNew
        rw [not_or] at hNew
        rw [List.nodup_cons] at hIds
        rw [List.forall_mem_cons] at hUnnamed
        have hNext :
            ∀ a ∈ ids,
              (fresh.insert localId
                  (source localId supply).1)[a]? =
                none := by
          intro a ha
          rw [Std.ExtTreeMap.getElem?_insert, if_neg]
          · exact hUnnamed.2 a ha
          · rw [Std.compare_eq_iff_eq]
            rintro rfl
            exact hIds.1 ha
        rcases ih hIds.2 hNext hDraw with ⟨hNodup, hRest⟩
        simp only [mem_values_insert hUnnamed.1,
          not_or] at hRest
        unfold IdSource.drawn
        dsimp only
        rw [List.nodup_cons, List.forall_mem_cons]
        refine
          ⟨⟨fun hMem => (hRest _ hMem).2.2 rfl, hNodup⟩, hNew,
            ?_⟩
        intro id hId
        exact ⟨(hRest id hId).1, (hRest id hId).2.1⟩

/-
  Ids are accepted exactly if they are distinct and the graph
  holds none of them.
-/
theorem exists_drawIds_eq_ok_iff
    (hIds : ids.Nodup) :
    (∃ (found : FreshIds) (rest : σ),
        drawIds rule target source ∅ ids supply =
          (.ok found, rest)) ↔
      (source.drawn ids supply).Nodup ∧
        ∀ id ∈ source.drawn ids supply, id ∉ target.nodes := by
  constructor
  · rintro ⟨found, rest, hDraw⟩
    have hUnnamed : ∀ a ∈ ids, (∅ : FreshIds)[a]? = none :=
      fun _ _ => Std.ExtTreeMap.getElem?_empty
    rcases drawn_of_drawIds_eq_ok hIds hUnnamed hDraw with
      ⟨hNodup, hAbsent⟩
    exact ⟨hNodup, fun id hId => (hAbsent id hId).1⟩
  · rintro ⟨hNodup, hAbsent⟩
    exact exists_drawIds_eq_ok hNodup hAbsent

/- Local ids with the ids that a source gives for them. -/
def IdSource.names
    (source : IdSource σ)
    (ids : List NodeId)
    (supply : σ) : FreshIds :=
  (∅ : FreshIds).insertMany (ids.zip (source.drawn ids supply))

/-
  Drawing puts down the ids in the order the
  source gives them.
-/
private theorem eq_insertMany_of_drawIds_eq_ok
    (hDraw :
      drawIds rule target source fresh ids supply =
        (.ok found, rest)) :
    found =
      fresh.insertMany (ids.zip (source.drawn ids supply)) := by
  induction ids generalizing fresh supply with
  | nil =>
      unfold drawIds at hDraw
      cases hDraw
      rw [List.zip_nil_left, Std.ExtTreeMap.insertMany_nil]
  | cons localId ids ih =>
      unfold drawIds at hDraw
      dsimp only at hDraw
      split at hDraw
      · cases hDraw
      · rw [IdSource.drawn, List.zip_cons_cons,
          Std.ExtTreeMap.insertMany_cons]
        exact ih hDraw

/-
  Distinct ids that the graph does not hold
  are the ones drawn.
-/
theorem exists_drawIds_eq_names
    (hNodup : (source.drawn ids supply).Nodup)
    (hAbsent :
      ∀ id ∈ source.drawn ids supply, id ∉ target.nodes) :
    ∃ rest : σ,
      drawIds rule target source ∅ ids supply =
        (.ok (source.names ids supply), rest) := by
  rcases exists_drawIds_eq_ok hNodup hAbsent with
    ⟨found, rest, hDraw⟩
  rw [eq_insertMany_of_drawIds_eq_ok hDraw] at hDraw
  exact ⟨rest, hDraw⟩

/- Distinct ids outside the target are fresh. -/
theorem isFresh_names
    (hNodup : (source.drawn ids supply).Nodup)
    (hAbsent :
      ∀ id ∈ source.drawn ids supply, id ∉ target.nodes) :
    (source.names ids supply).IsFresh target ids := by
  obtain ⟨rest, hDraw⟩ :
      ∃ rest : σ,
        drawIds "" target source ∅ ids supply =
          (.ok (source.names ids supply), rest) :=
    exists_drawIds_eq_names hNodup hAbsent
  exact drawIds_isFresh hDraw

/- Every name is an id that the source gives. -/
theorem mem_drawn_of_getElem?_names
    {a id : NodeId}
    (ha : (source.names ids supply)[a]? = some id) :
    id ∈ source.drawn ids supply := by
  unfold IdSource.names at ha
  rw [Std.ExtTreeMap.getElem?_insertMany_list,
    Std.ExtTreeMap.getElem?_empty, Option.or_none,
    List.findSomeRev?_eq_findSome?_reverse] at ha
  rcases List.exists_of_findSome?_eq_some ha with
    ⟨⟨localId, value⟩, hEntry, hValue⟩
  have hZip := List.of_mem_zip (List.mem_reverse.1 hEntry)
  simp only [Option.ite_none_right_eq_some,
    Option.some.injEq] at hValue
  exact hValue.2 ▸ hZip.2

end GraphRewriting
