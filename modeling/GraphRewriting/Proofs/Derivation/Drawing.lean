import GraphRewriting.Proofs.Derivation.Actions

/-
  Drawing ids for a graph from a pool that keeps the numbers of
  its nodes in use. With room left, every id is the least one
  that is new, and none of them is refused.

  Main declarations:
    * `NodeId.AreLeast`
    * `IdPool.Keeps`
    * `drawIds_of_keeps`
    * `numberNodes_eq_of_drawIds`
-/

------------------------------------------------------------
-- Numbers Of Ids
------------------------------------------------------------

namespace GraphRewriting

namespace NodeId

variable {ids others : List NodeId}

theorem toNat_mem_numbers_iff
    {value : UInt64} :
    value.toNat ∈ numbers ids ↔ num value ∈ ids := by
  rw [mem_numbers_iff]
  constructor
  · rintro ⟨other, hOther, hEq⟩
    exact UInt64.toNat_inj.1 hEq ▸ hOther
  · intro hValue
    exact ⟨value, hValue, rfl⟩

theorem numbers_subset
    (h : ∀ id ∈ ids, id ∈ others) :
    numbers ids ⊆ numbers others := by
  intro n hn
  rcases mem_numbers_iff.1 hn with ⟨value, hValue, rfl⟩
  exact mem_numbers_iff.2 ⟨value, h _ hValue, rfl⟩

/- Only which ids there are matters, not their order. -/
theorem numbers_congr
    (h : ∀ id : NodeId, id ∈ ids ↔ id ∈ others) :
    numbers ids = numbers others :=
  Finset.Subset.antisymm (numbers_subset fun id => (h id).1)
    (numbers_subset fun id => (h id).2)

/-
  Without the numbers of some ids there are
  those of the others.
-/
theorem numbers_sdiff
    (ids others : List NodeId) :
    numbers ids \ numbers others =
      numbers (ids.filter fun id => id ∉ others) := by
  ext n
  rw [Finset.mem_sdiff]
  constructor
  · rintro ⟨hn, hNot⟩
    rcases mem_numbers_iff.1 hn with ⟨value, hValue, rfl⟩
    rw [toNat_mem_numbers_iff] at hNot ⊢
    exact List.mem_filter.2 ⟨hValue, decide_eq_true hNot⟩
  · intro hn
    rcases mem_numbers_iff.1 hn with ⟨value, hValue, rfl⟩
    rcases List.mem_filter.1 hValue with ⟨hValue, hNot⟩
    rw [toNat_mem_numbers_iff, toNat_mem_numbers_iff]
    exact ⟨hValue, of_decide_eq_true hNot⟩

/-
  Each of some ids is the least number that is not among some
  numbers, nor among the ids before it.
-/
def AreLeast : Finset Nat → List NodeId → Prop
  | _, [] => True
  | used, id :: ids =>
      (∃ n < idLimit,
        IsLeast {k | k ∉ used} n ∧ id = num (UInt64.ofNat n)) ∧
        AreLeast (numbers [id] ∪ used) ids

end NodeId

end GraphRewriting

------------------------------------------------------------
-- Pools That Keep Some Numbers
------------------------------------------------------------

namespace GraphRewriting

namespace IdPool

/- The numbers in use are some numbers and no others. -/
structure Keeps
    (pool : IdPool)
    (used : Finset Nat) : Prop where
  consistent : pool.IsConsistent
  inUse_iff : ∀ n : Nat, pool.InUse n ↔ n ∈ used

namespace Keeps

variable {pool : IdPool}
variable {used : Finset Nat}

/- A new pool keeps nothing. -/
theorem ofChunkSize
    (chunkSize : Nat) :
    (IdPool.ofChunkSize chunkSize).Keeps ∅ where
  consistent := isConsistent_ofChunkSize chunkSize
  inUse_iff n :=
    iff_of_false (not_inUse_ofChunkSize chunkSize n)
      (Finset.notMem_empty n)

theorem reset : pool.reset.Keeps ∅ where
  consistent := isConsistent_reset
  inUse_iff n :=
    iff_of_false (not_inUse_reset n) (Finset.notMem_empty n)

/- What is given back is not kept any more. -/
theorem pushAll
    (h : pool.Keeps used)
    (ids : List NodeId) :
    (pool.pushAll ids).Keeps (used \ NodeId.numbers ids) where
  consistent := h.consistent.pushAll ids
  inUse_iff n := by
    rw [h.consistent.inUse_pushAll_iff, h.inUse_iff,
      Finset.mem_sdiff, and_comm]

/- What is taken is kept from then on. -/
theorem reserveAll
    (h : pool.Keeps used)
    (ids : List NodeId) :
    (pool.reserveAll ids).Keeps
      (NodeId.numbers ids ∪ used) where
  consistent := h.consistent.reserveAll ids
  inUse_iff n := by
    rw [inUse_reserveAll_iff, h.inUse_iff, Finset.mem_union]

/-
  With room left, the least number that is not kept is drawn,
  and kept from then on.
-/
theorem pop
    (h : pool.Keeps used)
    (hRoom : used.card < idLimit) :
    (∃ n < idLimit,
        IsLeast {k | k ∉ used} n ∧
          pool.pop.1 = .num (UInt64.ofNat n)) ∧
      (∀ n ∈ NodeId.numbers [pool.pop.1], n ∉ used) ∧
        pool.pop.2.Keeps
          (NodeId.numbers [pool.pop.1] ∪ used) := by
  rcases pool.exists_isLeast_or_forall_inUse with
    ⟨n, hLimit, hLeast⟩ | hAll
  · rcases pop_of_isLeast h.consistent hLimit hLeast with
      ⟨hDrawn, hNext, hUse⟩
    have hSets : {k | ¬ pool.InUse k} = {k | k ∉ used} :=
      Set.ext fun k => not_congr (h.inUse_iff k)
    rw [hSets] at hLeast
    have hNumber : NodeId.numbers [pool.pop.1] = {n} := by
      rw [hDrawn, NodeId.numbers_singleton_num,
        toNat_ofNat_of_le (Nat.le_of_lt hLimit)]
    refine ⟨⟨n, hLimit, hLeast, hDrawn⟩, ?_, hNext, ?_⟩
    · intro k hk
      rw [hNumber, Finset.mem_singleton] at hk
      exact hk ▸ hLeast.1
    · intro k
      rw [hNumber, hUse, h.inUse_iff, Finset.mem_union,
        Finset.mem_singleton]
  · have hSubset : Finset.range idLimit ⊆ used := by
      intro n hn
      exact (h.inUse_iff n).1 (hAll n (Finset.mem_range.1 hn))
    have hCard := Finset.card_le_card hSubset
    rw [Finset.card_range] at hCard
    omega

end Keeps

end IdPool

end GraphRewriting

------------------------------------------------------------
-- Drawing From A Pool That Keeps The Numbers Of A Graph
------------------------------------------------------------

namespace GraphRewriting

variable {pool : IdPool}
variable {used : Finset Nat}
variable {rule : String}
variable {target : Graph}
variable {fresh : FreshIds}
variable {ids before : List NodeId}

theorem IdPool.popMany_succ
    (pool : IdPool)
    (count : Nat) :
    (pool.popMany (count + 1)).1 =
      pool.pop.1 :: (pool.pop.2.popMany count).1 := rfl

/-
  A draw takes the next id of the pool and puts it on record.
-/
theorem drawFromPool_eq
    (localId : NodeId) :
    Derivation.drawFromPool localId (pool, before) =
      (pool.pop.1, pool.pop.2, before ++ [pool.pop.1]) := rfl

/-
  The record of drawn ids grows by ids of the pool, one for
  each local id at most.
-/
theorem exists_record
    (rule : String)
    (target : Graph)
    (pool : IdPool)
    (fresh : FreshIds)
    (ids before : List NodeId) :
    ∃ drawn left : List NodeId,
      (drawIds rule target Derivation.drawFromPool fresh ids
        (pool, before)).2.2 =
          before ++ drawn ∧
        (pool.popMany ids.length).1 = drawn ++ left := by
  induction ids generalizing pool fresh before with
  | nil => exact ⟨[], [], (List.append_nil _).symm, rfl⟩
  | cons localId ids ih =>
      rw [List.length_cons, IdPool.popMany_succ]
      unfold drawIds
      rw [drawFromPool_eq]
      dsimp only
      split
      · exact ⟨[pool.pop.1], _, rfl, rfl⟩
      · rcases
            ih pool.pop.2 (fresh.insert localId pool.pop.1)
              (before ++ [pool.pop.1]) with
          ⟨drawn, left, hRecord, hPopped⟩
        refine ⟨pool.pop.1 :: drawn, left, ?_, ?_⟩
        · rw [hRecord, List.append_assoc]
          rfl
        · rw [hPopped]
          rfl

/-
  What comes of drawing ids when none of them is refused: each
  is the least one that is new, and has become a name.
-/
structure DrawsAll
    (outcome :
      Except GrammarError FreshIds × IdPool × List NodeId)
    (fresh : FreshIds)
    (used : Finset Nat)
    (drawn : List NodeId) : Prop where
  success :
    ∃ found : FreshIds,
      outcome.1 = .ok found ∧
        ∀ id : NodeId,
          id ∈ found.values ↔ id ∈ fresh.values ∨ id ∈ drawn
  least : NodeId.AreLeast used drawn
  keeps : outcome.2.1.Keeps (NodeId.numbers drawn ∪ used)

/-
  A pool that keeps the numbers of the nodes gives ids that
  are new, with room left.
-/
theorem drawIds_of_keeps
    (hPool : pool.Keeps used)
    (hTarget : NodeId.numbers target.nodeIds ⊆ used)
    (hValues : NodeId.numbers fresh.values ⊆ used)
    (hNodup : ids.Nodup)
    (hUnnamed : ∀ a ∈ ids, fresh[a]? = none)
    {drawn : List NodeId}
    (hRecord :
      (drawIds rule target Derivation.drawFromPool fresh ids
        (pool, before)).2.2 =
        before ++ drawn)
    (hRoom : (NodeId.numbers drawn ∪ used).card < idLimit) :
    DrawsAll
      (drawIds rule target Derivation.drawFromPool fresh ids
        (pool, before))
      fresh
      used drawn := by
  induction ids generalizing pool used fresh before drawn with
  | nil =>
      have hNil : [] = drawn :=
        List.append_cancel_left
          ((List.append_nil _).trans hRecord)
      subst hNil
      exact
        ⟨⟨fresh, rfl, fun id => by simp⟩, trivial,
          by simpa [drawIds] using hPool⟩
  | cons localId ids ih =>
      rw [List.nodup_cons] at hNodup
      rw [List.forall_mem_cons] at hUnnamed
      have hUsed : used.card < idLimit :=
        Nat.lt_of_le_of_lt
          (Finset.card_le_card Finset.subset_union_right) hRoom
      rcases hPool.pop hUsed with ⟨hLeast, hApart, hNext⟩
      have hRefused :
          ¬ (pool.pop.1 ∈ target.nodes ∨
            pool.pop.1 ∈ fresh.values) := by
        rcases hLeast with ⟨n, -, -, hId⟩
        rw [hId] at hApart ⊢
        have hNot : (UInt64.ofNat n).toNat ∉ used :=
          hApart _
            (NodeId.toNat_mem_numbers_iff.2
              (List.mem_singleton_self _))
        rintro (hMem | hMem)
        · exact hNot
            (hTarget
              (NodeId.toNat_mem_numbers_iff.2
                (Graph.mem_nodeIds.2 hMem)))
        · exact
            hNot (hValues (NodeId.toNat_mem_numbers_iff.2 hMem))
      unfold drawIds at hRecord ⊢
      rw [drawFromPool_eq] at hRecord ⊢
      dsimp only at hRecord ⊢
      rw [if_neg hRefused] at hRecord ⊢
      rcases
          exists_record rule target pool.pop.2
            (fresh.insert localId pool.pop.1) ids
            (before ++ [pool.pop.1]) with
        ⟨rest, -, hRest, -⟩
      have hDrawn : pool.pop.1 :: rest = drawn := by
        rw [hRest, List.append_assoc] at hRecord
        exact List.append_cancel_left hRecord
      subst hDrawn
      have hStep :
          DrawsAll
            (drawIds rule target Derivation.drawFromPool
              (fresh.insert localId pool.pop.1) ids
                (pool.pop.2, before ++ [pool.pop.1]))
            (fresh.insert localId pool.pop.1)
              (NodeId.numbers [pool.pop.1] ∪ used) rest := by
        apply ih hNext (hTarget.trans Finset.subset_union_right)
          _ hNodup.2 _ hRest
        · rwa [NodeId.numbers_cons pool.pop.1 rest,
            Finset.union_comm (NodeId.numbers _),
            Finset.union_assoc] at hRoom
        · intro n hn
          rcases NodeId.mem_numbers_iff.1 hn with
            ⟨value, hValue, rfl⟩
          rw [Finset.mem_union, NodeId.toNat_mem_numbers_iff]
          rcases (mem_values_insert hUnnamed.1).1 hValue with
            hOld | hNew
          · exact Or.inr
              (hValues (NodeId.toNat_mem_numbers_iff.2 hOld))
          · exact Or.inl (List.mem_singleton.2 hNew)
        · intro a ha
          have hNe : localId ≠ a := fun hEq =>
            hNodup.1 (hEq ▸ ha)
          simp only [Std.ExtTreeMap.getElem?_insert,
            Std.compare_eq_iff_eq, hNe, if_false]
          exact hUnnamed.2 a ha
      rcases hStep with
        ⟨⟨found, hFound, hIds⟩, hRestLeast, hKeeps⟩
      refine ⟨⟨found, hFound, ?_⟩, ⟨hLeast, hRestLeast⟩, ?_⟩
      · intro id
        rw [hIds, mem_values_insert hUnnamed.1, List.mem_cons,
          or_assoc]
      · rwa [NodeId.numbers_cons pool.pop.1 rest,
          Finset.union_comm (NodeId.numbers [_]),
          Finset.union_assoc]

/- Numbering nodes is drawing ids that are never refused. -/
theorem numberNodes_eq_of_drawIds
    {found : FreshIds}
    {rest : IdPool}
    {record : List NodeId}
    (hDraw :
      drawIds rule target Derivation.drawFromPool fresh ids
        (pool, before) =
        (.ok found, rest, record)) :
    numberNodes fresh pool ids = (found, rest) ∧
      record = before ++ (pool.popMany ids.length).1 := by
  induction ids generalizing pool fresh before with
  | nil =>
      cases hDraw
      exact ⟨rfl, (List.append_nil _).symm⟩
  | cons localId ids ih =>
      unfold drawIds at hDraw
      rw [drawFromPool_eq] at hDraw
      dsimp only at hDraw
      split at hDraw
      · cases hDraw
      · rcases ih hDraw with ⟨hNumbered, hRecord⟩
        refine ⟨hNumbered, ?_⟩
        rw [hRecord, List.append_assoc]
        rfl

end GraphRewriting
