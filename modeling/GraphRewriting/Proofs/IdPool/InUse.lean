import GraphRewriting.IdPool
import Mathlib.Data.Finset.Card
import Mathlib.Data.Nat.Find
import Mathlib.Order.Bounds.Basic

/-
  The numbers that a pool keeps in use, and what each operation
  of the pool does to them. A chunk that becomes free changes
  none of them, so a pool behaves as if all numbers were free
  from the start.

  Main declarations:
    * `IdPool.InUse`
    * `IdPool.IsConsistent`
    * `IdPool.Fills`
    * `IdPool.fills_ensureFree`
    * `IdPool.pop_of_isLeast`
    * `IdPool.SameUse`
-/

------------------------------------------------------------
-- Chunks
------------------------------------------------------------

namespace GraphRewriting

namespace IdPool

/-
  A number below the border that is not free is in use, and so
  is one kept ahead.
-/
def InUse
    (pool : IdPool)
    (n : Nat) : Prop :=
  (n < pool.border ∧ n ∉ pool.free) ∨ n ∈ pool.usedAhead

/- Free ids are below the border, and ids kept ahead are not. -/
structure IsConsistent (pool : IdPool) : Prop where
  border_le : pool.border ≤ idLimit
  free_lt : ∀ n ∈ pool.free, n < pool.border
  border_le_ahead : ∀ n ∈ pool.usedAhead, pool.border ≤ n

variable {pool filled : IdPool}

/- Free numbers are not in use. -/
theorem IsConsistent.not_inUse_of_mem_free
    (hPool : pool.IsConsistent)
    {n : Nat}
    (hn : n ∈ pool.free) :
    ¬ pool.InUse n := by
  have hLt := hPool.free_lt n hn
  rintro (⟨-, hUsed⟩ | hAhead)
  · exact hUsed hn
  · have hLe := hPool.border_le_ahead n hAhead
    omega

/-
  Filling adds the numbers of the next chunk, without those
  that are used ahead.
-/
theorem mem_free_refill
    {n : Nat} :
    n ∈ pool.refill.free ↔
      n ∈ pool.free ∨
        (pool.border ≤ n ∧ n < pool.nextBorder) ∧
          n ∉ pool.usedAhead := by
  unfold refill
  dsimp only
  rw [Std.ExtTreeSet.mem_insertMany_list, List.contains_iff_mem,
    List.mem_filter, List.mem_range'_1, Bool.not_eq_true',
    ← Bool.not_eq_true, Std.ExtTreeSet.contains_iff_mem]
  apply or_congr_right
  apply and_congr_left
  intro _
  omega

/- Only numbers beyond the new border are still used ahead. -/
theorem mem_usedAhead_refill
    {n : Nat} :
    n ∈ pool.refill.usedAhead ↔
      n ∈ pool.usedAhead ∧ pool.nextBorder ≤ n := by
  unfold refill
  dsimp only
  rw [Std.ExtTreeSet.mem_filter]
  simp

theorem border_refill :
    pool.refill.border = pool.nextBorder := rfl

/- The border moves up, or stays at the last number. -/
theorem IsConsistent.border_le_nextBorder
    (hPool : pool.IsConsistent) :
    pool.border ≤ pool.nextBorder := by
  have hLe := hPool.border_le
  unfold nextBorder
  omega

/- Filling keeps a pool consistent. -/
theorem IsConsistent.refill
    (hPool : pool.IsConsistent) :
    pool.refill.IsConsistent where
  border_le := Nat.min_le_right _ _
  free_lt n hn := by
    have hBorder := hPool.border_le_nextBorder
    rw [border_refill]
    rcases mem_free_refill.1 hn with hFree | ⟨⟨-, hLt⟩, -⟩
    · have hLt := hPool.free_lt n hFree
      omega
    · exact hLt
  border_le_ahead n hn := (mem_usedAhead_refill.1 hn).2

/- One more chunk changes nothing about the numbers in use. -/
theorem IsConsistent.inUse_refill_iff
    (hPool : pool.IsConsistent)
    {n : Nat} :
    pool.refill.InUse n ↔ pool.InUse n := by
  have hBorder := hPool.border_le_nextBorder
  have hFree := hPool.free_lt n
  have hAhead := hPool.border_le_ahead n
  unfold InUse
  rw [mem_free_refill, mem_usedAhead_refill, border_refill]
  by_cases hUsed : n ∈ pool.usedAhead
  · have hLe := hAhead hUsed
    have hNot : n ∉ pool.free := fun hn => by
      have hLt := hFree hn
      omega
    simp only [hUsed, hNot, not_true_eq_false, and_false,
      or_false, not_false_eq_true, and_true, true_and, or_true,
      iff_true]
    omega
  · by_cases hn : n ∈ pool.free
    · simp [hn, hUsed]
    · simp only [hn, hUsed, not_false_eq_true, and_true,
        false_or, false_and, or_false]
      omega

end IdPool

end GraphRewriting

------------------------------------------------------------
-- Adding Chunks
------------------------------------------------------------

namespace GraphRewriting

namespace IdPool

variable {pool filled : IdPool}

/- No id is free, and there are more ids to come. -/
def IsDry (pool : IdPool) : Prop :=
  pool.free.isEmpty = true ∧ pool.border < idLimit

/-
  The loop that adds chunks to a pool while it is
  dry, run to its end.
-/
inductive Fills : IdPool → IdPool → Prop where
  | stop {pool : IdPool} (hStop : ¬ pool.IsDry) :
    Fills pool pool
  | chunk
      {pool filled : IdPool}
      (hDry : pool.IsDry)
      (hFills : Fills pool.refill filled) : Fills pool filled

/-
  A chunk without a free id holds an id in use that
  is no longer ahead.
-/
theorem IsDry.size_usedAhead_refill_lt
    (hDry : pool.IsDry)
    (hStill : pool.refill.IsDry) :
    pool.refill.usedAhead.size < pool.usedAhead.size := by
  have hLt : pool.border < pool.nextBorder := by
    have hChunk := pool.chunkSize_pos
    have hMore := hDry.2
    unfold nextBorder
    omega
  have hUsed : pool.border ∈ pool.usedAhead := by
    by_contra hNot
    have hFree :=
      mem_free_refill.2 (Or.inr ⟨⟨Nat.le_refl _, hLt⟩, hNot⟩)
    rw [Std.ExtTreeSet.isEmpty_iff.1 hStill.1] at hFree
    exact Std.ExtTreeSet.not_mem_empty hFree
  apply Nat.lt_of_le_of_ne Std.ExtTreeSet.size_filter_le_size
  intro hSize
  have hKept :=
    Std.ExtTreeSet.size_filter_eq_size_iff.1 hSize pool.border
      hUsed
  simp only [Std.ExtTreeSet.get_eq, decide_eq_true_eq] at hKept
  omega

/- A pool with free numbers is not filled. -/
private theorem fillWithin_eq_self
    (hStop : ¬ pool.IsDry)
    (chunks : Nat) :
    pool.fillWithin chunks = pool := by
  cases chunks with
  | zero => rfl
  | succ chunks => exact if_neg hStop

/-
  The loop ends within one chunk more than there are ids in use
  ahead.
-/
private theorem fills_fillWithin
    {chunks : Nat}
    (hChunks : pool.usedAhead.size < chunks) :
    pool.Fills (fillWithin chunks pool) := by
  induction chunks generalizing pool with
  | zero => omega
  | succ chunks ih =>
      by_cases hDry : pool.IsDry
      · have hStep :
            fillWithin (chunks + 1) pool =
              fillWithin chunks pool.refill :=
          if_pos hDry
        rw [hStep]
        apply Fills.chunk hDry
        by_cases hStill : pool.refill.IsDry
        · have hLt := hDry.size_usedAhead_refill_lt hStill
          exact ih (by omega)
        · rw [fillWithin_eq_self hStill]
          exact Fills.stop hStill
      · rw [fillWithin_eq_self hDry]
        exact Fills.stop hDry

/- The loop ends in every pool. -/
theorem fills_ensureFree : pool.Fills pool.ensureFree :=
  fills_fillWithin (Nat.lt_succ_self _)

/- Filling goes on until the pool is not dry. -/
theorem Fills.not_isDry
    (hFills : pool.Fills filled) :
    ¬ filled.IsDry := by
  induction hFills with
  | stop hStop => exact hStop
  | chunk _ _ ih => exact ih

theorem Fills.isConsistent
    (hFills : pool.Fills filled)
    (hPool : pool.IsConsistent) :
    filled.IsConsistent := by
  induction hFills with
  | stop _ => exact hPool
  | chunk _ _ ih => exact ih hPool.refill

/- Filling does not change what is in use. -/
theorem Fills.inUse_iff
    (hFills : pool.Fills filled)
    (hPool : pool.IsConsistent)
    {n : Nat} :
    filled.InUse n ↔ pool.InUse n := by
  induction hFills with
  | stop _ => exact Iff.rfl
  | chunk _ _ ih =>
      exact (ih hPool.refill).trans hPool.inUse_refill_iff

/-
  Where no id is free after the loop, all numbers below
  the limit are in use.
-/
theorem Fills.border_eq
    (hFills : pool.Fills filled)
    (hPool : pool.IsConsistent)
    (hFree : filled.free = ∅) :
    filled.border = idLimit := by
  have hStop := hFills.not_isDry
  have hLe := (hFills.isConsistent hPool).border_le
  unfold IsDry at hStop
  rw [Std.ExtTreeSet.isEmpty_iff, and_iff_right hFree] at hStop
  omega

end IdPool

end GraphRewriting

------------------------------------------------------------
-- Operations
------------------------------------------------------------

namespace GraphRewriting

/- The numbers among some ids. -/
def NodeId.numbers (ids : List NodeId) : Finset Nat :=
  ((ids.filterMap num?).map UInt64.toNat).toFinset

/- The numbers of ids are those of the numeric ones. -/
theorem NodeId.mem_numbers_iff
    {ids : List NodeId}
    {n : Nat} :
    n ∈ numbers ids ↔
      ∃ value : UInt64, num value ∈ ids ∧ value.toNat = n := by
  unfold numbers
  rw [List.mem_toFinset, List.mem_map]
  apply exists_congr
  intro value
  rw [List.mem_filterMap]
  apply and_congr_left
  intro _
  constructor
  · rintro ⟨id, hId, hValue⟩
    cases id with
    | num other =>
        cases hValue
        exact hId
    | name text => cases hValue
  · intro hId
    exact ⟨_, hId, rfl⟩

/- A number stands for one id. -/
theorem NodeId.eq_of_mem_numbers
    {id other : NodeId}
    {n : Nat}
    (hId : n ∈ numbers [id])
    (hOther : n ∈ numbers [other]) :
    id = other := by
  rcases mem_numbers_iff.1 hId with ⟨value, hValue, rfl⟩
  rcases mem_numbers_iff.1 hOther with ⟨value', hValue', hEq⟩
  rw [List.mem_singleton] at hValue hValue'
  rw [← hValue, ← hValue', UInt64.toNat_inj.1 hEq]

@[simp]
theorem NodeId.numbers_nil : numbers [] = ∅ := rfl

@[simp]
theorem NodeId.numbers_singleton_num
    (value : UInt64) :
    numbers [num value] = {value.toNat} := rfl

@[simp]
theorem NodeId.numbers_singleton_name
    (text : String) :
    numbers [name text] = ∅ := rfl

theorem NodeId.numbers_append
    (ids others : List NodeId) :
    numbers (ids ++ others) = numbers ids ∪ numbers others := by
  unfold numbers
  rw [List.filterMap_append, List.map_append,
    List.toFinset_append]

theorem NodeId.numbers_cons
    (id : NodeId)
    (ids : List NodeId) :
    numbers (id :: ids) = numbers [id] ∪ numbers ids :=
  numbers_append [id] ids

namespace IdPool

variable {pool : IdPool}

theorem isConsistent_unfilled
    (chunkSize : Nat) :
    (unfilled chunkSize).IsConsistent where
  border_le := Nat.zero_le _
  free_lt _ hn := absurd hn Std.ExtTreeSet.not_mem_empty
  border_le_ahead _ _ := Nat.zero_le _

theorem not_inUse_of_eq_empty
    (hBorder : pool.border = 0)
    (hAhead : pool.usedAhead = ∅)
    (n : Nat) :
    ¬ pool.InUse n := by
  unfold InUse
  rw [hBorder, hAhead]
  simp

theorem isConsistent_ofChunkSize
    (chunkSize : Nat) :
    (ofChunkSize chunkSize).IsConsistent :=
  (isConsistent_unfilled chunkSize).refill

/- A new pool has no number in use. -/
theorem not_inUse_ofChunkSize
    (chunkSize n : Nat) :
    ¬ (ofChunkSize chunkSize).InUse n := by
  unfold ofChunkSize
  rw [(isConsistent_unfilled chunkSize).inUse_refill_iff]
  exact not_inUse_of_eq_empty rfl rfl n

/- A pool is consistent after a reset, whatever it was. -/
theorem isConsistent_reset : pool.reset.IsConsistent := by
  apply IsConsistent.refill
  exact
    ⟨Nat.zero_le _,
      fun _ hn => absurd hn Std.ExtTreeSet.not_mem_empty,
      fun _ _ => Nat.zero_le _⟩

/- A reset pool has no number in use. -/
theorem not_inUse_reset
    (n : Nat) :
    ¬ pool.reset.InUse n := by
  unfold reset
  rw [IsConsistent.inUse_refill_iff]
  · exact not_inUse_of_eq_empty rfl rfl n
  · exact
      ⟨Nat.zero_le _,
        fun _ hn => absurd hn Std.ExtTreeSet.not_mem_empty,
        fun _ _ => Nat.zero_le _⟩

/- Giving a number back keeps a pool consistent. -/
theorem IsConsistent.push
    (hPool : pool.IsConsistent)
    (id : NodeId) :
    (pool.push id).IsConsistent := by
  unfold IdPool.push
  cases id with
  | name text => exact hPool
  | num value =>
      dsimp only [NodeId.num?]
      split
      · rename_i hLt
        refine ⟨hPool.border_le, ?_, hPool.border_le_ahead⟩
        intro n hn
        rcases Std.ExtTreeSet.mem_insert.1 hn with hEq | hn
        · exact Std.LawfulEqCmp.eq_of_compare hEq ▸ hLt
        · exact hPool.free_lt n hn
      · refine ⟨hPool.border_le, hPool.free_lt, ?_⟩
        intro n hn
        exact hPool.border_le_ahead n
          (Std.ExtTreeSet.mem_erase.1 hn).2

/- A number that is given back is no longer in use. -/
theorem IsConsistent.inUse_push_iff
    (hPool : pool.IsConsistent)
    {id : NodeId}
    {n : Nat} :
    (pool.push id).InUse n ↔
      n ∉ NodeId.numbers [id] ∧ pool.InUse n := by
  cases id with
  | name text => simp [IdPool.push, NodeId.num?]
  | num value =>
      have hAhead := hPool.border_le_ahead n
      rw [NodeId.numbers_singleton_num, Finset.mem_singleton]
      unfold IdPool.push InUse
      dsimp only [NodeId.num?]
      split
      · rename_i hLt
        dsimp only
        rw [Std.ExtTreeSet.mem_insert, Std.compare_eq_iff_eq]
        by_cases hEq : value.toNat = n
        · subst hEq
          simp only [true_or, not_true_eq_false, and_false,
            false_or, false_and, iff_false]
          intro hn
          have hLe := hAhead hn
          omega
        · simp [hEq, Ne.symm hEq]
      · rename_i hLe
        dsimp only
        rw [Std.ExtTreeSet.mem_erase, ne_eq,
          Std.compare_eq_iff_eq]
        by_cases hEq : value.toNat = n
        · subst hEq
          simp [hLe]
        · simp [hEq, Ne.symm hEq]

/- Taking a number keeps a pool consistent. -/
theorem IsConsistent.reserve
    (hPool : pool.IsConsistent)
    (id : NodeId) :
    (pool.reserve id).IsConsistent := by
  unfold IdPool.reserve
  cases id with
  | name text => exact hPool
  | num value =>
      dsimp only [NodeId.num?]
      split
      · refine ⟨hPool.border_le, ?_, hPool.border_le_ahead⟩
        intro n hn
        exact hPool.free_lt n (Std.ExtTreeSet.mem_erase.1 hn).2
      · rename_i hLe
        refine ⟨hPool.border_le, hPool.free_lt, ?_⟩
        intro n hn
        rcases Std.ExtTreeSet.mem_insert.1 hn with hEq | hn
        · exact
            Std.LawfulEqCmp.eq_of_compare hEq ▸ Nat.not_lt.1 hLe
        · exact hPool.border_le_ahead n hn

/- A number that is reserved is in use. -/
theorem inUse_reserve_iff
    {id : NodeId}
    {n : Nat} :
    (pool.reserve id).InUse n ↔
      n ∈ NodeId.numbers [id] ∨ pool.InUse n := by
  cases id with
  | name text => simp [IdPool.reserve, NodeId.num?]
  | num value =>
      rw [NodeId.numbers_singleton_num, Finset.mem_singleton]
      unfold IdPool.reserve InUse
      dsimp only [NodeId.num?]
      split
      · rename_i hLt
        dsimp only
        rw [Std.ExtTreeSet.mem_erase, ne_eq,
          Std.compare_eq_iff_eq]
        by_cases hEq : value.toNat = n
        · subst hEq
          simp [hLt]
        · simp [hEq, Ne.symm hEq]
      · dsimp only
        rw [Std.ExtTreeSet.mem_insert, Std.compare_eq_iff_eq]
        by_cases hEq : value.toNat = n
        · subst hEq
          simp
        · simp [hEq, Ne.symm hEq]

/- Giving back many ids keeps a pool consistent. -/
theorem IsConsistent.pushAll
    (hPool : pool.IsConsistent)
    (ids : List NodeId) :
    (pool.pushAll ids).IsConsistent := by
  unfold IdPool.pushAll
  induction ids generalizing pool with
  | nil => exact hPool
  | cons id ids ih => exact ih (hPool.push id)

/- Numbers that are given back are not in use any more. -/
theorem IsConsistent.inUse_pushAll_iff
    (hPool : pool.IsConsistent)
    {ids : List NodeId}
    {n : Nat} :
    (pool.pushAll ids).InUse n ↔
      n ∉ NodeId.numbers ids ∧ pool.InUse n := by
  unfold IdPool.pushAll
  induction ids generalizing pool with
  | nil => simp
  | cons id ids ih =>
      rw [List.foldl_cons, ih (hPool.push id),
        hPool.inUse_push_iff, NodeId.numbers_cons id ids,
        Finset.mem_union, not_or, and_left_comm, and_assoc]

/- Taking many ids keeps a pool consistent. -/
theorem IsConsistent.reserveAll
    (hPool : pool.IsConsistent)
    (ids : List NodeId) :
    (pool.reserveAll ids).IsConsistent := by
  unfold IdPool.reserveAll
  induction ids generalizing pool with
  | nil => exact hPool
  | cons id ids ih => exact ih (hPool.reserve id)

/- Numbers that are taken are in use. -/
theorem inUse_reserveAll_iff
    {ids : List NodeId}
    {n : Nat} :
    (pool.reserveAll ids).InUse n ↔
      n ∈ NodeId.numbers ids ∨ pool.InUse n := by
  unfold reserveAll
  induction ids generalizing pool with
  | nil => simp
  | cons id ids ih =>
      rw [List.foldl_cons, ih, inUse_reserve_iff,
        NodeId.numbers_cons id ids, Finset.mem_union,
        or_left_comm, or_assoc]

end IdPool

end GraphRewriting

------------------------------------------------------------
-- Drawing
------------------------------------------------------------

namespace GraphRewriting

namespace IdPool

variable {pool other : IdPool}

/- Numbers up to the limit are not cut off. -/
theorem toNat_ofNat_of_le
    {n : Nat}
    (hn : n ≤ idLimit) :
    (UInt64.ofNat n).toNat = n := by
  apply UInt64.toNat_ofNat_of_lt'
  unfold idLimit at hn
  have hPos : 0 < UInt64.size := by decide
  omega

/- The least free number is free, and none below it is. -/
theorem leastFree?_eq_some_iff
    {n : Nat} :
    pool.leastFree? = some n ↔
      n ∈ pool.free ∧ ∀ k ∈ pool.free, n ≤ k := by
  unfold leastFree?
  rw [leastElement?_eq_min?,
    Std.ExtTreeSet.min?_eq_some_iff_mem_and_forall]
  simp only [Nat.isLE_compare]

theorem leastFree?_eq_none_iff :
    pool.leastFree? = none ↔ pool.free = ∅ := by
  unfold leastFree?
  rw [leastElement?_eq_min?, Std.ExtTreeSet.min?_eq_none_iff]

/-
  A number below the limit that is in no use keeps the loop
  from ending without a free id.
-/
private theorem Fills.mem_free_of_not_inUse
    {filled : IdPool}
    (hFills : pool.Fills filled)
    (hPool : pool.IsConsistent)
    {n : Nat}
    (hn : ¬ pool.InUse n)
    (hLt : n < filled.border) :
    n ∈ filled.free := by
  by_contra hNot
  exact hn ((hFills.inUse_iff hPool).1 (Or.inl ⟨hLt, hNot⟩))

/-
  Drawing takes the least number that is not in use, if it is
  below the limit.
-/
theorem pop_of_isLeast
    (hPool : pool.IsConsistent)
    {n : Nat}
    (hLimit : n < idLimit)
    (hLeast : IsLeast {k | ¬ pool.InUse k} n) :
    pool.pop.1 = .num (UInt64.ofNat n) ∧
      pool.pop.2.IsConsistent ∧
        ∀ k : Nat,
          pool.pop.2.InUse k ↔ k = n ∨ pool.InUse k := by
  have hFills := pool.fills_ensureFree
  have hFilled := hFills.isConsistent hPool
  have hSame := fun k => hFills.inUse_iff hPool (n := k)
  cases hFree : pool.ensureFree.leastFree? with
  | none =>
      have hEmpty := leastFree?_eq_none_iff.1 hFree
      have hBorder := hFills.border_eq hPool hEmpty
      have hMem :=
        hFills.mem_free_of_not_inUse hPool hLeast.1
          (hBorder ▸ hLimit)
      rw [hEmpty] at hMem
      exact absurd hMem Std.ExtTreeSet.not_mem_empty
  | some id =>
      rcases leastFree?_eq_some_iff.1 hFree with ⟨hId, hMin⟩
      have hUnused : ¬ pool.InUse id := fun hUsed =>
        hFilled.not_inUse_of_mem_free hId ((hSame id).2 hUsed)
      have hLe : n ≤ id := hLeast.2 hUnused
      have hLt := hFilled.free_lt id hId
      have hMem :=
        hFills.mem_free_of_not_inUse hPool hLeast.1 (by omega)
      have hEq : id = n := Nat.le_antisymm (hMin n hMem) hLe
      subst hEq
      unfold pop
      dsimp only
      rw [hFree]
      refine
        ⟨rfl, ⟨hFilled.border_le, ?_, hFilled.border_le_ahead⟩,
          ?_⟩
      · intro k hk
        exact
          hFilled.free_lt k (Std.ExtTreeSet.mem_erase.1 hk).2
      · intro k
        rw [← hSame k]
        unfold InUse
        dsimp only
        rw [Std.ExtTreeSet.mem_erase, ne_eq,
          Std.compare_eq_iff_eq]
        by_cases hk : id = k
        · subst hk
          simp [hLt]
        · simp [hk, Ne.symm hk]

/-
  Where all numbers below the limit are in use, the
  limit is handed out.
-/
theorem pop_of_forall_inUse
    (hPool : pool.IsConsistent)
    (hAll : ∀ n < idLimit, pool.InUse n) :
    pool.pop.1 = .num (UInt64.ofNat idLimit) ∧
      pool.pop.2.IsConsistent ∧
        ∀ k : Nat, pool.pop.2.InUse k ↔ pool.InUse k := by
  have hFills := pool.fills_ensureFree
  have hFilled := hFills.isConsistent hPool
  have hFree : pool.ensureFree.free = ∅ := by
    rw [Std.ExtTreeSet.eq_empty_iff_forall_not_mem]
    intro n hn
    have hLt := hFilled.free_lt n hn
    have hLe := hFilled.border_le
    apply hFilled.not_inUse_of_mem_free hn
    exact (hFills.inUse_iff hPool).2 (hAll n (by omega))
  unfold pop
  dsimp only
  rw [leastFree?_eq_none_iff.2 hFree,
    hFills.border_eq hPool hFree]
  exact ⟨rfl, hFilled, fun k => hFills.inUse_iff hPool⟩

/-
  Some number is the least one not in use, or all below
  the limit are in use.
-/
theorem exists_isLeast_or_forall_inUse
    (pool : IdPool) :
    (∃ n < idLimit, IsLeast {k | ¬ pool.InUse k} n) ∨
      ∀ n < idLimit, pool.InUse n := by
  classical
  by_cases hAll : ∀ n < idLimit, pool.InUse n
  · exact Or.inr hAll
  · rw [not_forall] at hAll
    rcases hAll with ⟨n, hn⟩
    rw [Classical.not_imp] at hn
    have hSome : ∃ k : Nat, ¬ pool.InUse k := ⟨n, hn.2⟩
    have hLeast :
        IsLeast {k | ¬ pool.InUse k} (Nat.find hSome) :=
      ⟨Nat.find_spec hSome, fun k hk => Nat.find_min' hSome hk⟩
    have hLe : Nat.find hSome ≤ n := hLeast.2 hn.2
    exact Or.inl ⟨_, Nat.lt_of_le_of_lt hLe hn.1, hLeast⟩

end IdPool

end GraphRewriting

------------------------------------------------------------
-- Pools With The Same Numbers In Use
------------------------------------------------------------

namespace GraphRewriting

namespace IdPool

/-
  Two pools have the same numbers in use. They may differ in
  the size of their chunks, and in where their borders are.
-/
structure SameUse
    (pool other : IdPool) : Prop where
  consistent : pool.IsConsistent
  consistent' : other.IsConsistent
  inUse_iff : ∀ n : Nat, pool.InUse n ↔ other.InUse n

namespace SameUse

variable {pool other : IdPool}

/-
  The size of a chunk does not change what is in use at first.
-/
theorem ofChunkSize
    (chunkSize otherSize : Nat) :
    SameUse (.ofChunkSize chunkSize)
      (.ofChunkSize otherSize) where
  consistent := isConsistent_ofChunkSize chunkSize
  consistent' := isConsistent_ofChunkSize otherSize
  inUse_iff n :=
    iff_of_false (not_inUse_ofChunkSize chunkSize n)
      (not_inUse_ofChunkSize otherSize n)

/-
  Both pools hand out the same number, and have the same
  numbers in use after that.
-/
theorem pop
    (h : SameUse pool other) :
    pool.pop.1 = other.pop.1 ∧
      SameUse pool.pop.2 other.pop.2 := by
  have hSets : {k | ¬ pool.InUse k} = {k | ¬ other.InUse k} :=
    Set.ext fun k => not_congr (h.inUse_iff k)
  rcases exists_isLeast_or_forall_inUse pool with
    ⟨n, hLimit, hLeast⟩ | hAll
  · rcases pop_of_isLeast h.consistent hLimit hLeast with
      ⟨hDrawn, hNext, hUse⟩
    rcases
        pop_of_isLeast h.consistent' hLimit
          (hSets ▸ hLeast) with
      ⟨hDrawn', hNext', hUse'⟩
    refine ⟨hDrawn.trans hDrawn'.symm, hNext, hNext', ?_⟩
    intro k
    rw [hUse, hUse', h.inUse_iff]
  · have hAll' : ∀ n < idLimit, other.InUse n := fun n hn =>
      (h.inUse_iff n).1 (hAll n hn)
    rcases pop_of_forall_inUse h.consistent hAll with
      ⟨hDrawn, hNext, hUse⟩
    rcases pop_of_forall_inUse h.consistent' hAll' with
      ⟨hDrawn', hNext', hUse'⟩
    refine ⟨hDrawn.trans hDrawn'.symm, hNext, hNext', ?_⟩
    intro k
    rw [hUse, hUse', h.inUse_iff]

/- Giving back the same ids keeps two pools in step. -/
theorem pushAll
    (h : SameUse pool other)
    (ids : List NodeId) :
    SameUse (pool.pushAll ids) (other.pushAll ids) where
  consistent := h.consistent.pushAll ids
  consistent' := h.consistent'.pushAll ids
  inUse_iff n := by
    rw [h.consistent.inUse_pushAll_iff,
      h.consistent'.inUse_pushAll_iff, h.inUse_iff]

/- Taking the same ids keeps two pools in step. -/
theorem reserveAll
    (h : SameUse pool other)
    (ids : List NodeId) :
    SameUse (pool.reserveAll ids) (other.reserveAll ids) where
  consistent := h.consistent.reserveAll ids
  consistent' := h.consistent'.reserveAll ids
  inUse_iff n := by
    rw [inUse_reserveAll_iff, inUse_reserveAll_iff, h.inUse_iff]

/- After a reset any two pools are in step. -/
theorem reset
    (pool other : IdPool) :
    SameUse pool.reset other.reset where
  consistent := isConsistent_reset
  consistent' := isConsistent_reset
  inUse_iff n :=
    iff_of_false (not_inUse_reset n) (not_inUse_reset n)

end SameUse

end IdPool

end GraphRewriting
