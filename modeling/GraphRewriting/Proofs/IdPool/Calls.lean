import GraphRewriting.Proofs.IdPool.InUse

/-
  Pools over whole sequences of calls. The calls and their
  answers alone tell which ids are outstanding, and each draw
  answers the least number that is not, however large the
  chunks are.

  Main declarations:
    * `PoolCall`
    * `Session`
    * `Session.IsExact.after`
    * `Session.answers_eq_of_sameUse`
    * `Session.draw_least`
-/

------------------------------------------------------------
-- Calls
------------------------------------------------------------

namespace GraphRewriting

/- A call of a pool. -/
inductive PoolCall where
  | pop
  | generate (localId : NodeId)
  | push (id : NodeId)
  | reserve (ids : List NodeId)
  | reset

/-
  The id that a pool answers to a call, if any,
  and the next pool.
-/
def IdPool.call
    (pool : IdPool) :
    PoolCall → Option NodeId × IdPool
  | .pop => (some pool.pop.1, pool.pop.2)
  | .generate localId =>
      (some (generator localId pool).1,
        (generator localId pool).2)
  | .push id => (none, pool.push id)
  | .reserve ids => (none, pool.reserveAll ids)
  | .reset => (none, pool.reset)

namespace PoolCall

/- The calls that are answered with an id. -/
def Draws : PoolCall → Prop
  | pop | generate _ => True
  | push _ | reserve _ | reset => False

/- The calls after which an id is no longer outstanding. -/
def Frees
    (id : NodeId) : PoolCall → Prop
  | push other => other = id
  | reset => True
  | pop | generate _ | reserve _ => False

/-
  The numbers that are outstanding after a call: drawing adds
  the number that is answered, pushing takes one away,
  reserving adds all that are listed, and resetting forgets
  them. Names are ignored.
-/
def outstanding
    (before : Finset Nat)
    (answer : Option NodeId) : PoolCall → Finset Nat
  | pop | generate _ => NodeId.numbers answer.toList ∪ before
  | push id => before \ NodeId.numbers [id]
  | reserve ids => NodeId.numbers ids ∪ before
  | reset => ∅

end PoolCall

/-
  A pool in use, with the numbers that are outstanding by the
  calls made so far.
-/
structure Session where
  pool : IdPool
  outstanding : Finset Nat

namespace Session

/- The session of a new pool. -/
def ofChunkSize (chunkSize : Nat) : Session :=
  ⟨.ofChunkSize chunkSize, ∅⟩

/- The answer to the next call. -/
def answer
    (s : Session)
    (call : PoolCall) : Option NodeId :=
  (s.pool.call call).1

/- The session after one more call. -/
def next
    (s : Session)
    (call : PoolCall) : Session :=
  ⟨(s.pool.call call).2,
    call.outstanding s.outstanding (s.answer call)⟩

/- The session after some calls. -/
def after
    (s : Session)
    (calls : List PoolCall) : Session :=
  calls.foldl next s

/- The answers to some calls. -/
def answers
    (s : Session) :
    List PoolCall → List (Option NodeId)
  | [] => []
  | call :: calls =>
      s.answer call :: (s.next call).answers calls

end Session

end GraphRewriting

------------------------------------------------------------
-- Outstanding Numbers
------------------------------------------------------------

namespace GraphRewriting

namespace Session

variable {s : Session}
variable {call : PoolCall}

/-
  Below the limit, the pool keeps the outstanding numbers in
  use and no others.
-/
structure IsExact (s : Session) : Prop where
  consistent : s.pool.IsConsistent
  inUse_iff : ∀ n < idLimit, s.pool.InUse n ↔ n ∈ s.outstanding

/-
  With a new pool nothing is outstanding, and nothing in use.
-/
theorem isExact_ofChunkSize
    (chunkSize : Nat) :
    (ofChunkSize chunkSize).IsExact where
  consistent := IdPool.isConsistent_ofChunkSize chunkSize
  inUse_iff n _ :=
    iff_of_false (IdPool.not_inUse_ofChunkSize chunkSize n)
      (Finset.notMem_empty n)

/-
  The least number that is not outstanding is the least one
  that is not in use, where it is below the limit.
-/
theorem IsExact.isLeast_iff
    (hs : s.IsExact)
    {n : Nat}
    (hLimit : n < idLimit) :
    IsLeast {k | k ∉ s.outstanding} n ↔
      IsLeast {k | ¬ s.pool.InUse k} n := by
  have hIff := hs.inUse_iff
  constructor
  · rintro ⟨hn, hLeast⟩
    refine ⟨fun hUsed => hn ((hIff n hLimit).1 hUsed), ?_⟩
    intro k hk
    by_contra hLt
    have hkn : k < n := Nat.not_le.1 hLt
    exact
      hLt (hLeast fun hUsed => hk ((hIff k (by omega)).2 hUsed))
  · rintro ⟨hn, hLeast⟩
    refine ⟨fun hUsed => hn ((hIff n hLimit).2 hUsed), ?_⟩
    intro k hk
    by_contra hLt
    have hkn : k < n := Nat.not_le.1 hLt
    exact
      hLt (hLeast fun hUsed => hk ((hIff k (by omega)).1 hUsed))

/-
  Drawing keeps a session exact, also when all
  numbers are outstanding.
-/
theorem IsExact.pop
    (hs : s.IsExact) :
    IsExact
      ⟨s.pool.pop.2,
        NodeId.numbers [s.pool.pop.1] ∪ s.outstanding⟩ := by
  rcases s.pool.exists_isLeast_or_forall_inUse with
    ⟨n, hLimit, hLeast⟩ | hAll
  · rcases
        IdPool.pop_of_isLeast hs.consistent hLimit hLeast with
      ⟨hDrawn, hNext, hUse⟩
    refine ⟨hNext, ?_⟩
    intro k hk
    dsimp only
    rw [hDrawn, hUse, hs.inUse_iff k hk,
      NodeId.numbers_singleton_num,
      IdPool.toNat_ofNat_of_le (Nat.le_of_lt hLimit),
      Finset.mem_union, Finset.mem_singleton]
  · rcases IdPool.pop_of_forall_inUse hs.consistent hAll with
      ⟨hDrawn, hNext, hUse⟩
    refine ⟨hNext, ?_⟩
    intro k hk
    have hNe : k ≠ idLimit := Nat.ne_of_lt hk
    dsimp only
    rw [hDrawn, hUse, hs.inUse_iff k hk,
      NodeId.numbers_singleton_num,
      IdPool.toNat_ofNat_of_le (Nat.le_refl idLimit),
      Finset.mem_union, Finset.mem_singleton]
    simp [hNe]

/- Every call keeps a session exact. -/
theorem IsExact.next
    (hs : s.IsExact)
    (call : PoolCall) :
    (s.next call).IsExact := by
  cases call with
  | pop => exact hs.pop
  | generate localId => exact hs.pop
  | push id =>
      refine ⟨hs.consistent.push id, ?_⟩
      intro n hn
      show
        (s.pool.push id).InUse n ↔
          n ∈ s.outstanding \ NodeId.numbers [id]
      rw [hs.consistent.inUse_push_iff, hs.inUse_iff n hn,
        Finset.mem_sdiff, and_comm]
  | reserve ids =>
      refine ⟨hs.consistent.reserveAll ids, ?_⟩
      intro n hn
      show
        (s.pool.reserveAll ids).InUse n ↔
          n ∈ NodeId.numbers ids ∪ s.outstanding
      rw [IdPool.inUse_reserveAll_iff, hs.inUse_iff n hn,
        Finset.mem_union]
  | reset =>
      refine ⟨IdPool.isConsistent_reset, ?_⟩
      intro n _
      exact iff_of_false (IdPool.not_inUse_reset n)
        (Finset.notMem_empty n)

/- A session that is exact stays so over all calls. -/
theorem IsExact.after
    (hs : s.IsExact)
    (calls : List PoolCall) :
    (s.after calls).IsExact := by
  unfold Session.after
  induction calls generalizing s with
  | nil => exact hs
  | cons call calls ih => exact ih (hs.next call)

/- A draw answers the least number that is not outstanding. -/
theorem IsExact.answer_eq
    (hs : s.IsExact)
    {draw : PoolCall}
    (hDraw : draw.Draws)
    (hSome : ∃ n < idLimit, n ∉ s.outstanding) :
    ∃ n < idLimit,
      IsLeast {k | k ∉ s.outstanding} n ∧
        s.answer draw = some (.num (UInt64.ofNat n)) := by
  rcases s.pool.exists_isLeast_or_forall_inUse with
    ⟨n, hLimit, hLeast⟩ | hAll
  · refine ⟨n, hLimit, (hs.isLeast_iff hLimit).2 hLeast, ?_⟩
    have hPop :=
      (IdPool.pop_of_isLeast hs.consistent hLimit hLeast).1
    cases draw with
    | pop => exact congrArg some hPop
    | generate localId => exact congrArg some hPop
    | push id => exact False.elim hDraw
    | reserve ids => exact False.elim hDraw
    | reset => exact False.elim hDraw
  · rcases hSome with ⟨n, hLimit, hn⟩
    exact absurd ((hs.inUse_iff n hLimit).1 (hAll n hLimit)) hn

end Session

end GraphRewriting

------------------------------------------------------------
-- Repeated Ids
------------------------------------------------------------

namespace GraphRewriting

namespace Session

variable {s : Session}
variable {call : PoolCall}
variable {id : NodeId}
variable {n : Nat}

/- A number that is handed out is outstanding from then on. -/
theorem mem_outstanding_next_of_answer
    (hAnswer : s.answer call = some id)
    (hn : n ∈ NodeId.numbers [id]) :
    n ∈ (s.next call).outstanding := by
  unfold next
  dsimp only
  rw [hAnswer]
  cases call with
  | pop => exact Finset.mem_union_left _ hn
  | generate localId => exact Finset.mem_union_left _ hn
  | push other => cases hAnswer
  | reserve ids => cases hAnswer
  | reset => cases hAnswer

/- A number stays outstanding until it is given back. -/
private theorem mem_outstanding_next
    (hn : n ∈ NodeId.numbers [id])
    (hMem : n ∈ s.outstanding)
    (hKept : ¬ call.Frees id) :
    n ∈ (s.next call).outstanding := by
  cases call with
  | pop => exact Finset.mem_union_right _ hMem
  | generate localId => exact Finset.mem_union_right _ hMem
  | push other =>
      refine Finset.mem_sdiff.2 ⟨hMem, ?_⟩
      intro hOther
      exact hKept (NodeId.eq_of_mem_numbers hOther hn)
  | reserve ids => exact Finset.mem_union_right _ hMem
  | reset => exact absurd trivial hKept

/- A number stays outstanding until a call frees it. -/
theorem mem_outstanding_after
    (hn : n ∈ NodeId.numbers [id])
    (hMem : n ∈ s.outstanding)
    {calls : List PoolCall}
    (hKept : ∀ call ∈ calls, ¬ call.Frees id) :
    n ∈ (s.after calls).outstanding := by
  unfold after
  induction calls generalizing s with
  | nil => exact hMem
  | cons call calls ih =>
      rw [List.forall_mem_cons] at hKept
      exact ih (mem_outstanding_next hn hMem hKept.1) hKept.2

end Session

end GraphRewriting

------------------------------------------------------------
-- Chunk Sizes
------------------------------------------------------------

namespace GraphRewriting

/-
  Pools with the same numbers in use give the
  same answer to a call.
-/
theorem IdPool.SameUse.call
    {pool other : IdPool}
    (h : SameUse pool other)
    (call : PoolCall) :
    (pool.call call).1 = (other.call call).1 ∧
      SameUse (pool.call call).2 (other.call call).2 := by
  cases call with
  | pop => exact ⟨congrArg some h.pop.1, h.pop.2⟩
  | generate localId => exact ⟨congrArg some h.pop.1, h.pop.2⟩
  | push id => exact ⟨rfl, h.pushAll [id]⟩
  | reserve ids => exact ⟨rfl, h.reserveAll ids⟩
  | reset => exact ⟨rfl, .reset pool other⟩

/- Pools with the same numbers in use answer alike. -/
theorem Session.answers_eq_of_sameUse
    {s t : Session}
    (h : IdPool.SameUse s.pool t.pool)
    (calls : List PoolCall) :
    s.answers calls = t.answers calls := by
  induction calls generalizing s t with
  | nil => rfl
  | cons call calls ih =>
      rcases h.call call with ⟨hAnswer, hNext⟩
      have hRest :
          (s.next call).answers calls =
            (t.next call).answers calls :=
        ih hNext
      unfold answers answer
      rw [hAnswer, hRest]

end GraphRewriting

------------------------------------------------------------
-- The Least Number That Is Not Outstanding
------------------------------------------------------------

namespace GraphRewriting

namespace Session

/-
  A pool hands out the least number that is not outstanding,
  whatever its chunk size is, as long as a number below the
  limit is left: the loop that looks for it ends, and no id is
  handed out again while it is outstanding. Pools of different
  chunk sizes give the same answers to the same calls.
-/
theorem draw_least
    (chunkSize : Nat)
    (calls : List PoolCall) :
    let s := (ofChunkSize chunkSize).after calls
    (∀ draw : PoolCall,
      draw.Draws → (∃ n < idLimit, n ∉ s.outstanding) →
      s.pool.Fills s.pool.ensureFree ∧
        (∃ n < idLimit,
          IsLeast {k | k ∉ s.outstanding} n ∧
            s.answer draw = some (.num (UInt64.ofNat n))) ∧
          ∀ (earlier later : List PoolCall) (call : PoolCall)
              (id : NodeId),
            calls = earlier ++ call :: later →
              ((ofChunkSize chunkSize).after earlier).answer
                  call = some id →
                (∀ between ∈ later, ¬ between.Frees id) →
                  s.answer draw ≠ some id) ∧
      ∀ otherSize : Nat,
        (ofChunkSize otherSize).answers calls =
          (ofChunkSize chunkSize).answers calls := by
  intro s
  have hExact : s.IsExact :=
    (isExact_ofChunkSize chunkSize).after calls
  refine ⟨?_, ?_⟩
  · intro draw hDraw hSome
    rcases hExact.answer_eq hDraw hSome with
      ⟨n, hLimit, hLeast, hAnswer⟩
    refine
      ⟨IdPool.fills_ensureFree, ⟨n, hLimit, hLeast, hAnswer⟩,
        ?_⟩
    intro earlier later call id hCalls hId hKept hAgain
    rw [hAnswer, Option.some.injEq] at hAgain
    have hn : n ∈ NodeId.numbers [id] := by
      rw [← hAgain, NodeId.numbers_singleton_num,
        Finset.mem_singleton,
        IdPool.toNat_ofNat_of_le (Nat.le_of_lt hLimit)]
    have hs :
        s =
          (((ofChunkSize chunkSize).after earlier).next
            call).after
          later := by
      unfold s after
      rw [hCalls, List.foldl_append, List.foldl_cons]
    apply hLeast.1
    rw [hs]
    exact mem_outstanding_after hn
      (mem_outstanding_next_of_answer hId hn) hKept
  · intro otherSize
    exact answers_eq_of_sameUse
      (.ofChunkSize otherSize chunkSize) calls

/-
  Ids drawn across the border of a chunk, one of them given
  back, and others reserved.
-/
def acrossChunks : List PoolCall :=
  [.pop, .generate .base,
    .reserve [.num 3, .name "tip", .num 700], .pop, .pop,
    .push (.num 1), .push .base]

/- The pool has been filled more than once by then. -/
theorem draw_least_acrossChunks :
    ((ofChunkSize 2).after acrossChunks).outstanding =
      {0, 2, 3, 4, 700} ∧
      ((ofChunkSize 2).after acrossChunks).answer .pop =
        some (.num 1) := by
  have hOutstanding :
      ((ofChunkSize 2).after acrossChunks).outstanding =
        {0, 2, 3, 4, 700} := by
    decide +kernel
  have hSome :
      ∃ n < idLimit,
        n ∉
          ((ofChunkSize 2).after acrossChunks).outstanding := by
    rw [hOutstanding]
    exact ⟨1, by decide, by decide⟩
  rcases (draw_least 2 acrossChunks).1 .pop trivial hSome with
    ⟨-, ⟨n, -, hLeast, hAnswer⟩, -⟩
  have hOne :
      IsLeast
        {k | k ∉
          ((ofChunkSize 2).after acrossChunks).outstanding}
        1 := by
    rw [hOutstanding]
    refine ⟨by decide, ?_⟩
    intro k hk
    by_contra hLt
    have hZero : k = 0 := by omega
    subst hZero
    exact hk (by decide)
  rw [hLeast.unique hOne] at hAnswer
  exact ⟨hOutstanding, hAnswer⟩

end Session

end GraphRewriting
