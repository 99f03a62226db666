import GraphRewriting.Matching.PositionSearch
import GraphRewriting.Proofs.Matching.Arrangement

/-
  The search by positions finds the arrangements of a pool. From
  any state it comes back to the positions that are chosen there
  once it has found all lists that go on from them, and there is
  nothing else that it finds.

  Main declarations:
    * `IsCompletion`
    * `PositionSearch.sweeps`
    * `PositionSearch.exists_after`
    * `mem_selections_iff`
    * `selections_exact`
-/

------------------------------------------------------------
-- Positions In Use
------------------------------------------------------------

namespace GraphRewriting

/- All positions before the one that is found are in use. -/
theorem used_of_freeFrom?
    {size : Nat}
    {used : Vector Bool size}
    {candidate : Nat}
    {position : Fin size}
    (hLe : candidate ≤ position)
    (hLt : ∀ free ∈ freeFrom? used candidate, position < free) :
    used[position] = true := by
  fun_induction freeFrom? used candidate with
  | case1 candidate hSize hUsed ih =>
      rcases Nat.eq_or_lt_of_le hLe with rfl | hLe
      · exact hUsed
      · exact ih hLe hLt
  | case2 candidate hSize hFree =>
      have hBefore := hLt ⟨candidate, hSize⟩ rfl
      exact absurd hLe (Nat.not_le_of_lt hBefore)
  | case3 candidate hSize =>
      have hPosition := position.isLt
      omega

end GraphRewriting

------------------------------------------------------------
-- Completions
------------------------------------------------------------

namespace GraphRewriting

variable {α : Type}
variable {pool : List α}
variable {length : Nat}

/-
  The list has the items at the chosen positions, the last one
  of which comes first here, and at further ones. The first of
  these is not before the position to go on from.
-/
def IsCompletion
    (pool : List α)
    (length : Nat)
    (chosen : List (Fin pool.length))
    (next : Nat)
    (list : List α) : Prop :=
  ∃ positions : List (Fin pool.length),
    chosen.length + positions.length = length ∧
      (chosen.reverse ++ positions).Nodup ∧
        (∀ position ∈ positions.head?, next ≤ position) ∧
          (chosen.reverse ++ positions).map pool.get = list

/- With nothing chosen, the completions are all selections. -/
theorem isCompletion_nil
    {list : List α} :
    IsCompletion pool length [] 0 list ↔
      IsSelection pool length list := by
  simp [IsCompletion, IsSelection]

/-
  When as many positions are chosen as asked for, they are
  the only completion.
-/
theorem isCompletion_of_full
    {chosen : List (Fin pool.length)}
    {next : Nat}
    {list : List α}
    (hFull : chosen.length = length)
    (hNodup : chosen.Nodup) :
    IsCompletion pool length chosen next list ↔
      chosen.reverse.map pool.get = list := by
  constructor
  · rintro ⟨positions, hLength, -, -, rfl⟩
    have hNil : positions = [] :=
      List.length_eq_zero_iff.1 (by omega)
    rw [hNil, List.append_nil]
  · rintro rfl
    exact
      ⟨[], by simpa using hFull, by simpa using hNodup, by simp,
        by simp⟩

/-
  Otherwise a completion has one more position: it completes the
  chosen ones and a position from `next` on that is not among
  them.
-/
theorem isCompletion_of_room
    {chosen : List (Fin pool.length)}
    {next : Nat}
    {list : List α}
    (hRoom : chosen.length < length) :
    IsCompletion pool length chosen next list ↔
      ∃ position : Fin pool.length,
        next ≤ position ∧ position ∉ chosen ∧
          IsCompletion pool length (position :: chosen) 0
            list := by
  constructor
  · rintro ⟨positions, hLength, hNodup, hNext, hList⟩
    cases positions with
    | nil =>
        rw [List.length_nil] at hLength
        omega
    | cons position positions =>
        have hFresh : position ∉ chosen := by
          intro hMem
          exact (List.nodup_append.1 hNodup).2.2 position
            (List.mem_reverse.2 hMem) position
            List.mem_cons_self rfl
        refine
          ⟨position, hNext position rfl, hFresh, positions, ?_,
            ?_, by simp, ?_⟩
        · rw [List.length_cons] at hLength ⊢
          omega
        · rwa [List.reverse_cons, List.append_assoc]
        · rwa [List.reverse_cons, List.append_assoc]
  · rintro ⟨position, hNext, -, positions, hLength, hNodup, -,
      hList⟩
    rw [List.reverse_cons, List.append_assoc] at hNodup hList
    refine ⟨position :: positions, ?_, hNodup, ?_, hList⟩
    · rw [List.length_cons] at hLength ⊢
      omega
    · rintro first ⟨⟩
      exact hNext

end GraphRewriting

------------------------------------------------------------
-- Sweeps
------------------------------------------------------------

namespace GraphRewriting

namespace PositionSearch

variable {α : Type}
variable [Ord α] [Std.TransOrd α]
variable {pool : List α}
variable {length : Nat}
variable {s : PositionSearch pool length}

/- A run is one turn and the run of what it leads to. -/
theorem run_eq
    (s : PositionSearch pool length) :
    s.run = s.turn.elim run id := by
  rw [run]
  split
  · rename_i next hTurn
    rw [hTurn]
    rfl
  · rename_i found hTurn
    rw [hTurn]
    rfl

/-
  The search comes back to the chosen positions, and what it has
  found by then are the completions of them.
-/
def Sweeps (s : PositionSearch pool length) : Prop :=
  ∃ t : PositionSearch pool length,
    t.chosen = s.chosen ∧ s.run = t.back.elim run id ∧
      ∀ list : List α,
        list ∈ t.found ↔
          list ∈ s.found ∨
            IsCompletion pool length s.chosen s.next list

variable [Std.LawfulEqOrd α]

/-
  A state with all positions chosen adds its
  list and goes back.
-/
theorem sweeps_of_full
    (hFull : s.chosen.length = length) :
    s.Sweeps := by
  refine ⟨s.record, rfl, ?_, ?_⟩
  · rw [run_eq, turn,
      dif_neg (Nat.not_lt.2 (Nat.le_of_eq hFull.symm))]
  · intro list
    rw [isCompletion_of_full hFull s.nodup]
    unfold record
    rw [Std.ExtTreeSet.mem_insert, Std.compare_eq_iff_eq,
      or_comm]

/-
  A state without a free position left goes back
  with nothing added.
-/
omit [Std.LawfulEqOrd α] in
theorem sweeps_of_none
    (hRoom : s.chosen.length < length)
    (hFree : freeFrom? s.used s.next = none) :
    s.Sweeps := by
  refine ⟨s, rfl, ?_, ?_⟩
  · rw [run_eq, turn, dif_pos hRoom]
    split
    · rename_i position hSome
      rw [hFree] at hSome
      cases hSome
    · rfl
  · intro list
    rw [isCompletion_of_room hRoom]
    constructor
    · exact Or.inl
    · rintro (hFound | ⟨position, hNext, hFresh, -⟩)
      · exact hFound
      · exact absurd
          ((s.used_iff position).1
            (used_of_freeFrom? hNext (by simp [hFree])))
          hFresh

/- Going back takes the last chosen position out again. -/
omit [Std.TransOrd α] [Std.LawfulEqOrd α] in
theorem back_of_cons
    {last : Fin pool.length}
    {rest : List (Fin pool.length)}
    (hChosen : s.chosen = last :: rest) :
    s.back = .inl (s.pop last rest hChosen) := by
  unfold back
  split
  · rename_i hNil
    rw [hChosen] at hNil
    cases hNil
  · rename_i hCons
    cases hChosen.symm.trans hCons
    rfl

/- With nothing chosen, going back ends the search. -/
omit [Std.TransOrd α] [Std.LawfulEqOrd α] in
theorem back_of_nil
    (hChosen : s.chosen = []) :
    s.back = .inr s.found := by
  unfold back
  split
  · rfl
  · rename_i hCons
    rw [hChosen] at hCons
    cases hCons

/-
  A completion goes on at the first free
  position or behind it.
-/
omit [Std.TransOrd α] [Std.LawfulEqOrd α] in
private theorem isCompletion_of_some
    (hRoom : s.chosen.length < length)
    {position : Fin pool.length}
    (hFree : freeFrom? s.used s.next = some position)
    {list : List α} :
    IsCompletion pool length s.chosen s.next list ↔
      IsCompletion pool length (position :: s.chosen) 0 list ∨
        IsCompletion pool length s.chosen (position + 1)
          list := by
  rcases freeFrom?_eq_some hFree with ⟨hUnused, hLe⟩
  rw [isCompletion_of_room hRoom, isCompletion_of_room hRoom]
  constructor
  · rintro ⟨other, hNext, hFresh, hOther⟩
    rcases Nat.lt_trichotomy other position with
      hBefore | hEq | hBehind
    · have hUsed : s.used[other] = true := by
        apply used_of_freeFrom? hNext
        rw [hFree]
        rintro free ⟨⟩
        exact hBefore
      exact absurd ((s.used_iff other).1 hUsed) hFresh
    · rw [Fin.ext hEq] at hOther
      exact Or.inl hOther
    · exact Or.inr ⟨other, hBehind, hFresh, hOther⟩
  · rintro (hPosition | ⟨other, hBehind, hFresh, hOther⟩)
    · refine ⟨position, hLe, ?_, hPosition⟩
      rw [← s.used_iff, hUnused]
      exact Bool.false_ne_true
    · exact ⟨other, by omega, hFresh, hOther⟩

/-
  A state goes down to a free position, then on behind it.
  Both parts sweep, and so does the state.
-/
omit [Std.LawfulEqOrd α] in
theorem sweeps_of_some
    (hRoom : s.chosen.length < length)
    {position : Fin pool.length}
    (hFree : freeFrom? s.used s.next = some position)
    (hPush :
      (s.push position (freeFrom?_eq_some hFree).1
        hRoom).Sweeps)
    (hBehind :
      ∀ t : PositionSearch pool length,
        t.chosen = s.chosen → t.next = position + 1 →
          t.Sweeps) :
    s.Sweeps := by
  rcases hPush with ⟨t, hChosen, hRun, hFound⟩
  rcases hBehind (t.pop position s.chosen hChosen) rfl rfl with
    ⟨u, hBack, hRest, hMore⟩
  refine ⟨u, hBack, ?_, ?_⟩
  · calc
      s.run =
        (s.push position (freeFrom?_eq_some hFree).1
          hRoom).run := by
        rw [run_eq, turn, dif_pos hRoom]
        split
        · rename_i other hOther
          cases hFree.symm.trans hOther
          rfl
        · rename_i hNone
          rw [hFree] at hNone
          cases hNone
      _ = (t.pop position s.chosen hChosen).run := by
        rw [hRun, back_of_cons hChosen]
        rfl
      _ = u.back.elim run id := hRest
  · intro list
    rw [hMore, isCompletion_of_some hRoom hFree, ← or_assoc]
    exact or_congr_left (hFound list)

/-
  Going on further behind the same positions
  leaves fewer turns.
-/
omit [Std.TransOrd α] [Std.LawfulEqOrd α] in
private theorem turnsLeft_lt_of_next
    {t : PositionSearch pool length}
    (hRoom : s.chosen.length < length)
    (hChosen : t.chosen = s.chosen)
    {position : Fin pool.length}
    (hLe : s.next ≤ position)
    (hNext : t.next = position + 1) :
    t.turnsLeft < s.turnsLeft := by
  rcases Nat.exists_eq_add_of_lt hRoom with ⟨room, hLength⟩
  have hLevel : length - s.chosen.length = room + 1 := by
    omega
  have hTurns := sweepTurns_zero_add_lt room hLe position.isLt
  unfold turnsLeft
  rw [hChosen, hNext, hLevel]
  omega

/-
  The states that have fewer turns left are known to sweep
  when a state is looked at.
-/
theorem sweeps
    (s : PositionSearch pool length) :
    s.Sweeps := by
  by_cases hRoom : s.chosen.length < length
  · cases hFree : freeFrom? s.used s.next with
    | none => exact sweeps_of_none hRoom hFree
    | some position =>
        rcases freeFrom?_eq_some hFree with ⟨hUnused, hLe⟩
        have hPush := s.turnsLeft_push_lt hUnused hRoom hLe
        apply sweeps_of_some hRoom hFree (sweeps _)
        intro t hChosen hNext
        have hBehind :=
          turnsLeft_lt_of_next hRoom hChosen hLe hNext
        exact sweeps t
  · exact sweeps_of_full
      (Nat.le_antisymm s.length_le (Nat.le_of_not_lt hRoom))
termination_by s.turnsLeft

/- The search from the start finds the selections. -/
theorem mem_run_start
    {list : List α} :
    list ∈ (start pool length).run ↔
      IsSelection pool length list := by
  rcases (start pool length).sweeps with
    ⟨t, hChosen, hRun, hFound⟩
  rw [hRun, back_of_nil hChosen]
  show list ∈ t.found ↔ _
  rw [hFound, ← isCompletion_nil]
  simp [start]

/-
  The search ends, once the turns that are left have gone by.
-/
omit [Std.LawfulEqOrd α] in
theorem exists_after
    (s : PositionSearch pool length) :
    ∃ turns ≤ s.turnsLeft, s.after turns = .inr s.run := by
  cases hTurn : s.turn with
  | inr found =>
      have hPos :=
        sweepTurns_pos pool.length (length - s.chosen.length)
          s.next
      refine ⟨1, Nat.le_add_right_of_le hPos, ?_⟩
      rw [after, hTurn, run_eq, hTurn]
      rfl
  | inl next =>
      have hLt := turnsLeft_lt_of_turn hTurn
      rcases exists_after next with ⟨turns, hTurns, hAfter⟩
      refine ⟨turns + 1, by omega, ?_⟩
      rw [after, hTurn, run_eq, hTurn]
      exact hAfter
termination_by s.turnsLeft

end PositionSearch

end GraphRewriting

------------------------------------------------------------
-- Selections
------------------------------------------------------------

namespace GraphRewriting

variable {α : Type}
variable {pool list : List α}
variable {length : Nat}

/- There are no selections with more items than the pool has. -/
private theorem IsSelection.length_le
    (h : IsSelection pool length list) :
    length ≤ pool.length := by
  rcases h with ⟨positions, rfl, hNodup, -⟩
  simpa
    using (hNodup.subperm fun position _ =>
      List.mem_finRange position).length_le

variable [Ord α] [Std.TransOrd α] [Std.LawfulEqOrd α]

/- The search finds the selections and nothing else. -/
theorem mem_selections_iff :
    list ∈ selections pool length ↔
      IsSelection pool length list := by
  unfold selections
  split
  · rename_i hShort
    refine iff_of_false List.not_mem_nil fun h => ?_
    exact absurd h.length_le (Nat.not_le_of_lt hShort)
  · rw [Std.ExtTreeSet.mem_toList, PositionSearch.mem_run_start]

/- It finds them in lexicographic order. -/
theorem selections_ascending
    (pool : List α)
    (length : Nat) :
    (selections pool length).Pairwise
      (List.Lex fun a b : α => compare a b = .lt) := by
  unfold selections
  split
  · exact List.Pairwise.nil
  · exact
      Std.ExtTreeSet.ordered_toList.imp compare_eq_lt_iff_lex.1

variable [DecidableEq α]

/- So it lists what the arrangements list, in the same order. -/
theorem selections_eq_arrangements
    (pool : List α)
    (length : Nat) :
    selections pool length = arrangements pool length := by
  have hSelections :=
    (selections_ascending pool length).imp
      compare_eq_lt_iff_lex.2
  have hArrangements :=
    (arrangements_ascending pool length).imp
      compare_eq_lt_iff_lex.2
  apply eq_of_ascending hSelections hArrangements
  intro list
  rw [mem_selections_iff, mem_arrangements_iff_isSelection]

/-
  The search ends, and what it lists are the arrangements of the
  pool: the selections, in strictly ascending lexicographic
  order.
-/
theorem selections_exact
    (pool : List α)
    (length : Nat) :
    (∃ turns ≤ (PositionSearch.start pool length).turnsLeft,
      (PositionSearch.start pool length).after turns =
        .inr (PositionSearch.start pool length).run) ∧
      selections pool length = arrangements pool length ∧
        (selections pool length).Pairwise
          (List.Lex fun a b : α => compare a b = .lt) ∧
          (∀ list : List α,
            list ∈ selections pool length ↔
              ∃ positions : List (Fin pool.length),
                positions.length = length ∧ positions.Nodup ∧
                  positions.map pool.get = list) ∧
            (pool.length < length →
              selections pool length = []) ∧
              selections pool 0 = [[]] := by
  refine ⟨(PositionSearch.start pool length).exists_after,
    selections_eq_arrangements pool length,
    selections_ascending pool length,
    fun list => mem_selections_iff, fun hShort => if_pos hShort,
    ?_⟩
  rw [selections_eq_arrangements, arrangements]

/- Two equal items, of which either one can come first. -/
theorem selections_exact_twins :
    Std.TransOrd (Option Nat) ∧
      Std.LawfulEqOrd (Option Nat) ∧
        selections [none, none, some 1] 2 =
          [[none, none], [none, some 1], [some 1, none]] ∧
        ([some 1, none] ∈ selections [none, none, some 1] 2 ↔
          ∃ positions : List (Fin 3),
            positions.length = 2 ∧ positions.Nodup ∧
              positions.map [none, none, some 1].get =
                [some 1, none]) := by
  have hExact := selections_exact [none, none, some 1] 2
  exact ⟨inferInstance, inferInstance,
    hExact.2.1.trans (by decide +kernel),
    hExact.2.2.2.1 [some 1, none]⟩

end GraphRewriting
