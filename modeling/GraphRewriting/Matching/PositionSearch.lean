import Std.Data.ExtTreeSet

/-
  This file defines the search for the arrangements of a pool
  by the positions of their items. The positions chosen so far
  lie on a stack. A turn of the search chooses the next position
  that is not in use; where there is none, or where the stack
  holds as many positions as asked for, it takes the last one
  back and goes on behind it. What is found is kept in a set, so
  that equal lists from different positions count once.

  Each turn leaves fewer turns to go, counted level by level of
  the stack, so that the search ends.

  Key definitions include:
    * `PositionSearch`
    * `PositionSearch.turn`
    * `PositionSearch.after`
    * `PositionSearch.turnsLeft`
    * `PositionSearch.run`
    * `selections`

  Main statements:
    * `PositionSearch.turnsLeft_lt_of_turn`
-/

namespace GraphRewriting

------------------------------------------------------------
-- Positions In Use
------------------------------------------------------------

/-
  The first position that is not in use, from a candidate on.
-/
def freeFrom?
    {size : Nat}
    (used : Vector Bool size)
    (candidate : Nat) : Option (Fin size) :=
  if h : candidate < size then
    if used[candidate] then
      freeFrom? used (candidate + 1)
    else
      some ⟨candidate, h⟩
  else
    none

/-
  A position that is found is free, and not
  before the candidate.
-/
theorem freeFrom?_eq_some
    {size : Nat}
    {used : Vector Bool size}
    {candidate : Nat}
    {position : Fin size}
    (h : freeFrom? used candidate = some position) :
    used[position] = false ∧ candidate ≤ position := by
  fun_induction freeFrom? used candidate with
  | case1 candidate hLt hUsed ih =>
      exact ⟨(ih h).1, Nat.le_of_succ_le (ih h).2⟩
  | case2 candidate hLt hFree =>
      cases h
      exact ⟨Bool.eq_false_iff.2 hFree, Nat.le_refl candidate⟩
  | case3 => cases h

theorem getElem_set_position
    {size : Nat}
    (used : Vector Bool size)
    (position other : Fin size)
    (value : Bool) :
    (used.set position value)[other] =
      if other = position then value else used[other] := by
  simp only [Fin.getElem_fin, Vector.getElem_set, Fin.ext_iff,
    eq_comm]

------------------------------------------------------------
-- States
------------------------------------------------------------

variable {α : Type}
variable [Ord α]

/-
  A state of the search: the lists found so far, which positions
  are in use, the positions chosen with the last one first, and
  the position from which the next one is looked for.
-/
structure PositionSearch
    (pool : List α)
    (length : Nat) where
  found : Std.ExtTreeSet (List α)
  used : Vector Bool pool.length
  chosen : List (Fin pool.length)
  next : Nat
  used_iff :
    ∀ position : Fin pool.length,
      used[position] = true ↔ position ∈ chosen
  nodup : chosen.Nodup
  length_le : chosen.length ≤ length

namespace PositionSearch

variable {pool : List α}
variable {length : Nat}

/- Nothing is chosen or found. -/
def start
    (pool : List α)
    (length : Nat) : PositionSearch pool length where
  found := ∅
  used := Vector.replicate pool.length false
  chosen := []
  next := 0
  used_iff position := by simp
  nodup := List.nodup_nil
  length_le := Nat.zero_le length

/- Choose a position that is not in use. -/
def push
    (s : PositionSearch pool length)
    (position : Fin pool.length)
    (hFree : s.used[position] = false)
    (hRoom : s.chosen.length < length) :
      PositionSearch pool length where
  found := s.found
  used := s.used.set position true
  chosen := position :: s.chosen
  next := 0
  used_iff other := by
    rw [getElem_set_position, List.mem_cons, ← s.used_iff]
    split <;> simp [*]
  nodup := by
    rw [List.nodup_cons, ← s.used_iff, hFree]
    exact ⟨Bool.false_ne_true, s.nodup⟩
  length_le := hRoom

/- Take back the position chosen last, and go on behind it. -/
def pop
    (s : PositionSearch pool length)
    (last : Fin pool.length)
    (rest : List (Fin pool.length))
    (hChosen : s.chosen = last :: rest) :
      PositionSearch pool length where
  found := s.found
  used := s.used.set last false
  chosen := rest
  next := last + 1
  used_iff other := by
    have hNodup := s.nodup
    rw [hChosen, List.nodup_cons] at hNodup
    rw [getElem_set_position]
    split
    · rename_i hEq
      rw [hEq]
      exact iff_of_false Bool.false_ne_true hNodup.1
    · rename_i hNe
      rw [s.used_iff, hChosen, List.mem_cons]
      exact or_iff_right hNe
  nodup := (List.nodup_cons.1 (hChosen ▸ s.nodup)).2
  length_le := by
    have hLength := s.length_le
    rw [hChosen] at hLength
    exact Nat.le_of_succ_le hLength

/-
  Take a position back. When there is none, the search ends
  with what it found.
-/
def back (s : PositionSearch pool length) :
    PositionSearch pool length ⊕ Std.ExtTreeSet (List α) :=
  match hChosen : s.chosen with
  | [] => .inr s.found
  | last :: rest => .inl (s.pop last rest hChosen)

------------------------------------------------------------
-- Turns Left
------------------------------------------------------------

/-
  The turns within which the search leaves a level of the stack
  when there is some room above and it goes on from a given
  position. Each position from there on may be chosen, and the
  search comes back to it once it leaves the next level.
-/
def sweepTurns (size : Nat) : Nat → Nat → Nat
  | 0, _ => 1
  | room + 1, next =>
      (size - next) * (sweepTurns size room 0 + 1) + 1

/-
  The turns within which it then leaves the levels below,
  going on behind each position.
-/
def stackTurns
    {size : Nat}
    (length : Nat) : List (Fin size) → Nat
  | [] => 0
  | last :: rest =>
      sweepTurns size (length - rest.length) (last + 1) +
        stackTurns length rest

/- The turns within which the search ends. -/
def turnsLeft (s : PositionSearch pool length) : Nat :=
  sweepTurns pool.length (length - s.chosen.length) s.next +
    stackTurns length s.chosen

theorem sweepTurns_pos
    (size room next : Nat) :
    0 < sweepTurns size room next := by
  cases room <;> exact Nat.succ_pos _

/-
  Choosing a position leaves the turns of its level
  and those behind it.
-/
theorem sweepTurns_zero_add_lt
    {size next position : Nat}
    (room : Nat)
    (hNext : next ≤ position)
    (hPosition : position < size) :
    sweepTurns size room 0 +
      sweepTurns size (room + 1) (position + 1) <
      sweepTurns size (room + 1) next := by
  have hLater : size - (position + 1) + 1 ≤ size - next := by
    omega
  have hTurns :=
    Nat.mul_le_mul_right (sweepTurns size room 0 + 1) hLater
  rw [Nat.succ_mul] at hTurns
  rw [sweepTurns, sweepTurns]
  omega

/- Choosing a position leaves fewer turns to go. -/
theorem turnsLeft_push_lt
    (s : PositionSearch pool length)
    {position : Fin pool.length}
    (hFree : s.used[position] = false)
    (hRoom : s.chosen.length < length)
    (hNext : s.next ≤ position) :
    (s.push position hFree hRoom).turnsLeft < s.turnsLeft := by
  rcases Nat.exists_eq_add_of_lt hRoom with ⟨room, hLength⟩
  have hBefore : length - s.chosen.length = room + 1 := by
    omega
  have hAfter : length - (s.chosen.length + 1) = room := by
    omega
  have hTurns := sweepTurns_zero_add_lt room hNext position.isLt
  unfold turnsLeft push
  dsimp only
  rw [List.length_cons, stackTurns, hBefore, hAfter]
  omega

/- Taking a position back leaves fewer turns to go. -/
private theorem turnsLeft_pop_lt
    (s : PositionSearch pool length)
    {last : Fin pool.length}
    {rest : List (Fin pool.length)}
    (hChosen : s.chosen = last :: rest) :
    (s.pop last rest hChosen).turnsLeft < s.turnsLeft := by
  have hStack :
      stackTurns length s.chosen =
        sweepTurns pool.length (length - rest.length)
            (last + 1) +
          stackTurns length rest := by
    rw [hChosen, stackTurns]
  have hTurn :=
    sweepTurns_pos pool.length (length - s.chosen.length) s.next
  unfold turnsLeft pop
  dsimp only
  omega

private theorem turnsLeft_lt_of_back
    {s next : PositionSearch pool length}
    (h : s.back = .inl next) :
    next.turnsLeft < s.turnsLeft := by
  unfold back at h
  split at h
  · cases h
  · cases h
    exact s.turnsLeft_pop_lt _

------------------------------------------------------------
-- Turns
------------------------------------------------------------

variable [Std.TransOrd α]

/-
  Keep the items at the chosen positions, the first one first.
-/
def record
    (s : PositionSearch pool length) :
    PositionSearch pool length :=
  { s with
    found := s.found.insert (s.chosen.reverse.map pool.get) }

/-
  One turn of the search: the state that it leads to, or
  all that was found.
-/
def turn (s : PositionSearch pool length) :
    PositionSearch pool length ⊕ Std.ExtTreeSet (List α) :=
  if hRoom : s.chosen.length < length then
    match hFree : freeFrom? s.used s.next with
    | some position =>
        .inl (s.push position (freeFrom?_eq_some hFree).1 hRoom)
    | none => s.back
  else
    s.record.back

/-
  Where a number of turns leads to, unless the
  search ends before.
-/
def after (s : PositionSearch pool length) :
    Nat → PositionSearch pool length ⊕ Std.ExtTreeSet (List α)
  | 0 => .inl s
  | turns + 1 =>
      match s.turn with
      | .inl next => next.after turns
      | .inr found => .inr found

/-
  Each turn leaves fewer turns to go, so that the search ends.
-/
theorem turnsLeft_lt_of_turn
    {s next : PositionSearch pool length}
    (h : s.turn = .inl next) :
    next.turnsLeft < s.turnsLeft := by
  unfold turn at h
  split at h
  · split at h
    · rename_i position hFree
      cases h
      exact s.turnsLeft_push_lt _ _ (freeFrom?_eq_some hFree).2
    · exact turnsLeft_lt_of_back h
  · -- what is found does not count
    have hLt := turnsLeft_lt_of_back h
    exact hLt

/- All that a search finds, from some state on. -/
def run
    (s : PositionSearch pool length) :
    Std.ExtTreeSet (List α) :=
  match _hturn : s.turn with
  | .inl next => next.run
  | .inr found => found
termination_by s.turnsLeft
decreasing_by exact turnsLeft_lt_of_turn _hturn

end PositionSearch

/-
  The lists of a given length with items from distinct positions
  of the pool, as they are found by the search.
-/
def selections
    [Std.TransOrd α]
    (pool : List α)
    (length : Nat) : List (List α) :=
  if pool.length < length then
    []
  else
    (PositionSearch.start pool length).run.toList

end GraphRewriting
