/-
  This file defines a counter that goes through the tuples of
  indices into several lists. Each position has a radix. A call
  gives the present reading and raises its last index; an index
  that reaches its radix is wrapped to zero, and the one before
  it is raised. When the first index wraps, the counter is off.

  Key definitions include:
    * `IsReading`
    * `raiseBefore`
    * `IndexCounter`
    * `IndexCounter.ofRadices`
    * `IndexCounter.next`
    * `IndexCounter.after`

  Main statements:
    * `IsReading.raiseBefore`
-/

namespace GraphRewriting

------------------------------------------------------------
-- Readings
------------------------------------------------------------

/- One index for each radix, below it. -/
def IsReading (radices reading : List Nat) : Prop :=
  reading.length = radices.length ∧
    ∀ position < radices.length,
      reading.getD position 0 < radices.getD position 0

/-
  Raise the index before a position, wrapping those that reach
  their radix. There is no such reading if all of them do.
-/
def raiseBefore
    (radices : List Nat) : Nat → List Nat → Option (List Nat)
  | 0, _ => none
  | position + 1, reading =>
      if
        reading.getD position 0 + 1 < radices.getD position 0
      then
        some (reading.set position
          (reading.getD position 0 + 1))
      else
        raiseBefore radices position (reading.set position 0)

/- All zeros are a reading if no radix is zero. -/
theorem isReading_zeros
    {radices : List Nat}
    (hRadices : 0 ∉ radices) :
    IsReading radices (List.replicate radices.length 0) := by
  refine ⟨List.length_replicate, ?_⟩
  intro position hPosition
  have hIndex :
      (List.replicate radices.length 0).getD position 0 =
        0 := by
    simp [hPosition]
  have hRadix : radices.getD position 0 ∈ radices := by
    simp [hPosition]
  rw [hIndex]
  exact
    Nat.pos_of_ne_zero (ne_of_mem_of_not_mem hRadix hRadices)

namespace IsReading

variable {radices reading : List Nat}

/- A position can be set to any index below its radix. -/
theorem set
    (h : IsReading radices reading)
    {position index : Nat}
    (hIndex : index < radices.getD position 0) :
    IsReading radices (reading.set position index) := by
  refine ⟨by rw [List.length_set, h.1], ?_⟩
  intro other hOther
  rw [List.getD_eq_getElem?_getD, List.getElem?_set]
  split
  · rename_i hEq
    subst hEq
    rw [if_pos (h.1.symm ▸ hOther)]
    exact hIndex
  · exact h.2 other hOther

/- Raising an index leads from one reading to another. -/
theorem raiseBefore
    (h : IsReading radices reading)
    {position : Nat}
    (hPosition : position ≤ radices.length)
    {next : List Nat}
    (hNext : raiseBefore radices position reading = some next) :
    IsReading radices next := by
  induction position generalizing reading with
  | zero => cases hNext
  | succ position ih =>
      unfold raiseBefore at hNext
      have hBelow := h.2 position hPosition
      split at hNext
      · rename_i hRaised
        cases hNext
        exact h.set hRaised
      · exact ih (h.set (Nat.zero_lt_of_lt hBelow))
          (Nat.le_of_succ_le hPosition) hNext

end IsReading

------------------------------------------------------------
-- Counters
------------------------------------------------------------

/- A counter with its present reading, unless it is off. -/
structure IndexCounter where
  radices : List Nat
  reading? : Option (List Nat)
  isReading : ∀ reading ∈ reading?, IsReading radices reading

namespace IndexCounter

/-
  The counter at zeros, which is off from the start
  if a radix is zero.
-/
def ofRadices (radices : List Nat) : IndexCounter where
  radices := radices
  reading? :=
    if 0 ∈ radices then
      none
    else
      some (List.replicate radices.length 0)
  isReading reading hReading := by
    rw [Option.mem_def,
      Option.ite_none_left_eq_some] at hReading
    rcases hReading with ⟨hRadices, ⟨⟩⟩
    exact isReading_zeros hRadices

/- The present reading, and the counter at the next one. -/
def next
    (c : IndexCounter) : Option (List Nat) × IndexCounter :=
  (c.reading?,
    { radices := c.radices
      reading? :=
    c.reading?.bind fun reading =>
      raiseBefore c.radices reading.length reading
      isReading := by
        intro next hNext
        rcases Option.bind_eq_some_iff.1 hNext with
          ⟨reading, hReading, hRaise⟩
        have h := c.isReading reading hReading
        exact h.raiseBefore (Nat.le_of_eq h.1) hRaise })

variable (radices : List Nat)
variable (c : IndexCounter)

@[simp]
theorem radices_ofRadices :
    (ofRadices radices).radices = radices := rfl

/- A new counter is at zeros, or off if a radix is zero. -/
theorem reading?_ofRadices :
    (ofRadices radices).reading? =
      if 0 ∈ radices then
        none
      else
        some (List.replicate radices.length 0) := rfl

@[simp]
theorem fst_next :
    c.next.1 = c.reading? := rfl

@[simp]
theorem radices_next :
    c.next.2.radices = c.radices := rfl

theorem reading?_next :
    c.next.2.reading? =
      c.reading?.bind fun reading =>
        raiseBefore c.radices reading.length reading := rfl

/- The counter after a number of calls. -/
def after (c : IndexCounter) : Nat → IndexCounter
  | 0 => c
  | calls + 1 => (c.after calls).next.2

/- Calls do not change the radices. -/
@[simp]
theorem radices_after
    (calls : Nat) :
    (c.after calls).radices = c.radices := by
  induction calls with
  | zero => rfl
  | succ calls ih => exact ih

end IndexCounter

end GraphRewriting
