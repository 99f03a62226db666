import GraphRewriting.Digraph.Basic
import GraphRewriting.LeastElement

/-
  This file defines the order in which the nodes of a pattern
  are placed. After a placed node come the nodes that edges lead
  to from placed ones, then those from which edges lead to
  placed ones, then the rest, so that a connected pattern is
  placed along its edges.

  Key definitions include:
    * `Frontier`
    * `Frontier.next?`
    * `Graph.placementOrder`

  Main statements:
    * `Graph.placementOrder_perm`
-/

namespace GraphRewriting

------------------------------------------------------------
-- Frontiers
------------------------------------------------------------

/-
  The nodes that wait to be placed, with those among them that
  edges lead to from placed nodes, and those from which edges
  lead to placed nodes.
-/
structure Frontier where
  waiting : Std.ExtTreeSet NodeId
  ahead : Std.ExtTreeSet NodeId
  behind : Std.ExtTreeSet NodeId

namespace Frontier

/- The frontier of nodes of which none is placed. -/
def ofNodes (nodes : List NodeId) : Frontier :=
  ⟨.ofList nodes, ∅, ∅⟩

/- The frontier after one of the waiting nodes is placed. -/
def place
    (frontier : Frontier)
    (g : Graph)
    (node : NodeId) : Frontier :=
  let waiting := frontier.waiting.erase node
  let reach :=
    fun (set : Std.ExtTreeSet NodeId) (ids : List NodeId) =>
      (set.erase node).insertMany
        (ids.filter fun id => waiting.contains id)
  { waiting := waiting
    ahead := reach frontier.ahead (g.successors node)
    behind := reach frontier.behind (g.predecessors node) }

/-
  The node to place next: the least one ahead, else the least
  one behind, else the least one.
-/
def next? (frontier : Frontier) : Option NodeId :=
  (leastElement? frontier.ahead).or
    ((leastElement? frontier.behind).or
      (leastElement? frontier.waiting))

/- The nodes ahead and behind are among those that wait. -/
def IsSound (frontier : Frontier) : Prop :=
  (∀ id ∈ frontier.ahead, id ∈ frontier.waiting) ∧
    ∀ id ∈ frontier.behind, id ∈ frontier.waiting

end Frontier

------------------------------------------------------------
-- Order of placement
------------------------------------------------------------

namespace Graph

/-
  The nodes that wait at a frontier, in the order
  of their placement.
-/
def placementFrom (g : Graph) : Nat → Frontier → List NodeId
  | 0, _ => []
  | count + 1, frontier =>
      match frontier.next? with
      | none => []
      | some next =>
          next :: placementFrom g count (frontier.place g next)

/-
  The nodes of a graph in the order in which they are placed.
-/
def placementOrder (g : Graph) : List NodeId :=
  g.placementFrom g.nodes.size (.ofNodes g.nodeIds)

end Graph

------------------------------------------------------------
-- Every node is placed once
------------------------------------------------------------

theorem mem_of_leastElement?
    {set : Std.ExtTreeSet NodeId}
    {id : NodeId}
    (h : leastElement? set = some id) :
    id ∈ set := by
  rw [leastElement?_eq_head?] at h
  exact Std.ExtTreeSet.mem_toList.1 (List.mem_of_head? h)

namespace Frontier

/- At first all nodes wait, and none is in front of others. -/
theorem isSound_ofNodes (nodes : List NodeId) :
    (ofNodes nodes).IsSound := by
  constructor <;> intro id h <;>
    exact absurd h Std.ExtTreeSet.not_mem_empty

/- Placing a node moves only nodes that wait. -/
theorem IsSound.place
    {frontier : Frontier}
    (h : frontier.IsSound)
    (g : Graph)
    (node : NodeId) :
    (frontier.place g node).IsSound := by
  have hReach :
      ∀ (set : Std.ExtTreeSet NodeId) (ids : List NodeId),
        (∀ id ∈ set, id ∈ frontier.waiting) →
          ∀ id ∈ (set.erase node).insertMany
              (ids.filter fun id =>
                (frontier.waiting.erase node).contains id),
            id ∈ frontier.waiting.erase node := by
    intro set ids hSet id hId
    rw [Std.ExtTreeSet.mem_insertMany_list,
      Std.ExtTreeSet.mem_erase, List.contains_iff_mem,
      List.mem_filter] at hId
    rcases hId with ⟨hNe, hMem⟩ | ⟨_, hWaiting⟩
    · exact Std.ExtTreeSet.mem_erase.2 ⟨hNe, hSet id hMem⟩
    · exact Std.ExtTreeSet.contains_iff_mem.1 hWaiting
  exact
    ⟨hReach frontier.ahead _ h.1, hReach frontier.behind _ h.2⟩

/- The next node is one that waits. -/
theorem IsSound.mem_of_next?
    {frontier : Frontier}
    (h : frontier.IsSound)
    {next : NodeId}
    (hNext : frontier.next? = some next) :
    next ∈ frontier.waiting := by
  unfold next? at hNext
  rcases Option.or_eq_some_iff.1 hNext with hAhead | ⟨_, hNext⟩
  · exact h.1 next (mem_of_leastElement? hAhead)
  · rcases Option.or_eq_some_iff.1 hNext with
      hBehind | ⟨_, hWaiting⟩
    · exact h.2 next (mem_of_leastElement? hBehind)
    · exact mem_of_leastElement? hWaiting

/- There is a next node as long as nodes wait. -/
private theorem waiting_eq_empty
    {frontier : Frontier}
    (h : frontier.next? = none) :
    frontier.waiting = ∅ := by
  unfold next? at h
  rw [Option.or_eq_none_iff, Option.or_eq_none_iff,
    leastElement?_eq_min?, leastElement?_eq_min?,
    leastElement?_eq_min?] at h
  exact Std.ExtTreeSet.min?_eq_none_iff.1 h.2.2

end Frontier

namespace Graph

/-
  All nodes that wait are placed, each once. The induction
  is on their number.
-/
private theorem nodup_and_mem_placementFrom
    (g : Graph)
    (count : Nat)
    (frontier : Frontier)
    (hSound : frontier.IsSound)
    (hCount : frontier.waiting.size = count) :
    (g.placementFrom count frontier).Nodup ∧
      ∀ id : NodeId,
        id ∈ g.placementFrom count frontier ↔
          id ∈ frontier.waiting := by
  induction count generalizing frontier with
  | zero =>
      have hEmpty : frontier.waiting = ∅ :=
        Std.ExtTreeSet.eq_empty_iff_size_eq_zero.2 hCount
      rw [hEmpty]
      exact ⟨List.nodup_nil, fun id =>
        ⟨fun h => absurd h List.not_mem_nil,
          fun h => absurd h Std.ExtTreeSet.not_mem_empty⟩⟩
  | succ count ih =>
      unfold placementFrom
      split
      · rename_i hNone
        rw [Frontier.waiting_eq_empty hNone,
          Std.ExtTreeSet.size_empty] at hCount
        exact absurd hCount.symm (Nat.succ_ne_zero count)
      · rename_i next hNext
        have hMem := hSound.mem_of_next? hNext
        have hSize :
            (frontier.place g next).waiting.size = count := by
          show (frontier.waiting.erase next).size = count
          rw [Std.ExtTreeSet.size_erase,
            if_pos (Std.ExtTreeSet.contains_iff_mem.2 hMem),
            hCount]
          rfl
        rcases
            ih (frontier.place g next) (hSound.place g next)
              hSize with
          ⟨hNodup, hIff⟩
        have hWaiting :
            ∀ id : NodeId,
              id ∈
                g.placementFrom count (frontier.place g next) ↔
                next ≠ id ∧ id ∈ frontier.waiting := by
          intro id
          rw [hIff]
          show id ∈ frontier.waiting.erase next ↔ _
          rw [Std.ExtTreeSet.mem_erase, ne_eq,
            Std.compare_eq_iff_eq]
        constructor
        · exact List.nodup_cons.2
            ⟨fun h => ((hWaiting next).1 h).1 rfl, hNodup⟩
        · intro id
          rw [List.mem_cons, hWaiting]
          constructor
          · rintro (rfl | h)
            · exact hMem
            · exact h.2
          · intro h
            by_cases hEq : next = id
            · exact Or.inl hEq.symm
            · exact Or.inr ⟨hEq, h⟩

/- Every node of a graph is placed, and none is placed twice. -/
theorem placementOrder_perm (g : Graph) :
    g.placementOrder.Perm g.nodeIds := by
  have hIds : g.nodeIds.Nodup := Std.ExtTreeMap.nodup_keys
  have hWaiting :
      ∀ id : NodeId,
        id ∈ Std.ExtTreeSet.ofList g.nodeIds ↔
          id ∈ g.nodeIds := by
    intro id
    rw [Std.ExtTreeSet.mem_ofList, List.contains_iff_mem]
  have hSize :
      (Std.ExtTreeSet.ofList g.nodeIds).size =
        g.nodes.size := by
    rw [Std.ExtTreeSet.size_ofList
      (hIds.imp fun hNe hEq =>
        hNe (Std.compare_eq_iff_eq.1 hEq))]
    exact Std.ExtTreeMap.length_keys
  have hPlaced :=
    g.nodup_and_mem_placementFrom g.nodes.size
      (.ofNodes g.nodeIds)
    (Frontier.isSound_ofNodes g.nodeIds) hSize
  unfold placementOrder
  apply List.perm_iff_count.2
  intro id
  rw [hPlaced.1.count, hIds.count]
  simp only [(hPlaced.2 id).trans (hWaiting id)]

end Graph

end GraphRewriting
