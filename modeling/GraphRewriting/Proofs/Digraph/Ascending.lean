import GraphRewriting.Proofs.AscendingList
import GraphRewriting.Proofs.Digraph.Runs

/-
  Edges by ascending start and end. The lists that a store gives
  out ascend, so that they are told by what is in them: the
  edges on one side of a node and the edges that are left behind
  a node come in the order of all edges.

  Main declarations:
    * `EdgeEnds`
    * `Ascending`
    * `Ascending.eq_of_mem_iff`
    * `EdgeStore.toList_ascending`
    * `EdgeStore.outgoing_eq_filter`
    * `EdgeStore.incoming_eq_filter`
    * `EdgeStore.toList_detach`
    * `EdgeStore.toList_plain`
    * `EdgeStore.size_detach`
-/

------------------------------------------------------------
-- Ends
------------------------------------------------------------

namespace GraphRewriting

/- Where an edge starts and where it ends. -/
structure EdgeEnds where
  start : NodeId
  stop : NodeId
  deriving DecidableEq

namespace EdgeEnds

/- Ends compare by start, then by stop. -/
instance : Ord EdgeEnds :=
  ⟨compareLex (compareOn start) (compareOn stop)⟩

instance : Std.TransOrd EdgeEnds :=
  Std.instTransCmpCompareLex

variable {a b : EdgeEnds}

/-
  Edges are ordered by where they start, then
  by where they stop.
-/
theorem compare_eq_then :
    compare a b =
      (compare a.start b.start).then
        (compare a.stop b.stop) := rfl

instance : Std.LawfulEqOrd EdgeEnds where
  eq_of_compare {a b} h := by
    rw [compare_eq_then, Ordering.then_eq_eq,
      Std.compare_eq_iff_eq, Std.compare_eq_iff_eq] at h
    cases a
    cases b
    rw [mk.injEq]
    exact h

theorem compare_eq_lt_iff :
    compare a b = .lt ↔
      compare a.start b.start = .lt ∨
        a.start = b.start ∧ compare a.stop b.stop = .lt := by
  rw [compare_eq_then, Ordering.then_eq_lt,
    Std.compare_eq_iff_eq]

end EdgeEnds

/- The ends of an edge. -/
def Edge.ends (edge : Edge) : EdgeEnds :=
  ⟨edge.start, edge.stop⟩

end GraphRewriting

------------------------------------------------------------
-- Ascending Lists
------------------------------------------------------------

namespace GraphRewriting

/- Each edge has smaller ends than those behind it. -/
def Ascending (edges : List Edge) : Prop :=
  edges.Pairwise fun first second =>
    compare first.ends second.ends = .lt

instance (edges : List Edge) : Decidable (Ascending edges) :=
  inferInstanceAs (Decidable (edges.Pairwise _))

namespace Ascending

variable {edges others : List Edge}

theorem filter
    (h : Ascending edges)
    (keep : Edge → Bool) :
    Ascending (edges.filter keep) :=
  List.Pairwise.sublist List.filter_sublist h

/- An ascending list is told by its edges. -/
theorem eq_of_mem_iff
    (h : Ascending edges)
    (hOthers : Ascending others)
    (hMem : ∀ edge : Edge, edge ∈ edges ↔ edge ∈ others) :
    edges = others :=
  eq_of_ascending h hOthers hMem

end Ascending

end GraphRewriting

------------------------------------------------------------
-- Lists Of A Store
------------------------------------------------------------

namespace GraphRewriting

namespace EdgeStore

variable {store : EdgeStore}

/- A store lists its edges in ascending order. -/
theorem toList_ascending
    (store : EdgeStore) :
    Ascending store.toList := by
  unfold Ascending toList PairTable.entries
  rw [List.map_flatMap, List.pairwise_flatMap]
  constructor
  · rintro ⟨start, row⟩ _
    rw [List.map_map, List.pairwise_map]
    apply List.Pairwise.imp _ row.ordered_keys_toList
    intro first second hLt
    exact EdgeEnds.compare_eq_lt_iff.2 (Or.inr ⟨rfl, hLt⟩)
  · apply
      List.Pairwise.imp _ store.forward.rows.ordered_keys_toList
    rintro ⟨start, row⟩ ⟨other, otherRow⟩ hLt edge hEdge next
      hNext
    rw [List.map_map, List.mem_map] at hEdge hNext
    rcases hEdge with ⟨entry, _, rfl⟩
    rcases hNext with ⟨otherEntry, _, rfl⟩
    exact EdgeEnds.compare_eq_lt_iff.2 (Or.inl hLt)

/- The edges that start at a node ascend by their stops. -/
theorem stops_ascending
    (store : EdgeStore)
    (id : NodeId) :
    (store.outgoing id).Pairwise fun first second =>
      compare first.stop second.stop = .lt := by
  unfold outgoing
  rw [List.pairwise_map]
  exact (store.forward.row id).ordered_keys_toList

/- The edges that end at a node ascend by their starts. -/
theorem starts_ascending
    (store : EdgeStore)
    (id : NodeId) :
    (store.incoming id).Pairwise fun first second =>
      compare first.start second.start = .lt := by
  unfold incoming
  rw [List.pairwise_filterMap]
  apply List.Pairwise.imp _ (store.backward.row id).ordered_keys
  intro first second hLt edge hEdge next hNext
  rw [(edge?_eq_some.1 hEdge).1, (edge?_eq_some.1 hNext).1]
  exact hLt

/- What starts at a node comes in the order of all edges. -/
theorem outgoing_eq_filter
    (store : EdgeStore)
    (id : NodeId) :
    store.outgoing id =
      store.toList.filter fun edge => edge.start == id := by
  apply Ascending.eq_of_mem_iff
  · apply List.Pairwise.imp_of_mem _ (store.stops_ascending id)
    intro first second hFirst hSecond hLt
    have hStart :=
      (mem_outgoing.1 hFirst).2.trans
        (mem_outgoing.1 hSecond).2.symm
    exact EdgeEnds.compare_eq_lt_iff.2 (Or.inr ⟨hStart, hLt⟩)
  · exact store.toList_ascending.filter _
  · intro edge
    rw [mem_outgoing, List.mem_filter, beq_iff_eq]

/- What ends at a node comes in the order of all edges. -/
theorem incoming_eq_filter
    (store : EdgeStore)
    (id : NodeId) :
    store.incoming id =
      store.toList.filter fun edge => edge.stop == id := by
  apply Ascending.eq_of_mem_iff
  · apply List.Pairwise.imp _ (store.starts_ascending id)
    intro first second hLt
    exact EdgeEnds.compare_eq_lt_iff.2 (Or.inl hLt)
  · exact store.toList_ascending.filter _
  · intro edge
    rw [mem_incoming, List.mem_filter, beq_iff_eq]

/- Detaching a node leaves the other edges, in their order. -/
theorem toList_detach
    (store : EdgeStore)
    (id : NodeId) :
    (store.detach id).toList =
      store.toList.filter fun edge =>
        edge.start != id && edge.stop != id := by
  apply (store.detach id).toList_ascending.eq_of_mem_iff
    (store.toList_ascending.filter _)
  intro edge
  rw [mem_toList, get?_detach, List.mem_filter, mem_toList,
    Bool.and_eq_true, bne_iff_ne, bne_iff_ne, ← not_or]
  by_cases hTouches : edge.start = id ∨ edge.stop = id
  · simp [hTouches]
  · simp [hTouches]

end EdgeStore

end GraphRewriting

------------------------------------------------------------
-- Edges Without Document Ids
------------------------------------------------------------

namespace GraphRewriting

private theorem Ascending.map_plain
    {edges : List Edge}
    (h : Ascending edges) :
    Ascending (edges.map Edge.plain) :=
  List.pairwise_map.2 h

/- Forgetting document ids leaves the edges in their order. -/
theorem EdgeStore.toList_plain
    (store : EdgeStore) :
    store.plain.toList = store.toList.map Edge.plain := by
  apply store.plain.toList_ascending.eq_of_mem_iff
    store.toList_ascending.map_plain
  intro edge
  rw [mem_toList, get?_plain, Option.map_eq_some_iff,
    List.mem_map]
  constructor
  · rintro ⟨info, hInfo, hPlain⟩
    refine
      ⟨⟨info, edge.start, edge.stop⟩, mem_toList.2 hInfo, ?_⟩
    unfold Edge.plain
    rw [hPlain]
  · rintro ⟨other, hOther, rfl⟩
    exact ⟨other.toEdgeInfo, mem_toList.1 hOther, rfl⟩

theorem EdgeStore.mem_toList_plain
    {store : EdgeStore}
    {edge : Edge} :
    edge ∈ store.plain.toList ↔
      ∃ other ∈ store.toList, other.plain = edge := by
  rw [toList_plain, List.mem_map]

/- Edges of equivalent graphs correspond. -/
theorem Graph.exists_plain_eq
    {g h : Graph}
    (hEquiv : g ≈ h)
    {edge : Edge}
    (hEdge : edge ∈ g.edges.toList) :
    ∃ other ∈ h.edges.toList, other.plain = edge.plain := by
  have hEdges : g.edges.plain = h.edges.plain :=
    congrArg Graph.edges hEquiv
  rw [← EdgeStore.mem_toList_plain, ← hEdges]
  exact EdgeStore.mem_toList_plain.2 ⟨edge, hEdge, rfl⟩

theorem Graph.nodes_eq_of_equiv
    {g h : Graph}
    (hEquiv : g ≈ h) :
    g.nodes = h.nodes := by
  have hPlain : g.plain = h.plain := hEquiv
  show g.plain.nodes = h.plain.nodes
  rw [hPlain]

end GraphRewriting

------------------------------------------------------------
-- Counting
------------------------------------------------------------

namespace GraphRewriting

/- The size of a table is the number of its entries. -/
private theorem PairTable.size_eq_length
    {α : Type}
    (t : PairTable α) :
    t.size = t.entries.length := by
  unfold size entries
  rw [Std.ExtTreeMap.foldr_eq_foldr_toList, List.length_flatMap]
  induction t.rows.toList with
  | nil => rfl
  | cons entry rows ih =>
      rw [List.foldr_cons, ih, List.map_cons, List.sum_cons,
        List.length_map, Std.ExtTreeMap.length_toList]

theorem EdgeStore.length_toList
    (store : EdgeStore) :
    store.toList.length = store.size := by
  unfold toList size
  rw [List.length_map, PairTable.size_eq_length]

namespace EdgeStore

variable {store : EdgeStore}

/-
  An edge at a node starts there, or ends there, or does both.
-/
theorem length_filter_untouched
    (edges : List Edge)
    (id : NodeId) :
    (edges.filter fun edge =>
      edge.start != id && edge.stop != id).length +
        ((edges.filter fun edge => edge.stop == id).length +
          (edges.filter fun edge => edge.start == id).length) =
      edges.length +
        (edges.filter fun edge =>
          edge.start == id && edge.stop == id).length := by
  induction edges with
  | nil => rfl
  | cons edge edges ih =>
      unfold bne at ih ⊢
      simp only [List.filter_cons]
      cases edge.start == id <;> cases edge.stop == id <;>
        simp <;> omega

/- At most one edge leads from a node to itself. -/
private theorem filter_loops_eq
    (store : EdgeStore)
    (id : NodeId) :
    (store.toList.filter fun edge =>
      edge.start == id && edge.stop == id) =
      (store.edge? id id).toList := by
  apply (store.toList_ascending.filter _).eq_of_mem_iff
  · unfold Ascending
    cases store.edge? id id with
    | none => exact List.Pairwise.nil
    | some edge => exact List.pairwise_singleton _ edge
  · intro edge
    rw [List.mem_filter, mem_toList, Option.mem_toList,
      edge?_eq_some, Bool.and_eq_true, beq_iff_eq, beq_iff_eq]
    constructor
    · rintro ⟨hInfo, rfl, hStop⟩
      rw [hStop] at hInfo
      exact ⟨rfl, hStop, hInfo⟩
    · rintro ⟨rfl, hStop, hInfo⟩
      rw [hStop]
      exact ⟨hInfo, rfl, rfl⟩

/-
  With a node go the edges on both of its sides, an
  edge to itself once.
-/
theorem size_detach
    (store : EdgeStore)
    (id : NodeId) :
    (store.detach id).size +
      (store.inDegree id + store.outDegree id) =
      store.size + if store.contains id id then 1 else 0 := by
  have hLoop :
      (if store.contains id id then 1 else 0) =
        (store.edge? id id).toList.length := by
    unfold contains edge?
    cases store.get? id id <;> rfl
  rw [hLoop, ← filter_loops_eq, ← length_toList,
    ← length_toList, toList_detach, inDegree_eq_length,
    outDegree_eq_length, incoming_eq_filter, outgoing_eq_filter]
  exact length_filter_untouched store.toList id

end EdgeStore

end GraphRewriting
