import GraphRewriting.Digraph.Element
import GraphRewriting.Digraph.PairTable

/-
  This file defines sets of edges with at most one edge per
  ordered pair of ends. The edges are kept by start and end,
  next to an index from ends to starts. Ends need not be nodes
  of any graph.

  Key definitions include:
    * `EdgeStore`
    * `EdgeStore.get?`
    * `EdgeStore.insert`
    * `EdgeStore.erase`
    * `EdgeStore.incoming`
    * `EdgeStore.outgoing`
    * `EdgeStore.inDegree`
    * `EdgeStore.outDegree`
    * `EdgeStore.toList`
    * `EdgeStore.plain`

  Every operation is described by its effect on `get?`, and
  `EdgeStore.ext_get?` says that `get?` determines the store.
-/

namespace GraphRewriting

------------------------------------------------------------
-- Stores
------------------------------------------------------------

/-
  Edges from start to end, and the same pairs from end to
  start.
-/
structure EdgeStore where
  forward : PairTable EdgeInfo
  backward : PairTable Unit
  consistent :
    ∀ a b : NodeId,
      (backward.get? b a).isSome = (forward.get? a b).isSome
  deriving DecidableEq

namespace EdgeStore

/- What the edge between two ends carries. -/
def get?
    (store : EdgeStore)
    (start stop : NodeId) : Option EdgeInfo :=
  store.forward.get? start stop

/- Whether there is an edge between two ends. -/
def contains
    (store : EdgeStore)
    (start stop : NodeId) : Bool :=
  (store.get? start stop).isSome

/- The edge between two ends. -/
def edge?
    (store : EdgeStore)
    (start stop : NodeId) : Option Edge :=
  (store.get? start stop).map fun info => ⟨info, start, stop⟩

/- The store without edges. -/
def empty : EdgeStore where
  forward := ∅
  backward := ∅
  consistent := by simp

instance : EmptyCollection EdgeStore := ⟨empty⟩

instance : Inhabited EdgeStore := ⟨empty⟩

/- Store an edge in place of an edge with the same ends. -/
def insert
    (store : EdgeStore)
    (edge : Edge) : EdgeStore where
  forward :=
    store.forward.insert edge.start edge.stop edge.toEdgeInfo
  backward := store.backward.insert edge.stop edge.start ()
  consistent := by
    intro a b
    rw [PairTable.get?_insert, PairTable.get?_insert]
    by_cases h : edge.start = a ∧ edge.stop = b
    · rw [if_pos h, if_pos ⟨h.2, h.1⟩]
      rfl
    · rw [if_neg h, if_neg (fun h' => h ⟨h'.2, h'.1⟩)]
      exact store.consistent a b

/- Drop the edge between two ends. -/
def erase
    (store : EdgeStore)
    (start stop : NodeId) : EdgeStore where
  forward := store.forward.erase start stop
  backward := store.backward.erase stop start
  consistent := by
    intro a b
    rw [PairTable.get?_erase, PairTable.get?_erase]
    by_cases h : start = a ∧ stop = b
    · rw [if_pos h, if_pos ⟨h.2, h.1⟩]
      rfl
    · rw [if_neg h, if_neg (fun h' => h ⟨h'.2, h'.1⟩)]
      exact store.consistent a b

/- The edges that start at a node, by ascending end. -/
def outgoing
    (store : EdgeStore)
    (id : NodeId) : List Edge :=
  (store.forward.row id).toList.map fun (stop, info) =>
    ⟨info, id, stop⟩

/- The edges that end at a node, by ascending start. -/
def incoming
    (store : EdgeStore)
    (id : NodeId) : List Edge :=
  (store.backward.row id).keys.filterMap fun start =>
    store.edge? start id

/- The number of edges that start at a node. -/
def outDegree
    (store : EdgeStore)
    (id : NodeId) : Nat :=
  (store.forward.row id).size

/- The number of edges that end at a node. -/
def inDegree
    (store : EdgeStore)
    (id : NodeId) : Nat :=
  (store.backward.row id).size

/- All edges, by ascending start and end. -/
def toList (store : EdgeStore) : List Edge :=
  store.forward.entries.map fun (start, stop, info) =>
    ⟨info, start, stop⟩

/- The number of edges. -/
def size (store : EdgeStore) : Nat :=
  store.forward.size

/- Whether there is no edge. -/
def isEmpty (store : EdgeStore) : Bool :=
  store.forward.isEmpty

/- The same edges without their document ids. -/
def plain (store : EdgeStore) : EdgeStore where
  forward := store.forward.map EdgeInfo.plain
  backward := store.backward
  consistent := by
    intro a b
    rw [PairTable.get?_map, Option.isSome_map]
    exact store.consistent a b

/-
  Drop every edge that touches a node, its self loop included.
-/
def detach
    (store : EdgeStore)
    (id : NodeId) : EdgeStore :=
  (store.outgoing id ++ store.incoming id).foldl
    (fun store edge => store.erase edge.start edge.stop) store

end EdgeStore

end GraphRewriting

------------------------------------------------------------
-- Lookups
------------------------------------------------------------

namespace GraphRewriting

namespace EdgeStore

@[simp]
theorem get?_empty (a b : NodeId) :
    (∅ : EdgeStore).get? a b = none :=
  PairTable.get?_empty a b

theorem get?_insert
    (store : EdgeStore)
    (edge : Edge)
    (a b : NodeId) :
    (store.insert edge).get? a b =
      if edge.start = a ∧ edge.stop = b then
        some edge.toEdgeInfo
      else store.get? a b :=
  PairTable.get?_insert store.forward edge.start edge.stop a b
    edge.toEdgeInfo

theorem get?_erase
    (store : EdgeStore)
    (start stop a b : NodeId) :
    (store.erase start stop).get? a b =
      if start = a ∧ stop = b then none else store.get? a b :=
  PairTable.get?_erase store.forward start stop a b

@[simp]
theorem get?_plain
    (store : EdgeStore)
    (a b : NodeId) :
    store.plain.get? a b =
      (store.get? a b).map EdgeInfo.plain :=
  PairTable.get?_map EdgeInfo.plain store.forward a b

/- Stores with the same edges are equal. -/
@[ext]
theorem ext_get?
    {s t : EdgeStore}
    (h : ∀ a b : NodeId, s.get? a b = t.get? a b) :
    s = t := by
  have hForward : s.forward = t.forward := PairTable.ext_get? h
  have hBackward : s.backward = t.backward := by
    apply PairTable.ext_get?
    intro b a
    have hs := s.consistent a b
    have ht := t.consistent a b
    rw [hForward, ← ht] at hs
    cases hx : s.backward.get? b a <;>
      cases hy : t.backward.get? b a <;>
      simp [hx, hy] at hs
    · rfl
    · rfl
  cases s
  cases t
  cases hForward
  cases hBackward
  rfl

/- An edge is found under its own ends. -/
theorem edge?_eq_some
    {store : EdgeStore}
    {a b : NodeId}
    {edge : Edge} :
    store.edge? a b = some edge ↔
      edge.start = a ∧ edge.stop = b ∧
        store.get? a b = some edge.toEdgeInfo := by
  unfold edge?
  rw [Option.map_eq_some_iff]
  constructor
  · rintro ⟨info, hInfo, rfl⟩
    exact ⟨rfl, rfl, hInfo⟩
  · rintro ⟨rfl, rfl, hInfo⟩
    exact ⟨edge.toEdgeInfo, hInfo, rfl⟩

/- The list of a store holds its edges and nothing else. -/
theorem mem_toList
    {store : EdgeStore}
    {edge : Edge} :
    edge ∈ store.toList ↔
      store.get? edge.start edge.stop =
        some edge.toEdgeInfo := by
  unfold toList get?
  rw [List.mem_map]
  constructor
  · rintro ⟨⟨a, b, info⟩, hMem, rfl⟩
    exact PairTable.mem_entries.1 hMem
  · intro h
    exact
      ⟨(edge.start, edge.stop, edge.toEdgeInfo),
        PairTable.mem_entries.2 h, rfl⟩

/- The edges out of a node are those that start there. -/
theorem mem_outgoing
    {store : EdgeStore}
    {id : NodeId}
    {edge : Edge} :
    edge ∈ store.outgoing id ↔
      edge ∈ store.toList ∧ edge.start = id := by
  rw [mem_toList]
  unfold outgoing get? PairTable.get?
  rw [List.mem_map]
  constructor
  · rintro ⟨⟨stop, info⟩, hMem, rfl⟩
    exact
      ⟨Std.ExtTreeMap.mem_toList_iff_getElem?_eq_some.1 hMem,
        rfl⟩
  · rintro ⟨h, rfl⟩
    exact
      ⟨(edge.stop, edge.toEdgeInfo),
        Std.ExtTreeMap.mem_toList_iff_getElem?_eq_some.2 h, rfl⟩

/- The edges into a node are those that stop there. -/
theorem mem_incoming
    {store : EdgeStore}
    {id : NodeId}
    {edge : Edge} :
    edge ∈ store.incoming id ↔
      edge ∈ store.toList ∧ edge.stop = id := by
  rw [mem_toList]
  unfold incoming
  rw [List.mem_filterMap]
  constructor
  · rintro ⟨start, _, hEdge⟩
    rcases edge?_eq_some.1 hEdge with ⟨rfl, rfl, hInfo⟩
    exact ⟨hInfo, rfl⟩
  · rintro ⟨h, rfl⟩
    refine ⟨edge.start, ?_, edge?_eq_some.2 ⟨rfl, rfl, h⟩⟩
    have hBack := store.consistent edge.start edge.stop
    unfold get? at h
    rw [h] at hBack
    rw [Std.ExtTreeMap.mem_keys,
      Std.ExtTreeMap.mem_iff_isSome_getElem?]
    exact hBack

/- The degree counts the edges out of a node. -/
theorem outDegree_eq_length
    (store : EdgeStore)
    (id : NodeId) :
    store.outDegree id = (store.outgoing id).length := by
  unfold outDegree outgoing
  rw [List.length_map, Std.ExtTreeMap.length_toList]

/- The degree counts the edges into a node. -/
theorem inDegree_eq_length
    (store : EdgeStore)
    (id : NodeId) :
    store.inDegree id = (store.incoming id).length := by
  have hEdge :
      ∀ start ∈ (store.backward.row id).keys,
        (store.edge? start id).isSome = true := by
    intro start hMem
    rw [Std.ExtTreeMap.mem_keys,
      Std.ExtTreeMap.mem_iff_isSome_getElem?] at hMem
    unfold edge? get?
    rw [Option.isSome_map, ← store.consistent start id]
    exact hMem
  unfold inDegree incoming
  rw [List.filterMap_length_eq_length.2 hEdge,
    Std.ExtTreeMap.length_keys]

/- Erasing edges one after the other drops them all. -/
private theorem get?_foldl_erase
    (edges : List Edge)
    (store : EdgeStore)
    (a b : NodeId) :
    (edges.foldl
        (fun store edge => store.erase edge.start edge.stop)
        store).get?
      a b =
      if ∃ edge ∈ edges, edge.start = a ∧ edge.stop = b then
        none
      else store.get? a b := by
  induction edges generalizing store with
  | nil => simp
  | cons edge edges ih =>
      rw [List.foldl_cons, ih, get?_erase]
      by_cases hTail :
        ∃ edge ∈ edges, edge.start = a ∧ edge.stop = b
      · simp [hTail]
      · by_cases hHead : edge.start = a ∧ edge.stop = b
        · simp [hHead]
        · simp only [hTail, hHead, if_false, List.mem_cons,
            exists_eq_or_imp, or_self]

/- Detaching a node drops the edges at it and no others. -/
theorem get?_detach
    (store : EdgeStore)
    (id a b : NodeId) :
    (store.detach id).get? a b =
      if a = id ∨ b = id then none else store.get? a b := by
  unfold detach
  rw [get?_foldl_erase]
  cases hInfo : store.get? a b with
  | none => simp
  | some info =>
      have hIff :
          (∃ edge ∈ store.outgoing id ++ store.incoming id,
              edge.start = a ∧ edge.stop = b) ↔
                (a = id ∨ b = id) := by
        constructor
        · rintro ⟨edge, hMem, rfl, rfl⟩
          rcases List.mem_append.1 hMem with h | h
          · exact Or.inl (mem_outgoing.1 h).2
          · exact Or.inr (mem_incoming.1 h).2
        · intro h
          have hList : (⟨info, a, b⟩ : Edge) ∈ store.toList :=
            mem_toList.2 hInfo
          refine ⟨⟨info, a, b⟩, ?_, rfl, rfl⟩
          rcases h with h | h
          · exact
              List.mem_append_left _ (mem_outgoing.2 ⟨hList, h⟩)
          · exact List.mem_append_right _
              (mem_incoming.2 ⟨hList, h⟩)
      simp only [hIff]

end EdgeStore

end GraphRewriting
