import GraphRewriting.Proofs.Matching.Outside
import GraphRewriting.Proofs.Traversal

/-
  The sides of a pattern, the bindings that its slots let
  through, and the entries of the morphisms made from them.

  Main declarations:
    * `ExoticGraph.IsBeside`
    * `ExoticGraph.IsBinding`
    * `mem_extensions_slots_iff`
    * `ExoticGraph.morphism?_eq_some_iff`
-/

------------------------------------------------------------
-- Sides
------------------------------------------------------------

namespace GraphRewriting

namespace ExoticGraph

variable {p : ExoticGraph}

/- A node is a neighbour of some ordinary node. -/
def IsBeside
    (p : ExoticGraph)
    (x : NodeId) : Prop :=
  ∃ a ∈ p.graph.nodes,
    ∃ direction : Direction, x ∈ p.graph.beside direction a

/- The sides are those on which there are exotic nodes. -/
theorem mem_sides_iff
    {side : Side} :
    side ∈ p.sides ↔
      ∃ a ∈ p.graph.nodeIds, ∃ direction : Direction,
        p.exoticsBeside direction a ≠ [] ∧
          side = p.side direction a := by
  unfold sides
  rw [List.mem_flatMap]
  apply exists_congr
  intro a
  apply and_congr_right
  intro _
  rw [List.mem_filterMap]
  have hSide :
      ∀ direction : Direction,
        ((if ((p.graph.beside direction a).filter
          p.isExotic).isEmpty then none
            else
              some ⟨a, direction,
                (p.graph.beside direction a).filter
                  p.isExotic⟩) = some side ↔
          p.exoticsBeside direction a ≠ [] ∧
            side = p.side direction a) := by
    intro direction
    unfold ExoticGraph.side exoticsBeside
    rw [Option.ite_none_left_eq_some, List.isEmpty_iff,
      Option.some.injEq]
    exact and_congr_right fun _ => eq_comm
  constructor
  · rintro ⟨direction, -, h⟩
    exact ⟨direction, (hSide direction).1 h⟩
  · rintro ⟨direction, h⟩
    refine ⟨direction, ?_, (hSide direction).2 h⟩
    cases direction <;> simp

/-
  The exotic nodes on the sides are those
  beside an ordinary node.
-/
theorem exists_mem_exoticsBeside
    {x : NodeId} :
    (∃ side ∈ p.sides, x ∈ side.exotics) ↔
      x ∈ p.exotic ∧ p.IsBeside x := by
  constructor
  · rintro ⟨side, hSide, hx⟩
    rcases mem_sides_iff.1 hSide with ⟨a, ha, direction, -, rfl⟩
    rcases mem_exoticsBeside.1 hx with ⟨hBeside, hExotic⟩
    exact
      ⟨hExotic, a, Std.ExtTreeMap.mem_keys.1 ha, direction,
        hBeside⟩
  · rintro ⟨hExotic, a, ha, direction, hBeside⟩
    have hx : x ∈ p.exoticsBeside direction a :=
      mem_exoticsBeside.2 ⟨hBeside, hExotic⟩
    refine ⟨p.side direction a, mem_sides_iff.2 ?_, hx⟩
    exact
      ⟨a, Std.ExtTreeMap.mem_keys.2 ha, direction,
        List.ne_nil_of_mem hx, rfl⟩

end ExoticGraph

end GraphRewriting

------------------------------------------------------------
-- Bindings Around An Embedding
------------------------------------------------------------

namespace GraphRewriting

/-
  Bindings of the exotic nodes beside ordinary ones, to all
  nodes outside and to nothing else.
-/
structure ExoticGraph.IsBinding
    (p : ExoticGraph)
    (target : Graph)
    (f : NodeId → NodeId)
    (b : Bindings) : Prop where
  sound : b.IsSound
  keys :
    ∀ x : NodeId, x ∈ b.targets ↔ x ∈ p.exotic ∧ p.IsBeside x
  around :
    ∀ a ∈ p.graph.nodeIds,
      ∀ (direction : Direction) (id : NodeId),
      (∃ x ∈ p.exoticsBeside direction a,
        b.targets[x]? = some (some id)) ↔
        id ∈ outside target f p.graph.nodeIds direction a

variable {p : ExoticGraph}
variable {target : Graph}
variable {f : NodeId → NodeId}

theorem isComplete_slot
    (e : Embedding)
    (side : Side) :
    (p.slot target e side).IsComplete :=
  fun _ hChoice => length_of_mem_arrangements hChoice

theorem isComplete_of_mem_slots
    {e : Embedding}
    {slot : Slot}
    (hSlot : slot ∈ p.sides.map (p.slot target e)) :
    slot.IsComplete := by
  rcases List.mem_map.1 hSlot with ⟨side, -, rfl⟩
  exact isComplete_slot e side

theorem exists_mem_slot_exotics_iff
    {e : Embedding}
    {x : NodeId} :
    (∃ slot ∈ p.sides.map (p.slot target e), x ∈ slot.exotics) ↔
      x ∈ p.exotic ∧ p.IsBeside x := by
  rw [← ExoticGraph.exists_mem_exoticsBeside]
  simp only [List.mem_map, exists_exists_and_eq_and]
  rfl

/-
  Every slot gets a choice when the exotic nodes beside each
  ordinary node are keys and are bound to the nodes outside.
-/
private theorem forall_slot_gives_iff
    (hAdmits :
      ∀ a ∈ p.graph.nodeIds, ∀ direction : Direction,
        p.kind.AdmitsDegree (p.exoticsBeside direction a).length
          (outside target f p.graph.nodeIds direction a).length)
    {b : Bindings}
    (hb : b.IsSound) :
    (∀ slot ∈
      p.sides.map (p.slot target (.ofMap f p.graph.nodeIds)),
        ∃ choice ∈ slot.choices, b.Gives slot choice) ↔
      ∀ a ∈ p.graph.nodeIds, ∀ direction : Direction,
        (∀ x ∈ p.exoticsBeside direction a, x ∈ b.targets) ∧
          ∀ id : NodeId,
            (∃ x ∈ p.exoticsBeside direction a,
                b.targets[x]? = some (some id)) ↔
              id ∈ outside target f p.graph.nodeIds direction
                a := by
  constructor
  · intro hGives a ha direction
    by_cases hNe : p.exoticsBeside direction a = []
    · -- Without exotic nodes on the side, degrees leave none
      -- outside.
      have hLe := (hAdmits a ha direction).le
      rw [hNe, List.length_nil, Nat.le_zero,
        List.length_eq_zero_iff] at hLe
      simp [hNe, hLe]
    · rw [← exists_choice_iff hb ha (hAdmits a ha direction)]
      refine hGives _ (List.mem_map_of_mem ?_)
      exact
        ExoticGraph.mem_sides_iff.2 ⟨a, ha, direction, hNe, rfl⟩
  · intro h slot hSlot
    rcases List.mem_map.1 hSlot with ⟨side, hSide, rfl⟩
    rcases ExoticGraph.mem_sides_iff.1 hSide with
      ⟨a, ha, direction, -, rfl⟩
    exact (exists_choice_iff hb ha (hAdmits a ha direction)).2
      (h a ha direction)

/-
  The slots around an embedding let the bindings
  around it through.
-/
theorem mem_extensions_slots_iff
    (hAdmits :
      ∀ a ∈ p.graph.nodeIds, ∀ direction : Direction,
        p.kind.AdmitsDegree (p.exoticsBeside direction a).length
          (outside target f p.graph.nodeIds direction a).length)
    {b : Bindings} :
    b ∈ Bindings.empty.extensions
        (p.sides.map
          (p.slot target (.ofMap f p.graph.nodeIds))) ↔
      p.IsBinding target f b := by
  rw [Bindings.mem_extensions_iff Bindings.isSound_empty
    fun slot hSlot => isComplete_of_mem_slots hSlot]
  constructor
  · rintro ⟨hb, -, hGives, hWithin⟩
    have hAround := (forall_slot_gives_iff hAdmits hb).1 hGives
    refine
      ⟨hb, ?_, fun a ha direction => (hAround a ha direction).2⟩
    intro x
    constructor
    · intro hx
      rcases hWithin x hx with hEmpty | hSlot
      · simp [Bindings.empty] at hEmpty
      · exact exists_mem_slot_exotics_iff.1 hSlot
    · rintro ⟨hExotic, a, ha, direction, hBeside⟩
      have ha := Std.ExtTreeMap.mem_keys.2 ha
      have hx :=
        ExoticGraph.mem_exoticsBeside.2 ⟨hBeside, hExotic⟩
      exact (hAround a ha direction).1 x hx
  · rintro ⟨hb, hKey, hAround⟩
    refine ⟨hb, ?_, (forall_slot_gives_iff hAdmits hb).2 ?_, ?_⟩
    · intro x value hx
      simp [Bindings.empty] at hx
    · intro a ha direction
      refine ⟨?_, hAround a ha direction⟩
      intro x hx
      rcases ExoticGraph.mem_exoticsBeside.1 hx with
        ⟨hBeside, hExotic⟩
      exact (hKey x).2
        ⟨hExotic, a, Std.ExtTreeMap.mem_keys.1 ha, direction,
          hBeside⟩
    · intro x hx
      exact
        Or.inr (exists_mem_slot_exotics_iff.2 ((hKey x).1 hx))

end GraphRewriting

------------------------------------------------------------
-- Entries Of A Morphism
------------------------------------------------------------

namespace GraphRewriting

namespace ExoticGraph

variable {p : ExoticGraph}
variable {f : NodeId → NodeId}
variable {b : Bindings}

/-
  What the morphism of an embedding and of bindings says of a
  node: an exotic node without a binding is unmatched.
-/
def entryAt
    (p : ExoticGraph)
    (f : NodeId → NodeId)
    (b : Bindings)
    (id : NodeId) : Option (Option NodeId) :=
  if id ∈ p.graph.nodes then some (some (f id))
  else if id ∈ p.exotic then some b.targets[id]?.join
  else none

/- An embedding has an entry for each node it was made on. -/
theorem mem_entries_ofMap
    {ids : List NodeId}
    {a : NodeId}
    {value : Option NodeId} :
    (a, value) ∈ (Embedding.ofMap f ids).entries ↔
      a ∈ ids ∧ value = some (f a) := by
  unfold Embedding.entries
  rw [List.mem_map]
  constructor
  · rintro ⟨⟨node, image⟩, hMem, hEq⟩
    cases hEq
    have hLookup :=
      Std.ExtTreeMap.mem_toList_iff_getElem?_eq_some.1 hMem
    rw [Embedding.getElem?_images_ofMap,
      Option.ite_none_right_eq_some] at hLookup
    rcases hLookup with ⟨ha, hImage⟩
    exact ⟨ha, hImage.symm⟩
  · rintro ⟨ha, rfl⟩
    refine ⟨(a, f a), ?_, rfl⟩
    rw [Std.ExtTreeMap.mem_toList_iff_getElem?_eq_some,
      Embedding.getElem?_images_ofMap, if_pos ha]

/-
  Entries are there for all exotic nodes, unless an
  anchor has no binding.
-/
theorem forall_isSome_exoticEntry?_iff :
    (∀ x ∈ p.exoticIds, (p.exoticEntry? b x).isSome = true) ↔
      (p.kind = .anchor → ∀ x ∈ p.exotic, x ∈ b.targets) := by
  have hEntry :
      ∀ x : NodeId,
        (p.exoticEntry? b x).isSome = true ↔
          (p.kind = .anchor → x ∈ b.targets) := by
    intro x
    unfold exoticEntry?
    rw [Std.ExtTreeMap.mem_iff_isSome_getElem?]
    cases b.targets[x]? <;> cases p.kind <;> simp
  unfold exoticIds
  simp only [hEntry, Std.ExtTreeMap.mem_keys]
  constructor
  · intro h hKind x hx
    exact h x hx hKind
  · intro h x hx hKind
    exact h hKind x hx

/-
  An exotic node without a binding has an
  entry without a target.
-/
private theorem exoticEntry?_eq_some
    {x y : NodeId}
    {value : Option NodeId}
    (h : p.exoticEntry? b x = some (y, value)) :
    y = x ∧ value = b.targets[x]?.join := by
  unfold exoticEntry? at h
  split at h
  · rename_i target _ hTarget
    cases h
    simp [hTarget]
  · rename_i hNone _
    cases h
    simp [hNone]
  · cases h

/-
  The entries of embedding and bindings together are those
  that `entryAt` gives.
-/
private theorem mem_entries_iff
    (hEntries :
      ∀ x ∈ p.exoticIds, (p.exoticEntry? b x).isSome = true)
    {id : NodeId}
    {value : Option NodeId} :
    (id, value) ∈
        (Embedding.ofMap f p.graph.nodeIds).entries ++
          p.exoticIds.filterMap (p.exoticEntry? b) ↔
      p.entryAt f b id = some value := by
  have hOrdinary : id ∈ p.graph.nodeIds ↔ id ∈ p.graph.nodes :=
    Std.ExtTreeMap.mem_keys
  have hExotic :
      (id, value) ∈ p.exoticIds.filterMap (p.exoticEntry? b) ↔
        id ∈ p.exotic ∧ value = b.targets[id]?.join := by
    rw [List.mem_filterMap]
    constructor
    · rintro ⟨x, hx, hEntry⟩
      rcases exoticEntry?_eq_some hEntry with ⟨rfl, hValue⟩
      exact ⟨Std.ExtTreeMap.mem_keys.1 hx, hValue⟩
    · rintro ⟨hx, rfl⟩
      have hx : id ∈ p.exoticIds := Std.ExtTreeMap.mem_keys.2 hx
      rcases Option.isSome_iff_exists.1 (hEntries id hx) with
        ⟨⟨y, target⟩, hEntry⟩
      rcases exoticEntry?_eq_some hEntry with ⟨rfl, rfl⟩
      exact ⟨y, hx, hEntry⟩
  rw [List.mem_append, mem_entries_ofMap, hOrdinary, hExotic]
  unfold entryAt
  by_cases hNode : id ∈ p.graph.nodes
  · have hNot : id ∉ p.exotic := fun h => p.disjoint id h hNode
    simp [hNode, hNot, eq_comm]
  · by_cases hx : id ∈ p.exotic <;> simp [hNode, hx, eq_comm]

/-
  The morphism of an embedding and of bindings,
  looked up node by node.
-/
theorem morphism?_eq_some_iff
    {m : Morphism} :
    p.morphism? (.ofMap f p.graph.nodeIds) b = some m ↔
      (p.kind = .anchor → ∀ x ∈ p.exotic, x ∈ b.targets) ∧
        ∀ id : NodeId, m.bindings[id]? = p.entryAt f b id := by
  have hMake :
      p.morphism? (.ofMap f p.graph.nodeIds) b = some m ↔
        (∀ x ∈ p.exoticIds,
          (p.exoticEntry? b x).isSome = true) ∧
          Morphism.ofList
            ((Embedding.ofMap f p.graph.nodeIds).entries ++
              p.exoticIds.filterMap (p.exoticEntry? b)) =
                m := by
    unfold morphism?
    simp only [Option.bind_eq_bind, Option.bind_eq_some_iff,
      mapM_eq_some_iff, Option.pure_def, Option.some.injEq]
    constructor
    · rintro ⟨exotics, ⟨hEntries, rfl⟩, rfl⟩
      exact ⟨hEntries, rfl⟩
    · rintro ⟨hEntries, rfl⟩
      exact ⟨_, ⟨hEntries, rfl⟩, rfl⟩
  rw [hMake, ← forall_isSome_exoticEntry?_iff]
  apply and_congr_right
  intro hEntries
  have hLookup :
      ∀ id : NodeId,
        (Morphism.ofList
          ((Embedding.ofMap f p.graph.nodeIds).entries ++
            p.exoticIds.filterMap
              (p.exoticEntry? b))).bindings[id]? =
          p.entryAt f b id := by
    intro id
    apply Option.ext
    intro value
    rw [← mem_entries_iff hEntries]
    apply getElem?_ofList_eq_some_iff
    intro key v w hv hw
    rw [mem_entries_iff hEntries] at hv hw
    exact Option.some.inj (hv.symm.trans hw)
  constructor
  · rintro rfl
    exact hLookup
  · intro h
    rcases m with ⟨bindings⟩
    unfold Morphism.ofList at hLookup ⊢
    congr 1
    apply Std.ExtTreeMap.ext_getElem?
    intro id
    rw [hLookup, h]

end ExoticGraph

end GraphRewriting
