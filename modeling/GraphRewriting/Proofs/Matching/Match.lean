import GraphRewriting.Proofs.Matching.Entries

/-
  The matches of an exotic graph, described without a search:
  the ordinary nodes are embedded, and around each of them the
  exotic nodes are bound to exactly the neighbours outside. A
  match is put together from an embedding and from bindings.

  Main declarations:
    * `ExoticGraph.IsMatch`
    * `ExoticGraph.IsMatch.morphism?_eq_some`
    * `ExoticGraph.IsMadeOf.isMatch`
-/

------------------------------------------------------------
-- Matches
------------------------------------------------------------

namespace GraphRewriting

namespace ExoticGraph

/- A target node is the image of an ordinary node. -/
def HasImage
    (p : ExoticGraph)
    (m : Morphism)
    (id : NodeId) : Prop :=
  ∃ a ∈ p.graph.nodes, m.target? a = some id

/-
  A match speaks of all ordinary and exotic nodes. On ordinary
  nodes it is injective, and keeps the symbols of nodes and,
  from each node to each, the presence and the symbol of an
  edge. Exotic nodes have distinct targets outside the image,
  or none if they are wildcards. On each side of an ordinary
  node they are bound to exactly the neighbours of its image
  outside, and those that are beside no ordinary node are
  unmatched.
-/
structure IsMatch
    (p : ExoticGraph)
    (target : Graph)
    (m : Morphism) : Prop where
  keys : ∀ id : NodeId, m.contains id = p.contains id
  bound : ∀ a ∈ p.graph.nodes, (m.target? a).isSome = true
  injective :
    ∀ a ∈ p.graph.nodes, ∀ b ∈ p.graph.nodes,
      m.target? a = m.target? b → a = b
  symbols :
    ∀ a ∈ p.graph.nodes, ∀ x : NodeId,
      m.target? a = some x →
        p.graph.symbol? a = target.symbol? x
  edges :
    ∀ a ∈ p.graph.nodes, ∀ b ∈ p.graph.nodes, ∀ x y : NodeId,
      m.target? a = some x → m.target? b = some y →
        p.graph.edgeSymbol? a b = target.edgeSymbol? x y
  exotic :
    ∀ x ∈ p.exotic, ∀ id : NodeId,
      m.target? x = some id →
        id ∈ target.nodes ∧ ¬ p.HasImage m id
  unmatched :
    ∀ x ∈ p.exotic, m.target? x = none → p.kind = .wildcard
  distinct :
    ∀ x ∈ p.exotic, ∀ y ∈ p.exotic, ∀ id : NodeId,
      m.target? x = some id → m.target? y = some id → x = y
  around :
    ∀ a ∈ p.graph.nodes,
      ∀ image : NodeId, m.target? a = some image →
      ∀ (direction : Direction) (id : NodeId),
        (∃ x ∈ p.exotic,
            x ∈ p.graph.beside direction a ∧
              m.target? x = some id) ↔
          id ∈ target.beside direction image ∧ ¬ p.HasImage m id
  isolated :
    ∀ x ∈ p.exotic, ¬ p.IsBeside x → m.target? x = none

end ExoticGraph

end GraphRewriting

------------------------------------------------------------
-- Counting Around A Node
------------------------------------------------------------

namespace GraphRewriting

variable {p : ExoticGraph}
variable {target : Graph}
variable {f : NodeId → NodeId}
variable {m : Morphism}
variable {b : Bindings}

/-
  Exotic nodes with distinct targets that are bound to exactly
  the nodes outside are bound to them one by one.
-/
theorem perm_filterMap_outside
    {target? : NodeId → Option NodeId}
    {direction : Direction}
    {a : NodeId}
    (hDistinct :
      ∀ x ∈ p.exotic, ∀ y ∈ p.exotic, ∀ id : NodeId,
        target? x = some id → target? y = some id → x = y)
    (hAround :
      ∀ id : NodeId,
        (∃ x ∈ p.exoticsBeside direction a,
          target? x = some id) ↔
          id ∈ outside target f p.graph.nodeIds direction a) :
    ((p.exoticsBeside direction a).filterMap target?).Perm
      (outside target f p.graph.nodeIds direction a) := by
  have hNodup :
      ((p.exoticsBeside direction a).filterMap
        target?).Nodup := by
    rw [nodup_filterMap_iff (p.exoticsBeside_nodup direction a)]
    intro x hx y hy id
    have hx := (ExoticGraph.mem_exoticsBeside.1 hx).2
    have hy := (ExoticGraph.mem_exoticsBeside.1 hy).2
    exact hDistinct x hx y hy id
  rw [List.perm_ext_iff_of_nodup hNodup
    (outside_nodup direction a)]
  intro id
  rw [List.mem_filterMap]
  exact hAround id

end GraphRewriting

------------------------------------------------------------
-- From Matches To Embeddings And Bindings
------------------------------------------------------------

namespace GraphRewriting

variable {p : ExoticGraph}
variable {target : Graph}
variable {m : Morphism}

/- The image that a morphism gives to an ordinary node. -/
def Morphism.image
    (m : Morphism)
    (a : NodeId) : NodeId :=
  (m.target? a).getD a

/-
  What a morphism gives to the exotic nodes
  beside ordinary ones.
-/
def Morphism.besideBindings
    (m : Morphism)
    (p : ExoticGraph) : Bindings :=
  let exotics := p.sides.flatMap Side.exotics
  ⟨.ofList (exotics.map fun x => (x, m.target? x)),
    .ofList (exotics.filterMap m.target?)⟩

/-
  The bindings have what the morphism says of exotic nodes
  beside ordinary ones.
-/
theorem Morphism.getElem?_besideBindings
    {x : NodeId}
    {value : Option NodeId} :
    (m.besideBindings p).targets[x]? = some value ↔
      (x ∈ p.exotic ∧ p.IsBeside x) ∧ value = m.target? x := by
  unfold Morphism.besideBindings
  rw [getElem?_ofList_eq_some_iff,
    ← ExoticGraph.exists_mem_exoticsBeside]
  · simp [eq_comm]
  · intro key v w hv hw
    rcases List.mem_map.1 hv with ⟨_, -, hEq⟩
    cases hEq
    rcases List.mem_map.1 hw with ⟨_, -, hEq⟩
    cases hEq
    rfl

namespace ExoticGraph

/-
  The image is what a function on the ordinary nodes gives, if
  the morphism does.
-/
theorem hasImage_iff_of_target?_eq
    {f : NodeId → NodeId}
    (h : ∀ a ∈ p.graph.nodes, m.target? a = some (f a))
    {id : NodeId} :
    p.HasImage m id ↔ ∃ a ∈ p.graph.nodeIds, f a = id := by
  unfold HasImage
  apply exists_congr
  intro a
  rw [Graph.mem_nodeIds]
  apply and_congr_right
  intro ha
  rw [h a ha, Option.some.injEq]

namespace IsMatch

/- Ordinary nodes of a match have their image as target. -/
theorem target?_eq_image
    (h : p.IsMatch target m)
    {a : NodeId}
    (ha : a ∈ p.graph.nodes) :
    m.target? a = some (m.image a) := by
  rcases Option.isSome_iff_exists.1 (h.bound a ha) with ⟨x, hx⟩
  unfold Morphism.image
  rw [hx]
  rfl

/-
  The images of a match are an embedding of
  the ordinary nodes.
-/
theorem isEmbeddingOn
    (h : p.IsMatch target m) :
    IsEmbeddingOn p.graph target (fun _ _ => true) m.image
      p.graph.nodeIds := by
  have hNode : ∀ a ∈ p.graph.nodeIds, a ∈ p.graph.nodes :=
    fun _ ha => Std.ExtTreeMap.mem_keys.1 ha
  constructor
  · intro a ha c hc hEq
    have ha := hNode a ha
    have hc := hNode c hc
    apply h.injective a ha c hc
    rw [h.target?_eq_image ha, h.target?_eq_image hc, hEq]
  · intro a ha
    have ha := hNode a ha
    have hImage := h.target?_eq_image ha
    exact
      ⟨h.symbols a ha _ hImage,
        h.edges a ha a ha _ _ hImage hImage, rfl, rfl⟩
  · intro a ha c hc
    have ha := hNode a ha
    have hc := hNode c hc
    exact h.edges a ha c hc _ _ (h.target?_eq_image ha)
      (h.target?_eq_image hc)

private theorem hasImage_iff
    (h : p.IsMatch target m)
    {id : NodeId} :
    p.HasImage m id ↔ ∃ a ∈ p.graph.nodeIds, m.image a = id :=
  hasImage_iff_of_target?_eq fun _ ha => h.target?_eq_image ha

/-
  Around a node, exotic nodes are bound to the neighbours
  outside of the image.
-/
theorem bound_iff_mem_outside
    (h : p.IsMatch target m)
    {a : NodeId}
    (ha : a ∈ p.graph.nodeIds)
    (direction : Direction)
    (id : NodeId) :
    (∃ x ∈ p.exoticsBeside direction a, m.target? x = some id) ↔
      id ∈
        outside target m.image p.graph.nodeIds direction a := by
  have ha := Std.ExtTreeMap.mem_keys.1 ha
  have hAround :=
    h.around a ha _ (h.target?_eq_image ha) direction id
  rw [h.hasImage_iff] at hAround
  rw [mem_outside]
  simp only [mem_exoticsBeside]
  constructor
  · rintro ⟨x, ⟨hBeside, hExotic⟩, hx⟩
    have hOut := hAround.1 ⟨x, hExotic, hBeside, hx⟩
    refine ⟨hOut.1, ?_⟩
    intro c hc hEq
    exact hOut.2 ⟨c, hc, hEq⟩
  · rintro ⟨hBeside, hFree⟩
    rcases
        hAround.2
          ⟨hBeside, fun ⟨c, hc, hEq⟩ => hFree c hc hEq⟩ with
      ⟨x, hExotic, hx, hTarget⟩
    exact ⟨x, ⟨hx, hExotic⟩, hTarget⟩

/-
  The degrees of images are admitted, as exotic nodes
  are bound one by one.
-/
theorem admitsDegree
    (h : p.IsMatch target m)
    {a : NodeId}
    (ha : a ∈ p.graph.nodeIds)
    (direction : Direction) :
    p.kind.AdmitsDegree (p.exoticsBeside direction a).length
      (outside target m.image p.graph.nodeIds direction
        a).length := by
  have hPerm :=
    perm_filterMap_outside h.distinct
      (h.bound_iff_mem_outside ha direction)
  rw [← hPerm.length_eq]
  unfold ExoticKind.AdmitsDegree
  cases hKind : p.kind with
  | anchor =>
      apply List.filterMap_length_eq_length.2
      intro x hx
      have hExotic := (mem_exoticsBeside.1 hx).2
      rw [← Option.ne_none_iff_isSome]
      intro hNone
      have hWildcard := h.unmatched x hExotic hNone
      rw [hKind] at hWildcard
      cases hWildcard
  | wildcard => exact List.length_filterMap_le _ _

/- The bindings of a match satisfy what is asked of bindings. -/
theorem isBinding
    (h : p.IsMatch target m) :
    p.IsBinding target m.image (m.besideBindings p) := by
  refine ⟨⟨?_, ?_⟩, ?_, ?_⟩
  · intro id
    simp only [Morphism.getElem?_besideBindings,
      ← exists_mem_exoticsBeside]
    unfold Morphism.besideBindings
    rw [Std.ExtTreeSet.mem_ofList, List.contains_iff_mem,
      List.mem_filterMap]
    apply exists_congr
    intro x
    rw [List.mem_flatMap]
    exact and_congr_right fun _ => eq_comm
  · intro x y id hx hy
    rw [Morphism.getElem?_besideBindings] at hx hy
    exact h.distinct x hx.1.1 y hy.1.1 id hx.2.symm hy.2.symm
  · intro x
    rw [mem_iff_exists_getElem?]
    simp only [Morphism.getElem?_besideBindings,
      exists_and_left, exists_eq, and_true]
  · intro a ha direction id
    rw [← h.bound_iff_mem_outside ha direction id]
    apply exists_congr
    intro x
    apply and_congr_right
    intro hx
    rcases mem_exoticsBeside.1 hx with ⟨hBeside, hExotic⟩
    have hx : x ∈ p.exotic ∧ p.IsBeside x :=
      ⟨hExotic, a, Std.ExtTreeMap.mem_keys.1 ha, direction,
        hBeside⟩
    rw [Morphism.getElem?_besideBindings, and_iff_right hx]
    exact eq_comm

/-
  The morphism is put together again from its
  embedding and its bindings.
-/
theorem morphism?_eq_some
    (h : p.IsMatch target m) :
    p.morphism? (.ofMap m.image p.graph.nodeIds)
        (m.besideBindings p) =
      some m := by
  have hBinding := h.isBinding
  rw [morphism?_eq_some_iff]
  constructor
  · intro hKind x hx
    have hBeside : p.IsBeside x := by
      by_contra hNot
      have hWildcard := h.unmatched x hx (h.isolated x hx hNot)
      rw [hKind] at hWildcard
      cases hWildcard
    exact (hBinding.keys x).2 ⟨hx, hBeside⟩
  · intro id
    have hKey :
        id ∈ m.bindings ↔
          id ∈ p.graph.nodes ∨ id ∈ p.exotic := by
      rw [← contains_iff, ← h.keys id, Morphism.contains,
        Std.ExtTreeMap.contains_iff_mem]
    unfold entryAt
    split
    · rename_i hNode
      exact Option.join_eq_some_iff.1 (h.target?_eq_image hNode)
    · rename_i hNode
      split
      · rename_i hExotic
        rcases
            mem_iff_exists_getElem?.1
              (hKey.2 (Or.inr hExotic)) with
          ⟨value, hValue⟩
        have hTarget : m.target? id = value := by
          unfold Morphism.target?
          rw [hValue]
          rfl
        rw [hValue, Option.some.injEq, ← hTarget]
        by_cases hBeside : p.IsBeside id
        · have hLookup :
              (m.besideBindings p).targets[id]? =
                some (m.target? id) :=
            Morphism.getElem?_besideBindings.2
              ⟨⟨hExotic, hBeside⟩, rfl⟩
          rw [hLookup]
          rfl
        · have hNone :
              (m.besideBindings p).targets[id]? = none := by
            rw [Std.ExtTreeMap.getElem?_eq_none]
            intro hIn
            exact hBeside ((hBinding.keys id).1 hIn).2
          rw [hNone, h.isolated id hExotic hBeside]
          rfl
      · rename_i hExotic
        rw [Std.ExtTreeMap.getElem?_eq_none]
        intro hMem
        exact (hKey.1 hMem).elim hNode hExotic

end IsMatch

end ExoticGraph

end GraphRewriting

------------------------------------------------------------
-- From Embeddings And Bindings To Matches
------------------------------------------------------------

namespace GraphRewriting

variable {p : ExoticGraph}
variable {target : Graph}
variable {f : NodeId → NodeId}
variable {b : Bindings}
variable {m : Morphism}

namespace ExoticGraph

/-
  The entries of an embedding with bindings send ordinary
  nodes along the embedding.
-/
theorem target?_of_mem_nodes
    (hEntries :
      ∀ id : NodeId, m.bindings[id]? = p.entryAt f b id)
    {a : NodeId}
    (ha : a ∈ p.graph.nodes) :
    m.target? a = some (f a) := by
  unfold Morphism.target?
  rw [hEntries, entryAt, if_pos ha]
  rfl

/- The entries send exotic nodes where the bindings do. -/
theorem target?_of_mem_exotic
    (hEntries :
      ∀ id : NodeId, m.bindings[id]? = p.entryAt f b id)
    {x : NodeId}
    (hx : x ∈ p.exotic) :
    m.target? x = b.targets[x]?.join := by
  unfold Morphism.target?
  rw [hEntries, entryAt, if_neg (p.disjoint x hx), if_pos hx]
  rfl

theorem target?_eq_some_iff
    (hEntries :
      ∀ id : NodeId, m.bindings[id]? = p.entryAt f b id)
    {x : NodeId}
    (hx : x ∈ p.exotic)
    {id : NodeId} :
    m.target? x = some id ↔ b.targets[x]? = some (some id) := by
  rw [target?_of_mem_exotic hEntries hx,
    Option.join_eq_some_iff]

/-
  A morphism that is made of an embedding and of
  bindings next to it.
-/
structure IsMadeOf
    (p : ExoticGraph)
    (target : Graph)
    (f : NodeId → NodeId)
    (b : Bindings)
    (m : Morphism) : Prop where
  embedding :
    IsEmbeddingOn p.graph target (fun _ _ => true) f
      p.graph.nodeIds
  binding : p.IsBinding target f b
  entries : ∀ id : NodeId, m.bindings[id]? = p.entryAt f b id

namespace IsMadeOf

theorem target?_eq
    (h : p.IsMadeOf target f b m)
    {a : NodeId}
    (ha : a ∈ p.graph.nodes) :
    m.target? a = some (f a) :=
  target?_of_mem_nodes h.entries ha

theorem contains_eq
    (h : p.IsMadeOf target f b m)
    (id : NodeId) :
    m.contains id = p.contains id := by
  rw [Bool.eq_iff_iff, contains_iff, Morphism.contains,
    Std.ExtTreeMap.contains_iff_mem,
    Std.ExtTreeMap.mem_iff_isSome_getElem?, h.entries]
  unfold entryAt
  by_cases hNode : id ∈ p.graph.nodes <;>
    by_cases hx : id ∈ p.exotic <;>
    simp [hNode, hx]

theorem hasImage_iff
    (h : p.IsMadeOf target f b m)
    {id : NodeId} :
    p.HasImage m id ↔ ∃ a ∈ p.graph.nodeIds, f a = id :=
  hasImage_iff_of_target?_eq fun _ ha => h.target?_eq ha

theorem bound_iff_mem_outside
    (h : p.IsMadeOf target f b m)
    {a : NodeId}
    (ha : a ∈ p.graph.nodeIds)
    (direction : Direction)
    (id : NodeId) :
    (∃ x ∈ p.exoticsBeside direction a, m.target? x = some id) ↔
      id ∈ outside target f p.graph.nodeIds direction a := by
  rw [← h.binding.around a ha direction id]
  apply exists_congr
  intro x
  apply and_congr_right
  intro hx
  exact target?_eq_some_iff h.entries (mem_exoticsBeside.1 hx).2

/- No target is given to two exotic nodes. -/
theorem distinct
    (h : p.IsMadeOf target f b m)
    {x y : NodeId}
    (hx : x ∈ p.exotic)
    (hy : y ∈ p.exotic)
    {id : NodeId}
    (htx : m.target? x = some id)
    (hty : m.target? y = some id) :
    x = y := by
  rw [target?_eq_some_iff h.entries hx] at htx
  rw [target?_eq_some_iff h.entries hy] at hty
  exact h.binding.sound.injective x y id htx hty

/-
  Exotic nodes are bound to nodes of the target
  outside the image.
-/
theorem free_of_target?
    (h : p.IsMadeOf target f b m)
    (ht : target.HasIntegrity)
    {x id : NodeId}
    (hx : x ∈ p.exotic)
    (hTarget : m.target? x = some id) :
    id ∈ target.nodes ∧ ¬ p.HasImage m id := by
  have hKey : x ∈ b.targets :=
    mem_iff_exists_getElem?.2
      ⟨_, (target?_eq_some_iff h.entries hx).1 hTarget⟩
  rcases (h.binding.keys x).1 hKey with
    ⟨-, a, ha, direction, hBeside⟩
  have hOut :=
    (h.bound_iff_mem_outside (Graph.mem_nodeIds.2 ha) direction
      id).1
      ⟨x, mem_exoticsBeside.2 ⟨hBeside, hx⟩, hTarget⟩
  rcases mem_outside.1 hOut with ⟨hNeighbour, hFree⟩
  refine ⟨Graph.mem_nodes_of_mem_beside ht hNeighbour, ?_⟩
  rw [h.hasImage_iff]
  rintro ⟨c, hc, hEq⟩
  exact hFree c hc hEq

/-
  Anchors around a node are as many as the nodes outside, so
  each of them is bound.
-/
theorem isSome_target?_of_anchor
    (h : p.IsMadeOf target f b m)
    (hAdmits :
      ∀ a ∈ p.graph.nodeIds, ∀ direction : Direction,
        p.kind.AdmitsDegree (p.exoticsBeside direction a).length
          (outside target f p.graph.nodeIds direction a).length)
    (hKind : p.kind = .anchor)
    {x : NodeId}
    (hx : x ∈ p.exotic)
    (hKey : x ∈ b.targets) :
    (m.target? x).isSome = true := by
  rcases (h.binding.keys x).1 hKey with
    ⟨-, a, ha, direction, hBeside⟩
  have ha := Graph.mem_nodeIds.2 ha
  have hPerm :=
    perm_filterMap_outside
      (fun _ hx _ hy _ htx hty => h.distinct hx hy htx hty)
      (h.bound_iff_mem_outside ha direction)
  have hCount := hAdmits a ha direction
  rw [hKind] at hCount
  exact List.filterMap_length_eq_length.1
    (hPerm.length_eq.trans hCount) x
    (mem_exoticsBeside.2 ⟨hBeside, hx⟩)

/-
  What is bound around a node, in terms of the morphism alone.
-/
private theorem around
    (h : p.IsMadeOf target f b m)
    {a : NodeId}
    (ha : a ∈ p.graph.nodes)
    (direction : Direction)
    (id : NodeId) :
    (∃ x ∈ p.exotic,
      x ∈ p.graph.beside direction a ∧ m.target? x = some id) ↔
      id ∈ target.beside direction (f a) ∧
        ¬ p.HasImage m id := by
  have hSide :=
    h.bound_iff_mem_outside (Graph.mem_nodeIds.2 ha) direction
      id
  rw [mem_outside] at hSide
  rw [h.hasImage_iff, not_exists]
  simp only [mem_exoticsBeside] at hSide
  constructor
  · rintro ⟨x, hx, hBeside, hTarget⟩
    have hOut := hSide.1 ⟨x, ⟨hBeside, hx⟩, hTarget⟩
    exact ⟨hOut.1, fun c hc => hOut.2 c hc.1 hc.2⟩
  · rintro ⟨hNeighbour, hFree⟩
    rcases
        hSide.2
          ⟨hNeighbour, fun c hc hEq => hFree c ⟨hc, hEq⟩⟩ with
      ⟨x, ⟨hBeside, hx⟩, hTarget⟩
    exact ⟨x, hx, hBeside, hTarget⟩

/- What the parts of a morphism owe to make it a match. -/
theorem isMatch
    (h : p.IsMadeOf target f b m)
    (ht : target.HasIntegrity)
    (hAdmits :
      ∀ a ∈ p.graph.nodeIds, ∀ direction : Direction,
        p.kind.AdmitsDegree (p.exoticsBeside direction a).length
          (outside target f p.graph.nodeIds direction a).length)
    (hAnchor :
      p.kind = .anchor → ∀ x ∈ p.exotic, x ∈ b.targets) :
    p.IsMatch target m := by
  have hf := h.embedding
  have hId : ∀ a ∈ p.graph.nodes, a ∈ p.graph.nodeIds :=
    fun _ => Graph.mem_nodeIds.2
  constructor
  case keys => exact h.contains_eq
  case bound =>
    intro a ha
    rw [h.target?_eq ha]
    rfl
  case injective =>
    intro a ha c hc hEq
    rw [h.target?_eq ha, h.target?_eq hc] at hEq
    exact hf.injective a (hId a ha) c (hId c hc)
      (Option.some.inj hEq)
  case symbols =>
    intro a ha x hx
    rw [h.target?_eq ha] at hx
    cases hx
    exact (hf.signatures a (hId a ha)).1
  case edges =>
    intro a ha c hc x y hx hy
    rw [h.target?_eq ha] at hx
    rw [h.target?_eq hc] at hy
    cases hx
    cases hy
    exact hf.edges a (hId a ha) c (hId c hc)
  case exotic =>
    exact fun x hx id hTarget => h.free_of_target? ht hx hTarget
  case unmatched =>
    intro x hx hNone
    cases hKind : p.kind with
    | wildcard => rfl
    | anchor =>
        have hSome :=
          h.isSome_target?_of_anchor hAdmits hKind hx
            (hAnchor hKind x hx)
        rw [hNone] at hSome
        cases hSome
  case distinct =>
    exact fun x hx y hy id htx hty => h.distinct hx hy htx hty
  case around =>
    intro a ha image hTarget direction id
    rw [h.target?_eq ha] at hTarget
    cases hTarget
    exact h.around ha direction id
  case isolated =>
    intro x hx hNot
    have hNone : b.targets[x]? = none := by
      rw [Std.ExtTreeMap.getElem?_eq_none]
      intro hMem
      exact hNot ((h.binding.keys x).1 hMem).2
    rw [target?_of_mem_exotic h.entries hx, hNone]
    rfl

end IsMadeOf

end ExoticGraph

end GraphRewriting
