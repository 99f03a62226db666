import GraphRewriting.Proofs.Matching.Ties
import Mathlib.Data.List.Induction

/-
  Partial embeddings that come from a map of node ids, and the
  condition under which one more node can be placed.

  Main declarations:
    * `Embedding.ofMap`
    * `IsEmbeddingOn`
    * `isEmbeddingOn_append_singleton_iff`
    * `Search.fits_ofMap_iff`
-/

------------------------------------------------------------
-- Embeddings From Maps
------------------------------------------------------------

namespace GraphRewriting

namespace Embedding

variable {f g : NodeId → NodeId}
variable {ids : List NodeId}

/- The embedding that places some nodes by a map. -/
def ofMap
    (f : NodeId → NodeId)
    (ids : List NodeId) : Embedding :=
  ids.foldl (fun e node => e.put node (f node)) .empty

@[simp] theorem ofMap_nil :
    ofMap f [] = .empty := rfl

@[simp] theorem ofMap_append_singleton
    (node : NodeId) :
    ofMap f (ids ++ [node]) =
      (ofMap f ids).put node (f node) := by
  simp [ofMap]

theorem ofMap_congr
    (h : ∀ a ∈ ids, f a = g a) :
    ofMap f ids = ofMap g ids := by
  unfold ofMap
  exact List.foldl_ext _ _ _ fun e a ha => by rw [h a ha]

/- The images on record are those under the function. -/
theorem getElem?_images_ofMap
    (a : NodeId) :
    (ofMap f ids).images[a]? =
      if a ∈ ids then some (f a) else none := by
  induction ids using List.reverseRecOn with
  | nil => simp [Embedding.empty]
  | append_singleton ids node ih =>
      rw [ofMap_append_singleton]
      unfold put
      rw [Std.ExtTreeMap.getElem?_insert, ih]
      by_cases hNode : node = a
      · simp [hNode]
      · have hNe : a ≠ node := fun h => hNode h.symm
        simp [hNode, hNe]

/-
  If the function is injective, each image has its one owner.
-/
theorem getElem?_owners_ofMap
    (hInjective : ∀ a ∈ ids, ∀ b ∈ ids, f a = f b → a = b)
    {image a : NodeId} :
    (ofMap f ids).owners[image]? = some a ↔
      a ∈ ids ∧ f a = image := by
  induction ids using List.reverseRecOn with
  | nil => simp [Embedding.empty]
  | append_singleton ids node ih =>
      have hIds : ∀ a ∈ ids, ∀ b ∈ ids, f a = f b → a = b := by
        intro a ha b hb
        exact hInjective a (List.mem_append_left _ ha) b
          (List.mem_append_left _ hb)
      have hNode : node ∈ ids ++ [node] := by simp
      rw [ofMap_append_singleton]
      unfold put
      rw [Std.ExtTreeMap.getElem?_insert]
      simp only [Std.compare_eq_iff_eq]
      by_cases hImage : f node = image
      · rw [if_pos hImage]
        constructor
        · intro h
          cases h
          exact ⟨hNode, hImage⟩
        · rintro ⟨ha, rfl⟩
          rw [hInjective a ha node hNode hImage.symm]
      · rw [if_neg hImage, ih hIds, List.mem_append,
          List.mem_singleton]
        constructor
        · rintro ⟨ha, hfa⟩
          exact ⟨Or.inl ha, hfa⟩
        · rintro ⟨ha | rfl, hfa⟩
          · exact ⟨ha, hfa⟩
          · exact absurd hfa hImage

/- The order in which nodes are placed leaves no trace. -/
theorem ofMap_eq_of_mem_iff
    {more : List NodeId}
    (hInjective : ∀ a ∈ ids, ∀ b ∈ ids, f a = f b → a = b)
    (h : ∀ a : NodeId, a ∈ ids ↔ a ∈ more) :
    ofMap f ids = ofMap f more := by
  have hMore : ∀ a ∈ more, ∀ b ∈ more, f a = f b → a = b := by
    intro a ha b hb
    exact hInjective a ((h a).2 ha) b ((h b).2 hb)
  have hImages :
      (ofMap f ids).images = (ofMap f more).images := by
    apply Std.ExtTreeMap.ext_getElem?
    intro a
    rw [getElem?_images_ofMap, getElem?_images_ofMap]
    simp only [h]
  have hOwners :
      (ofMap f ids).owners = (ofMap f more).owners := by
    apply Std.ExtTreeMap.ext_getElem?
    intro image
    apply Option.ext
    intro a
    rw [getElem?_owners_ofMap hInjective,
      getElem?_owners_ofMap hMore, h]
  cases he : ofMap f ids
  cases hf : ofMap f more
  rw [he, hf] at hImages hOwners
  rw [Embedding.mk.injEq]
  exact ⟨hImages, hOwners⟩

/- The images are what the function reaches. -/
theorem isImage_ofMap
    {image : NodeId} :
    (ofMap f ids).isImage image = true ↔
      ∃ a ∈ ids, f a = image := by
  induction ids using List.reverseRecOn with
  | nil => simp [isImage, Embedding.empty]
  | append_singleton ids node ih =>
      rw [ofMap_append_singleton]
      unfold isImage put at *
      rw [Std.ExtTreeMap.contains_insert, Bool.or_eq_true, ih]
      simp only [beq_iff_eq, Std.compare_eq_iff_eq,
        List.mem_append, List.mem_singleton]
      constructor
      · rintro (hImage | ⟨a, ha, hfa⟩)
        · exact ⟨node, Or.inr rfl, hImage⟩
        · exact ⟨a, Or.inl ha, hfa⟩
      · rintro ⟨a, ha | rfl, hfa⟩
        · exact Or.inr ⟨a, ha, hfa⟩
        · exact Or.inl hfa

end Embedding

/- The map that names some nodes after themselves. -/
def selfNames
    (ids : List NodeId) : Std.ExtTreeMap NodeId NodeId :=
  (Embedding.ofMap id ids).images

theorem selfNames_append_singleton
    (ids : List NodeId)
    (node : NodeId) :
    selfNames (ids ++ [node]) =
      (selfNames ids).insert node node := by
  unfold selfNames
  rw [Embedding.ofMap_append_singleton]
  rfl

theorem getElem?_selfNames_eq_some
    {ids : List NodeId}
    {a name : NodeId} :
    (selfNames ids)[a]? = some name ↔ a ∈ ids ∧ a = name := by
  unfold selfNames
  rw [Embedding.getElem?_images_ofMap]
  by_cases ha : a ∈ ids <;> simp [ha]

theorem mem_selfNames
    {ids : List NodeId}
    {a : NodeId} :
    a ∈ selfNames ids ↔ a ∈ ids := by
  rw [mem_iff_exists_getElem?]
  simp only [getElem?_selfNames_eq_some]
  simp

end GraphRewriting

------------------------------------------------------------
-- Embeddings On Some Nodes
------------------------------------------------------------

namespace GraphRewriting

/-
  A map embeds some nodes of a pattern: no two of them share an
  image, signatures are admitted, and an edge runs between two
  images exactly where one runs between the nodes, with the
  same symbol.
-/
structure IsEmbeddingOn
    (pattern target : Graph)
    (admits : Nat → Nat → Bool)
    (f : NodeId → NodeId)
    (ids : List NodeId) : Prop where
  injective : ∀ a ∈ ids, ∀ b ∈ ids, f a = f b → a = b
  signatures :
    ∀ a ∈ ids,
      (pattern.signature a).Admits admits
        (target.signature (f a))
  edges :
    ∀ a ∈ ids, ∀ b ∈ ids,
      pattern.edgeSymbol? a b = target.edgeSymbol? (f a) (f b)

variable {pattern target : Graph}
variable {admits : Nat → Nat → Bool}
variable {f g : NodeId → NodeId}
variable {ids : List NodeId}

namespace IsEmbeddingOn

/- A part of an embedding is an embedding. -/
theorem mono
    {more : List NodeId}
    (h : IsEmbeddingOn pattern target admits f more)
    (hSubset : ids ⊆ more) :
    IsEmbeddingOn pattern target admits f ids where
  injective a ha b hb :=
    h.injective a (hSubset ha) b (hSubset hb)
  signatures a ha := h.signatures a (hSubset ha)
  edges a ha b hb := h.edges a (hSubset ha) b (hSubset hb)

/- Embedding is about the values on the nodes alone. -/
theorem congr
    (h : IsEmbeddingOn pattern target admits f ids)
    (hfg : ∀ a ∈ ids, f a = g a) :
    IsEmbeddingOn pattern target admits g ids where
  injective a ha b hb := by
    rw [← hfg a ha, ← hfg b hb]
    exact h.injective a ha b hb
  signatures a ha := by
    rw [← hfg a ha]
    exact h.signatures a ha
  edges a ha b hb := by
    rw [← hfg a ha, ← hfg b hb]
    exact h.edges a ha b hb

/- Images of nodes are nodes, as they have a symbol. -/
theorem image_mem
    (h : IsEmbeddingOn pattern target admits f ids)
    {a : NodeId}
    (ha : a ∈ ids)
    (hNode : a ∈ pattern.nodes) :
    f a ∈ target.nodes := by
  have hSymbol : pattern.symbol? a = target.symbol? (f a) :=
    (h.signatures a ha).1
  rw [← Graph.isSome_symbol?, ← hSymbol, Graph.isSome_symbol?]
  exact hNode

theorem ties
    (h : IsEmbeddingOn pattern target admits f ids)
    {a b : NodeId}
    (ha : a ∈ ids)
    (hb : b ∈ ids) :
    target.tie? (f a) (f b) = pattern.tie? a b := by
  rw [Graph.tie?_eq_tie?_iff]
  exact ⟨(h.edges a ha b hb).symm, (h.edges b hb a ha).symm⟩

end IsEmbeddingOn

/- What it takes to embed one more node. -/
theorem isEmbeddingOn_append_singleton_iff
    {node : NodeId}
    (hNode : node ∉ ids) :
    IsEmbeddingOn pattern target admits f (ids ++ [node]) ↔
      IsEmbeddingOn pattern target admits f ids ∧
        (∀ a ∈ ids, f a ≠ f node) ∧
        (pattern.signature node).Admits admits
          (target.signature (f node)) ∧
        ∀ a ∈ ids,
          target.tie? (f node) (f a) = pattern.tie? node a := by
  have hLast : node ∈ ids ++ [node] := by simp
  constructor
  · intro h
    refine
      ⟨h.mono (List.subset_append_left ids [node]), ?_,
        h.signatures node hLast, ?_⟩
    · intro a ha hEq
      have hSame :=
        h.injective a (List.mem_append_left _ ha) node hLast hEq
      exact hNode (hSame ▸ ha)
    · intro a ha
      exact h.ties hLast (List.mem_append_left _ ha)
  · rintro ⟨h, hFree, hSignature, hTies⟩
    have hEdges :
        ∀ a ∈ ids,
          pattern.edgeSymbol? node a =
            target.edgeSymbol? (f node) (f a) ∧
            pattern.edgeSymbol? a node =
              target.edgeSymbol? (f a) (f node) := by
      intro a ha
      exact Graph.tie?_eq_tie?_iff.1 (hTies a ha).symm
    constructor
    · intro a ha b hb hEq
      rcases List.mem_append.1 ha with ha | ha <;>
        rcases List.mem_append.1 hb with hb | hb
      · exact h.injective a ha b hb hEq
      · cases List.mem_singleton.1 hb
        exact absurd hEq (hFree a ha)
      · cases List.mem_singleton.1 ha
        exact absurd hEq.symm (hFree b hb)
      · rw [List.mem_singleton.1 ha, List.mem_singleton.1 hb]
    · intro a ha
      rcases List.mem_append.1 ha with ha | ha
      · exact h.signatures a ha
      · cases List.mem_singleton.1 ha
        exact hSignature
    · intro a ha b hb
      rcases List.mem_append.1 ha with ha | ha <;>
        rcases List.mem_append.1 hb with hb | hb
      · exact h.edges a ha b hb
      · cases List.mem_singleton.1 hb
        exact (hEdges a ha).2
      · cases List.mem_singleton.1 ha
        exact (hEdges b hb).1
      · cases List.mem_singleton.1 ha
        cases List.mem_singleton.1 hb
        exact hSignature.2.1

end GraphRewriting

------------------------------------------------------------
-- Fitting Nodes
------------------------------------------------------------

namespace GraphRewriting

variable {pattern : Graph}
variable {admits : Nat → Nat → Bool}
variable {f : NodeId → NodeId}
variable {ids : List NodeId}

/-
  The ties to the images carry the names of the placed nodes.
-/
theorem getElem?_ties_owners
    {target : Graph}
    (h : IsEmbeddingOn pattern target admits f ids)
    (hIds : ∀ a ∈ ids, a ∈ pattern.nodes)
    {image name : NodeId}
    {tie : Tie} :
    (target.ties (Embedding.ofMap f ids).owners image)[name]? =
      some tie ↔
      name ∈ ids ∧ target.tie? image (f name) = some tie := by
  rw [Graph.getElem?_ties]
  · simp only [Embedding.getElem?_owners_ofMap h.injective]
    constructor
    · rintro ⟨other, ⟨hName, rfl⟩, hTie⟩
      exact ⟨hName, hTie⟩
    · rintro ⟨hName, hTie⟩
      exact ⟨f name, ⟨hName, rfl⟩, hTie⟩
  · intro other hOther
    rcases mem_iff_exists_getElem?.1 hOther with ⟨a, hOther⟩
    rcases
        (Embedding.getElem?_owners_ofMap h.injective).1
          hOther with
      ⟨ha, rfl⟩
    exact h.image_mem ha (hIds a ha)
  · intro x y name hx hy
    have hx :=
      (Embedding.getElem?_owners_ofMap h.injective).1 hx
    have hy :=
      (Embedding.getElem?_owners_ofMap h.injective).1 hy
    exact hx.2.symm.trans hy.2

/- The ties to the placed nodes carry their own names. -/
private theorem getElem?_ties_selfNames
    (hIds : ∀ a ∈ ids, a ∈ pattern.nodes)
    {node name : NodeId}
    {tie : Tie} :
    (pattern.ties (selfNames ids) node)[name]? = some tie ↔
      name ∈ ids ∧ pattern.tie? node name = some tie := by
  rw [Graph.getElem?_ties]
  · simp only [getElem?_selfNames_eq_some]
    constructor
    · rintro ⟨other, ⟨hName, rfl⟩, hTie⟩
      exact ⟨hName, hTie⟩
    · rintro ⟨hName, hTie⟩
      exact ⟨name, ⟨hName, rfl⟩, hTie⟩
  · intro other hOther
    exact hIds other (mem_selfNames.1 hOther)
  · intro x y name hx hy
    have hx := getElem?_selfNames_eq_some.1 hx
    have hy := getElem?_selfNames_eq_some.1 hy
    exact hx.2.trans hy.2.symm

/-
  A target node fits the profile of a pattern node when its
  signature is admitted and its ties to the images are those of
  the pattern node to the placed nodes.
-/
theorem Search.fits_ofMap_iff
    {s : Search}
    (h : IsEmbeddingOn pattern s.target admits f ids)
    (hIds : ∀ a ∈ ids, a ∈ pattern.nodes)
    {node image : NodeId} :
    s.Fits (.ofMap f ids) (pattern.profile (selfNames ids) node)
      image ↔
      (pattern.signature node).Admits s.admits
        (s.target.signature image) ∧
        ∀ a ∈ ids,
          s.target.tie? image (f a) = pattern.tie? node a := by
  unfold Search.Fits Graph.profile
  apply and_congr_right
  intro _
  constructor
  · intro hEq a ha
    apply Option.ext
    intro tie
    have ht :
        a ∈ ids ∧ pattern.tie? node a = some tie ↔
          a ∈ ids ∧ s.target.tie? image (f a) = some tie := by
      rw [← getElem?_ties_selfNames hIds,
        ← getElem?_ties_owners h hIds, hEq]
    simpa [ha] using ht.symm
  · intro hTies
    apply Std.ExtTreeMap.ext_getElem?
    intro name
    apply Option.ext
    intro tie
    rw [getElem?_ties_owners h hIds,
      getElem?_ties_selfNames hIds]
    apply and_congr_right
    intro hName
    rw [hTies name hName]

end GraphRewriting
