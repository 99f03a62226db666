import GraphRewriting.Proofs.Digraph.Runs
import GraphRewriting.Proofs.Matching.Placing
import Mathlib.Data.Prod.Basic
import Mathlib.Logic.Function.Basic

/-
  The search for embeddings finds every embedding once. No
  pruning test fails on the way to a whole embedding: the
  images of the nodes that are left take up the room that the
  tests look for.

  Main declarations:
    * `Search.hasRoom_of_isEmbeddingOn`
    * `Search.place?_of_isEmbeddingOn`
    * `Graph.mem_embeddings_iff`
    * `Graph.embeddings_nodup`
-/

------------------------------------------------------------
-- Room For What Is Left
------------------------------------------------------------

namespace GraphRewriting

namespace Search

variable {pattern target : Graph}
variable {admits : Nat → Nat → Bool}
variable {s : Search}
variable {f : NodeId → NodeId}
variable {done rest ids : List NodeId}

/-
  There is room for some nodes among free target nodes when an
  injective map sends each of them to a free node that fits.
-/
theorem hasRoom_of_injective
    {e : Embedding}
    {names : Std.ExtTreeMap NodeId NodeId}
    {free : List NodeId}
    (hNodup : ids.Nodup)
    (hInjective : ∀ a ∈ ids, ∀ b ∈ ids, f a = f b → a = b)
    (hFree : ∀ a ∈ ids, f a ∈ free)
    (hFits :
      ∀ a ∈ ids, s.Fits e (pattern.profile names a) (f a)) :
    s.hasRoom e (pattern.tally names ids) free = true := by
  unfold hasRoom
  rw [List.all_eq_true]
  rintro ⟨profile, count⟩ hMem
  have hCount := Graph.count_of_mem_tally hMem
  dsimp only
  rw [decide_eq_true_iff, Graph.getD_groupBySymbol,
    List.countP_eq_length_filter, List.filter_filter, hCount]
  let sharing :=
    ids.filter fun id => pattern.profile names id = profile
  have hSharing : sharing ⊆ ids := List.filter_subset_self ids
  have hDistinct : (sharing.map f).Nodup := by
    apply List.Nodup.map_on _ (hNodup.filter _)
    intro a ha b hb
    exact hInjective a (hSharing ha) b (hSharing hb)
  have hSubset :
      sharing.map f ⊆
        free.filter fun id =>
          decide (s.Fits e profile id) &&
            (s.target.symbol? id ==
              profile.signature.symbol) := by
    intro image hImage
    rcases List.mem_map.1 hImage with ⟨a, ha, rfl⟩
    have hProfile : pattern.profile names a = profile := by
      simpa using (List.mem_filter.1 ha).2
    have hFit := hFits a (hSharing ha)
    rw [hProfile] at hFit
    have hSymbol :
        profile.signature.symbol = s.target.symbol? (f a) :=
      hFit.1.1
    refine List.mem_filter.2 ⟨hFree a (hSharing ha), ?_⟩
    rw [Bool.and_eq_true, decide_eq_true_iff, beq_iff_eq]
    exact ⟨hFit, hSymbol.symm⟩
  calc
    sharing.length = (sharing.map f).length :=
  (List.length_map f).symm
    _ ≤ _ := (hDistinct.subperm hSubset).length_le

/-
  Along an embedding, each further image fits the
  profile of its node.
-/
theorem fits_of_isEmbeddingOn
    (h :
      IsEmbeddingOn pattern s.target s.admits f pattern.nodeIds)
    (hDone : done ⊆ pattern.nodeIds)
    {node : NodeId}
    (hNode : node ∈ pattern.nodeIds) :
    s.Fits (.ofMap f done)
      (pattern.profile (selfNames done) node) (f node) := by
  have hNodes : ∀ a ∈ done, a ∈ pattern.nodes := by
    intro a ha
    exact Std.ExtTreeMap.mem_keys.1 (hDone ha)
  rw [fits_ofMap_iff (h.mono hDone) hNodes]
  refine ⟨h.signatures node hNode, ?_⟩
  intro a ha
  exact h.ties hNode (hDone ha)

/- A whole embedding leaves room for all nodes that are left. -/
theorem hasRoom_of_isEmbeddingOn
    (h :
      IsEmbeddingOn pattern s.target s.admits f pattern.nodeIds)
    (hDone : done ⊆ pattern.nodeIds)
    (hIds : ids ⊆ pattern.nodeIds)
    (hNodup : ids.Nodup)
    {free : List NodeId}
    (hFree : ∀ a ∈ ids, f a ∈ free) :
    s.hasRoom (.ofMap f done)
        (pattern.tally (selfNames done) ids) free =
      true := by
  apply hasRoom_of_injective hNodup _ hFree
  · intro a ha
    exact fits_of_isEmbeddingOn h hDone (hIds ha)
  · intro a ha b hb
    exact h.injective a (hIds ha) b (hIds hb)

/-
  There is room around such an image, as the nodes still to
  come have theirs there.
-/
theorem hasRoomAround_of_isEmbeddingOn
    (h :
      IsEmbeddingOn pattern s.target s.admits f pattern.nodeIds)
    (hEligible : ∀ a ∈ pattern.nodeIds, f a ∈ s.eligible)
    (hDone : done ⊆ pattern.nodeIds)
    {node : NodeId}
    (hNode : node ∈ pattern.nodeIds) :
    s.hasRoomAround (.ofMap f (done ++ [node]))
      (pattern.step (selfNames done) node) (f node) = true := by
  unfold hasRoomAround Graph.step
  rw [Bool.or_eq_true]
  right
  dsimp only
  rw [← selfNames_append_singleton]
  have hPlaced : done ++ [node] ⊆ pattern.nodeIds := by
    intro a ha
    rcases List.mem_append.1 ha with ha | ha
    · exact hDone ha
    · exact List.mem_singleton.1 ha ▸ hNode
  have hLeft :
      ((pattern.neighbours node).filter fun other =>
        !(selfNames (done ++ [node])).contains other) ⊆
          pattern.nodeIds := by
    intro a ha
    have hNeighbour :=
      Graph.mem_neighbours.1 (List.mem_filter.1 ha).1
    exact Std.ExtTreeMap.mem_keys.2 hNeighbour.1
  apply hasRoom_of_isEmbeddingOn h hPlaced hLeft
  · exact (pattern.neighbours_nodup node).filter _
  · intro a ha
    have hMem := hLeft ha
    rcases List.mem_filter.1 ha with ⟨hNeighbour, hNew⟩
    have hNew : a ∉ done ++ [node] := by
      intro hOld
      rw [Std.ExtTreeMap.contains_iff_mem.2
        (mem_selfNames.2 hOld)] at hNew
      exact Bool.noConfusion hNew
    refine List.mem_filter.2 ⟨?_, ?_⟩
    · refine Graph.mem_neighbours.2
        ⟨h.image_mem hMem (Std.ExtTreeMap.mem_keys.1 hMem), ?_⟩
      rw [h.ties hNode hMem]
      exact (Graph.mem_neighbours.1 hNeighbour).2
    · rw [Bool.and_eq_true, Std.ExtTreeSet.contains_iff_mem,
        Bool.not_eq_true']
      refine ⟨hEligible a hMem, ?_⟩
      rw [Bool.eq_false_iff, ne_eq, Embedding.isImage_ofMap]
      rintro ⟨b, hb, hba⟩
      exact hNew (h.injective b (hPlaced hb) a hMem hba ▸ hb)

end Search

end GraphRewriting

------------------------------------------------------------
-- Single Steps
------------------------------------------------------------

namespace GraphRewriting

namespace Search

variable {pattern target : Graph}
variable {admits : Nat → Nat → Bool}
variable {s : Search}
variable {f : NodeId → NodeId}
variable {done rest ids : List NodeId}

/-
  A node is placed if its image is eligible, free and fits,
  and if there is room around it.
-/
theorem place?_eq_some_iff
    {e next : Embedding}
    {step : Step}
    {image : NodeId} :
    s.place? e step image = some next ↔
      image ∈ s.eligible ∧ e.isImage image = false ∧
        s.Fits e step.profile image ∧
        s.hasRoomAround (e.put step.node image) step image =
          true ∧
        e.put step.node image = next := by
  unfold place?
  dsimp only
  split
  · rename_i h
    rw [Option.ite_none_right_eq_some, Option.some.injEq]
    exact
      ⟨fun hNext => ⟨h.1, h.2.1, h.2.2, hNext⟩,
        fun hAll => hAll.2.2.2⟩
  · rename_i h
    constructor
    · intro hNext
      exact absurd hNext (by simp)
    · intro hAll
      exact absurd ⟨hAll.1, hAll.2.1, hAll.2.2.1⟩ h

/- The steps of a whole embedding can be taken. -/
theorem place?_of_isEmbeddingOn
    (h :
      IsEmbeddingOn pattern s.target s.admits f pattern.nodeIds)
    (hEligible : ∀ a ∈ pattern.nodeIds, f a ∈ s.eligible)
    (hDone : done ⊆ pattern.nodeIds)
    {node : NodeId}
    (hNode : node ∈ pattern.nodeIds)
    (hNew : node ∉ done) :
    s.place? (.ofMap f done)
      (pattern.step (selfNames done) node) (f node) =
      some (.ofMap f (done ++ [node])) := by
  rw [place?_eq_some_iff]
  refine
    ⟨hEligible node hNode, ?_,
      fits_of_isEmbeddingOn h hDone hNode, ?_, ?_⟩
  · rw [Bool.eq_false_iff, ne_eq, Embedding.isImage_ofMap]
    rintro ⟨a, ha, haf⟩
    exact hNew (h.injective a (hDone ha) node hNode haf ▸ ha)
  · have hRoom :=
      hasRoomAround_of_isEmbeddingOn h hEligible hDone hNode
    rw [Embedding.ofMap_append_singleton] at hRoom
    exact hRoom
  · exact (Embedding.ofMap_append_singleton node).symm

/- The image of a node is among the places of its step. -/
theorem mem_places_of_isEmbeddingOn
    (h : IsEmbeddingOn pattern target admits f pattern.nodeIds)
    (hIds : ∀ a ∈ pattern.nodeIds, f a ∈ ids)
    (hDone : done ⊆ pattern.nodeIds)
    {node : NodeId}
    (hNode : node ∈ pattern.nodeIds) :
    f node ∈
      (among target admits ids).places (.ofMap f done)
        (pattern.step (selfNames done) node) := by
  have hAlike :
      f node ∈ (target.groupBySymbol ids).getD
        (pattern.symbol? node) [] := by
    rw [Graph.getD_groupBySymbol, List.mem_filter, beq_iff_eq]
    exact ⟨hIds node hNode, (h.signatures node hNode).1.symm⟩
  unfold places
  dsimp only
  split
  · exact hAlike
  · rename_i image hMin
    split
    · -- The step is tied to a placed node, so its image is next
      -- to that image.
      have hMem := List.minOn?_mem hMin
      rcases List.mem_filterMap.1 hMem with ⟨a, ha, hImage⟩
      rw [Embedding.getElem?_images_ofMap,
        Option.ite_none_right_eq_some] at hImage
      rcases hImage with ⟨haDone, hImage⟩
      cases hImage
      have hTie : (pattern.tie? node a).isSome = true := by
        rcases
            mem_iff_exists_getElem?.1
              (Std.ExtTreeMap.mem_keys.1 ha) with
          ⟨tie, hKey⟩
        have hNames :
            ∀ other ∈ selfNames done,
              other ∈ pattern.nodes := by
          intro other hOther
          exact Std.ExtTreeMap.mem_keys.1
            (hDone (mem_selfNames.1 hOther))
        have hInjective : ∀ x y name : NodeId,
            (selfNames done)[x]? = some name →
              (selfNames done)[y]? = some name → x = y := by
          intro x y name hx hy
          exact (getElem?_selfNames_eq_some.1 hx).2.trans
            (getElem?_selfNames_eq_some.1 hy).2.symm
        rcases
            (Graph.getElem?_ties hNames hInjective).1 hKey with
          ⟨other, hOther, hTie⟩
        rw [← (getElem?_selfNames_eq_some.1 hOther).2, hTie]
        rfl
      refine Graph.mem_neighbours.2
        ⟨h.image_mem hNode (Std.ExtTreeMap.mem_keys.1 hNode),
          ?_⟩
      show (target.tie? (f a) (f node)).isSome = true
      rw [Graph.isSome_tie?_comm, h.ties hNode (hDone haDone)]
      exact hTie
    · exact hAlike

/- A step does not lead to one embedding twice. -/
theorem places_nodup
    (hIds : ids.Nodup)
    (e : Embedding)
    (step : Step) :
    ((among target admits ids).places e step).Nodup := by
  have hAlike :
      ((target.groupBySymbol ids).getD
        step.profile.signature.symbol []).Nodup := by
    rw [Graph.getD_groupBySymbol]
    exact hIds.filter _
  unfold places
  dsimp only
  split
  · exact hAlike
  · split
    · exact target.neighbours_nodup _
    · exact hAlike

end Search

end GraphRewriting

------------------------------------------------------------
-- All Steps
------------------------------------------------------------

namespace GraphRewriting

namespace Search

variable {pattern target : Graph}
variable {admits : Nat → Nat → Bool}
variable {f : NodeId → NodeId}
variable {done rest ids : List NodeId}

/-
  The search reaches every whole embedding from
  each of its parts.
-/
theorem ofMap_mem_embeddingsFrom
    (h : IsEmbeddingOn pattern target admits f pattern.nodeIds)
    (hIds : ∀ a ∈ pattern.nodeIds, f a ∈ ids)
    (hNodup : (done ++ rest).Nodup)
    (hNodes : done ++ rest ⊆ pattern.nodeIds) :
    .ofMap f (done ++ rest) ∈
      (among target admits ids).embeddingsFrom (.ofMap f done)
        (pattern.stepsFrom (selfNames done) rest) := by
  have hEligible :
      ∀ a ∈ pattern.nodeIds,
        f a ∈ (among target admits ids).eligible := by
    intro a ha
    exact Std.ExtTreeSet.mem_ofList.2
      (List.contains_iff_mem.2 (hIds a ha))
  induction rest generalizing done with
  | nil => simp [Graph.stepsFrom, embeddingsFrom]
  | cons node rest ih =>
      have hDone : done ⊆ pattern.nodeIds := fun a ha =>
        hNodes (List.mem_append_left _ ha)
      have hNode : node ∈ pattern.nodeIds := hNodes (by simp)
      have hNew : node ∉ done := by
        intro hMem
        exact (List.nodup_append.1 hNodup).2.2 node hMem node
          (by simp) rfl
      rw [List.append_cons] at hNodup hNodes ⊢
      unfold Graph.stepsFrom embeddingsFrom
      refine List.mem_flatMap.2
        ⟨f node, mem_places_of_isEmbeddingOn h hIds hDone hNode,
          ?_⟩
      rw [place?_of_isEmbeddingOn h hEligible hDone hNode hNew]
      rw [← selfNames_append_singleton]
      exact ih hNodup hNodes

/-
  A node that is placed extends the embedding to an embedding.
-/
private theorem exists_of_place?_eq_some
    {s : Search}
    {next : Embedding}
    {node image : NodeId}
    (h : IsEmbeddingOn pattern s.target s.admits f done)
    (hNodes : done ⊆ pattern.nodeIds)
    (hNew : node ∉ done)
    (hPlace :
      s.place? (.ofMap f done)
        (pattern.step (selfNames done) node) image =
          some next) :
    ∃ g : NodeId → NodeId,
      IsEmbeddingOn pattern s.target s.admits g
        (done ++ [node]) ∧
        next = .ofMap g (done ++ [node]) := by
  rcases place?_eq_some_iff.1 hPlace with
    ⟨_, hFree, hFits, _, hNext⟩
  let g := Function.update f node image
  have hg : ∀ a ∈ done, f a = g a := by
    intro a ha
    have hNe : a ≠ node := fun hEq => hNew (hEq ▸ ha)
    exact (Function.update_of_ne hNe image f).symm
  have hgNode : g node = image :=
    Function.update_self node image f
  have hDoneNodes : ∀ a ∈ done, a ∈ pattern.nodes :=
    fun a ha => Std.ExtTreeMap.mem_keys.1 (hNodes ha)
  have hFit := (fits_ofMap_iff h hDoneNodes).1 hFits
  refine ⟨g, ?_, ?_⟩
  · rw [isEmbeddingOn_append_singleton_iff hNew, hgNode]
    refine ⟨h.congr hg, ?_, hFit.1, ?_⟩
    · intro a ha hEq
      rw [Bool.eq_false_iff, ne_eq,
        Embedding.isImage_ofMap] at hFree
      exact hFree ⟨a, ha, (hg a ha).trans hEq⟩
    · intro a ha
      rw [← hg a ha]
      exact hFit.2 a ha
  · rw [Embedding.ofMap_append_singleton,
      ← Embedding.ofMap_congr hg, hgNode]
    exact hNext.symm

/-
  Whatever the search reaches is an embedding that
  extends the given one.
-/
theorem exists_of_mem_embeddingsFrom
    {s : Search}
    {e : Embedding}
    (h : IsEmbeddingOn pattern s.target s.admits f done)
    (hNodup : (done ++ rest).Nodup)
    (hNodes : done ++ rest ⊆ pattern.nodeIds)
    (hMem :
      e ∈ s.embeddingsFrom (.ofMap f done)
        (pattern.stepsFrom (selfNames done) rest)) :
    ∃ g : NodeId → NodeId,
      IsEmbeddingOn pattern s.target s.admits g (done ++ rest) ∧
        e = .ofMap g (done ++ rest) := by
  induction rest generalizing done f with
  | nil =>
      simp only [Graph.stepsFrom, embeddingsFrom,
        List.mem_singleton] at hMem
      rw [List.append_nil]
      exact ⟨f, h, hMem⟩
  | cons node rest ih =>
      have hNew : node ∉ done := by
        intro hOld
        exact (List.nodup_append.1 hNodup).2.2 node hOld node
          (by simp) rfl
      have hDone : done ⊆ pattern.nodeIds :=
        fun _ ha => hNodes (List.mem_append_left _ ha)
      unfold Graph.stepsFrom embeddingsFrom at hMem
      rcases List.mem_flatMap.1 hMem with ⟨image, _, hMem⟩
      cases hPlace :
          s.place? (.ofMap f done)
            (pattern.step (selfNames done) node) image with
      | none =>
          rw [hPlace] at hMem
          exact absurd hMem List.not_mem_nil
      | some next =>
          rw [hPlace] at hMem
          rcases
              exists_of_place?_eq_some h hDone hNew hPlace with
            ⟨g, hStep, rfl⟩
          rw [← selfNames_append_singleton] at hMem
          rw [List.append_cons] at hNodup hNodes ⊢
          exact ih hStep hNodup hNodes hMem

/- There is one step for each node, in order. -/
theorem map_node_stepsFrom
    (names : Std.ExtTreeMap NodeId NodeId) :
    (pattern.stepsFrom names rest).map Step.node = rest := by
  induction rest generalizing names with
  | nil => rfl
  | cons node rest ih =>
      unfold Graph.stepsFrom
      rw [List.map_cons, ih]
      rfl

/- Placed nodes keep their images while others are placed. -/
private theorem getElem?_images_of_mem_embeddingsFrom
    {s : Search}
    {e found : Embedding}
    {steps : List Step}
    (hMem : found ∈ s.embeddingsFrom e steps)
    {a : NodeId}
    (ha : a ∉ steps.map Step.node) :
    found.images[a]? = e.images[a]? := by
  induction steps generalizing e with
  | nil =>
      simp only [embeddingsFrom, List.mem_singleton] at hMem
      rw [hMem]
  | cons step steps ih =>
      rw [List.map_cons, List.mem_cons, not_or] at ha
      unfold embeddingsFrom at hMem
      rcases List.mem_flatMap.1 hMem with ⟨image, _, hMem⟩
      split at hMem
      · exact absurd hMem List.not_mem_nil
      · rename_i next hPlace
        rcases place?_eq_some_iff.1 hPlace with
          ⟨_, _, _, _, rfl⟩
        rw [ih hMem ha.2]
        unfold Embedding.put
        rw [Std.ExtTreeMap.getElem?_insert, if_neg]
        rw [Std.compare_eq_iff_eq]
        exact fun hEq => ha.1 hEq.symm

private theorem getElem?_images_of_place?
    {s : Search}
    {e next found : Embedding}
    {step : Step}
    {image : NodeId}
    {steps : List Step}
    (hPlace : s.place? e step image = some next)
    (hMem : found ∈ s.embeddingsFrom next steps)
    (hStep : step.node ∉ steps.map Step.node) :
    found.images[step.node]? = some image := by
  rcases place?_eq_some_iff.1 hPlace with ⟨_, _, _, _, rfl⟩
  rw [getElem?_images_of_mem_embeddingsFrom hMem hStep]
  exact Std.ExtTreeMap.getElem?_insert_self

/-
  The search finds nothing twice, as it tries no place twice.
-/
theorem embeddingsFrom_nodup
    (hIds : ids.Nodup)
    {steps : List Step}
    (hSteps : (steps.map Step.node).Nodup)
    (e : Embedding) :
    ((among target admits ids).embeddingsFrom e
      steps).Nodup := by
  induction steps generalizing e with
  | nil => exact List.nodup_singleton e
  | cons step steps ih =>
      rw [List.map_cons, List.nodup_cons] at hSteps
      unfold embeddingsFrom
      rw [List.nodup_flatMap]
      constructor
      · intro image _
        split
        · exact List.nodup_nil
        · exact ih hSteps.2 _
      · apply (places_nodup hIds e step).imp
        intro first second hNe found hFirst hSecond
        dsimp only at hFirst hSecond
        split at hFirst
        · exact absurd hFirst List.not_mem_nil
        · rename_i hPlace
          split at hSecond
          · exact absurd hSecond List.not_mem_nil
          · rename_i hOther
            have hImage :=
              getElem?_images_of_place? hPlace hFirst hSteps.1
            have hSame :=
              hImage.symm.trans
                (getElem?_images_of_place? hOther hSecond
                  hSteps.1)
            exact hNe (Option.some.inj hSame)

end Search

end GraphRewriting

------------------------------------------------------------
-- Starting Tests
------------------------------------------------------------

namespace GraphRewriting

variable {pattern target : Graph}
variable {admits : Nat → Nat → Bool}
variable {f : NodeId → NodeId}

/-
  An embedding sends the edges between nodes to
  edges between nodes.
-/
theorem length_innerEdges_le
    (h :
      IsEmbeddingOn pattern target admits f pattern.nodeIds) :
    pattern.innerEdges.length ≤ target.innerEdges.length := by
  let ends := fun edge : Edge => (edge.start, edge.stop)
  let move := fun pair : NodeId × NodeId => (f pair.1, f pair.2)
  have hNodes :
      ∀ edge ∈ pattern.innerEdges,
        edge.start ∈ pattern.nodeIds ∧
          edge.stop ∈ pattern.nodeIds := by
    intro edge hEdge
    have hEnds := (List.mem_filter.1 hEdge).2
    rw [Bool.and_eq_true] at hEnds
    exact
      ⟨Std.ExtTreeMap.mem_keys.2 hEnds.1,
        Std.ExtTreeMap.mem_keys.2 hEnds.2⟩
  have hDistinct : (pattern.innerEdges.map ends).Nodup :=
    pattern.edges.ends_nodup.sublist
      (List.filter_sublist.map ends)
  have hImages :
      ((pattern.innerEdges.map ends).map move).Nodup := by
    apply List.Nodup.map_on _ hDistinct
    intro first hFirst second hSecond hEq
    rcases List.mem_map.1 hFirst with ⟨a, ha, rfl⟩
    rcases List.mem_map.1 hSecond with ⟨b, hb, rfl⟩
    have hStart : a.start = b.start :=
      h.injective _ (hNodes a ha).1 _ (hNodes b hb).1
        (congrArg Prod.fst hEq)
    have hStop : a.stop = b.stop :=
      h.injective _ (hNodes a ha).2 _ (hNodes b hb).2
        (congrArg Prod.snd hEq)
    exact Prod.ext hStart hStop
  have hSubset :
      (pattern.innerEdges.map ends).map move ⊆
        target.innerEdges.map ends := by
    intro pair hPair
    rcases List.mem_map.1 hPair with ⟨inner, hInner, rfl⟩
    rcases List.mem_map.1 hInner with ⟨edge, hEdge, rfl⟩
    have hEnds := hNodes edge hEdge
    have hInfo :=
      EdgeStore.mem_toList.1 (List.mem_filter.1 hEdge).1
    have hSymbol := h.edges _ hEnds.1 _ hEnds.2
    have hSome :
        (target.edges.get? (f edge.start)
            (f edge.stop)).isSome =
          true := by
      rw [← Graph.isSome_edgeSymbol?, ← hSymbol,
        Graph.isSome_edgeSymbol?, hInfo]
      rfl
    rcases Option.isSome_iff_exists.1 hSome with ⟨info, hFound⟩
    refine List.mem_map.2
      ⟨⟨info, f edge.start, f edge.stop⟩, ?_, rfl⟩
    refine List.mem_filter.2 ⟨EdgeStore.mem_toList.2 hFound, ?_⟩
    rw [Bool.and_eq_true]
    exact
      ⟨h.image_mem hEnds.1 (Std.ExtTreeMap.mem_keys.1 hEnds.1),
        h.image_mem hEnds.2 (Std.ExtTreeMap.mem_keys.1 hEnds.2)⟩
  have hLe := (hImages.subperm hSubset).length_le
  simpa using hLe

namespace Search

/- The places on which some step can be taken first. -/
def firstPlaces
    (pattern target : Graph)
    (admits : Nat → Nat → Bool) : List NodeId :=
  target.nodeIds.filter fun id =>
    (pattern.firstSteps.getD (target.symbol? id) []).any
      fun step =>
        ((among target admits target.nodeIds).place? .empty step
          id).isSome

/-
  A search starts from the images that are
  possible for first nodes.
-/
theorem between_eq_among
    (pattern target : Graph)
    (admits : Nat → Nat → Bool) :
    between pattern target admits =
      among target admits
        (firstPlaces pattern target admits) := rfl

theorem firstPlaces_nodup
    (pattern target : Graph)
    (admits : Nat → Nat → Bool) :
    (firstPlaces pattern target admits).Nodup :=
  Std.ExtTreeMap.nodup_keys.filter _

/-
  First steps are grouped by symbol, in order of their nodes.
-/
private theorem getD_firstSteps
    (pattern : Graph)
    (symbol : Option String) :
    pattern.firstSteps.getD symbol [] =
      (pattern.nodeIds.filter fun id =>
        pattern.symbol? id == symbol).map
        (pattern.step (selfNames [])) := by
  unfold Graph.firstSteps
  rw [← Graph.getD_groupBySymbol,
    Std.ExtTreeMap.getD_eq_getD_getElem?,
    Std.ExtTreeMap.getD_eq_getD_getElem?,
    Std.ExtTreeMap.getElem?_map]
  cases (pattern.groupBySymbol pattern.nodeIds)[symbol]? <;> rfl

/-
  The images of an embedding are places on which a step
  can be taken first.
-/
theorem mem_firstPlaces_of_isEmbeddingOn
    (h : IsEmbeddingOn pattern target admits f pattern.nodeIds)
    {a : NodeId}
    (ha : a ∈ pattern.nodeIds) :
    f a ∈ firstPlaces pattern target admits := by
  have hImage :
      ∀ b ∈ pattern.nodeIds, f b ∈ target.nodeIds := by
    intro b hb
    exact Std.ExtTreeMap.mem_keys.2
      (h.image_mem hb (Std.ExtTreeMap.mem_keys.1 hb))
  have hEligible :
      ∀ b ∈ pattern.nodeIds,
        f b ∈
          (among target admits target.nodeIds).eligible := by
    intro b hb
    exact Std.ExtTreeSet.mem_ofList.2
      (List.contains_iff_mem.2 (hImage b hb))
  refine List.mem_filter.2 ⟨hImage a ha, ?_⟩
  rw [List.any_eq_true]
  refine ⟨pattern.step (selfNames []) a, ?_, ?_⟩
  · rw [getD_firstSteps]
    refine List.mem_map_of_mem (List.mem_filter.2 ⟨ha, ?_⟩)
    rw [beq_iff_eq]
    exact (h.signatures a ha).1
  · have hPlace :=
      place?_of_isEmbeddingOn
        (s := among target admits target.nodeIds) h hEligible
        (List.nil_subset _) ha List.not_mem_nil
    rw [Embedding.ofMap_nil] at hPlace
    rw [hPlace]
    rfl

/- A search that has an embedding to find can start. -/
theorem canStart_of_isEmbeddingOn
    (h :
      IsEmbeddingOn pattern target admits f pattern.nodeIds) :
    (between pattern target admits).canStart pattern =
      true := by
  rw [between_eq_among]
  let ids := firstPlaces pattern target admits
  have hIds : ∀ a ∈ pattern.nodeIds, f a ∈ ids := fun a ha =>
    mem_firstPlaces_of_isEmbeddingOn h ha
  have hEligible :
      ∀ a ∈ pattern.nodeIds,
        f a ∈ (among target admits ids).eligible := by
    intro a ha
    exact Std.ExtTreeSet.mem_ofList.2
      (List.contains_iff_mem.2 (hIds a ha))
  unfold canStart
  rw [Bool.and_eq_true, Bool.and_eq_true]
  refine ⟨⟨decide_eq_true (length_innerEdges_le h), ?_⟩, ?_⟩
  · exact
      hasRoom_of_isEmbeddingOn (s := among target admits ids) h
        (List.nil_subset _) (List.Subset.refl _)
          Std.ExtTreeMap.nodup_keys
        fun a ha => Std.ExtTreeSet.mem_toList.2 (hEligible a ha)
  · rw [List.all_eq_true]
    intro node hNode
    rw [List.any_eq_true]
    refine
      ⟨f node,
        mem_places_of_isEmbeddingOn h hIds (List.nil_subset _)
          hNode,
        ?_⟩
    have hPlace :=
      place?_of_isEmbeddingOn (s := among target admits ids) h
        hEligible
        (List.nil_subset _) hNode List.not_mem_nil
    rw [Embedding.ofMap_nil] at hPlace
    show
      ((among target admits ids).place? .empty
          (pattern.step (selfNames []) node) (f node)).isSome =
        true
    rw [hPlace]
    rfl

end Search

end GraphRewriting

------------------------------------------------------------
-- Exactness
------------------------------------------------------------

namespace GraphRewriting

namespace Graph

variable {pattern target : Graph}
variable {admits : Nat → Nat → Bool}

/-
  The search finds the embeddings of a pattern with
  nodes, and nothing else.
-/
theorem mem_embeddings_iff
    {e : Embedding} :
    e ∈ pattern.embeddings target admits ↔
      pattern.nodes ≠ ∅ ∧
        ∃ f : NodeId → NodeId,
          IsEmbeddingOn pattern target admits f
            pattern.nodeIds ∧
            e = .ofMap f pattern.placementOrder := by
  have hPerm := pattern.placementOrder_perm
  have hNodup : ([] ++ pattern.placementOrder).Nodup :=
    hPerm.nodup_iff.2 Std.ExtTreeMap.nodup_keys
  have hSubset :
      [] ++ pattern.placementOrder ⊆ pattern.nodeIds :=
    hPerm.subset
  have hNonempty :
      (!pattern.nodes.isEmpty) = true ↔ pattern.nodes ≠ ∅ := by
    rw [Bool.not_eq_true', Std.ExtTreeMap.isEmpty_eq_false_iff]
  unfold embeddings
  dsimp only
  constructor
  · intro hMem
    split at hMem
    · rename_i hStart
      rw [Bool.and_eq_true, hNonempty] at hStart
      have hEmpty :
          IsEmbeddingOn pattern
            (Search.between pattern target admits).target
            (Search.between pattern target admits).admits id
              [] :=
        ⟨by simp, by simp, by simp⟩
      rcases
          Search.exists_of_mem_embeddingsFrom hEmpty hNodup
            hSubset hMem with
        ⟨f, hf, rfl⟩
      exact ⟨hStart.1, f, hf.mono hPerm.symm.subset, rfl⟩
    · exact absurd hMem List.not_mem_nil
  · rintro ⟨hNodes, f, hf, rfl⟩
    rw [if_pos]
    · exact Search.ofMap_mem_embeddingsFrom hf
        (fun a ha =>
          Search.mem_firstPlaces_of_isEmbeddingOn hf ha)
        hNodup hSubset
    · rw [Bool.and_eq_true, hNonempty]
      exact ⟨hNodes, Search.canStart_of_isEmbeddingOn hf⟩

/- No embedding is found twice. -/
theorem embeddings_nodup
    (pattern target : Graph)
    (admits : Nat → Nat → Bool) :
    (pattern.embeddings target admits).Nodup := by
  unfold embeddings
  dsimp only
  split
  · rw [Search.between_eq_among]
    apply Search.embeddingsFrom_nodup
      (Search.firstPlaces_nodup _ _ _)
    unfold plan
    rw [Search.map_node_stepsFrom]
    exact pattern.placementOrder_perm.nodup_iff.2
      Std.ExtTreeMap.nodup_keys
  · exact List.nodup_nil

end Graph

end GraphRewriting
