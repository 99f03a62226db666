import GraphRewriting.Proofs.Matching.Match
import GraphRewriting.Proofs.Matching.Search

/-
  The search for matches is exact: it lists all matches of a
  pattern with ordinary nodes and nothing else, each once.

  Main declarations:
    * `ExoticGraph.mem_matchList_iff`
    * `ExoticGraph.matchList_nodup`
    * `ExoticGraph.findMatches_exact`
-/

------------------------------------------------------------
-- The List Of Matches
------------------------------------------------------------

namespace GraphRewriting

variable {p : ExoticGraph}
variable {target : Graph}
variable {f g : NodeId → NodeId}
variable {b c : Bindings}
variable {m : Morphism}

namespace ExoticGraph

/-
  Embeddings on the images that the kind of
  the pattern admits.
-/
def Embeds
    (p : ExoticGraph)
    (target : Graph)
    (f : NodeId → NodeId) : Prop :=
  IsEmbeddingOn p.graph target
    (fun wanted found =>
        decide (p.kind.AdmitsDegree wanted found))
      f p.graph.nodeIds

/-
  The search lists the embeddings of all nodes, and nothing
  for a pattern without ordinary nodes.
-/
theorem mem_embeddings_nodeIds_iff
    {admits : Nat → Nat → Bool}
    {e : Embedding} :
    e ∈ p.graph.embeddings target admits ↔
      p.graph.nodes ≠ ∅ ∧
        ∃ f : NodeId → NodeId,
          IsEmbeddingOn p.graph target admits f
            p.graph.nodeIds ∧
            e = .ofMap f p.graph.nodeIds := by
  have hOrder :
      ∀ f : NodeId → NodeId,
        IsEmbeddingOn p.graph target admits f p.graph.nodeIds →
          Embedding.ofMap f p.graph.nodeIds =
            .ofMap f p.graph.placementOrder := by
    intro f hf
    apply Embedding.ofMap_eq_of_mem_iff hf.injective
    intro a
    exact p.graph.placementOrder_perm.mem_iff.symm
  rw [Graph.mem_embeddings_iff]
  apply and_congr_right
  intro _
  apply exists_congr
  intro f
  apply and_congr_right
  intro hf
  rw [hOrder f hf]

/-
  Where the pattern embeds, the kind admits as many neighbours
  as are left outside of the image.
-/
theorem Embeds.admitsDegree
    (hp : p.HasIntegrity)
    (hf : p.Embeds target f)
    {a : NodeId}
    (ha : a ∈ p.graph.nodeIds)
    (direction : Direction) :
    p.kind.AdmitsDegree (p.exoticsBeside direction a).length
      (outside target f p.graph.nodeIds direction a).length :=
  ((isEmbeddingOn_admitsDegree_iff hp).1 hf).2 a ha direction

/-
  At an embedding the listing has the morphisms that
  come of its bindings.
-/
theorem mem_matchesAt_iff
    (hp : p.HasIntegrity)
    (hf : p.Embeds target f) :
    m ∈ p.matchesAt target p.sides (.ofMap f p.graph.nodeIds) ↔
      ∃ b : Bindings,
        p.IsBinding target f b ∧
          p.morphism? (.ofMap f p.graph.nodeIds) b =
            some m := by
  unfold matchesAt
  rw [List.mem_filterMap]
  apply exists_congr
  intro b
  rw [mem_extensions_slots_iff fun a ha =>
    hf.admitsDegree hp ha]

/-
  The matches of a pattern with ordinary nodes, and
  nothing else, are listed.
-/
theorem mem_matchList_iff
    (hp : p.HasIntegrity)
    (ht : target.HasIntegrity) :
    m ∈ p.matchList target ↔
      p.graph.nodes ≠ ∅ ∧ p.IsMatch target m := by
  unfold matchList
  rw [List.mem_flatMap]
  constructor
  · rintro ⟨e, he, hm⟩
    rcases mem_embeddings_nodeIds_iff.1 he with
      ⟨hNodes, f, hf, rfl⟩
    rcases (mem_matchesAt_iff hp hf).1 hm with
      ⟨b, hb, hMorphism⟩
    rcases morphism?_eq_some_iff.1 hMorphism with
      ⟨hAnchor, hEntries⟩
    rcases (isEmbeddingOn_admitsDegree_iff hp).1 hf with
      ⟨hPlain, hAdmits⟩
    have hMade : p.IsMadeOf target f b m :=
      ⟨hPlain, hb, hEntries⟩
    exact ⟨hNodes, hMade.isMatch ht hAdmits hAnchor⟩
  · rintro ⟨hNodes, hm⟩
    have hf : p.Embeds target m.image :=
      (isEmbeddingOn_admitsDegree_iff hp).2
        ⟨hm.isEmbeddingOn, fun a ha => hm.admitsDegree ha⟩
    refine
      ⟨_,
        mem_embeddings_nodeIds_iff.2 ⟨hNodes, m.image, hf, rfl⟩,
        ?_⟩
    exact (mem_matchesAt_iff hp hf).2
      ⟨_, hm.isBinding, hm.morphism?_eq_some⟩

/- A morphism tells the bindings that it was made from. -/
theorem IsBinding.eq_of_morphism?_eq_some
    (hb : p.IsBinding target f b)
    (hc : p.IsBinding target f c)
    (hmb : p.morphism? (.ofMap f p.graph.nodeIds) b = some m)
    (hmc : p.morphism? (.ofMap f p.graph.nodeIds) c = some m) :
    b = c := by
  have hb' := (morphism?_eq_some_iff.1 hmb).2
  have hc' := (morphism?_eq_some_iff.1 hmc).2
  apply hb.sound.ext hc.sound
  intro x
  have hKeys : x ∈ b.targets ↔ x ∈ c.targets := by
    rw [hb.keys, hc.keys]
  by_cases hx : x ∈ b.targets
  · have hExotic := ((hb.keys x).1 hx).1
    have hTarget :=
      (target?_of_mem_exotic hb' hExotic).symm.trans
        (target?_of_mem_exotic hc' hExotic)
    rcases mem_iff_exists_getElem?.1 hx with ⟨value, hValue⟩
    rcases mem_iff_exists_getElem?.1 (hKeys.1 hx) with
      ⟨other, hOther⟩
    rw [hValue, hOther] at hTarget ⊢
    exact congrArg some hTarget
  · have hx' := mt hKeys.2 hx
    rw [Std.ExtTreeMap.getElem?_eq_none hx,
      Std.ExtTreeMap.getElem?_eq_none hx']

/- A morphism tells the embedding that it was made from. -/
private theorem ofMap_eq_of_morphism?_eq_some
    (hmf : p.morphism? (.ofMap f p.graph.nodeIds) b = some m)
    (hmg : p.morphism? (.ofMap g p.graph.nodeIds) c = some m) :
    Embedding.ofMap f p.graph.nodeIds =
      .ofMap g p.graph.nodeIds := by
  apply Embedding.ofMap_congr
  intro a ha
  have ha := Std.ExtTreeMap.mem_keys.1 ha
  have hf :=
    target?_of_mem_nodes (morphism?_eq_some_iff.1 hmf).2 ha
  have hg :=
    target?_of_mem_nodes (morphism?_eq_some_iff.1 hmg).2 ha
  exact Option.some.inj (hf.symm.trans hg)

/- No match is listed twice. -/
theorem matchList_nodup
    (hp : p.HasIntegrity) :
    (p.matchList target).Nodup := by
  unfold matchList
  dsimp only
  rw [List.nodup_flatMap]
  constructor
  · intro e he
    rcases mem_embeddings_nodeIds_iff.1 he with ⟨-, f, hf, rfl⟩
    have hBinding :
        ∀ b ∈ Bindings.empty.extensions
            (p.sides.map
            (p.slot target (.ofMap f p.graph.nodeIds))),
          p.IsBinding target f b := by
      intro b hb
      exact (mem_extensions_slots_iff fun a ha =>
          Embeds.admitsDegree hp hf ha).1
        hb
    have hSlots :
        ∀ slot ∈ p.sides.map (p.slot target
          (.ofMap f p.graph.nodeIds)),
          slot.IsComplete ∧ slot.choices.Nodup := by
      intro slot hSlot
      rcases List.mem_map.1 hSlot with ⟨side, -, rfl⟩
      exact ⟨isComplete_slot _ side, arrangements_nodup _ _⟩
    have hNodup :=
      Bindings.extensions_nodup Bindings.isSound_empty
        (fun slot hSlot => (hSlots slot hSlot).1)
        (fun slot hSlot => (hSlots slot hSlot).2)
    unfold matchesAt
    rw [nodup_filterMap_iff hNodup]
    intro b hb c hc m hmb hmc
    exact (hBinding b hb).eq_of_morphism?_eq_some
      (hBinding c hc) hmb hmc
  · apply List.Pairwise.imp_of_mem _
      (p.graph.embeddings_nodup target _)
    intro e e' he he' hNe x hx hx'
    rcases mem_embeddings_nodeIds_iff.1 he with ⟨-, f, hf, rfl⟩
    rcases mem_embeddings_nodeIds_iff.1 he' with ⟨-, g, hg, rfl⟩
    rcases (mem_matchesAt_iff hp hf).1 hx with ⟨b, -, hb⟩
    rcases (mem_matchesAt_iff hp hg).1 hx' with ⟨c, -, hc⟩
    exact hNe (ofMap_eq_of_morphism?_eq_some hb hc)

end ExoticGraph

end GraphRewriting

------------------------------------------------------------
-- Listing
------------------------------------------------------------

namespace GraphRewriting

namespace ExoticGraph

variable {p : ExoticGraph}
variable {target : Graph}

/-
  Matches are not listed exactly for patterns of the unlisted
  size that can be embedded.
-/
theorem isUnlisted_iff :
    p.IsUnlisted target ↔
      p.graph.nodes.size = unlistedSize ∧
        ∃ f : NodeId → NodeId,
          IsEmbeddingOn p.graph target (fun _ _ => true) f
            p.graph.nodeIds := by
  unfold IsUnlisted
  apply and_congr_right
  intro hSize
  have hNodes : p.graph.nodes ≠ ∅ := by
    intro hEmpty
    rw [hEmpty] at hSize
    exact absurd hSize (by decide)
  rw [Graph.embeds_eq_true, List.ne_nil_iff_exists_cons]
  constructor
  · rintro ⟨e, rest, hEq⟩
    have he :
        e ∈ p.graph.embeddings target (fun _ _ => true) := by
      rw [hEq]
      exact List.mem_cons_self
    rcases mem_embeddings_nodeIds_iff.1 he with ⟨-, f, hf, -⟩
    exact ⟨f, hf⟩
  · rintro ⟨f, hf⟩
    have he := mem_embeddings_nodeIds_iff.2 ⟨hNodes, f, hf, rfl⟩
    exact List.exists_cons_of_ne_nil (List.ne_nil_of_mem he)

/-
  All matches are listed, each once, unless the ordinary nodes
  are 21 and can be embedded: then the listing fails.
-/
theorem findMatches_exact
    (hp : p.IsBuilt)
    (hNodes : p.graph.nodes ≠ ∅)
    (ht : target.HasIntegrity) :
    ((∃ listed : List Morphism,
        p.findMatches target = .ok listed ∧
          listed.Nodup ∧
            ∀ m : Morphism, m ∈ listed ↔ p.IsMatch target m) ↔
      ¬ (p.graph.nodes.size = 21 ∧
          ∃ f : NodeId → NodeId,
            IsEmbeddingOn p.graph target (fun _ _ => true) f
              p.graph.nodeIds)) ∧
      (p.graph.nodes.size = 21 →
        (∃ f : NodeId → NodeId,
          IsEmbeddingOn p.graph target (fun _ _ => true) f
            p.graph.nodeIds) →
        p.findMatches target =
          .error (.matchesUnlisted 21)) := by
  have hUnlisted : p.IsUnlisted target ↔ _ := isUnlisted_iff
  have hError :
      p.IsUnlisted target →
        p.findMatches target =
          .error (.matchesUnlisted 21) := by
    intro h
    unfold findMatches
    rw [if_pos h, h.1]
    rfl
  refine ⟨⟨?_, ?_⟩, ?_⟩
  · rintro ⟨listed, hListed, -⟩ hLarge
    rw [hError (hUnlisted.2 hLarge)] at hListed
    cases hListed
  · intro hSmall
    have hList :
        p.findMatches target = .ok (p.matchList target) := by
      unfold findMatches
      rw [if_neg (mt hUnlisted.1 hSmall)]
    refine
      ⟨p.matchList target, hList,
        matchList_nodup hp.hasIntegrity, ?_⟩
    intro m
    rw [mem_matchList_iff hp.hasIntegrity ht]
    exact and_iff_right hNodes
  · intro hSize hEmbedding
    exact hError (hUnlisted.2 ⟨hSize, hEmbedding⟩)

/- A node with one wildcard that it points to. -/
def spoke : ExoticGraph :=
  let nodes :=
    (empty .wildcard).addNode (.ofSymbol (.num 0) "hub")
  let ends := nodes.addExotic (.ofSymbol (.num 1) "")
  ends.withEdges
    (ends.graph.edges.insert (.ofLabels (.num 0) (.num 1) ∅))

/- A node that points to another one. -/
def arrow : Graph :=
  let nodes :=
    (∅ : Graph).addNodes
      [.ofSymbol (.num 7) "hub", .ofSymbol (.num 8) "rim"]
  nodes.putEdge (.ofLabels (.num 7) (.num 8) ∅)

/- The pattern is built by the operations. -/
private theorem spoke_isBuilt : spoke.IsBuilt := by
  apply IsBuilt.addEdge
    (((IsBuilt.empty .wildcard).addNode _).addExotic _)
  exact
    addEdge_eq_ok.2 ⟨by decide +kernel, by decide +kernel, rfl⟩

/-
  The general statement, at a wildcard that points to
  a node of an arrow.
-/
theorem findMatches_spoke :
    spoke.graph.nodes ≠ ∅ ∧
      arrow.HasIntegrity ∧
        ∃ listed : List Morphism,
          spoke.findMatches arrow = .ok listed ∧
            listed.Nodup ∧
              ∀ m : Morphism,
                m ∈ listed ↔ spoke.IsMatch arrow m := by
  have hNodes : spoke.graph.nodes ≠ ∅ := by decide +kernel
  have hIntegrity : arrow.HasIntegrity := by decide +kernel
  have hSize : spoke.graph.nodes.size ≠ 21 := by decide +kernel
  have hExact :=
    findMatches_exact spoke_isBuilt hNodes hIntegrity
  exact
    ⟨hNodes, hIntegrity,
      hExact.1.2 fun hLarge => hSize hLarge.1⟩

/- Isolated nodes, each with a symbol of its own. -/
def isolatedNodes (count : Nat) : ExoticGraph :=
  (List.range count).foldl
    (fun p index =>
      p.addNode
        (.ofSymbol (.num index.toUInt64) (toString index)))
    (empty .anchor)

/- Patterns of isolated nodes are built by the operations. -/
private theorem isolatedNodes_isBuilt
    (count : Nat) :
    (isolatedNodes count).IsBuilt := by
  induction count with
  | zero => exact .empty .anchor
  | succ count ih =>
      unfold isolatedNodes at ih ⊢
      rw [List.range_succ, List.foldl_append]
      exact ih.addNode _

/- 21 isolated nodes are not matched with themselves. -/
theorem findMatches_isolatedNodes :
    (isolatedNodes 21).IsBuilt ∧
      (isolatedNodes 21).graph.nodes ≠ ∅ ∧
      (isolatedNodes 21).graph.HasIntegrity ∧
      ¬ ∃ listed : List Morphism,
          (isolatedNodes 21).findMatches
              (isolatedNodes 21).graph =
            .ok listed ∧
            listed.Nodup ∧
              ∀ m : Morphism,
                m ∈ listed ↔
                  (isolatedNodes 21).IsMatch
                    (isolatedNodes 21).graph m := by
  refine
    ⟨isolatedNodes_isBuilt 21, by decide +kernel,
      by decide +kernel, ?_⟩
  rintro ⟨listed, hListed, -⟩
  have hNone :
      ((isolatedNodes 21).findMatches
          (isolatedNodes 21).graph).toOption =
        none := by
    decide +kernel
  rw [hListed] at hNone
  cases hNone

end ExoticGraph

end GraphRewriting
