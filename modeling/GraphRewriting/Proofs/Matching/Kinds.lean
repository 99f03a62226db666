import GraphRewriting.Proofs.Digraph.Ascending
import GraphRewriting.Proofs.Matching.Exactness

/-
  Anchors and wildcards in the same place of a pattern. Anchors
  ask for equal degrees and wildcards for degrees that are no
  larger, so that there are more matches with wildcards. Those
  that leave no wildcard unmatched are the matches with anchors.

  Main declarations:
    * `ExoticGraph.IsShapedLike`
    * `ExoticGraph.IsMatch.of_isShapedLike`
    * `ExoticGraph.isMatch_anchors_iff`
    * `ExoticGraph.findMatches_anchors`
-/

------------------------------------------------------------
-- Patterns Of The Same Shape
------------------------------------------------------------

namespace GraphRewriting

/-
  Edges of equivalent graphs agree in all but
  their document ids.
-/
theorem Graph.get?_plain_eq_of_equiv
    {g h : Graph}
    (hEquiv : g ≈ h)
    (a b : NodeId) :
    (g.edges.get? a b).map EdgeInfo.plain =
      (h.edges.get? a b).map EdgeInfo.plain := by
  have hPlain : g.plain = h.plain := hEquiv
  have hEdges : g.edges.plain = h.edges.plain :=
    congrArg Graph.edges hPlain
  rw [← EdgeStore.get?_plain, ← EdgeStore.get?_plain, hEdges]

namespace ExoticGraph

/-
  The ordinary nodes, exotic nodes and edges are the
  same, of whatever kind.
-/
structure IsShapedLike (p q : ExoticGraph) : Prop where
  graph : p.graph ≈ q.graph
  exotic : p.exotic = q.exotic

variable {p q : ExoticGraph}
variable {target : Graph}
variable {f : NodeId → NodeId}
variable {m : Morphism}

namespace IsShapedLike

theorem symm
    (h : p.IsShapedLike q) :
    q.IsShapedLike p where
  graph :=
    (show p.graph.plain = q.graph.plain from h.graph).symm
  exotic := h.exotic.symm

/- Patterns of one shape have the same nodes. -/
theorem nodes_eq
    (h : p.IsShapedLike q) :
    p.graph.nodes = q.graph.nodes :=
  Graph.nodes_eq_of_equiv h.graph

/-
  Patterns of one shape have the same ordinary and
  exotic nodes in all.
-/
theorem contains_eq
    (h : p.IsShapedLike q)
    (id : NodeId) :
    p.contains id = q.contains id := by
  unfold contains
  rw [h.nodes_eq, h.exotic]

theorem isSome_get?_eq
    (h : p.IsShapedLike q)
    (a b : NodeId) :
    (p.graph.edges.get? a b).isSome =
      (q.graph.edges.get? a b).isSome := by
  have hPlain :=
    congrArg Option.isSome
      (Graph.get?_plain_eq_of_equiv h.graph a b)
  rw [Option.isSome_map, Option.isSome_map] at hPlain
  exact hPlain

/- Nodes of patterns of one shape carry the same symbols. -/
theorem symbol?_eq
    (h : p.IsShapedLike q)
    (id : NodeId) :
    p.graph.symbol? id = q.graph.symbol? id := by
  unfold Graph.symbol?
  rw [h.nodes_eq]

theorem edgeSymbol?_eq
    (h : p.IsShapedLike q)
    (a b : NodeId) :
    p.graph.edgeSymbol? a b = q.graph.edgeSymbol? a b := by
  have hPlain :=
    congrArg (Option.map EdgeInfo.symbol)
      (Graph.get?_plain_eq_of_equiv h.graph a b)
  rw [Option.map_map, Option.map_map] at hPlain
  exact hPlain

/- Nodes of patterns of one shape have the same neighbours. -/
theorem mem_beside_iff
    (h : p.IsShapedLike q)
    {direction : Direction}
    {a x : NodeId} :
    x ∈ p.graph.beside direction a ↔
      x ∈ q.graph.beside direction a := by
  cases direction with
  | incoming =>
      unfold Graph.beside
      rw [Graph.mem_predecessors, Graph.mem_predecessors,
        h.isSome_get?_eq]
  | outgoing =>
      unfold Graph.beside
      rw [Graph.mem_successors, Graph.mem_successors,
        h.isSome_get?_eq]

theorem isBeside_iff
    (h : p.IsShapedLike q)
    {x : NodeId} :
    p.IsBeside x ↔ q.IsBeside x := by
  unfold IsBeside
  simp only [h.nodes_eq, h.mem_beside_iff]

/- A morphism has the same image for both. -/
theorem hasImage_iff
    (h : p.IsShapedLike q)
    {id : NodeId} :
    p.HasImage m id ↔ q.HasImage m id := by
  unfold HasImage
  rw [h.nodes_eq]

/- If one has integrity then so does the other. -/
theorem hasIntegrity
    (h : p.IsShapedLike q)
    (hp : p.HasIntegrity) :
    q.HasIntegrity := by
  rw [hasIntegrity_iff] at hp ⊢
  intro a b hSome
  rw [← h.isSome_get?_eq] at hSome
  rw [← h.contains_eq, ← h.contains_eq]
  exact hp a b hSome

/-
  Whether nodes can be embedded is told by the
  symbols and the edges.
-/
theorem isEmbeddingOn
    (h : p.IsShapedLike q)
    (hf :
      IsEmbeddingOn p.graph target (fun _ _ => true) f
        p.graph.nodeIds) :
    IsEmbeddingOn q.graph target (fun _ _ => true) f
      q.graph.nodeIds := by
  have hIds : p.graph.nodeIds = q.graph.nodeIds := by
    unfold Graph.nodeIds
    rw [h.nodes_eq]
  rw [hIds] at hf
  constructor
  case injective => exact hf.injective
  case signatures =>
    intro a ha
    rcases hf.signatures a ha with ⟨hSymbol, hLoop, hDegrees⟩
    exact
      ⟨(h.symbol?_eq a).symm.trans hSymbol,
        (h.edgeSymbol?_eq a a).symm.trans hLoop, hDegrees⟩
  case edges =>
    intro a ha b hb
    rw [← h.edgeSymbol?_eq]
    exact hf.edges a ha b hb

/- The listing fails for both or for none. -/
theorem isUnlisted_iff
    (h : p.IsShapedLike q) :
    p.IsUnlisted target ↔ q.IsUnlisted target := by
  rw [ExoticGraph.isUnlisted_iff, ExoticGraph.isUnlisted_iff,
    h.nodes_eq]
  apply and_congr_right
  intro _
  exact exists_congr fun f =>
    ⟨h.isEmbeddingOn, h.symm.isEmbeddingOn⟩

end IsShapedLike

/-
  A match of one pattern is a match of another one of the same
  shape, if this one admits the exotic nodes without target.
-/
theorem IsMatch.of_isShapedLike
    (hm : p.IsMatch target m)
    (h : p.IsShapedLike q)
    (hUnmatched :
      ∀ x ∈ q.exotic, m.target? x = none → q.kind = .wildcard) :
    q.IsMatch target m := by
  have hNodes :
      ∀ a : NodeId, a ∈ q.graph.nodes → a ∈ p.graph.nodes := by
    rw [h.nodes_eq]
    exact fun _ ha => ha
  have hExotic : ∀ x : NodeId, x ∈ q.exotic → x ∈ p.exotic := by
    rw [h.exotic]
    exact fun _ hx => hx
  constructor
  case keys =>
    intro id
    rw [← h.contains_eq]
    exact hm.keys id
  case bound => exact fun a ha => hm.bound a (hNodes a ha)
  case injective =>
    exact fun a ha b hb hEq =>
      hm.injective a (hNodes a ha) b (hNodes b hb) hEq
  case symbols =>
    intro a ha x hx
    rw [← h.symbol?_eq]
    exact hm.symbols a (hNodes a ha) x hx
  case edges =>
    intro a ha b hb x y hx hy
    rw [← h.edgeSymbol?_eq]
    exact hm.edges a (hNodes a ha) b (hNodes b hb) x y hx hy
  case exotic =>
    intro x hx id hId
    rw [← h.hasImage_iff]
    exact hm.exotic x (hExotic x hx) id hId
  case unmatched => exact hUnmatched
  case distinct =>
    exact fun x hx y hy id hIdx hIdy =>
      hm.distinct x (hExotic x hx) y (hExotic y hy) id hIdx hIdy
  case around =>
    intro a ha image hImage direction id
    simp only [← h.hasImage_iff, ← h.mem_beside_iff, ← h.exotic]
    exact hm.around a (hNodes a ha) image hImage direction id
  case isolated =>
    intro x hx hBeside
    rw [← h.isBeside_iff] at hBeside
    exact hm.isolated x (hExotic x hx) hBeside

end ExoticGraph

end GraphRewriting

------------------------------------------------------------
-- Anchors And Wildcards
------------------------------------------------------------

namespace GraphRewriting

namespace ExoticGraph

variable {p anchors wildcards : ExoticGraph}
variable {target : Graph}
variable {m : Morphism}

/-
  The exotic nodes without target are those with
  an unmatched entry.
-/
private theorem IsMatch.isUnmatched_iff
    (hm : p.IsMatch target m)
    {x : NodeId}
    (hx : x ∈ p.exotic) :
    m.isUnmatched x = true ↔ m.target? x = none := by
  have hKey : x ∈ m.bindings := by
    have hContains := hm.keys x
    rw [contains_iff.2 (Or.inr hx)] at hContains
    exact Std.ExtTreeMap.contains_iff_mem.1 hContains
  rcases mem_iff_exists_getElem?.1 hKey with ⟨value, hValue⟩
  unfold Morphism.isUnmatched Morphism.target?
  rw [hValue, beq_iff_eq, Option.some.injEq]
  rfl

/-
  The degrees that anchors ask for are those with which no
  wildcard is left over, on any side of any node.
-/
theorem isMatch_anchors_iff
    (hAnchors : anchors.kind = .anchor)
    (hWildcards : wildcards.kind = .wildcard)
    (hShape : anchors.IsShapedLike wildcards) :
    anchors.IsMatch target m ↔
      wildcards.IsMatch target m ∧
        ∀ x ∈ wildcards.exotic, m.isUnmatched x = false := by
  constructor
  · intro hm
    refine
      ⟨hm.of_isShapedLike hShape fun _ _ _ => hWildcards, ?_⟩
    intro x hx
    rw [← hShape.exotic] at hx
    rw [Bool.eq_false_iff, ne_eq, hm.isUnmatched_iff hx]
    intro hNone
    have hKind := hm.unmatched x hx hNone
    rw [hAnchors] at hKind
    cases hKind
  · rintro ⟨hm, hBound⟩
    apply hm.of_isShapedLike hShape.symm
    intro x hx hNone
    rw [hShape.exotic] at hx
    have hUnmatched := (hm.isUnmatched_iff hx).2 hNone
    rw [hBound x hx] at hUnmatched
    cases hUnmatched

/-
  The matches with anchors are the matches with wildcards that
  leave none of them unmatched. The listing fails for both, or
  for none.
-/
theorem findMatches_anchors
    (hAnchors : anchors.kind = .anchor)
    (hWildcards : wildcards.kind = .wildcard)
    (hShape : anchors.IsShapedLike wildcards)
    (hIntegrity : anchors.HasIntegrity)
    (ht : target.HasIntegrity) :
    (¬ anchors.IsUnlisted target →
        ∃ found listed : List Morphism,
          anchors.findMatches target = .ok found ∧
            wildcards.findMatches target = .ok listed ∧
              found.Perm
                (listed.filter
                  fun m =>
                    wildcards.exoticIds.all
                      fun x => !m.isUnmatched x)) ∧
      (anchors.IsUnlisted target →
        anchors.findMatches target =
          .error (.matchesUnlisted 21) ∧
          wildcards.findMatches target =
            .error (.matchesUnlisted 21)) := by
  constructor
  · intro hListed
    have hListed' : ¬ wildcards.IsUnlisted target :=
      mt hShape.isUnlisted_iff.2 hListed
    refine
      ⟨anchors.matchList target, wildcards.matchList target, ?_,
        ?_, ?_⟩
    · exact if_neg hListed
    · exact if_neg hListed'
    · have hIntegrity' := hShape.hasIntegrity hIntegrity
      rw [List.perm_ext_iff_of_nodup
        (matchList_nodup hIntegrity)
        ((matchList_nodup hIntegrity').filter _)]
      intro m
      rw [List.mem_filter, mem_matchList_iff hIntegrity ht,
        mem_matchList_iff hIntegrity' ht,
        isMatch_anchors_iff hAnchors hWildcards hShape,
        hShape.nodes_eq, and_assoc, List.all_eq_true]
      simp only [mem_exoticIds, Bool.not_eq_true']
  · intro hUnlisted
    have hUnlisted' := hShape.isUnlisted_iff.1 hUnlisted
    unfold findMatches
    rw [if_pos hUnlisted, if_pos hUnlisted', hUnlisted.1,
      hUnlisted'.1]
    exact ⟨rfl, rfl⟩

/- A pattern with exotic nodes of another kind. -/
def ofKind
    (p : ExoticGraph)
    (kind : ExoticKind) : ExoticGraph where
  kind := kind
  graph := p.graph
  exotic := p.exotic
  disjoint := p.disjoint

/-
  A node that points to another one, and a node
  that points to none.
-/
def arrowAndHub : Graph :=
  arrow.addNode (.ofSymbol (.num 9) "hub")

/-
  An anchor passes over the node that points to none, a
  wildcard does not.
-/
theorem findMatches_anchors_spoke :
    arrowAndHub.HasIntegrity ∧
      ∃ found listed : List Morphism,
        (spoke.ofKind .anchor).findMatches arrowAndHub =
          .ok found ∧
          spoke.findMatches arrowAndHub = .ok listed ∧
            found.Perm
              (listed.filter fun m =>
                spoke.exoticIds.all fun x => !m.isUnmatched x) ∧
              found.length = 1 ∧ listed.length = 2 := by
  have hShape : (spoke.ofKind .anchor).IsShapedLike spoke :=
    ⟨rfl, rfl⟩
  have hIntegrity : (spoke.ofKind .anchor).HasIntegrity := by
    decide +kernel
  have hTarget : arrowAndHub.HasIntegrity := by decide +kernel
  have hListed :
      ¬ (spoke.ofKind .anchor).IsUnlisted arrowAndHub := by
    decide +kernel
  rcases
      (findMatches_anchors rfl rfl hShape hIntegrity hTarget).1
        hListed with
    ⟨found, listed, hFound, hWild, hPerm⟩
  have hOne :
      ((spoke.ofKind .anchor).findMatches
            arrowAndHub).toOption.map
          List.length = some 1 := by
    decide +kernel
  have hTwo :
      (spoke.findMatches arrowAndHub).toOption.map List.length =
        some 2 := by
    decide +kernel
  rw [hFound] at hOne
  rw [hWild] at hTwo
  exact
    ⟨hTarget, found, listed, hFound, hWild, hPerm,
      Option.some.inj hOne, Option.some.inj hTwo⟩

end ExoticGraph

end GraphRewriting
