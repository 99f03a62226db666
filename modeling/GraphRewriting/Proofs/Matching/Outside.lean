import GraphRewriting.Proofs.Exotic.Built
import GraphRewriting.Proofs.Matching.Arrangement
import GraphRewriting.Proofs.Matching.Binding
import GraphRewriting.Proofs.Matching.Placing

/-
  The neighbours of an image that are no images themselves, and
  the exotic nodes that have to be bound to them.

  Main declarations:
    * `ExoticGraph.exoticsBeside`
    * `outside`
    * `isEmbeddingOn_admitsDegree_iff`
    * `exists_choice_iff`
-/

------------------------------------------------------------
-- Exotic Neighbours
------------------------------------------------------------

namespace GraphRewriting

namespace ExoticGraph

/- The exotic nodes on one side of an ordinary node. -/
def exoticsBeside
    (p : ExoticGraph)
    (direction : Direction)
    (node : NodeId) : List NodeId :=
  (p.graph.beside direction node).filter p.isExotic

theorem mem_exoticsBeside
    {p : ExoticGraph}
    {direction : Direction}
    {node x : NodeId} :
    x ∈ p.exoticsBeside direction node ↔
      x ∈ p.graph.beside direction node ∧ x ∈ p.exotic := by
  unfold exoticsBeside isExotic
  rw [List.mem_filter, Std.ExtTreeMap.contains_iff_mem]

theorem exoticsBeside_nodup
    (p : ExoticGraph)
    (direction : Direction)
    (node : NodeId) :
    (p.exoticsBeside direction node).Nodup :=
  (p.graph.beside_nodup direction node).filter _

/- A neighbour that is not exotic is ordinary. -/
theorem length_exoticsBeside
    {p : ExoticGraph}
    (hp : p.HasIntegrity)
    (direction : Direction)
    (node : NodeId) :
    ((p.graph.beside direction node).filter
      p.graph.nodes.contains).length +
        (p.exoticsBeside direction node).length =
      p.graph.degree direction node := by
  rw [hasIntegrity_iff] at hp
  have hContains :
      ∀ x ∈ p.graph.beside direction node,
        p.contains x = true := by
    intro x hx
    cases direction with
    | incoming =>
        exact (hp x node (Graph.mem_beside_incoming.1 hx)).1
    | outgoing =>
        exact (hp node x (Graph.mem_beside_outgoing.1 hx)).2
  have hExotic :
      p.exoticsBeside direction node =
        (p.graph.beside direction node).filter fun x =>
          !p.graph.nodes.contains x := by
    apply List.filter_congr
    intro x hx
    have hOrdinary := p.disjoint x
    rw [← Std.ExtTreeMap.contains_iff_mem,
      ← Std.ExtTreeMap.contains_iff_mem] at hOrdinary
    have hx := hContains x hx
    unfold contains at hx
    unfold isExotic
    cases hn : p.graph.nodes.contains x <;>
      cases he : p.exotic.contains x <;>
      simp_all
  rw [hExotic, ← Graph.length_beside]
  exact (List.length_eq_length_filter_add _).symm

end ExoticGraph

end GraphRewriting

------------------------------------------------------------
-- Neighbours Of Images
------------------------------------------------------------

namespace GraphRewriting

/-
  The nodes on one side of an image that are no
  images themselves.
-/
def outside
    (target : Graph)
    (f : NodeId → NodeId)
    (ids : List NodeId)
    (direction : Direction)
    (node : NodeId) : List NodeId :=
  (target.beside direction (f node)).filter fun id =>
    !(Embedding.ofMap f ids).isImage id

variable {p : ExoticGraph}
variable {target : Graph}
variable {admits : Nat → Nat → Bool}
variable {f : NodeId → NodeId}
variable {ids : List NodeId}

/- A neighbour is outside if it is the image of no node. -/
theorem mem_outside
    {direction : Direction}
    {node id : NodeId} :
    id ∈ outside target f ids direction node ↔
      id ∈ target.beside direction (f node) ∧
        ∀ a ∈ ids, f a ≠ id := by
  unfold outside
  rw [List.mem_filter, Bool.not_eq_true', Bool.eq_false_iff,
    ne_eq, Embedding.isImage_ofMap]
  simp

theorem outside_nodup
    (direction : Direction)
    (node : NodeId) :
    (outside target f ids direction node).Nodup :=
  (target.beside_nodup direction _).filter _

namespace IsEmbeddingOn

/- An embedding keeps and reflects neighbours on each side. -/
theorem mem_beside_iff
    {pattern : Graph}
    (h : IsEmbeddingOn pattern target admits f ids)
    {direction : Direction}
    {a b : NodeId}
    (ha : a ∈ ids)
    (hb : b ∈ ids) :
    f b ∈ target.beside direction (f a) ↔
      b ∈ pattern.beside direction a := by
  cases direction with
  | incoming =>
      rw [Graph.mem_beside_incoming, Graph.mem_beside_incoming,
        ← Graph.isSome_edgeSymbol?, ← Graph.isSome_edgeSymbol?,
        h.edges b hb a ha]
  | outgoing =>
      rw [Graph.mem_beside_outgoing, Graph.mem_beside_outgoing,
        ← Graph.isSome_edgeSymbol?, ← Graph.isSome_edgeSymbol?,
        h.edges a ha b hb]

/-
  The images beside an image are the images of the ordinary
  neighbours.
-/
private theorem perm_images_beside
    {pattern : Graph}
    (h : IsEmbeddingOn pattern target admits f pattern.nodeIds)
    (direction : Direction)
    {a : NodeId}
    (ha : a ∈ pattern.nodeIds) :
    (((pattern.beside direction a).filter
        pattern.nodes.contains).map
      f).Perm
      ((target.beside direction (f a)).filter
        (Embedding.ofMap f pattern.nodeIds).isImage) := by
  have hOrdinary :
      ∀ b : NodeId,
        pattern.nodes.contains b = true ↔
          b ∈ pattern.nodeIds := by
    intro b
    rw [Std.ExtTreeMap.contains_iff_mem]
    exact Std.ExtTreeMap.mem_keys.symm
  rw [List.perm_ext_iff_of_nodup]
  · intro id
    rw [List.mem_map, List.mem_filter, Embedding.isImage_ofMap]
    constructor
    · rintro ⟨b, hb, rfl⟩
      rcases List.mem_filter.1 hb with ⟨hBeside, hb⟩
      have hb := (hOrdinary b).1 hb
      exact ⟨(h.mem_beside_iff ha hb).2 hBeside, b, hb, rfl⟩
    · rintro ⟨hBeside, b, hb, rfl⟩
      refine
        ⟨b, List.mem_filter.2 ⟨?_, (hOrdinary b).2 hb⟩, rfl⟩
      exact (h.mem_beside_iff ha hb).1 hBeside
  · apply List.Nodup.map_on
    · intro b hb c hc hEq
      have hb := (hOrdinary b).1 (List.mem_filter.1 hb).2
      have hc := (hOrdinary c).1 (List.mem_filter.1 hc).2
      exact h.injective b hb c hc hEq
    · exact (pattern.beside_nodup direction a).filter _
  · exact (target.beside_nodup direction (f a)).filter _

/-
  Around an embedded node, degrees differ by as much as the
  numbers of exotic nodes and of nodes outside do.
-/
theorem degree_add_length
    (h : IsEmbeddingOn p.graph target admits f p.graph.nodeIds)
    (hp : p.HasIntegrity)
    (direction : Direction)
    {a : NodeId}
    (ha : a ∈ p.graph.nodeIds) :
    target.degree direction (f a) +
      (p.exoticsBeside direction a).length =
      p.graph.degree direction a +
        (outside target f p.graph.nodeIds direction
          a).length := by
  have hImages := (h.perm_images_beside direction ha).length_eq
  have hPattern := p.length_exoticsBeside hp direction a
  have hTarget :
      ((target.beside direction (f a)).filter
          (Embedding.ofMap f p.graph.nodeIds).isImage).length +
        (outside target f p.graph.nodeIds direction a).length =
          target.degree direction (f a) := by
    rw [← Graph.length_beside]
    exact (List.length_eq_length_filter_add _).symm
  rw [List.length_map] at hImages
  omega

end IsEmbeddingOn

/-
  Degrees are admitted where the exotic nodes are as many as
  the nodes outside, or more if they are wildcards.
-/
theorem isEmbeddingOn_admitsDegree_iff
    (hp : p.HasIntegrity) :
    IsEmbeddingOn p.graph target
        (fun wanted found =>
          decide (p.kind.AdmitsDegree wanted found))
        f p.graph.nodeIds ↔
      IsEmbeddingOn p.graph target (fun _ _ => true) f
        p.graph.nodeIds ∧
        ∀ a ∈ p.graph.nodeIds, ∀ direction : Direction,
          p.kind.AdmitsDegree
            (p.exoticsBeside direction a).length
            (outside target f p.graph.nodeIds direction
              a).length := by
  have hDegrees :
      IsEmbeddingOn p.graph target (fun _ _ => true) f
        p.graph.nodeIds →
        ∀ a ∈ p.graph.nodeIds, ∀ direction : Direction,
          (p.kind.AdmitsDegree (p.graph.degree direction a)
              (target.degree direction (f a)) ↔
            p.kind.AdmitsDegree
              (p.exoticsBeside direction a).length
              (outside target f p.graph.nodeIds direction
                a).length) := by
    intro h a ha direction
    have hSum := h.degree_add_length hp direction ha
    unfold ExoticKind.AdmitsDegree
    cases p.kind <;> dsimp only <;> omega
  constructor
  · intro h
    have hPlain :
        IsEmbeddingOn p.graph target (fun _ _ => true) f
          p.graph.nodeIds :=
      ⟨h.injective, fun a ha =>
        ⟨(h.signatures a ha).1, (h.signatures a ha).2.1, rfl,
          rfl⟩, h.edges⟩
    refine ⟨hPlain, ?_⟩
    intro a ha direction
    rw [← hDegrees hPlain a ha direction]
    have hAdmits := (h.signatures a ha).2.2
    cases direction with
    | incoming => exact of_decide_eq_true hAdmits.1
    | outgoing => exact of_decide_eq_true hAdmits.2
  · rintro ⟨h, hSides⟩
    refine ⟨h.injective, ?_, h.edges⟩
    intro a ha
    have hIncoming :=
      (hDegrees h a ha .incoming).2 (hSides a ha .incoming)
    have hOutgoing :=
      (hDegrees h a ha .outgoing).2 (hSides a ha .outgoing)
    exact
      ⟨(h.signatures a ha).1, (h.signatures a ha).2.1,
        decide_eq_true hIncoming, decide_eq_true hOutgoing⟩

end GraphRewriting

------------------------------------------------------------
-- Choices
------------------------------------------------------------

namespace GraphRewriting

/-
  A list of targets is, up to order, its proper targets and as
  many gaps as it has.
-/
theorem perm_map_some_append_replicate_none
    {α : Type}
    [DecidableEq α]
    (values : List (Option α)) :
    values.Perm
      ((values.filterMap id).map some ++
        List.replicate (values.count none) none) := by
  induction values with
  | nil => exact List.Perm.nil
  | cons value values ih =>
      cases value with
      | none =>
          rw [List.count_cons_self, List.replicate_succ]
          exact (ih.cons none).trans List.perm_middle.symm
      | some value => simpa using ih

theorem length_filterMap_add_count_none
    {α : Type}
    [DecidableEq α]
    (values : List (Option α)) :
    (values.filterMap id).length + values.count none =
      values.length := by
  have hPerm :=
    (perm_map_some_append_replicate_none values).length_eq
  simpa using hPerm.symm

variable {p : ExoticGraph}
variable {candidates : List NodeId}
variable {wanted : Nat}

/-
  The candidates, and as many times no target as
  wildcards outnumber them.
-/
theorem ExoticGraph.pool_eq
    (h : p.kind.AdmitsDegree wanted candidates.length) :
    p.pool candidates wanted =
      candidates.map some ++
        List.replicate (wanted - candidates.length) none := by
  unfold ExoticGraph.pool
  unfold ExoticKind.AdmitsDegree at h
  cases hKind : p.kind with
  | anchor =>
      rw [hKind] at h
      simp [show candidates.length = wanted from h]
  | wildcard => rfl

/-
  No kind admits more neighbours than there are exotic nodes.
-/
theorem ExoticKind.AdmitsDegree.le
    {kind : ExoticKind}
    {wanted found : Nat}
    (h : kind.AdmitsDegree wanted found) :
    found ≤ wanted := by
  unfold ExoticKind.AdmitsDegree at h
  cases kind with
  | anchor => exact Nat.le_of_eq h
  | wildcard => exact h

/-
  The arrangements of a pool use each candidate once, and leave
  the rest without a target.
-/
theorem mem_arrangements_pool_iff
    (h : p.kind.AdmitsDegree wanted candidates.length)
    {choice : List (Option NodeId)} :
    choice ∈ arrangements (p.pool candidates wanted) wanted ↔
      choice.length = wanted ∧
        (choice.filterMap id).Perm candidates := by
  have hLe := h.le
  have hLength :
      (p.pool candidates wanted).length = wanted := by
    rw [p.pool_eq h, List.length_append, List.length_map,
      List.length_replicate]
    omega
  rw [mem_arrangements_iff_perm hLength, p.pool_eq h]
  constructor
  · intro hPerm
    have hTotal := hPerm.length_eq
    have hMatched := hPerm.filterMap id
    simp only [List.length_append, List.length_map,
      List.length_replicate] at hTotal
    refine ⟨by omega, ?_⟩
    simpa using hMatched
  · rintro ⟨hTotal, hMatched⟩
    have hCount := length_filterMap_add_count_none choice
    have hSize := hMatched.length_eq
    have hSpare :
        choice.count none = wanted - candidates.length := by
      omega
    rw [← hSpare]
    exact
      (perm_map_some_append_replicate_none choice).trans
        ((hMatched.map some).append_right _)

end GraphRewriting

------------------------------------------------------------
-- Slots Of A Pattern
------------------------------------------------------------

namespace GraphRewriting

/- One side of an ordinary node of a pattern. -/
def ExoticGraph.side
    (p : ExoticGraph)
    (direction : Direction)
    (node : NodeId) : Side :=
  ⟨node, direction, p.exoticsBeside direction node⟩

variable {p : ExoticGraph}
variable {target : Graph}
variable {f : NodeId → NodeId}
variable {ids : List NodeId}

/-
  The slot of a side at an embedding that is
  given by a function.
-/
private theorem ExoticGraph.slot_ofMap
    {direction : Direction}
    {node : NodeId}
    (hNode : node ∈ ids) :
    p.slot target (.ofMap f ids) (p.side direction node) =
      ⟨p.exoticsBeside direction node,
        arrangements
          (p.pool (outside target f ids direction node)
            (p.exoticsBeside direction node).length)
          (p.exoticsBeside direction node).length⟩ := by
  unfold ExoticGraph.slot ExoticGraph.side outside
  dsimp only
  rw [Embedding.getElem?_images_ofMap, if_pos hNode]
  rfl

/-
  Bindings give a choice to a side when they speak of all of
  its exotic nodes, and bind them to all nodes outside and to
  nothing else.
-/
theorem exists_choice_iff
    {b : Bindings}
    (hb : b.IsSound)
    {direction : Direction}
    {node : NodeId}
    (hNode : node ∈ ids)
    (h :
      p.kind.AdmitsDegree
        (p.exoticsBeside direction node).length
        (outside target f ids direction node).length) :
    (∃ choice ∈
      (p.slot target (.ofMap f ids)
        (p.side direction node)).choices,
        b.Gives
          (p.slot target (.ofMap f ids) (p.side direction node))
            choice) ↔
      (∀ x ∈ p.exoticsBeside direction node, x ∈ b.targets) ∧
        ∀ id : NodeId,
          (∃ x ∈ p.exoticsBeside direction node,
              b.targets[x]? = some (some id)) ↔
            id ∈ outside target f ids direction node := by
  rw [ExoticGraph.slot_ofMap hNode]
  constructor
  · rintro ⟨choice, hChoice, hGives⟩
    have hPerm := ((mem_arrangements_pool_iff h).1 hChoice).2
    refine ⟨Bindings.exists_gives_iff.1 ⟨choice, hGives⟩, ?_⟩
    intro id
    exact hGives.mem_iff.symm.trans hPerm.mem_iff
  · rintro ⟨hKeys, hTargets⟩
    have hSpeaks :
        ∀ x ∈ (p.slot target (.ofMap f ids)
          (p.side direction node)).exotics,
          x ∈ b.targets :=
      hKeys
    rcases Bindings.exists_gives_iff.2 hSpeaks with
      ⟨choice, hGives⟩
    refine
      ⟨choice, (mem_arrangements_pool_iff h).2 ⟨?_, ?_⟩, hGives⟩
    · rw [hGives.eq_map]
      exact List.length_map _
    · have hNodup :=
        hGives.nodup hb (p.exoticsBeside_nodup direction node)
      rw [List.perm_ext_iff_of_nodup hNodup
        (outside_nodup direction node)]
      intro id
      exact hGives.mem_iff.trans (hTargets id)

end GraphRewriting
