import GraphRewriting.Exotic.Basic

/-
  Exotic graphs that come from the checked operations: their
  edges join existing nodes, and no edge joins two exotic ones.

  Main declarations:
    * `ExoticGraph.IsBuilt`
    * `ExoticGraph.IsBuilt.joinsProperly`
    * `ExoticGraph.IsBuilt.hasIntegrity`
-/

------------------------------------------------------------
-- Nodes
------------------------------------------------------------

namespace GraphRewriting

theorem NodeStore.map_id_nodes
    (store : NodeStore) :
    store.nodes.map Node.id = store.keys := by
  have hKeys :
      Node.id ∘
        (fun entry : NodeId × Labels =>
          (⟨entry.1, entry.2⟩ : Node)) =
      Prod.fst := rfl
  unfold NodeStore.nodes
  rw [List.map_map, hKeys,
    Std.ExtTreeMap.map_fst_toList_eq_keys]

theorem Graph.mem_nodeIds
    {g : Graph}
    {id : NodeId} :
    id ∈ g.nodeIds ↔ id ∈ g.nodes :=
  Std.ExtTreeMap.mem_keys

theorem Graph.nodeIds_nodup
    (g : Graph) :
    g.nodeIds.Nodup :=
  Std.ExtTreeMap.nodup_keys

theorem ExoticGraph.mem_exoticIds
    {p : ExoticGraph}
    {id : NodeId} :
    id ∈ p.exoticIds ↔ id ∈ p.exotic :=
  Std.ExtTreeMap.mem_keys

theorem ExoticGraph.exoticIds_nodup
    (p : ExoticGraph) :
    p.exoticIds.Nodup :=
  Std.ExtTreeMap.nodup_keys

end GraphRewriting

------------------------------------------------------------
-- Edges And Their Ends
------------------------------------------------------------

namespace GraphRewriting

namespace ExoticGraph

variable {p q : ExoticGraph}

/-
  An exotic graph contains its ordinary and its exotic nodes.
-/
theorem contains_iff
    {id : NodeId} :
    p.contains id = true ↔
      id ∈ p.graph.nodes ∨ id ∈ p.exotic := by
  unfold contains
  rw [Bool.or_eq_true, Std.ExtTreeMap.contains_iff_mem,
    Std.ExtTreeMap.contains_iff_mem]

theorem isExotic_iff
    {id : NodeId} :
    p.isExotic id = true ↔ id ∈ p.exotic :=
  Std.ExtTreeMap.contains_iff_mem

/- A condition on the ends of edges, looked up edge by edge. -/
theorem forall_mem_edges
    (condition : NodeId → NodeId → Prop) :
    (∀ edge ∈ p.edges, condition edge.start edge.stop) ↔
      ∀ a b : NodeId,
        (p.graph.edges.get? a b).isSome → condition a b := by
  constructor
  · intro h a b hSome
    rcases Option.isSome_iff_exists.1 hSome with ⟨info, hInfo⟩
    exact h ⟨info, a, b⟩ (EdgeStore.mem_toList.2 hInfo)
  · intro h edge hMem
    apply h
    rw [EdgeStore.mem_toList.1 hMem]
    rfl

/- Ends of edges can be checked by looking up the edges. -/
theorem hasIntegrity_iff :
    p.HasIntegrity ↔
      ∀ a b : NodeId,
        (p.graph.edges.get? a b).isSome →
          p.contains a ∧ p.contains b :=
  forall_mem_edges fun a b => p.contains a ∧ p.contains b

/-
  Edges between exotic nodes are told by looking up the edges.
-/
theorem hasSeparateExotics_iff :
    p.HasSeparateExotics ↔
      ∀ a b : NodeId,
        (p.graph.edges.get? a b).isSome →
          ¬ (p.isExotic a ∧ p.isExotic b) :=
  forall_mem_edges fun a b => ¬ (p.isExotic a ∧ p.isExotic b)

end ExoticGraph

end GraphRewriting

------------------------------------------------------------
-- Checked Edges
------------------------------------------------------------

namespace GraphRewriting

namespace ExoticGraph

variable {p q : ExoticGraph}

/-
  Every edge joins two nodes of the exotic graph, and not two
  exotic ones.
-/
def JoinsProperly (p : ExoticGraph) : Prop :=
  ∀ a b : NodeId,
    (p.graph.edges.get? a b).isSome →
      (p.contains a ∧ p.contains b) ∧
        ¬ (p.isExotic a ∧ p.isExotic b)

/- Proper edges keep to both conditions at once. -/
theorem joinsProperly_iff :
    p.JoinsProperly ↔
      p.HasIntegrity ∧ p.HasSeparateExotics := by
  rw [hasIntegrity_iff, hasSeparateExotics_iff]
  constructor
  · intro h
    exact
      ⟨fun a b hSome => (h a b hSome).1,
        fun a b hSome => (h a b hSome).2⟩
  · rintro ⟨hIntegrity, hSeparate⟩ a b hSome
    exact ⟨hIntegrity a b hSome, hSeparate a b hSome⟩

/- What stays are the edges that do not touch the node. -/
theorem isSome_get?_detach
    {edges : EdgeStore}
    {id a b : NodeId} :
    ((edges.detach id).get? a b).isSome = true ↔
      (a ≠ id ∧ b ≠ id) ∧ (edges.get? a b).isSome = true := by
  rw [EdgeStore.get?_detach]
  split
  · rename_i hEnds
    simp only [Option.isSome_none, Bool.false_eq_true,
      false_iff]
    exact fun h => hEnds.elim h.1.1 h.1.2
  · rename_i hEnds
    exact (and_iff_right (not_or.1 hEnds)).symm

/- An id that names a new node comes without edges. -/
theorem isSome_get?_edgesWithout
    (hp : p.JoinsProperly)
    {id a b : NodeId} :
    ((p.edgesWithout id).get? a b).isSome = true ↔
      (a ≠ id ∧ b ≠ id) ∧
        (p.graph.edges.get? a b).isSome = true := by
  unfold edgesWithout
  by_cases hContains : p.contains id = true
  · rw [if_pos hContains, isSome_get?_detach]
  · rw [if_neg hContains]
    refine (and_iff_right_of_imp ?_).symm
    intro hSome
    rcases (hp a b hSome).1 with ⟨ha, hb⟩
    constructor
    · rintro rfl
      exact hContains ha
    · rintro rfl
      exact hContains hb

theorem compare_beq_eq
    {a b : NodeId}
    (h : a ≠ b) :
    (compare a b == .eq) = false := by
  rw [beq_eq_false_iff_ne, ne_eq, Std.compare_eq_iff_eq]
  exact h

/-
  Changing what one id names keeps edges proper when the edges
  at that id go.
-/
theorem JoinsProperly.of_change
    (hp : p.JoinsProperly)
    (id : NodeId)
    (hEdges :
      ∀ a b : NodeId,
        (q.graph.edges.get? a b).isSome →
          (a ≠ id ∧ b ≠ id) ∧ (p.graph.edges.get? a b).isSome)
    (hContains :
      ∀ a : NodeId, a ≠ id → q.contains a = p.contains a)
    (hExotic :
      ∀ a : NodeId, a ≠ id → q.isExotic a = p.isExotic a) :
    q.JoinsProperly := by
  intro a b hSome
  rcases hEdges a b hSome with ⟨⟨ha, hb⟩, hOld⟩
  rw [hContains a ha, hContains b hb, hExotic a ha,
    hExotic b hb]
  exact hp a b hOld

/-
  A node that takes the place of another comes
  without its edges.
-/
theorem JoinsProperly.addNode
    (hp : p.JoinsProperly)
    (node : Node) :
    (p.addNode node).JoinsProperly := by
  apply hp.of_change node.id
  case hEdges =>
    intro a b hSome
    exact (isSome_get?_edgesWithout hp).1 hSome
  case hContains =>
    intro a ha
    unfold contains ExoticGraph.addNode NodeStore.put
    rw [Std.ExtTreeMap.contains_insert,
      Std.ExtTreeMap.contains_erase, bne,
      compare_beq_eq (Ne.symm ha)]
    simp
  case hExotic =>
    intro a ha
    unfold isExotic ExoticGraph.addNode
    rw [Std.ExtTreeMap.contains_erase]
    simp [Ne.symm ha]

/-
  An exotic node that takes the place of another comes
  without its edges.
-/
theorem JoinsProperly.addExotic
    (hp : p.JoinsProperly)
    (node : Node) :
    (p.addExotic node).JoinsProperly := by
  apply hp.of_change node.id
  case hEdges =>
    intro a b hSome
    exact (isSome_get?_edgesWithout hp).1 hSome
  case hContains =>
    intro a ha
    unfold contains ExoticGraph.addExotic NodeStore.put
    rw [Std.ExtTreeMap.contains_insert,
      Std.ExtTreeMap.contains_erase, bne,
      compare_beq_eq (Ne.symm ha)]
    simp
  case hExotic =>
    intro a ha
    unfold isExotic ExoticGraph.addExotic NodeStore.put
    rw [Std.ExtTreeMap.contains_insert]
    simp [Ne.symm ha]

/- A node that is removed takes the edges at it along. -/
theorem JoinsProperly.removeNode
    (hp : p.JoinsProperly)
    {id : NodeId}
    (hRemove : p.removeNode id = .ok q) :
    q.JoinsProperly := by
  unfold ExoticGraph.removeNode at hRemove
  split at hRemove
  · cases hRemove
    apply hp.of_change id
    case hEdges =>
      intro a b hSome
      exact isSome_get?_detach.1 hSome
    case hContains =>
      intro a ha
      unfold contains
      rw [Std.ExtTreeMap.contains_erase,
        Std.ExtTreeMap.contains_erase, bne,
        compare_beq_eq (Ne.symm ha)]
      simp
    case hExotic =>
      intro a ha
      unfold isExotic
      rw [Std.ExtTreeMap.contains_erase]
      simp [Ne.symm ha]
  · cases hRemove

/- An edge is added exactly if it joins properly. -/
theorem addEdge_eq_ok
    {edge : Edge} :
    p.addEdge edge = .ok q ↔
      (p.contains edge.start ∧ p.contains edge.stop) ∧
        ¬ (p.isExotic edge.start ∧ p.isExotic edge.stop) ∧
        p.withEdges (p.graph.edges.insert edge) = q := by
  unfold addEdge
  cases p.isExotic edge.start <;> cases p.isExotic edge.stop <;>
    cases p.contains edge.start <;>
      cases p.contains edge.stop <;> simp

/-
  The kinds of the ends are checked before the edge is added.
-/
theorem JoinsProperly.addEdge
    (hp : p.JoinsProperly)
    {edge : Edge}
    (hAdd : p.addEdge edge = .ok q) :
    q.JoinsProperly := by
  rcases addEdge_eq_ok.1 hAdd with ⟨hContains, hExotic, rfl⟩
  intro a b hSome
  have hSome :
      ((p.graph.edges.insert edge).get? a b).isSome = true :=
    hSome
  rw [EdgeStore.get?_insert] at hSome
  split at hSome
  · rename_i hEnds
    rcases hEnds with ⟨rfl, rfl⟩
    exact ⟨hContains, hExotic⟩
  · exact hp a b hSome

/- The other edges keep their ends. -/
theorem JoinsProperly.removeEdge
    (hp : p.JoinsProperly)
    {start stop : NodeId}
    (hRemove : p.removeEdge start stop = .ok q) :
    q.JoinsProperly := by
  unfold ExoticGraph.removeEdge at hRemove
  split at hRemove
  · cases hRemove
    intro a b hSome
    have hSome :
        ((p.graph.edges.erase start stop).get? a b).isSome =
          true :=
      hSome
    rw [EdgeStore.get?_erase] at hSome
    split at hSome
    · exact absurd hSome Bool.false_ne_true
    · exact hp a b hSome
  · cases hRemove

end ExoticGraph

end GraphRewriting

------------------------------------------------------------
-- Built Graphs
------------------------------------------------------------

namespace GraphRewriting

namespace ExoticGraph

/-
  The exotic graphs that the operations make, without storing
  edges unchecked.
-/
inductive IsBuilt : ExoticGraph → Prop where
  | empty
      (kind : ExoticKind) :
      IsBuilt (.empty kind)
  | addNode
      {p : ExoticGraph}
      (hp : IsBuilt p)
      (node : Node) :
      IsBuilt (p.addNode node)
  | addExotic
      {p : ExoticGraph}
      (hp : IsBuilt p)
      (node : Node) :
      IsBuilt (p.addExotic node)
  | removeNode
      {p q : ExoticGraph}
      {id : NodeId}
      (hp : IsBuilt p)
      (hRemove : p.removeNode id = .ok q) :
      IsBuilt q
  | addEdge
      {p q : ExoticGraph}
      {edge : Edge}
      (hp : IsBuilt p)
      (hAdd : p.addEdge edge = .ok q) :
      IsBuilt q
  | removeEdge
      {p q : ExoticGraph}
      {start stop : NodeId}
      (hp : IsBuilt p)
      (hRemove : p.removeEdge start stop = .ok q) :
      IsBuilt q

/-
  Whatever the checked operations build is proper. The
  induction is on the operations.
-/
theorem IsBuilt.joinsProperly
    {p : ExoticGraph}
    (hp : p.IsBuilt) :
    p.JoinsProperly := by
  induction hp with
  | empty kind =>
      intro a b hSome
      have hNone : (∅ : EdgeStore).get? a b = none :=
        EdgeStore.get?_empty a b
      have hSome : ((∅ : EdgeStore).get? a b).isSome = true :=
        hSome
      rw [hNone] at hSome
      exact absurd hSome Bool.false_ne_true
  | addNode _ node ih => exact ih.addNode node
  | addExotic _ node ih => exact ih.addExotic node
  | removeNode _ hRemove ih => exact ih.removeNode hRemove
  | addEdge _ hAdd ih => exact ih.addEdge hAdd
  | removeEdge _ hRemove ih => exact ih.removeEdge hRemove

/- No edge of what is built has a missing end. -/
theorem IsBuilt.hasIntegrity
    {p : ExoticGraph}
    (hp : p.IsBuilt) :
    p.HasIntegrity :=
  (joinsProperly_iff.1 hp.joinsProperly).1

end ExoticGraph

end GraphRewriting
