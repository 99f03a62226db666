import GraphRewriting.Proofs.Digraph.Ascending
import GraphRewriting.Proofs.Exotic.Built
import GraphRewriting.Proofs.FiniteMap

/-
  Exotic graphs that are changed in place. What an id names is
  decided by the last change that named it, and by that change
  alone. No change but the addition of an exotic node makes an
  edge join two of them, and without unchecked edges none does.

  Main declarations:
    * `ExoticGraph.Change`
    * `ExoticGraph.after`
    * `ExoticGraph.Standing`
    * `ExoticGraph.Stands`
    * `ExoticGraph.IsTidy`
    * `ExoticGraph.JoinsProperly.isTidy`
    * `ExoticGraph.tidy_after_changes`
-/

------------------------------------------------------------
-- Changes
------------------------------------------------------------

namespace GraphRewriting

namespace ExoticGraph

/- Something that can be done to an exotic graph. -/
inductive Change where
  | addNode (node : Node)
  | addExotic (node : Node)
  | removeNode (id : NodeId)
  | addEdge (edge : Edge)
  | putEdge (edge : Edge)
  | removeEdge (start stop : NodeId)

namespace Change

/- The change looks for the ends of the edges that it stores. -/
def IsChecked : Change → Prop
  | .putEdge _ => False
  | _ => True

/- The change makes an id that of an exotic node. -/
def AddsExotic : Change → Prop
  | .addExotic _ => True
  | _ => False

instance (change : Change) : Decidable change.IsChecked := by
  cases change <;>
    unfold IsChecked <;>
    infer_instance

end Change

/- Make a change, with the error that prevents it. -/
def perform
    (p : ExoticGraph) :
    Change → ExoticGraph × Option GrammarError
  | .addNode node => (p.addNode node, none)
  | .addExotic node => (p.addExotic node, none)
  | .removeNode id => settle p (p.removeNode id)
  | .addEdge edge => settle p (p.addEdge edge)
  | .putEdge edge => settle p (p.putEdge edge)
  | .removeEdge start stop => settle p (p.removeEdge start stop)

/- The exotic graph after some changes. -/
def after
    (p : ExoticGraph)
    (changes : List Change) : ExoticGraph :=
  changes.foldl (fun p change => (p.perform change).1) p

variable {p q : ExoticGraph}

/- A removed node goes with its edges, whatever its kind. -/
theorem removeNode_eq_ok
    {id : NodeId}
    (h : p.removeNode id = .ok q) :
    q.graph =
      ⟨p.graph.nodes.erase id, p.graph.edges.detach id⟩ ∧
      q.exotic = p.exotic.erase id := by
  unfold removeNode at h
  split at h
  · cases h
    exact ⟨rfl, rfl⟩
  · cases h

/-
  An id names nothing once it is removed, whether or
  not it did before.
-/
theorem nodes_removeNode
    (p : ExoticGraph)
    (id : NodeId) :
    (settle p (p.removeNode id)).1.graph.nodes =
      p.graph.nodes.erase id ∧
      (settle p (p.removeNode id)).1.exotic =
        p.exotic.erase id := by
  unfold removeNode
  by_cases hContains : p.contains id = true
  · rw [if_pos hContains]
    exact ⟨rfl, rfl⟩
  · rw [if_neg hContains]
    rw [contains_iff, not_or] at hContains
    exact
      ⟨(erase_eq_self
          (Std.ExtTreeMap.getElem?_eq_none hContains.1)).symm,
        (erase_eq_self
          (Std.ExtTreeMap.getElem?_eq_none hContains.2)).symm⟩

/- An unchecked edge is refused only between exotic nodes. -/
theorem putEdge_eq_ok
    {edge : Edge} :
    p.putEdge edge = .ok q ↔
      ¬ (p.isExotic edge.start ∧ p.isExotic edge.stop) ∧
        p.withEdges (p.graph.edges.insert edge) = q := by
  unfold putEdge
  cases p.isExotic edge.start <;> cases p.isExotic edge.stop <;>
    simp

/- Removing an edge leaves the nodes as they are. -/
theorem removeEdge_eq_ok
    {start stop : NodeId}
    (h : p.removeEdge start stop = .ok q) :
    p.withEdges (p.graph.edges.erase start stop) = q := by
  unfold removeEdge at h
  split at h
  · cases h
    rfl
  · cases h

/-
  A step that changes edges changes nothing else, whether
  or not it is taken.
-/
theorem settle_eq_withEdges
    {next : Except GrammarError ExoticGraph}
    (hNext :
      ∀ q : ExoticGraph,
        next = .ok q →
          ∃ edges : EdgeStore, p.withEdges edges = q) :
    ∃ edges : EdgeStore,
      (settle p next).1 = p.withEdges edges := by
  cases next with
  | ok q =>
      rcases hNext q rfl with ⟨edges, rfl⟩
      exact ⟨edges, rfl⟩
  | error _ => exact ⟨p.graph.edges, rfl⟩

end ExoticGraph

end GraphRewriting

------------------------------------------------------------
-- Standing
------------------------------------------------------------

namespace GraphRewriting

theorem NodeStore.getElem?_put
    (store : NodeStore)
    (node : Node)
    (id : NodeId) :
    (store.put node)[id]? =
      if node.id = id then
        some node.labels
      else
        store[id]? := by
  unfold NodeStore.put
  rw [Std.ExtTreeMap.getElem?_insert]
  simp only [Std.compare_eq_iff_eq]

theorem NodeStore.getElem?_erase
    (store : NodeStore)
    (id other : NodeId) :
    (store.erase id)[other]? =
      if id = other then none else store[other]? := by
  rw [Std.ExtTreeMap.getElem?_erase]
  simp only [Std.compare_eq_iff_eq]

namespace ExoticGraph

/- What an id names, with its labels. -/
inductive Standing where
  | ordinary (labels : Labels)
  | exotic (labels : Labels)

namespace Standing

/- The labels of an ordinary node. -/
def ordinary? : Standing → Option Labels
  | .ordinary labels => some labels
  | .exotic _ => none

/- The labels of an exotic node. -/
def exotic? : Standing → Option Labels
  | .ordinary _ => none
  | .exotic labels => some labels

end Standing

/- What ids name behind a change. -/
def Change.standing
    (standing : NodeId → Option Standing)
    (change : Change)
    (id : NodeId) : Option Standing :=
  match change with
  | .addNode node =>
      if node.id = id then
        some (.ordinary node.labels)
      else
        standing id
  | .addExotic node =>
      if node.id = id then
        some (.exotic node.labels)
      else
        standing id
  | .removeNode gone => if gone = id then none else standing id
  | _ => standing id

/-
  What ids name after some changes, when they
  named nothing before.
-/
def standingAfter
    (changes : List Change) : NodeId → Option Standing :=
  changes.foldl Change.standing fun _ => none

/- Ids name what they are said to name. -/
structure Stands
    (p : ExoticGraph)
    (standing : NodeId → Option Standing) : Prop where
  ordinary :
    ∀ id : NodeId,
      p.graph.nodes[id]? = (standing id).bind Standing.ordinary?
  exotic :
    ∀ id : NodeId,
      p.exotic[id]? = (standing id).bind Standing.exotic?

variable {p q : ExoticGraph}
variable {standing : NodeId → Option Standing}

theorem stands_empty
    (kind : ExoticKind) :
    (empty kind).Stands fun _ => none where
  ordinary _ := Std.ExtTreeMap.getElem?_empty
  exotic _ := Std.ExtTreeMap.getElem?_empty

namespace Stands

/- No id is that of an ordinary and of an exotic node. -/
theorem not_both
    (h : p.Stands standing)
    (id : NodeId) :
    ¬ (id ∈ p.graph.nodes ∧ id ∈ p.exotic) := by
  rw [Std.ExtTreeMap.mem_iff_isSome_getElem?,
    Std.ExtTreeMap.mem_iff_isSome_getElem?, h.ordinary,
    h.exotic]
  rintro ⟨hOrdinary, hExotic⟩
  cases hNamed : standing id with
  | none =>
      rw [hNamed] at hOrdinary
      cases hOrdinary
  | some named =>
      rw [hNamed] at hOrdinary hExotic
      cases named with
      | ordinary labels => cases hExotic
      | exotic labels => cases hOrdinary

/- One id may come to name something else. -/
theorem update
    (h : p.Stands standing)
    (id : NodeId)
    (named : Option Standing)
    (hOrdinary :
      ∀ other : NodeId,
        q.graph.nodes[other]? =
          if id = other then named.bind Standing.ordinary?
            else p.graph.nodes[other]?)
    (hExotic :
      ∀ other : NodeId,
        q.exotic[other]? =
          if id = other then named.bind Standing.exotic?
            else p.exotic[other]?) :
    q.Stands fun other =>
      if id = other then named else standing other := by
  constructor
  · intro other
    rw [hOrdinary, h.ordinary]
    split <;> rfl
  · intro other
    rw [hExotic, h.exotic]
    split <;> rfl

/- The id stands for an ordinary node from now on. -/
theorem addNode
    (h : p.Stands standing)
    (node : Node) :
    (p.addNode node).Stands
      (Change.standing standing (.addNode node)) := by
  apply h.update node.id (some (.ordinary node.labels))
  · exact NodeStore.getElem?_put p.graph.nodes node
  · exact NodeStore.getElem?_erase p.exotic node.id

/- The id stands for an exotic node from now on. -/
theorem addExotic
    (h : p.Stands standing)
    (node : Node) :
    (p.addExotic node).Stands
      (Change.standing standing (.addExotic node)) := by
  apply h.update node.id (some (.exotic node.labels))
  · exact NodeStore.getElem?_erase p.graph.nodes node.id
  · exact NodeStore.getElem?_put p.exotic node

/- The id stands for nothing, if it stood for something. -/
theorem removeNode
    (h : p.Stands standing)
    (id : NodeId) :
    (settle p (p.removeNode id)).1.Stands
      (Change.standing standing (.removeNode id)) := by
  rcases p.nodes_removeNode id with ⟨hNodes, hExotic⟩
  apply h.update id none
  · rw [hNodes]
    exact NodeStore.getElem?_erase p.graph.nodes id
  · rw [hExotic]
    exact NodeStore.getElem?_erase p.exotic id

/- Edges have no part in what an id names. -/
private theorem settle_edges
    (h : p.Stands standing)
    {next : Except GrammarError ExoticGraph}
    (hNext :
      ∀ q : ExoticGraph,
        next = .ok q →
          ∃ edges : EdgeStore, p.withEdges edges = q) :
    (settle p next).1.Stands standing := by
  rcases settle_eq_withEdges hNext with ⟨edges, hEdges⟩
  rw [hEdges]
  exact ⟨h.ordinary, h.exotic⟩

/-
  A change decides what the id that it names stands for,
  and of no other id.
-/
theorem perform
    (h : p.Stands standing)
    (change : Change) :
    (p.perform change).1.Stands (change.standing standing) := by
  cases change with
  | addNode node => exact h.addNode node
  | addExotic node => exact h.addExotic node
  | removeNode id => exact h.removeNode id
  | addEdge edge =>
      exact
        h.settle_edges fun _ hq => ⟨_, (addEdge_eq_ok.1 hq).2.2⟩
  | putEdge edge =>
      exact
        h.settle_edges fun _ hq => ⟨_, (putEdge_eq_ok.1 hq).2⟩
  | removeEdge start stop =>
      exact h.settle_edges fun _ hq => ⟨_, removeEdge_eq_ok hq⟩

/-
  What each id stands for is told by the changes. The
  induction is on them.
-/
theorem after
    (h : p.Stands standing)
    (changes : List Change) :
    (p.after changes).Stands
      (changes.foldl Change.standing standing) := by
  induction changes generalizing p standing with
  | nil => exact h
  | cons change changes ih => exact ih (h.perform change)

end Stands

end ExoticGraph

end GraphRewriting

------------------------------------------------------------
-- Edges Between Exotic Nodes
------------------------------------------------------------

namespace GraphRewriting

namespace ExoticGraph

variable {p q : ExoticGraph}

/- An edge of the exotic graph joins two exotic nodes. -/
def JoinsExotics
    (p : ExoticGraph)
    (edge : Edge) : Prop :=
  edge ∈ p.edges ∧ p.isExotic edge.start ∧ p.isExotic edge.stop

theorem mem_edges_iff
    {edge : Edge} :
    edge ∈ p.edges ↔
      p.graph.edges.get? edge.start edge.stop =
        some edge.toEdgeInfo :=
  EdgeStore.mem_toList

/- Dropping edges at a node brings none in. -/
theorem get?_edgesWithout_of_eq_some
    {id a b : NodeId}
    {info : EdgeInfo}
    (h : (p.edgesWithout id).get? a b = some info) :
    p.graph.edges.get? a b = some info := by
  unfold edgesWithout at h
  split at h
  · rw [EdgeStore.get?_detach] at h
    split at h
    · cases h
    · exact h
  · exact h

/-
  With fewer edges and exotic nodes, no other edges
  join exotic nodes.
-/
theorem JoinsExotics.of_subset
    (hEdges : ∀ edge ∈ q.edges, edge ∈ p.edges)
    (hExotic : ∀ id : NodeId, id ∈ q.exotic → id ∈ p.exotic)
    {edge : Edge}
    (h : q.JoinsExotics edge) :
    p.JoinsExotics edge := by
  rcases h with ⟨hEdge, hStart, hStop⟩
  rw [isExotic_iff] at hStart hStop
  exact
    ⟨hEdges edge hEdge, isExotic_iff.2 (hExotic _ hStart),
      isExotic_iff.2 (hExotic _ hStop)⟩

/-
  An edge that does not join two exotic nodes
  leaves those that do.
-/
theorem JoinsExotics.of_insert
    {edge other : Edge}
    (hEdge : ¬ (p.isExotic edge.start ∧ p.isExotic edge.stop))
    (h :
      (p.withEdges (p.graph.edges.insert edge)).JoinsExotics
        other) :
    p.JoinsExotics other := by
  rcases h with ⟨hOther, hExotic⟩
  refine ⟨?_, hExotic⟩
  rw [mem_edges_iff] at hOther ⊢
  have hOther :
      (p.graph.edges.insert edge).get? other.start other.stop =
        some other.toEdgeInfo := hOther
  rw [EdgeStore.get?_insert] at hOther
  split at hOther
  · rename_i hSame
    rw [hSame.1, hSame.2] at hEdge
    exact absurd hExotic hEdge
  · exact hOther

/-
  A step that is not taken leaves the edges
  between exotic nodes.
-/
theorem JoinsExotics.of_settle
    {next : Except GrammarError ExoticGraph}
    {edge : Edge}
    (h : (settle p next).1.JoinsExotics edge)
    (hNext :
      ∀ q : ExoticGraph,
        next = .ok q → q.JoinsExotics edge →
          p.JoinsExotics edge) :
    p.JoinsExotics edge := by
  cases next with
  | ok q => exact hNext q rfl h
  | error _ => exact h

/-
  Only an exotic node that is added makes an edge
  join two exotic nodes.
-/
theorem joinsExotics_of_perform
    {change : Change}
    (hChange : ¬ change.AddsExotic)
    {edge : Edge}
    (h : (p.perform change).1.JoinsExotics edge) :
    p.JoinsExotics edge := by
  cases change with
  | addNode node =>
      apply h.of_subset
      · intro other hOther
        exact mem_edges_iff.2
          (get?_edgesWithout_of_eq_some
            (mem_edges_iff.1 hOther))
      · intro id hId
        exact Std.ExtTreeMap.mem_of_mem_erase hId
  | addExotic node => exact absurd trivial hChange
  | removeNode id =>
      apply h.of_settle
      intro q hq hJoins
      rcases removeNode_eq_ok hq with ⟨hGraph, hExotic⟩
      apply hJoins.of_subset
      · intro other hOther
        unfold edges at hOther
        rw [hGraph, EdgeStore.toList_detach] at hOther
        exact List.mem_of_mem_filter hOther
      · intro other hOther
        rw [hExotic] at hOther
        exact Std.ExtTreeMap.mem_of_mem_erase hOther
  | addEdge edge =>
      apply h.of_settle
      intro q hq hJoins
      rcases addEdge_eq_ok.1 hq with ⟨-, hEnds, rfl⟩
      exact hJoins.of_insert hEnds
  | putEdge edge =>
      apply h.of_settle
      intro q hq hJoins
      rcases putEdge_eq_ok.1 hq with ⟨hEnds, rfl⟩
      exact hJoins.of_insert hEnds
  | removeEdge start stop =>
      apply h.of_settle
      intro q hq hJoins
      rcases removeEdge_eq_ok hq with rfl
      apply hJoins.of_subset
      · intro other hOther
        have hOther :
            (p.graph.edges.erase start stop).get? other.start
              other.stop =
              some other.toEdgeInfo :=
          mem_edges_iff.1 hOther
        rw [EdgeStore.get?_erase] at hOther
        split at hOther
        · cases hOther
        · exact mem_edges_iff.2 hOther
      · exact fun _ hId => hId

end ExoticGraph

end GraphRewriting

------------------------------------------------------------
-- Changes With Checked Edges
------------------------------------------------------------

namespace GraphRewriting

namespace ExoticGraph

variable {p : ExoticGraph}

/-
  The edges that start among some nodes and end among others.
-/
def edgesBetween
    (p : ExoticGraph)
    (starts stops : NodeStore) : List Edge :=
  p.edges.filter fun edge =>
    starts.contains edge.start && stops.contains edge.stop

/-
  The edges are such that an id can change what it names, and
  that the exotic nodes can be taken away.
-/
structure IsTidy (p : ExoticGraph) : Prop where
  integrity : p.HasIntegrity
  separate : p.HasSeparateExotics
  readded :
    ∀ node : Node,
      (p.addNode node).edges =
          p.edges.filter
            (fun edge =>
              edge.start != node.id && edge.stop != node.id) ∧
        (p.addExotic node).edges =
          p.edges.filter fun edge =>
            edge.start != node.id && edge.stop != node.id
  partition :
    p.partition =
      { betweenOrdinary :=
        p.edgesBetween p.graph.nodes p.graph.nodes
        exoticToOrdinary :=
          p.edgesBetween p.exotic p.graph.nodes
        ordinaryToExotic :=
          p.edgesBetween p.graph.nodes p.exotic
        betweenExotic := [] }
  covers :
    List.Perm
      (p.partition.betweenOrdinary ++
        p.partition.exoticToOrdinary ++
        p.partition.ordinaryToExotic)
      p.edges
  ordinaryNodes : p.ordinaryPart.nodes = p.graph.nodes
  ordinaryEdges :
    p.ordinaryPart.edges.toList =
      p.edgesBetween p.graph.nodes p.graph.nodes
  ordinaryIntegrity : p.ordinaryPart.HasIntegrity

/-
  Checked changes are among the operations that
  build exotic graphs.
-/
theorem IsBuilt.perform
    (hp : p.IsBuilt)
    {change : Change}
    (hChange : change.IsChecked) :
    (p.perform change).1.IsBuilt := by
  cases change with
  | addNode node => exact hp.addNode node
  | addExotic node => exact hp.addExotic node
  | removeNode id =>
      exact
        settle_preserves hp fun _ hNext => hp.removeNode hNext
  | addEdge edge =>
      exact settle_preserves hp fun _ hNext => hp.addEdge hNext
  | putEdge edge => exact hChange.elim
  | removeEdge start stop =>
      exact
        settle_preserves hp fun _ hNext => hp.removeEdge hNext

/- Checked changes build on what is built. -/
theorem IsBuilt.after
    (hp : p.IsBuilt)
    {changes : List Change}
    (hChanges : ∀ change ∈ changes, change.IsChecked) :
    (p.after changes).IsBuilt := by
  induction changes generalizing p with
  | nil => exact hp
  | cons change changes ih =>
      rw [List.forall_mem_cons] at hChanges
      exact ih (hp.perform hChanges.1) hChanges.2

/-
  A node of the exotic graph is ordinary, or
  else it is exotic.
-/
theorem contains_nodes_eq_not_isExotic
    {id : NodeId}
    (h : p.contains id = true) :
    p.graph.nodes.contains id = !p.isExotic id := by
  rw [contains_iff, ← isExotic_iff,
    ← Std.ExtTreeMap.contains_iff_mem] at h
  have hDisjoint :
      p.isExotic id = true →
        ¬ p.graph.nodes.contains id = true := by
    rw [isExotic_iff, Std.ExtTreeMap.contains_iff_mem]
    exact p.disjoint id
  cases hExotic : p.isExotic id with
  | false => exact h.resolve_right (ne_true_of_eq_false hExotic)
  | true => exact eq_false_of_ne_true (hDisjoint hExotic)

/-
  The edges at an id go with it, whether or
  not it named a node.
-/
theorem HasIntegrity.toList_edgesWithout
    (hp : p.HasIntegrity)
    (id : NodeId) :
    (p.edgesWithout id).toList =
      p.edges.filter fun edge =>
        edge.start != id && edge.stop != id := by
  unfold edgesWithout
  by_cases hContains : p.contains id = true
  · rw [if_pos hContains, EdgeStore.toList_detach]
    rfl
  · rw [if_neg hContains]
    refine (List.filter_eq_self.2 ?_).symm
    intro edge hEdge
    rcases hp edge hEdge with ⟨hStart, hStop⟩
    rw [Bool.and_eq_true, bne_iff_ne, bne_iff_ne]
    constructor
    · rintro rfl
      exact hContains hStart
    · rintro rfl
      exact hContains hStop

/-
  No edge without exotic ends is lost, and no
  other one is there.
-/
theorem toList_ordinaryPart
    (p : ExoticGraph) :
    p.ordinaryPart.edges.toList =
      p.partition.betweenOrdinary := by
  have hEnds :
      (p.partition.betweenOrdinary.map fun edge =>
        (edge.start, edge.stop)).Nodup :=
    (List.filter_sublist.map _).nodup p.graph.edges.ends_nodup
  apply (EdgeStore.toList_ascending _).eq_of_mem_iff
  · exact p.graph.edges.toList_ascending.filter _
  · intro edge
    rw [EdgeStore.mem_toList]
    show (EdgeStore.insertAll ∅ _).get? _ _ = _ ↔ _
    rw [EdgeStore.get?_insertAll_iff hEnds,
      EdgeStore.get?_empty]
    simp

/-
  Edges sorted by their ends are the same edges, when no edge
  joins exotic nodes.
-/
theorem HasSeparateExotics.perm_partition
    (hp : p.HasSeparateExotics) :
    List.Perm
      (p.partition.betweenOrdinary ++
        p.partition.exoticToOrdinary ++
        p.partition.ordinaryToExotic)
      p.edges := by
  have hStops :
      List.Perm
        (p.partition.exoticToOrdinary ++
          p.partition.betweenOrdinary)
        (p.edges.filter fun edge => !p.isExotic edge.stop) := by
    have hSplit :=
      List.filter_append_perm
        (fun edge => p.isExotic edge.start)
        (p.edges.filter fun edge => !p.isExotic edge.stop)
    rw [List.filter_filter, List.filter_filter] at hSplit
    exact hSplit
  have hExotic :
      p.partition.ordinaryToExotic =
        p.edges.filter fun edge => p.isExotic edge.stop := by
    apply List.filter_congr
    intro edge hEdge
    cases hStop : p.isExotic edge.stop with
    | false => exact Bool.and_false _
    | true =>
        have hStart : p.isExotic edge.start = false :=
          eq_false_of_ne_true fun hStart =>
            hp edge hEdge ⟨hStart, hStop⟩
        rw [hStart]
        rfl
  rw [hExotic]
  refine (List.perm_append_comm.append_right _).trans ?_
  refine (hStops.append_right _).trans ?_
  refine List.perm_append_comm.trans ?_
  exact List.filter_append_perm _ p.edges

/- Edges with ends are sorted by what their ends are. -/
private theorem HasIntegrity.partition_eq
    (hp : p.HasIntegrity)
    (hSeparate : p.HasSeparateExotics) :
    p.partition =
      { betweenOrdinary :=
        p.edgesBetween p.graph.nodes p.graph.nodes
        exoticToOrdinary :=
          p.edgesBetween p.exotic p.graph.nodes
        ordinaryToExotic :=
          p.edgesBetween p.graph.nodes p.exotic
        betweenExotic := [] } := by
  have hEnds :
      ∀ edge ∈ p.edges,
        p.graph.nodes.contains edge.start =
          (!p.isExotic edge.start) ∧
          p.graph.nodes.contains edge.stop =
            !p.isExotic edge.stop := by
    intro edge hEdge
    rcases hp edge hEdge with ⟨hStart, hStop⟩
    exact
      ⟨contains_nodes_eq_not_isExotic hStart,
        contains_nodes_eq_not_isExotic hStop⟩
  unfold partition
  congr 1
  · apply List.filter_congr
    intro edge hEdge
    rw [(hEnds edge hEdge).1, (hEnds edge hEdge).2]
  · apply List.filter_congr
    intro edge hEdge
    rw [(hEnds edge hEdge).2]
    rfl
  · apply List.filter_congr
    intro edge hEdge
    rw [(hEnds edge hEdge).1]
    rfl
  · rw [List.filter_eq_nil_iff]
    intro edge hEdge hBoth
    rw [Bool.and_eq_true] at hBoth
    exact hSeparate edge hEdge hBoth

/- Proper edges make an exotic graph tidy. -/
theorem JoinsProperly.isTidy
    (hp : p.JoinsProperly) :
    p.IsTidy := by
  rcases joinsProperly_iff.1 hp with ⟨hIntegrity, hSeparate⟩
  have hPartition := hIntegrity.partition_eq hSeparate
  have hOrdinary :
      p.ordinaryPart.edges.toList =
        p.edgesBetween p.graph.nodes p.graph.nodes := by
    rw [toList_ordinaryPart, hPartition]
  constructor
  case integrity => exact hIntegrity
  case separate => exact hSeparate
  case readded =>
    intro node
    exact
      ⟨hIntegrity.toList_edgesWithout node.id,
        hIntegrity.toList_edgesWithout node.id⟩
  case partition => exact hPartition
  case covers => exact hSeparate.perm_partition
  case ordinaryNodes => rfl
  case ordinaryEdges => exact hOrdinary
  case ordinaryIntegrity =>
    intro edge hEdge
    rw [hOrdinary] at hEdge
    have hEnds := (List.mem_filter.1 hEdge).2
    rw [Bool.and_eq_true] at hEnds
    exact hEnds

end ExoticGraph

end GraphRewriting

------------------------------------------------------------
-- Runs
------------------------------------------------------------

namespace GraphRewriting

namespace ExoticGraph

theorem kind_perform
    (p : ExoticGraph)
    (change : Change) :
    (p.perform change).1.kind = p.kind := by
  have hSettle :
      ∀ next : Except GrammarError ExoticGraph,
        (∀ q : ExoticGraph,
          next = .ok q →
            ∃ edges : EdgeStore, p.withEdges edges = q) →
          (settle p next).1.kind = p.kind := by
    intro next hNext
    rcases settle_eq_withEdges hNext with ⟨edges, hEdges⟩
    rw [hEdges]
    rfl
  cases change with
  | addNode node => rfl
  | addExotic node => rfl
  | removeNode id =>
      show (settle p (p.removeNode id)).1.kind = p.kind
      unfold removeNode
      split <;> rfl
  | addEdge edge =>
      exact hSettle _ fun _ hq => ⟨_, (addEdge_eq_ok.1 hq).2.2⟩
  | putEdge edge =>
      exact hSettle _ fun _ hq => ⟨_, (putEdge_eq_ok.1 hq).2⟩
  | removeEdge start stop =>
      exact hSettle _ fun _ hq => ⟨_, removeEdge_eq_ok hq⟩

/- No change affects the kind. -/
theorem kind_after
    (p : ExoticGraph)
    (changes : List Change) :
    (p.after changes).kind = p.kind := by
  induction changes generalizing p with
  | nil => rfl
  | cons change changes ih =>
      exact (ih _).trans (p.kind_perform change)

/-
  Whatever is done to an exotic graph, what an id names is up to
  the last change that named it, so that no id names an
  ordinary and an exotic node at once. Only the addition of an
  exotic node makes an edge join two of them, and this takes an
  unchecked edge.
-/
theorem tidy_after_changes
    (kind : ExoticKind)
    (changes : List Change) :
    let p := (empty kind).after changes
    (p.kind = kind ∧ p.Stands (standingAfter changes) ∧
        ∀ id : NodeId, ¬ (id ∈ p.graph.nodes ∧ id ∈ p.exotic)) ∧
      (∀ change : Change,
        ¬ change.AddsExotic →
          ∀ edge : Edge,
            (p.perform change).1.JoinsExotics edge →
              p.JoinsExotics edge) ∧
      ((∀ change ∈ changes, change.IsChecked) → p.IsTidy) := by
  intro p
  have hStands : p.Stands (standingAfter changes) :=
    (stands_empty kind).after changes
  refine ⟨⟨?_, hStands, hStands.not_both⟩, ?_, ?_⟩
  · exact (empty kind).kind_after changes
  · intro change hChange edge hJoins
    exact joinsExotics_of_perform hChange hJoins
  · intro hChanges
    exact
      ((IsBuilt.empty kind).after hChanges).joinsProperly.isTidy

/-
  Two nodes change their kinds while edges touch them,
  and are joined again.
-/
def exchange : List Change :=
  [.addNode (.ofSymbol (.num 0) "hub"),
    .addNode (.ofSymbol (.num 1) "spoke"),
    .addExotic (.ofSymbol (.num 2) "spoke"),
    .addEdge (.ofLabels (.num 0) (.num 1) ∅),
    .addEdge (.ofLabels (.num 2) (.num 0) ∅),
    .addExotic (.ofSymbol (.num 1) "rim"),
    .addNode (.ofSymbol (.num 2) "rim"),
    .addEdge (.ofLabels (.num 1) (.num 2) ∅)]

theorem tidy_after_exchange :
    let p := (empty .anchor).after exchange
    ((∀ change ∈ exchange, change.IsChecked) ∧ p.IsTidy) ∧
      (p.edges = [.ofLabels (.num 1) (.num 2) ∅] ∧
        p.partition.exoticToOrdinary = p.edges) ∧
        .num 1 ∈ p.exotic ∧ .num 1 ∉ p.graph.nodes := by
  intro p
  have hChecked : ∀ change ∈ exchange, change.IsChecked := by
    decide +kernel
  have hExotic : NodeId.num 1 ∈ p.exotic := by decide +kernel
  rcases tidy_after_changes .anchor exchange with
    ⟨⟨-, -, hDisjoint⟩, -, hTidy⟩
  refine ⟨⟨hChecked, hTidy hChecked⟩, ⟨?_, ?_⟩, hExotic, ?_⟩
  · decide +kernel
  · decide +kernel
  · intro hOrdinary
    exact hDisjoint (.num 1) ⟨hOrdinary, hExotic⟩

/-
  An edge that is stored before its ends may come to
  join exotic nodes.
-/
example :
    ¬ ((empty .anchor).after
        [.putEdge (.ofLabels (.num 0) (.num 1) ∅),
          .addExotic (.ofSymbol (.num 0) "rim"),
          .addExotic
            (.ofSymbol (.num 1)
              "rim")]).HasSeparateExotics := by
  decide +kernel

end ExoticGraph

end GraphRewriting
