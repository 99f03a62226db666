import GraphRewriting.Proofs.Document.Content

/-
  The exotic nodes that a graph element declares, and those
  that a replacement inherits from its left-hand side.

  Main declarations:
    * `GraphElement.foldlM_declareExotic_eq_ok_iff`
    * `GraphElement.foldl_inherit`
    * `GraphElement.toGraph_eq_ok_iff`
    * `GraphElement.toExoticGraph_eq_ok_iff`
-/

------------------------------------------------------------
-- Exotic Nodes Alone
------------------------------------------------------------

namespace GraphRewriting

namespace ExoticGraph

variable {kind : ExoticKind}
variable {exotic : NodeStore}

/- A new exotic node joins the others. -/
theorem addExotic_ofExotics
    {node : Node}
    (hNew : node.id ∉ exotic) :
    (ofExotics kind exotic).addExotic node =
      ofExotics kind (exotic.put node) := by
  have hNodes : (∅ : NodeStore).erase node.id = ∅ :=
    Std.ExtTreeMap.erase_empty
  have hEdges :
      (ofExotics kind exotic).edgesWithout node.id = ∅ := by
    unfold edgesWithout
    rw [contains_ofExotics_eq_false_iff.2 hNew]
    rfl
  apply eq_of_parts
  · rfl
  · show (⟨(∅ : NodeStore).erase node.id, _⟩ : Graph) = ∅
    rw [hNodes, hEdges]
    rfl
  · rfl

end ExoticGraph

end GraphRewriting

------------------------------------------------------------
-- Declared Exotic Nodes
------------------------------------------------------------

namespace GraphRewriting

/- Store exotic nodes without labels. -/
def NodeStore.putBare
    (store : NodeStore)
    (ids : List NodeId) : NodeStore :=
  ids.foldl (fun store id => store.put ⟨id, ∅⟩) store

/- A bare node replaces what was under its id. -/
theorem NodeStore.getElem?_putBare
    (store : NodeStore)
    (ids : List NodeId)
    (id : NodeId) :
    (store.putBare ids)[id]? =
      if id ∈ ids then some ∅ else store[id]? := by
  induction ids generalizing store with
  | nil => rfl
  | cons first ids ih =>
      show
        (NodeStore.putBare (store.put ⟨first, ∅⟩) ids)[id]? = _
      rw [ih]
      unfold NodeStore.put
      rw [Std.ExtTreeMap.getElem?_insert]
      simp only [Std.compare_eq_iff_eq, List.mem_cons]
      by_cases hRest : id ∈ ids
      · simp [hRest]
      · by_cases hFirst : first = id
        · simp [hFirst]
        · have hNe : id ≠ first := fun hEq => hFirst hEq.symm
          simp [hFirst, hNe, hRest]

namespace GraphElement

variable {kind : ExoticKind}
variable {exotic : NodeStore}
variable {q : ExoticGraph}

/-
  A declared exotic node is added exactly if it has an
  id, and that is new.
-/
private theorem declareExotic_eq_ok_iff
    {element : ExoticElement} :
    declareExotic (.ofExotics kind exotic) element = .ok q ↔
      ∃ id : NodeId,
        element.id = some id ∧ id ∉ exotic ∧
          q = .ofExotics kind (exotic.put ⟨id, ∅⟩) := by
  unfold declareExotic
  cases element.id with
  | none => simp [require, Bind.bind, Except.bind]
  | some id =>
      show (if (ExoticGraph.ofExotics kind exotic).contains id =
        true then
        (.error _ :
          Except GrammarError ExoticGraph) else .ok _) = .ok q ↔
            _
      by_cases hNew : id ∉ exotic
      · have hPut :
            (ExoticGraph.ofExotics kind exotic).addExotic
              ⟨id, ∅⟩ =
              .ofExotics kind (exotic.put ⟨id, ∅⟩) :=
            ExoticGraph.addExotic_ofExotics hNew
        rw [ExoticGraph.contains_ofExotics_eq_false_iff.2 hNew,
          hPut]
        simp [hNew, eq_comm]
      · have hContains :
            (ExoticGraph.ofExotics kind exotic).contains id =
              true := by
          rw [← Bool.not_eq_false,
            ExoticGraph.contains_ofExotics_eq_false_iff]
          exact hNew
        rw [if_pos hContains]
        simp [hNew]

/-
  Exotic nodes are declared exactly if their ids are
  there, new and distinct.
-/
theorem foldlM_declareExotic_eq_ok_iff
    {elements : List ExoticElement} :
    elements.foldlM declareExotic (.ofExotics kind exotic) =
      .ok q ↔
      ∃ ids : List NodeId,
        elements.map ExoticElement.id = ids.map some ∧
          ids.Nodup ∧ (∀ id ∈ ids, id ∉ exotic) ∧
          q = .ofExotics kind (exotic.putBare ids) := by
  induction elements generalizing exotic with
  | nil =>
      constructor
      · intro h
        cases h
        exact ⟨[], rfl, List.nodup_nil, by simp, rfl⟩
      · rintro ⟨ids, hIds, -, -, rfl⟩
        rw [List.map_nil, eq_comm, List.map_eq_nil_iff] at hIds
        subst hIds
        rfl
  | cons element elements ih =>
      rw [foldlM_cons_eq_ok_iff]
      have hPut :
          ∀ id other : NodeId,
            other ∉ exotic.put ⟨id, ∅⟩ ↔
              id ≠ other ∧ other ∉ exotic := by
        intro id other
        unfold NodeStore.put
        rw [Std.ExtTreeMap.mem_insert, Std.compare_eq_iff_eq,
          not_or]
      constructor
      · rintro ⟨next, hNext, hRest⟩
        rcases declareExotic_eq_ok_iff.1 hNext with
          ⟨id, hId, hNew, rfl⟩
        rcases ih.1 hRest with ⟨ids, hIds, hNodup, hFree, rfl⟩
        refine ⟨id :: ids, ?_, ?_, ?_, rfl⟩
        · rw [List.map_cons, List.map_cons, hId, hIds]
        · rw [List.nodup_cons]
          refine ⟨?_, hNodup⟩
          intro hMem
          exact ((hPut id id).1 (hFree id hMem)).1 rfl
        · rw [List.forall_mem_cons]
          exact
            ⟨hNew,
              fun other hOther =>
                ((hPut id other).1 (hFree other hOther)).2⟩
      · rintro ⟨ids, hIds, hNodup, hFree, rfl⟩
        cases ids with
        | nil => cases hIds
        | cons id ids =>
            rw [List.map_cons, List.map_cons,
              List.cons.injEq] at hIds
            rw [List.nodup_cons] at hNodup
            rw [List.forall_mem_cons] at hFree
            refine
              ⟨_,
                declareExotic_eq_ok_iff.2
                  ⟨id, hIds.1, hFree.1, rfl⟩,
                ih.2 ⟨ids, hIds.2, hNodup.2, ?_, rfl⟩⟩
            intro other hOther
            refine (hPut id other).2 ⟨?_, hFree.2 other hOther⟩
            rintro rfl
            exact hNodup.1 hOther

end GraphElement

end GraphRewriting

------------------------------------------------------------
-- Inherited Exotic Nodes
------------------------------------------------------------

namespace GraphRewriting

/- Store nodes unless there is one under the id already. -/
def NodeStore.putMissing
    (store : NodeStore)
    (nodes : List Node) : NodeStore :=
  nodes.foldl
    (fun store node => store.insertIfNew node.id node.labels)
    store

/- Inherited nodes become exotic where their ids are free. -/
theorem GraphElement.foldl_inherit
    (kind : ExoticKind)
    (exotic : NodeStore)
    (inherited : List Node) :
    inherited.foldl inherit (.ofExotics kind exotic) =
      .ofExotics kind (exotic.putMissing inherited) := by
  induction inherited generalizing exotic with
  | nil => rfl
  | cons node inherited ih =>
      have hInherit :
          inherit (.ofExotics kind exotic) node =
            .ofExotics kind
              (exotic.insertIfNew node.id node.labels) := by
        unfold inherit
        by_cases hNew : node.id ∉ exotic
        · rw [ExoticGraph.contains_ofExotics_eq_false_iff.2
              hNew,
            if_neg Bool.false_ne_true,
            ExoticGraph.addExotic_ofExotics hNew]
          unfold NodeStore.put
          congr 1
          apply Std.ExtTreeMap.ext_getElem?
          intro id
          rw [Std.ExtTreeMap.getElem?_insert,
            Std.ExtTreeMap.getElem?_insertIfNew]
          simp [hNew]
        · have hContains :
              (ExoticGraph.ofExotics kind exotic).contains
                  node.id = true := by
            rw [← Bool.not_eq_false,
              ExoticGraph.contains_ofExotics_eq_false_iff]
            exact hNew
          rw [if_pos hContains]
          congr 1
          apply Std.ExtTreeMap.ext_getElem?
          intro id
          rw [Std.ExtTreeMap.getElem?_insertIfNew]
          rw [not_not] at hNew
          simp [hNew]
      rw [List.foldl_cons, hInherit, ih]
      rfl

/-
  Nodes with distinct ids are stored unless
  their ids are held.
-/
theorem NodeStore.labels_putMissing_iff
    {store : NodeStore}
    {nodes : List Node}
    (hNodup : (nodes.map Node.id).Nodup)
    {id : NodeId}
    {labels : Labels} :
    (store.putMissing nodes)[id]? = some labels ↔
      store[id]? = some labels ∨
        id ∉ store ∧ ⟨id, labels⟩ ∈ nodes := by
  induction nodes generalizing store with
  | nil => simp [NodeStore.putMissing]
  | cons node nodes ih =>
      rw [List.map_cons, List.nodup_cons] at hNodup
      show
        (NodeStore.putMissing
              (store.insertIfNew node.id node.labels)
              nodes)[id]? = _ ↔
          _
      rw [ih hNodup.2, Std.ExtTreeMap.getElem?_insertIfNew,
        Std.ExtTreeMap.mem_insertIfNew, List.mem_cons]
      simp only [Std.compare_eq_iff_eq, not_or]
      by_cases hId : node.id = id
      · subst hId
        have hNot : ⟨node.id, labels⟩ ∉ nodes := by
          intro hMem
          exact hNodup.1 (List.mem_map.2 ⟨_, hMem, rfl⟩)
        by_cases hOld : node.id ∈ store
        · simp [hOld]
        · simp [hOld, Node.labels_eq_iff, hNot]
      · have hNe := Node.mk_ne_of_id_ne hId labels
        simp [hId, hNe]

/-
  The first node under an id is stored, unless the id is held.
-/
theorem NodeStore.getElem?_putMissing
    (store : NodeStore)
    (nodes : List Node)
    (id : NodeId) :
    (store.putMissing nodes)[id]? =
      store[id]?.or
        ((nodes.find? fun node => node.id == id).map
          Node.labels) := by
  induction nodes generalizing store with
  | nil => exact (Option.or_none ..).symm
  | cons node nodes ih =>
      show
        (NodeStore.putMissing
            (store.insertIfNew node.id node.labels)
            nodes)[id]? = _
      rw [ih, Std.ExtTreeMap.getElem?_insertIfNew,
        List.find?_cons]
      simp only [Std.compare_eq_iff_eq]
      by_cases hId : node.id = id
      · subst hId
        by_cases hHeld : node.id ∈ store
        · simp [hHeld]
        · simp [hHeld]
      · have hNext : (node.id == id) = false :=
          beq_eq_false_iff_ne.2 hId
        simp [hId, hNext]

end GraphRewriting

------------------------------------------------------------
-- Graphs Of Elements
------------------------------------------------------------

namespace GraphRewriting

namespace GraphElement

/- The ids under which exotic nodes of a kind are declared. -/
def exoticIds
    (element : GraphElement)
    (kind : ExoticKind) : List (Option NodeId) :=
  (element.exotics kind).map ExoticElement.id

variable {element : GraphElement}
variable {kind : ExoticKind}

/-
  A plain graph is read from an element without exotic nodes.
-/
theorem toGraph_eq_ok_iff
    {requireBase : Bool}
    {g : Graph} :
    element.toGraph requireBase = .ok g ↔
      (element.anchors = [] ∧ element.wildcards = []) ∧
        ∃ q : ExoticGraph,
          element.fill requireBase (.ofExotics .anchor ∅) =
              .ok q ∧
            g = q.graph := by
  unfold toGraph
  split
  · rename_i hPlain
    rw [Bool.and_eq_true, List.isEmpty_iff,
      List.isEmpty_iff] at hPlain
    rw [map_eq_ok_iff, and_iff_right hPlain]
    rfl
  · rename_i hExotic
    rw [Bool.and_eq_true, List.isEmpty_iff,
      List.isEmpty_iff] at hExotic
    simp [hExotic]

/-
  An exotic graph is read next to its own and to
  inherited exotic nodes.
-/
theorem toExoticGraph_eq_ok_iff
    {inherited : List Node}
    {q : ExoticGraph} :
    element.toExoticGraph kind inherited = .ok q ↔
      element.exotics (otherKind kind) = [] ∧
        ∃ ids : List NodeId,
          (element.exoticIds kind = ids.map some ∧ ids.Nodup) ∧
            element.fill false
              (.ofExotics kind
                  (((∅ : NodeStore).putBare ids).putMissing
                    inherited)) = .ok q := by
  have hFree :
      ∀ ids : List NodeId, ∀ id ∈ ids, id ∉ (∅ : NodeStore) :=
    fun _ _ _ => Std.ExtTreeMap.not_mem_empty
  have hEmpty : ExoticGraph.empty kind = .ofExotics kind ∅ :=
    rfl
  unfold toExoticGraph
  split
  · rename_i hOther
    rw [List.isEmpty_iff] at hOther
    rw [bind_eq_ok_iff, and_iff_right hOther, hEmpty]
    simp only [foldlM_declareExotic_eq_ok_iff]
    constructor
    · rintro ⟨declared, ⟨ids, hIds, hNodup, -, rfl⟩, hFill⟩
      rw [foldl_inherit] at hFill
      exact ⟨ids, ⟨hIds, hNodup⟩, hFill⟩
    · rintro ⟨ids, ⟨hIds, hNodup⟩, hFill⟩
      refine ⟨_, ⟨ids, hIds, hNodup, hFree ids, rfl⟩, ?_⟩
      rw [foldl_inherit]
      exact hFill
  · rename_i hOther
    rw [List.isEmpty_iff] at hOther
    simp [hOther]

end GraphElement

end GraphRewriting
