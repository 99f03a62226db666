import GraphRewriting.Proofs.Exotic.Built
import GraphRewriting.Proofs.Traversal
import GraphRewriting.Rule.Exotic

/-
  The morphisms that a rule between exotic graphs accepts in a
  graph.

  Main declarations:
    * `ExoticRule.Accepts`
    * `ExoticRule.checkMorphism_eq_ok_iff`
-/

------------------------------------------------------------
-- Accepted Morphisms
------------------------------------------------------------

namespace GraphRewriting

namespace ExoticRule

/-
  All ordinary nodes of the left-hand side have a target, all
  exotic nodes are entries, and anchors have a target as well.
  Targets are nodes of the graph, and no two nodes share one.
-/
structure Accepts
    (r : ExoticRule)
    (m : Morphism)
    (target : Graph) : Prop where
  bound : ∀ a ∈ r.lhs.graph.nodes, (m.target? a).isSome = true
  keys : ∀ x ∈ r.lhs.exotic, m.contains x = true
  anchors :
    ∀ x ∈ r.lhs.exotic,
      r.kind = .anchor → (m.target? x).isSome = true
  live :
    ∀ x id : NodeId,
      r.lhs.contains x = true → m.target? x = some id →
        id ∈ target.nodes
  injective :
    ∀ x y id : NodeId,
      r.lhs.contains x = true → r.lhs.contains y = true →
        m.target? x = some id → m.target? y = some id → x = y

/- The targets of the ordinary nodes of the left-hand side. -/
def replaced
    (r : ExoticRule)
    (m : Morphism) : List NodeId :=
  r.lhs.graph.nodeIds.filterMap m.target?

/- The targets of the exotic nodes of the left-hand side. -/
def exoticTargets
    (r : ExoticRule)
    (m : Morphism) : List NodeId :=
  r.lhs.exoticIds.filterMap m.target?

variable {r : ExoticRule}
variable {m : Morphism}
variable {target : Graph}

theorem mem_replaced
    {id : NodeId} :
    id ∈ r.replaced m ↔
      ∃ a ∈ r.lhs.graph.nodes, m.target? a = some id := by
  unfold replaced
  rw [List.mem_filterMap]
  simp only [Graph.mem_nodeIds]

theorem mem_exoticTargets
    {id : NodeId} :
    id ∈ r.exoticTargets m ↔
      ∃ x ∈ r.lhs.exotic, m.target? x = some id := by
  unfold exoticTargets
  rw [List.mem_filterMap]
  simp only [ExoticGraph.mem_exoticIds]

end ExoticRule

end GraphRewriting

------------------------------------------------------------
-- Single Checks
------------------------------------------------------------

namespace GraphRewriting

namespace ExoticRule

variable {r : ExoticRule}
variable {m : Morphism}
variable {target : Graph}

/-
  One more id to keep clear of is one more id
  that must not occur.
-/
theorem forall_mem_and_ne_iff
    {ids : List NodeId}
    {condition : NodeId → Prop}
    {used : NodeId} :
    (∀ id ∈ ids, condition id ∧ id ≠ used) ↔
      (∀ id ∈ ids, condition id) ∧ used ∉ ids := by
  constructor
  · intro h
    exact
      ⟨fun id hId => (h id hId).1,
        fun hUsed => (h used hUsed).2 rfl⟩
  · rintro ⟨h, hUsed⟩ id hId
    refine ⟨h id hId, ?_⟩
    rintro rfl
    exact hUsed hId

/-
  The first check passes if all nodes have targets, and if
  these are nodes of the graph that were not seen before.
-/
theorem matchedTargets_eq_ok_iff
    {seen ids matched : List NodeId} :
    r.matchedTargets m target seen ids = .ok matched ↔
      (∀ a ∈ ids, (m.target? a).isSome = true) ∧
        (∀ id ∈ ids.filterMap m.target?,
          id ∈ target.nodes ∧ id ∉ seen) ∧
        (ids.filterMap m.target?).Nodup ∧
        seen ++ ids.filterMap m.target? = matched := by
  induction ids generalizing seen with
  | nil => simp [matchedTargets]
  | cons a ids ih =>
      unfold matchedTargets
      cases ha : m.target? a with
      | none => simp [ha]
      | some bound =>
          rw [List.filterMap_cons_some ha]
          by_cases hLive : bound ∈ target.nodes
          · by_cases hSeen : bound ∈ seen
            · simp [checkLive, hLive, hSeen, Bind.bind,
                Except.bind]
            · have hNext :
                  ∀ id : NodeId,
                    (id ∈ target.nodes ∧ id ∉ seen ++ [bound]) ↔
                      (id ∈ target.nodes ∧ id ∉ seen) ∧
                        id ≠ bound := by
                intro id
                rw [List.mem_append, List.mem_singleton, not_or,
                  and_assoc]
              simp only [checkLive, hLive, hSeen, if_true,
                if_false, Bind.bind, Except.bind, ih, hNext,
                forall_mem_and_ne_iff]
              simp only [List.forall_mem_cons, ha, hLive, hSeen,
                List.nodup_cons, List.append_assoc,
                List.singleton_append, Option.isSome_some,
                not_false_eq_true, true_and, and_assoc]
          · simp [checkLive, hLive, Bind.bind, Except.bind]

/-
  The second check passes if the exotic nodes are entries,
  anchors bound, and their targets apart from all the others.
-/
theorem checkExotics_eq_ok_iff
    {matched context ids : List NodeId} :
    r.checkExotics m target matched context ids = .ok () ↔
      (∀ x ∈ ids,
          m.contains x = true ∧
            (r.kind = .anchor → (m.target? x).isSome = true)) ∧
        (∀ id ∈ ids.filterMap m.target?,
          id ∈ target.nodes ∧ id ∉ matched ∧ id ∉ context) ∧
        (ids.filterMap m.target?).Nodup := by
  induction ids generalizing context with
  | nil => simp [checkExotics]
  | cons x ids ih =>
      unfold checkExotics
      by_cases hKey : m.contains x = true
      · cases hx : m.target? x with
        | none =>
            rw [List.filterMap_cons_none hx]
            cases hKind : r.kind with
            | anchor => simp [hKey, hx]
            | wildcard => simp [hKey, hKind, ih]
        | some bound =>
            rw [List.filterMap_cons_some hx]
            by_cases hLive : bound ∈ target.nodes
            · by_cases hMatched : bound ∈ matched
              · simp [hKey, checkLive, hLive, hMatched,
                  Bind.bind, Except.bind]
              · by_cases hContext : bound ∈ context
                · simp [hKey, checkLive, hLive, hMatched,
                    hContext, Bind.bind, Except.bind]
                · have hNext :
                      ∀ id : NodeId,
                        (id ∈ target.nodes ∧ id ∉ matched ∧
                          id ∉ bound :: context) ↔
                          (id ∈ target.nodes ∧ id ∉ matched ∧
                            id ∉ context) ∧
                            id ≠ bound := by
                    intro id
                    rw [List.mem_cons, not_or,
                      and_comm (a := ¬ id = bound), and_assoc,
                      and_assoc]
                  have hGo :
                      (!m.contains x) = false ∧
                        r.checkLive target bound = .ok () := by
                    simp [hKey, checkLive, hLive]
                  simp only [hGo, hMatched, hContext,
                    Bool.false_eq_true, if_false, Bind.bind,
                    Except.bind]
                  rw [ih]
                  simp only [hNext, forall_mem_and_ne_iff]
                  simp only [List.forall_mem_cons, hKey, hx,
                    hLive, hMatched, hContext, List.nodup_cons,
                    Option.isSome_some, not_false_eq_true,
                    implies_true, true_and, and_assoc]
            · simp [hKey, checkLive, hLive, Bind.bind,
                Except.bind]
      · simp [hKey]

end ExoticRule

end GraphRewriting

------------------------------------------------------------
-- The Whole Check
------------------------------------------------------------

namespace GraphRewriting

namespace ExoticRule

variable {r : ExoticRule}
variable {m : Morphism}
variable {target : Graph}

theorem Accepts.mem_nodes_of_mem_replaced
    (h : r.Accepts m target)
    {id : NodeId}
    (hId : id ∈ r.replaced m) :
    id ∈ target.nodes := by
  rcases mem_replaced.1 hId with ⟨a, ha, hTarget⟩
  exact
    h.live a id (ExoticGraph.contains_iff.2 (Or.inl ha)) hTarget

/- No node is replaced twice. -/
theorem Accepts.replaced_nodup
    (h : r.Accepts m target) :
    (r.replaced m).Nodup := by
  unfold replaced
  rw [nodup_filterMap_iff r.lhs.graph.nodeIds_nodup]
  intro x hx y hy id
  have hx := Graph.mem_nodeIds.1 hx
  have hy := Graph.mem_nodeIds.1 hy
  exact
    h.injective x y id (ExoticGraph.contains_iff.2 (Or.inl hx))
      (ExoticGraph.contains_iff.2 (Or.inl hy))

/- No exotic target is named twice. -/
theorem Accepts.exoticTargets_nodup
    (h : r.Accepts m target) :
    (r.exoticTargets m).Nodup := by
  unfold exoticTargets
  rw [nodup_filterMap_iff r.lhs.exoticIds_nodup]
  intro x hx y hy id
  have hx := ExoticGraph.mem_exoticIds.1 hx
  have hy := ExoticGraph.mem_exoticIds.1 hy
  exact
    h.injective x y id (ExoticGraph.contains_iff.2 (Or.inr hx))
      (ExoticGraph.contains_iff.2 (Or.inr hy))

/- Bound exotic nodes stay clear of what is replaced. -/
theorem Accepts.notMem_replaced
    (h : r.Accepts m target)
    {x id : NodeId}
    (hx : x ∈ r.lhs.exotic)
    (hTarget : m.target? x = some id) :
    id ∉ r.replaced m := by
  intro hId
  rcases mem_replaced.1 hId with ⟨a, ha, hEq⟩
  have hSame :=
    h.injective x a id (ExoticGraph.contains_iff.2 (Or.inr hx))
      (ExoticGraph.contains_iff.2 (Or.inl ha)) hTarget hEq
  exact r.lhs.disjoint x hx (hSame ▸ ha)

/-
  The check of a morphism is a check of targets, then
  one of exotic nodes.
-/
theorem checkMorphism_eq_ok_iff_checks
    {matched : List NodeId} :
    r.checkMorphism m target = .ok matched ↔
      r.matchedTargets m target [] r.lhs.graph.nodeIds =
        .ok matched ∧
        r.checkExotics m target matched [] r.lhs.exoticIds =
          .ok () := by
  unfold checkMorphism
  simp only [Bind.bind, Except.bind]
  cases r.matchedTargets m target [] r.lhs.graph.nodeIds with
  | error error => simp
  | ok targets =>
      dsimp only
      constructor
      · intro h
        cases hExotics :
          r.checkExotics m target targets []
            r.lhs.exoticIds with
        | error error =>
            rw [hExotics] at h
            cases h
        | ok _ =>
            rw [hExotics] at h
            cases h
            exact ⟨rfl, hExotics⟩
      · rintro ⟨hEq, hExotics⟩
        cases hEq
        rw [hExotics]
        rfl

/-
  Two lists of targets without repetition and without a common
  node are all it takes to be injective on the left-hand side.
-/
private theorem eq_of_target?_eq
    (hReplaced : (r.replaced m).Nodup)
    (hTargets : (r.exoticTargets m).Nodup)
    (hClear : ∀ id ∈ r.exoticTargets m, id ∉ r.replaced m)
    {x y id : NodeId}
    (hx : r.lhs.contains x = true)
    (hy : r.lhs.contains y = true)
    (htx : m.target? x = some id)
    (hty : m.target? y = some id) :
    x = y := by
  unfold replaced at hReplaced
  unfold exoticTargets at hTargets
  rw [nodup_filterMap_iff
    r.lhs.graph.nodeIds_nodup] at hReplaced
  rw [nodup_filterMap_iff r.lhs.exoticIds_nodup] at hTargets
  rcases ExoticGraph.contains_iff.1 hx with hx | hx <;>
    rcases ExoticGraph.contains_iff.1 hy with hy | hy
  · exact hReplaced x (Graph.mem_nodeIds.2 hx) y
      (Graph.mem_nodeIds.2 hy) id htx hty
  · have hId := mem_replaced.2 ⟨x, hx, htx⟩
    exact
      absurd hId (hClear id (mem_exoticTargets.2 ⟨y, hy, hty⟩))
  · have hId := mem_replaced.2 ⟨y, hy, hty⟩
    exact
      absurd hId (hClear id (mem_exoticTargets.2 ⟨x, hx, htx⟩))
  · exact hTargets x (ExoticGraph.mem_exoticIds.2 hx) y
      (ExoticGraph.mem_exoticIds.2 hy) id htx hty

/-
  The check of a morphism is passed by the
  accepted ones alone.
-/
theorem checkMorphism_eq_ok_iff
    {matched : List NodeId} :
    r.checkMorphism m target = .ok matched ↔
      r.Accepts m target ∧ r.replaced m = matched := by
  rw [checkMorphism_eq_ok_iff_checks, matchedTargets_eq_ok_iff,
    checkExotics_eq_ok_iff, List.nil_append]
  constructor
  · rintro ⟨⟨hBound, hLive, hNodup, rfl⟩, hKeys, hExotics,
      hExoticNodup⟩
    refine ⟨⟨?_, ?_, ?_, ?_, ?_⟩, rfl⟩
    · intro a ha
      exact hBound a (Graph.mem_nodeIds.2 ha)
    · intro x hx
      exact (hKeys x (ExoticGraph.mem_exoticIds.2 hx)).1
    · intro x hx
      exact (hKeys x (ExoticGraph.mem_exoticIds.2 hx)).2
    · intro x id hx hTarget
      rcases ExoticGraph.contains_iff.1 hx with hx | hx
      · exact (hLive id (mem_replaced.2 ⟨x, hx, hTarget⟩)).1
      · exact
          (hExotics id (mem_exoticTargets.2 ⟨x, hx, hTarget⟩)).1
    · intro x y id
      exact eq_of_target?_eq hNodup hExoticNodup fun id hId =>
        (hExotics id hId).2.1
  · rintro ⟨h, rfl⟩
    refine
      ⟨⟨?_, ?_, h.replaced_nodup, rfl⟩, ?_, ?_,
        h.exoticTargets_nodup⟩
    · intro a ha
      exact h.bound a (Graph.mem_nodeIds.1 ha)
    · intro id hId
      exact ⟨h.mem_nodes_of_mem_replaced hId, List.not_mem_nil⟩
    · intro x hx
      have hx := ExoticGraph.mem_exoticIds.1 hx
      exact ⟨h.keys x hx, h.anchors x hx⟩
    · intro id hId
      rcases mem_exoticTargets.1 hId with ⟨x, hx, hTarget⟩
      exact
        ⟨h.live x id (ExoticGraph.contains_iff.2 (Or.inr hx))
            hTarget,
          h.notMem_replaced hx hTarget, List.not_mem_nil⟩

end ExoticRule

end GraphRewriting
