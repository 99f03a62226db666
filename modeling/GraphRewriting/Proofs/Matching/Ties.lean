import GraphRewriting.Proofs.Matching.Adjacency
import Mathlib.Data.List.Perm.Subperm

/-
  What the profiles of a plan say: the ties of a node to named
  nodes, looked up by name, and the number of nodes that share
  a profile.

  Main declarations:
    * `Graph.getElem?_ties`
    * `Graph.count_of_mem_tally`
-/

------------------------------------------------------------
-- Ties To Named Nodes
------------------------------------------------------------

namespace GraphRewriting

namespace Graph

/-
  The entry that one node contributes to the ties of another.
-/
def namedTie?
    (g : Graph)
    (names : Std.ExtTreeMap NodeId NodeId)
    (id other : NodeId) : Option (NodeId × Tie) := do
  let name ← names[other]?
  let tie ← g.tie? id other
  return (name, tie)

private theorem namedTie?_eq_some
    {g : Graph}
    {names : Std.ExtTreeMap NodeId NodeId}
    {id other name : NodeId}
    {tie : Tie} :
    g.namedTie? names id other = some (name, tie) ↔
      names[other]? = some name ∧
        g.tie? id other = some tie := by
  unfold namedTie?
  cases names[other]? <;> cases g.tie? id other <;> simp

/-
  Going through the named nodes or through the neighbours finds
  the same entries.
-/
private theorem mem_filterMap_namedTie
    {g : Graph}
    {names : Std.ExtTreeMap NodeId NodeId}
    (hNodes : ∀ other ∈ names, other ∈ g.nodes)
    {id name : NodeId}
    {tie : Tie} :
    (name, tie) ∈
        (if names.size < g.inDegree id + g.outDegree id then
          names.keys
          else g.neighbours id).filterMap
            (g.namedTie? names id) ↔
      ∃ other,
        names[other]? = some name ∧
          g.tie? id other = some tie := by
  rw [List.mem_filterMap]
  apply exists_congr
  intro other
  rw [namedTie?_eq_some]
  apply and_iff_right_of_imp
  rintro ⟨hName, hTie⟩
  have hNamed : other ∈ names :=
    mem_iff_exists_getElem?.2 ⟨_, hName⟩
  split
  · exact Std.ExtTreeMap.mem_keys.2 hNamed
  · refine mem_neighbours.2 ⟨hNodes other hNamed, ?_⟩
    rw [hTie]
    rfl

/-
  The ties of a node, by the names of the nodes they lead to.
-/
theorem getElem?_ties
    {g : Graph}
    {names : Std.ExtTreeMap NodeId NodeId}
    (hNodes : ∀ other ∈ names, other ∈ g.nodes)
    (hInjective :
      ∀ a b name : NodeId,
        names[a]? = some name → names[b]? = some name → a = b)
    {id name : NodeId}
    {tie : Tie} :
    (g.ties names id)[name]? = some tie ↔
      ∃ other,
        names[other]? = some name ∧
          g.tie? id other = some tie := by
  rw [← mem_filterMap_namedTie hNodes]
  apply getElem?_ofList_eq_some_iff
  intro key s t hs ht
  rcases (mem_filterMap_namedTie hNodes).1 hs with
    ⟨a, hName, hs⟩
  rcases (mem_filterMap_namedTie hNodes).1 ht with
    ⟨b, hName', ht⟩
  have hab : a = b := hInjective a b key hName hName'
  subst hab
  exact Option.some.inj (hs.symm.trans ht)

end Graph

end GraphRewriting

------------------------------------------------------------
-- Tallies
------------------------------------------------------------

namespace GraphRewriting

namespace Graph

/- The groups have all ids of one symbol, in order. -/
theorem mem_values_groupBySymbol
    {g : Graph}
    {ids group : List NodeId}
    (h : group ∈ (g.groupBySymbol ids).values) :
    ∃ symbol : Option String,
      group = ids.filter fun id => g.symbol? id == symbol := by
  rcases mem_values.1 h with ⟨symbol, hSymbol⟩
  refine ⟨symbol, ?_⟩
  rw [← getD_groupBySymbol,
    Std.ExtTreeMap.getD_eq_getD_getElem?, hSymbol]
  rfl

/- The profile of a node shows its symbol. -/
private theorem symbol_profile
    (g : Graph)
    (names : Std.ExtTreeMap NodeId NodeId)
    (id : NodeId) :
    (g.profile names id).signature.symbol = g.symbol? id := rfl

/- A tally counts the nodes that have a profile. -/
theorem count_of_mem_tally
    {g : Graph}
    {names : Std.ExtTreeMap NodeId NodeId}
    {ids : List NodeId}
    {profile : Profile}
    {count : Nat}
    (h : (profile, count) ∈ g.tally names ids) :
    count =
      (ids.filter fun id =>
        g.profile names id = profile).length := by
  unfold tally at h
  rcases List.mem_flatMap.1 h with ⟨group, hGroup, hMem⟩
  rcases mem_values_groupBySymbol hGroup with ⟨symbol, rfl⟩
  rcases List.mem_map.1 hMem with ⟨found, hFound, hPair⟩
  cases hPair
  rw [List.mem_eraseDups] at hFound
  rcases List.mem_map.1 hFound with ⟨witness, hWitness, rfl⟩
  have hSymbol : g.symbol? witness = symbol := by
    simpa using (List.mem_filter.1 hWitness).2
  rw [List.count_eq_countP, List.countP_map,
    List.countP_eq_length_filter, List.filter_filter]
  congr 1
  apply List.filter_congr
  intro id _
  -- Nodes of one profile have one symbol, so they are in one
  -- group.
  have hSame :
      g.profile names id = g.profile names witness →
        g.symbol? id = symbol := by
    intro hEq
    rw [← hSymbol, ← symbol_profile g names id, hEq]
    rfl
  by_cases hEq : g.profile names id = g.profile names witness
  · simp [hEq, hSame hEq]
  · simp [hEq]

end Graph

end GraphRewriting
