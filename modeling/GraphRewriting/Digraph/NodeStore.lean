import GraphRewriting.Digraph.Element

/-
  This file defines sets of nodes with distinct ids, kept as a
  finite map from ids to labels.

  Key definitions include:
    * `NodeStore`
    * `NodeStore.put`
    * `NodeStore.node?`
    * `NodeStore.nodes`
-/

namespace GraphRewriting

/- Nodes by id: a finite map from ids to labels. -/
abbrev NodeStore :=
  Std.ExtTreeMap NodeId Labels

namespace NodeStore

instance : DecidableEq NodeStore :=
  inferInstanceAs (DecidableEq (Std.ExtTreeMap NodeId Labels))

/- Store a node in place of a node with the same id. -/
def put
    (store : NodeStore)
    (node : Node) : NodeStore :=
  store.insert node.id node.labels

/- The node with an id. -/
def node?
    (store : NodeStore)
    (id : NodeId) : Option Node :=
  store[id]?.map (Node.mk id)

/- All nodes, by ascending id. -/
def nodes (store : NodeStore) : List Node :=
  store.toList.map fun (id, labels) => ⟨id, labels⟩

/- The ids of all nodes. -/
def ids (store : NodeStore) : Std.ExtTreeSet NodeId :=
  Std.ExtTreeSet.ofList store.keys

/- A node is listed if its labels are found under its id. -/
theorem mem_nodes
    {store : NodeStore}
    {node : Node} :
    node ∈ store.nodes ↔
      store[node.id]? = some node.labels := by
  unfold nodes
  simp only [List.mem_map]
  constructor
  · rintro ⟨⟨id, labels⟩, hMem, rfl⟩
    exact Std.ExtTreeMap.mem_toList_iff_getElem?_eq_some.1 hMem
  · intro h
    exact
      ⟨(node.id, node.labels),
        Std.ExtTreeMap.mem_toList_iff_getElem?_eq_some.2 h, rfl⟩

end NodeStore

end GraphRewriting
