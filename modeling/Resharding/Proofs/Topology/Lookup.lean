import Mathlib.Data.List.Nodup
import Resharding.Proofs.Ordered.Bisection
import Resharding.Topology.Cluster

/-!
Looking nodes up in a cluster.

What is found is always listed (`Cluster.mem_of_node?`); where ids ascend, what is listed is always
found (`Cluster.node?_eq_some_iff`).
-/

namespace Resharding.Cluster

theorem risesPast_of_ascending {nodes : List Node} (ascending : nodes.Pairwise (·.id ≤ ·.id))
    (id : NodeId) : RisesPast (fun n => compare n.id id) nodes := by
  refine ascending.imp fun {m n} le => ⟨fun above => ?_, fun below => ?_⟩
  · rw [Std.compare_eq_gt] at above ⊢
    exact UInt64.lt_of_lt_of_le above le
  · rw [Std.compare_eq_lt] at below ⊢
    exact UInt64.lt_of_le_of_lt le below

/-- Where ids ascend, a cluster contains exactly the nodes that it lists. -/
theorem contains_iff {c : Cluster} (ascending : c.nodes.Pairwise (·.id ≤ ·.id)) {id : NodeId} :
    c.contains id ↔ id ∈ c.nodeIds := by
  simp only [contains, node?, nodeIds]
  rw [isSome_bisectFind? (risesPast_of_ascending ascending id), List.mem_map]
  simp only [Std.LawfulEqCmp.compare_eq_iff_eq]

/-- A node that is found is listed, under the id that was asked for. -/
theorem mem_of_node? {c : Cluster} {id : NodeId} {n : Node} (found : c.node? id = some n) :
    n ∈ c.nodes ∧ n.id = id := by
  obtain ⟨i, position, atI⟩ := Option.bind_eq_some_iff.1 found
  obtain ⟨m, atI', fits⟩ := probe_of_bisect? position
  rw [atI] at atI'
  cases atI'
  exact ⟨List.mem_of_getElem? atI, Std.LawfulEqCmp.compare_eq_iff_eq.1 fits⟩

theorem nodup_nodeIds {c : Cluster} (ascending : c.nodes.Pairwise (·.id < ·.id)) :
    c.nodeIds.Nodup :=
  List.pairwise_map.2 (ascending.imp UInt64.ne_of_lt)

/-- Where ids ascend without repeats, looking an id up finds the one node listed under it. -/
theorem node?_eq_some_iff {c : Cluster} (ascending : c.nodes.Pairwise (·.id < ·.id)) {id : NodeId}
    {n : Node} : c.node? id = some n ↔ n ∈ c.nodes ∧ n.id = id := by
  refine ⟨mem_of_node?, ?_⟩
  rintro ⟨mem, rfl⟩
  have weakly : c.nodes.Pairwise (·.id ≤ ·.id) := ascending.imp UInt64.le_of_lt
  have member : c.contains n.id := (contains_iff weakly).2 (List.mem_map_of_mem mem)
  obtain ⟨m, found⟩ := Option.isSome_iff_exists.1 member
  obtain ⟨memM, same⟩ := mem_of_node? found
  exact List.inj_on_of_nodup_map (nodup_nodeIds ascending) memM mem same ▸ found

end Resharding.Cluster
