import Resharding.Proofs.Topology.Built
import Resharding.Proofs.Topology.Ownership

/-!
What a node owns.

Asking a cluster for a node and reading off its partitions says the same as the mapping of
partitions to nodes, wherever the cluster is well-formed
(`Cluster.WellFormed.mem_owned_iff_owner`). The mapping is known when it is known what every node
owns (`Cluster.WellFormed.ownership_eq`), and it exists if no two nodes own one partition
(`Cluster.WellFormed.exists_ownership`).
-/

namespace Resharding.Cluster

/-- What a node owns; nothing, if the cluster does not contain it. -/
def owned (c : Cluster) (node : NodeId) : SortedSet PartitionId :=
  ((c.node? node).map (·.partitionSet)).getD .empty

variable {c target : Cluster} {owners : SortedMap PartitionId NodeId} {node : NodeId} {n : Node}
  {p : PartitionId}

theorem mem_owned_iff : p ∈ c.owned node ↔ ∃ n, c.node? node = some n ∧ p ∈ n.partitions := by
  simp only [owned]
  cases c.node? node with
  | none => exact iff_of_false (SortedSet.not_mem_empty p) nofun
  | some n =>
    refine SortedSet.mem_ofList.trans ⟨fun lists => ⟨n, rfl, lists⟩, ?_⟩
    rintro ⟨_, ⟨⟩, lists⟩
    exact lists

/-- A node that is said to own a partition lists it. -/
theorem get?_of_mem_owned (owns : c.ownership = .ok owners) (mem : p ∈ c.owned node) :
    owners.get? p = some node := by
  obtain ⟨n, found, lists⟩ := mem_owned_iff.1 mem
  obtain ⟨listed, same⟩ := mem_of_node? found
  exact (get?_ownership owns).2 ⟨n, listed, same, lists⟩

theorem get?_of_lists (owns : c.ownership = .ok owners) (found : c.node? node = some n)
    (lists : p ∈ n.partitions) : owners.get? p = some node :=
  get?_of_mem_owned owns (mem_owned_iff.2 ⟨n, found, lists⟩)

theorem WellFormed.mem_owned (wf : c.WellFormed) (mem : n ∈ c.nodes) (lists : p ∈ n.partitions) :
    p ∈ c.owned n.id :=
  mem_owned_iff.2 ⟨n, (node?_eq_some_iff wf.ascending).2 ⟨mem, rfl⟩, lists⟩

theorem WellFormed.mem_owned_iff_owner (wf : c.WellFormed) (owns : c.ownership = .ok owners) :
    p ∈ c.owned node ↔ owners.get? p = some node := by
  refine ⟨get?_of_mem_owned owns, fun owner => ?_⟩
  obtain ⟨n, mem, rfl, lists⟩ := (get?_ownership owns).1 owner
  exact wf.mem_owned mem lists

theorem WellFormed.exists_node?_of_owner (wf : c.WellFormed) (owns : c.ownership = .ok owners)
    (owner : owners.get? p = some node) : ∃ n, c.node? node = some n ∧ p ∈ n.partitions :=
  Cluster.mem_owned_iff.1 ((wf.mem_owned_iff_owner owns).2 owner)

/-- The mapping exists if no two nodes own one partition. -/
theorem WellFormed.exists_ownership (wf : c.WellFormed)
    (single : ∀ p a b, p ∈ c.owned a → p ∈ c.owned b → a = b) :
    ∃ owners, c.ownership = .ok owners := by
  have nodup : c.listed.Nodup := by
    refine List.nodup_flatMap.2 ⟨wf.distinct, wf.ascending.imp_of_mem ?_⟩
    intro m n memM memN less p inM inN
    rw [single p m.id n.id (wf.mem_owned memM inM) (wf.mem_owned memN inN)] at less
    exact UInt64.lt_irrefl _ less
  exact ⟨_, ownership_eq_ok_iff.2 ⟨nodup, rfl⟩⟩

/-- A mapping that says of every node what it owns is the cluster's mapping. -/
theorem WellFormed.ownership_eq (wf : c.WellFormed)
    (tells : ∀ p node, p ∈ c.owned node ↔ owners.get? p = some node) :
    c.ownership = .ok owners := by
  obtain ⟨owners', owns⟩ := wf.exists_ownership fun p a b inA inB =>
    Option.some.inj (((tells p a).1 inA).symm.trans ((tells p b).1 inB))
  have same : owners' = owners := SortedMap.ext_get? fun p => Option.ext fun node =>
    (wf.mem_owned_iff_owner owns).symm.trans (tells p node)
  rw [owns, same]

theorem WellFormed.contains_owner (wf : c.WellFormed) (owns : c.ownership = .ok owners)
    (owner : owners.get? p = some node) : c.contains node := by
  obtain ⟨n, found, -⟩ := wf.exists_node?_of_owner owns owner
  exact Option.isSome_iff_exists.2 ⟨n, found⟩

/-! ### Staging -/

theorem owned_stage (wf : c.WellFormed) (wfTarget : target.WellFormed) (node : NodeId) :
    (c.stage target).owned node = c.owned node := by
  simp only [owned]
  rw [node?_stage wf wfTarget]
  cases c.node? node with
  | some n => rfl
  | none =>
    cases target.node? node with
    | some n => rfl
    | none => rfl

/-- What nodes without partitions do not add to can be made of the other nodes alone. -/
theorem flatMap_filter_owning {α : Type} {f : Node → List α}
    (nothing : ∀ n : Node, n.partitions = [] → f n = []) (nodes : List Node) :
    (nodes.filter fun n => !n.partitions.isEmpty).flatMap f = nodes.flatMap f := by
  induction nodes with
  | nil => rfl
  | cons n rest ih =>
    rw [List.flatMap_cons, List.filter_cons]
    split
    · rw [List.flatMap_cons, ih]
    · rename_i none
      rw [Bool.not_eq_true, Bool.not_eq_false', List.isEmpty_iff] at none
      rw [nothing n none, List.nil_append, ih]

/-- Staging leaves the nodes that own something as they are, in their order. -/
theorem owning_stage (wf : c.WellFormed) (wfTarget : target.WellFormed) :
    ((c.stage target).nodes.filter fun n => !n.partitions.isEmpty) =
      c.nodes.filter fun n => !n.partitions.isEmpty := by
  refine nodes_ext (wf.stage.ascending.filter _) (wf.ascending.filter _) fun n => ?_
  have listed : n ∈ (c.stage target).nodes ↔ (c.stage target).node? n.id = some n := by
    rw [node?_eq_some_iff wf.stage.ascending, and_iff_left rfl]
  have listedBefore : n ∈ c.nodes ↔ c.node? n.id = some n := by
    rw [node?_eq_some_iff wf.ascending, and_iff_left rfl]
  rw [List.mem_filter, List.mem_filter, listed, listedBefore, node?_stage wf wfTarget]
  refine and_congr_left fun owning => ?_
  cases c.node? n.id with
  | some m => rw [Option.some_or]
  | none =>
    refine iff_of_false (fun new => ?_) nofun
    obtain ⟨m, -, rfl⟩ := Option.map_eq_some_iff.1 new
    cases owning

theorem claims_stage (wf : c.WellFormed) (wfTarget : target.WellFormed) :
    (c.stage target).claims = c.claims := by
  have nothing : ∀ n : Node, n.partitions = [] → (n.partitions.map fun p => (p, n.id)) = [] :=
    fun n none => by rw [none, List.map_nil]
  simp only [claims]
  rw [← flatMap_filter_owning nothing, owning_stage wf wfTarget, flatMap_filter_owning nothing]

/-- Whether a partition is listed twice, and where, staging does not change. -/
theorem ownership_stage (wf : c.WellFormed) (wfTarget : target.WellFormed) :
    (c.stage target).ownership = c.ownership := by
  simp only [ownership, claims_stage wf wfTarget]

theorem listed_stage (wf : c.WellFormed) (wfTarget : target.WellFormed) :
    (c.stage target).listed = c.listed := by
  rw [← map_fst_claims, claims_stage wf wfTarget, map_fst_claims]

end Resharding.Cluster
