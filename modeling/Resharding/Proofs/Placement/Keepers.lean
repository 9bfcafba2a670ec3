import Resharding.Proofs.Placement.Ring
import Resharding.Proofs.Placement.Walk

/-!
The nodes that own something.

A walk from an owned partition meets them all, and each has one first slot on it
(`Ring.firstSlots_perm_keepers`), in the zone in which the cluster finds the node
(`Ring.length_slotsIn_firstSlots`). Nodes are counted by their ids; where ids ascend, they are those
that are listed with partitions (`Cluster.length_keepers`).
-/

namespace Resharding

namespace Cluster

/-- The ids under which something is owned, in ascending order. -/
def keepers (c : Cluster) : List NodeId :=
  (SortedSet.ofList ((c.nodes.filter fun n => !n.partitions.isEmpty).map (·.id))).toList

/-- The ids under which something is owned, of nodes that the cluster finds in a zone. -/
def keepersIn (c : Cluster) (zone : ZoneId) : List NodeId :=
  c.keepers.filter fun node => c.zoneOf node == zone

variable {c : Cluster} {owners : SortedMap PartitionId NodeId} {node : NodeId} {p : PartitionId}
  {zone : ZoneId}

theorem mem_keepers : node ∈ c.keepers ↔ ∃ n ∈ c.nodes, n.id = node ∧ n.partitions ≠ [] := by
  simp only [keepers]
  rw [SortedSet.mem_toList, SortedSet.mem_ofList, List.mem_map]
  simp only [List.mem_filter, Bool.not_eq_true', List.isEmpty_eq_false_iff]
  constructor
  · rintro ⟨n, ⟨mem, some⟩, same⟩
    exact ⟨n, mem, same, some⟩
  · rintro ⟨n, mem, same, some⟩
    exact ⟨n, ⟨mem, some⟩, same⟩

theorem nodup_keepers (c : Cluster) : c.keepers.Nodup := SortedSet.nodup_toList _

theorem mem_keepersIn : node ∈ c.keepersIn zone ↔ node ∈ c.keepers ∧ c.zoneOf node = zone := by
  simp only [keepersIn, List.mem_filter, beq_iff_eq]

theorem nodup_keepersIn (c : Cluster) (zone : ZoneId) : (c.keepersIn zone).Nodup :=
  c.nodup_keepers.filter _

theorem mem_keepers_iff_owner (owns : c.ownership = .ok owners) :
    node ∈ c.keepers ↔ ∃ p, owners.get? p = some node := by
  simp only [mem_keepers, get?_ownership owns]
  constructor
  · rintro ⟨n, mem, same, some⟩
    obtain ⟨p, lists⟩ := List.exists_mem_of_ne_nil _ some
    exact ⟨p, n, mem, same, lists⟩
  · rintro ⟨p, n, mem, same, lists⟩
    exact ⟨n, mem, same, List.ne_nil_of_mem lists⟩

/-- Where ids ascend, ids are as many as listed nodes. -/
theorem length_keepers (ascending : c.nodes.Pairwise (·.id < ·.id)) :
    c.keepers.length = (c.nodes.filter fun n => !n.partitions.isEmpty).length := by
  have distinct : ((c.nodes.filter fun n => !n.partitions.isEmpty).map (·.id)).Nodup :=
    (nodup_nodeIds ascending).sublist (List.filter_sublist.map _)
  have same : c.keepers.Perm ((c.nodes.filter fun n => !n.partitions.isEmpty).map (·.id)) :=
    (List.perm_ext_iff_of_nodup c.nodup_keepers distinct).2 fun _ =>
      SortedSet.mem_toList.trans SortedSet.mem_ofList
  rw [same.length_eq, List.length_map]

/-- Where ids ascend, every listed node is found in its zone. -/
theorem zoneOf_of_mem (ascending : c.nodes.Pairwise (·.id < ·.id)) {n : Node} (mem : n ∈ c.nodes) :
    c.zoneOf n.id = n.zone := by
  simp only [zoneOf]
  rw [(node?_eq_some_iff ascending).2 ⟨mem, rfl⟩]
  rfl

theorem length_keepersIn (ascending : c.nodes.Pairwise (·.id < ·.id)) (zone : ZoneId) :
    (c.keepersIn zone).length =
      ((c.nodesIn zone).filter fun n => !n.partitions.isEmpty).length := by
  have distinct : (((c.nodesIn zone).filter fun n => !n.partitions.isEmpty).map (·.id)).Nodup :=
    (nodup_nodeIds ascending).sublist ((List.filter_sublist.trans List.filter_sublist).map _)
  have same : (c.keepersIn zone).Perm
      (((c.nodesIn zone).filter fun n => !n.partitions.isEmpty).map (·.id)) := by
    refine (List.perm_ext_iff_of_nodup (c.nodup_keepersIn zone) distinct).2 fun node => ?_
    simp only [mem_keepersIn, mem_keepers, nodesIn, List.mem_filter, List.mem_map, beq_iff_eq,
      Bool.not_eq_true', List.isEmpty_eq_false_iff]
    constructor
    · rintro ⟨⟨n, mem, rfl, some⟩, here⟩
      rw [zoneOf_of_mem ascending mem] at here
      exact ⟨n, ⟨⟨mem, here⟩, some⟩, rfl⟩
    · rintro ⟨n, ⟨⟨mem, here⟩, some⟩, rfl⟩
      exact ⟨⟨n, mem, rfl, some⟩, (zoneOf_of_mem ascending mem).trans here⟩
  rw [same.length_eq, List.length_map]

end Cluster

/-! ### Along a walk -/

namespace Ring

variable {c : Cluster} {owners : SortedMap PartitionId NodeId} {s : Slot} {p : PartitionId}

/-- The node of a slot on the ring is one that owns something. -/
theorem exists_node_of_mem_walkFrom (owns : c.ownership = .ok owners)
    (mem : s ∈ (Ring.of owners c.zoneOf).walkFrom p) :
    s.zone = c.zoneOf s.node ∧ ∃ n ∈ c.nodes, n.id = s.node ∧ n.partitions ≠ [] := by
  obtain ⟨owner, zone⟩ := Ring.mem_slots_of.1 (Ring.mem_of_mem_walkFrom mem)
  obtain ⟨n, member, same, lists⟩ := (Cluster.get?_ownership owns).1 owner
  exact ⟨zone, n, member, same, List.ne_nil_of_mem lists⟩

/-- A walk from an owned partition meets all nodes that own something. -/
theorem firstSlots_perm_keepers (owns : c.ownership = .ok owners) (listed : p ∈ c.listed) :
    ((firstSlots [] ((Ring.of owners c.zoneOf).walkFrom p)).map (·.node)).Perm c.keepers := by
  obtain ⟨owner, here⟩ := (Cluster.exists_get?_ownership owns).2 listed
  have onRing : (⟨p, owner, c.zoneOf owner⟩ : Slot) ∈ (Ring.of owners c.zoneOf).slots :=
    Ring.mem_slots_of.2 ⟨here, rfl⟩
  have passes : ∀ t, t ∈ (Ring.of owners c.zoneOf).walkFrom p ↔
      t ∈ (Ring.of owners c.zoneOf).slots := fun t =>
    Ring.mem_walkFrom_iff (Ring.ascending_slots_of owners c.zoneOf) onRing
  refine (List.perm_ext_iff_of_nodup (nodup_node_firstSlots _ _) c.nodup_keepers).2 ?_
  intro node
  rw [mem_map_node_firstSlots, Cluster.mem_keepers_iff_owner owns]
  simp only [passes, Ring.mem_slots_of]
  constructor
  · rintro ⟨s, ⟨owner, -⟩, rfl⟩
    exact ⟨s.partition, owner⟩
  · rintro ⟨q, owner⟩
    exact ⟨⟨q, node, c.zoneOf node⟩, ⟨owner, rfl⟩, rfl⟩

theorem length_slotsIn_firstSlots (owns : c.ownership = .ok owners) (listed : p ∈ c.listed)
    (zone : ZoneId) :
    (slotsIn zone (firstSlots [] ((Ring.of owners c.zoneOf).walkFrom p))).length =
      (c.keepersIn zone).length := by
  have labels : slotsIn zone (firstSlots [] ((Ring.of owners c.zoneOf).walkFrom p)) =
      (firstSlots [] ((Ring.of owners c.zoneOf).walkFrom p)).filter
        ((fun node => c.zoneOf node == zone) ∘ (·.node)) := by
    refine List.filter_congr fun s mem => ?_
    have onWalk := (firstSlots_sublist _ _).subset mem
    rw [(exists_node_of_mem_walkFrom owns onWalk).1]
    rfl
  rw [labels, ← List.length_map (·.node), ← List.filter_map]
  exact ((firstSlots_perm_keepers owns listed).filter _).length_eq

end Ring

end Resharding
