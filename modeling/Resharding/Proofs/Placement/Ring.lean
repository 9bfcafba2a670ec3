import Resharding.Placement.Ring
import Resharding.Proofs.Topology.Ownership

/-!
The ring as a list in turn.

A ring shows who owns what and in which zones the owners are (`Ring.of`). A walk from an owned
partition is one full turn: all partitions from that one on in ascending order, and then those below
it (`Ring.walkFrom_eq`). Zones are mere labels on it (`Ring.walkFrom_rezone`).
-/

namespace Resharding

/-- The zone of a node, as far as the cluster knows the node. -/
def Cluster.zoneOf (c : Cluster) (node : NodeId) : ZoneId :=
  ((c.node? node).map (·.zone)).getD defaultZone

/-- The slot with another zone, that of its node. -/
def Slot.rezone (zoneOf : NodeId → ZoneId) (s : Slot) : Slot := { s with zone := zoneOf s.node }

namespace Ring

/-- The ring of a mapping of partitions to nodes that are in zones. -/
def of (owners : SortedMap PartitionId NodeId) (zoneOf : NodeId → ZoneId) : Ring :=
  ⟨owners.toList.map fun e => ⟨e.1, e.2, zoneOf e.2⟩⟩

variable {c : Cluster} {owners : SortedMap PartitionId NodeId} {zoneOf zoneOf' : NodeId → ZoneId}
  {r : Ring} {s : Slot} {p : PartitionId} {i : Nat} {key : List UInt8}

theorem ofCluster_eq (owns : c.ownership = .ok owners) :
    Ring.ofCluster c = .ok (.of owners c.zoneOf) := by
  simp only [ofCluster]
  rw [owns]
  rfl

theorem exists_of_ofCluster (built : Ring.ofCluster c = .ok r) :
    ∃ owners, c.ownership = .ok owners ∧ r = .of owners c.zoneOf := by
  cases owns : c.ownership with
  | error e =>
    simp only [ofCluster] at built
    rw [owns] at built
    cases built
  | ok owners =>
    rw [ofCluster_eq owns] at built
    exact ⟨owners, rfl, (Except.ok.inj built).symm⟩

/-! ### Slots -/

theorem mem_slots_of :
    s ∈ (of owners zoneOf).slots ↔
      owners.get? s.partition = some s.node ∧ s.zone = zoneOf s.node := by
  simp only [of, List.mem_map, SortedMap.get?_eq_some_iff]
  constructor
  · rintro ⟨e, mem, rfl⟩
    exact ⟨mem, rfl⟩
  · rintro ⟨mem, zone⟩
    exact ⟨(s.partition, s.node), mem, by rw [← zone]⟩

theorem ascending_slots_of (owners : SortedMap PartitionId NodeId) (zoneOf : NodeId → ZoneId) :
    (of owners zoneOf).slots.Pairwise (·.partition < ·.partition) :=
  List.pairwise_map.2 (owners.ascending.imp Std.compare_eq_lt.1)

/-- In an ascending ring the slot of a partition is the only one. -/
theorem eq_of_partition_eq {t : Slot} (ascending : r.slots.Pairwise (·.partition < ·.partition))
    (mem : s ∈ r.slots) (mem' : t ∈ r.slots) (same : s.partition = t.partition) : s = t := by
  have single : (r.slots.map (·.partition)).Nodup :=
    List.pairwise_map.2 (ascending.imp UInt32.ne_of_lt)
  exact List.inj_on_of_nodup_map single mem mem' same

theorem exists_slot_of_iff :
    (∃ s ∈ (of owners zoneOf).slots, s.partition = p) ↔ ∃ node, owners.get? p = some node := by
  constructor
  · rintro ⟨s, mem, rfl⟩
    exact ⟨s.node, (mem_slots_of.1 mem).1⟩
  · rintro ⟨node, owner⟩
    exact ⟨⟨p, node, zoneOf node⟩, mem_slots_of.2 ⟨owner, rfl⟩, rfl⟩

theorem slots_of_eq_nil_iff (owns : c.ownership = .ok owners) :
    (of owners zoneOf).slots = [] ↔ c.listed = [] := by
  simp only [List.eq_nil_iff_forall_not_mem]
  constructor
  · intro none p listed
    obtain ⟨node, owner⟩ := (Cluster.exists_get?_ownership owns).2 listed
    exact none ⟨p, node, zoneOf node⟩ (mem_slots_of.2 ⟨owner, rfl⟩)
  · intro none s mem
    exact none s.partition ((Cluster.exists_get?_ownership owns).1 ⟨s.node, (mem_slots_of.1 mem).1⟩)

theorem slots_of_rezone (owners : SortedMap PartitionId NodeId) (zoneOf zoneOf' : NodeId → ZoneId) :
    (of owners zoneOf').slots = (of owners zoneOf).slots.map (Slot.rezone zoneOf') := by
  simp only [of, List.map_map]
  rfl

/-! ### Positions -/

theorem exists_of_index? (found : r.index? p = some i) :
    ∃ s, r.slots[i]? = some s ∧ s.partition = p := by
  obtain ⟨s, here, fits⟩ := probe_of_bisect? found
  exact ⟨s, here, Std.LawfulEqCmp.compare_eq_iff_eq.1 fits⟩

theorem index?_eq_none (absent : ∀ s ∈ r.slots, s.partition ≠ p) : r.index? p = none := by
  refine Option.eq_none_iff_forall_ne_some.2 fun i found => ?_
  obtain ⟨s, here, same⟩ := exists_of_index? found
  exact absent s (List.mem_of_getElem? here) same

theorem exists_index? (ascending : r.slots.Pairwise (·.partition < ·.partition))
    (mem : s ∈ r.slots) : ∃ i, r.index? s.partition = some i ∧ r.slots[i]? = some s := by
  have rises : RisesPast (fun t => compare t.partition s.partition) r.slots := by
    refine ascending.imp fun {t u} less => ⟨fun above => ?_, fun below => ?_⟩
    · rw [Std.compare_eq_gt] at above ⊢
      exact UInt32.lt_trans above less
    · rw [Std.compare_eq_lt] at below ⊢
      exact UInt32.lt_trans less below
  obtain ⟨t, found⟩ := Option.isSome_iff_exists.1
    ((isSome_bisectFind? rises).2 ⟨s, mem, Std.LawfulEqCmp.compare_eq_iff_eq.2 rfl⟩)
  obtain ⟨i, position, atI⟩ := Option.bind_eq_some_iff.1 found
  obtain ⟨u, atI', same⟩ := exists_of_index? position
  rw [atI] at atI'
  cases atI'
  refine ⟨i, position, ?_⟩
  rw [atI, eq_of_partition_eq ascending (List.mem_of_getElem? atI) mem same]

theorem owner?_of (owners : SortedMap PartitionId NodeId) (zoneOf : NodeId → ZoneId)
    (p : PartitionId) : (of owners zoneOf).owner? p = owners.get? p := by
  simp only [owner?]
  cases here : owners.get? p with
  | some node =>
    have mem : (⟨p, node, zoneOf node⟩ : Slot) ∈ (of owners zoneOf).slots :=
      mem_slots_of.2 ⟨here, rfl⟩
    obtain ⟨i, position, atI⟩ := exists_index? (ascending_slots_of owners zoneOf) mem
    rw [position, Option.bind_some, atI]
    rfl
  | none =>
    rw [index?_eq_none, Option.bind_none, Option.map_none]
    rintro s mem rfl
    rw [(mem_slots_of.1 mem).1] at here
    cases here

/-! ### Walks -/

/-- At a slot, an ascending list falls apart into what is below it and what is not. -/
theorem rotate_eq {slots : List Slot} (ascending : slots.Pairwise (·.partition < ·.partition))
    (atI : slots[i]? = some s) :
    slots.drop i ++ slots.take i =
      slots.filter (fun t => s.partition ≤ t.partition) ++
        slots.filter fun t => t.partition < s.partition := by
  obtain ⟨less, rfl⟩ := List.getElem?_eq_some_iff.1 atI
  have cut := List.drop_eq_getElem_cons less
  have split : slots.take i ++ slots.drop i = slots := List.take_append_drop i slots
  have ⟨_, behind, across⟩ := List.pairwise_append.1 (split.symm ▸ ascending)
  have before : ∀ t ∈ slots.take i, t.partition < slots[i].partition :=
    fun t mem => across t mem slots[i] (cut ▸ List.mem_cons_self)
  have after : ∀ t ∈ slots.drop i, slots[i].partition ≤ t.partition := by
    rw [cut] at behind ⊢
    intro t mem
    rcases List.mem_cons.1 mem with rfl | mem
    · exact UInt32.le_refl _
    · exact UInt32.le_of_lt ((List.pairwise_cons.1 behind).1 t mem)
  generalize slots[i].partition = q at before after
  have low : slots.filter (fun t => t.partition < q) = slots.take i := by
    rw [← split, List.filter_append, List.filter_eq_self.2, List.filter_eq_nil_iff.2]
    · rw [List.append_nil, split]
    · intro t mem below
      exact UInt32.not_lt.2 (after t mem) (of_decide_eq_true below)
    · exact fun t mem => decide_eq_true (before t mem)
  have high : slots.filter (fun t => q ≤ t.partition) = slots.drop i := by
    rw [← split, List.filter_append, List.filter_eq_nil_iff.2, List.filter_eq_self.2]
    · rw [List.nil_append, split]
    · exact fun t mem => decide_eq_true (after t mem)
    · intro t mem above
      exact UInt32.not_le.2 (before t mem) (of_decide_eq_true above)
  rw [low, high]

/-- A walk from an owned partition is one full turn. -/
theorem walkFrom_eq (ascending : r.slots.Pairwise (·.partition < ·.partition)) (mem : s ∈ r.slots) :
    r.walkFrom s.partition =
      r.slots.filter (fun t => s.partition ≤ t.partition) ++
        r.slots.filter fun t => t.partition < s.partition := by
  obtain ⟨i, position, atI⟩ := exists_index? ascending mem
  simp only [walkFrom]
  rw [position]
  exact rotate_eq ascending atI

theorem walkFrom_eq_nil (absent : ∀ s ∈ r.slots, s.partition ≠ p) : r.walkFrom p = [] := by
  simp only [walkFrom]
  rw [index?_eq_none absent]

theorem mem_of_mem_walkFrom (mem : s ∈ r.walkFrom p) : s ∈ r.slots := by
  simp only [walkFrom] at mem
  split at mem
  · rcases List.mem_append.1 mem with mem | mem
    · exact List.mem_of_mem_drop mem
    · exact List.mem_of_mem_take mem
  · cases mem

/-- A walk begins where it is asked to. -/
theorem exists_walkFrom_eq_cons (ascending : r.slots.Pairwise (·.partition < ·.partition))
    (mem : s ∈ r.slots) : ∃ rest, r.walkFrom s.partition = s :: rest := by
  obtain ⟨i, position, atI⟩ := exists_index? ascending mem
  obtain ⟨less, rfl⟩ := List.getElem?_eq_some_iff.1 atI
  simp only [walkFrom]
  rw [position]
  exact ⟨r.slots.drop (i + 1) ++ r.slots.take i,
    congrArg (· ++ r.slots.take i) (List.drop_eq_getElem_cons less)⟩

/-- Only a walk from a partition that is not on the ring is empty. -/
theorem walkFrom_eq_nil_iff (ascending : r.slots.Pairwise (·.partition < ·.partition)) :
    r.walkFrom p = [] ↔ ∀ s ∈ r.slots, s.partition ≠ p := by
  refine ⟨?_, walkFrom_eq_nil⟩
  rintro none s mem rfl
  obtain ⟨rest, walk⟩ := exists_walkFrom_eq_cons ascending mem
  cases none.symm.trans walk

/-- A walk from an owned partition passes all slots. -/
theorem mem_walkFrom_iff (ascending : r.slots.Pairwise (·.partition < ·.partition))
    (mem : s ∈ r.slots) {t : Slot} : t ∈ r.walkFrom s.partition ↔ t ∈ r.slots := by
  refine ⟨mem_of_mem_walkFrom, fun memT => ?_⟩
  rw [walkFrom_eq ascending mem, List.mem_append, List.mem_filter, List.mem_filter]
  by_cases above : s.partition ≤ t.partition
  · exact .inl ⟨memT, decide_eq_true above⟩
  · exact .inr ⟨memT, decide_eq_true (UInt32.not_le.1 above)⟩

/-- Other zones change the labels along a walk and nothing else. -/
theorem walkFrom_rezone (owners : SortedMap PartitionId NodeId) (zoneOf zoneOf' : NodeId → ZoneId)
    (p : PartitionId) :
    (of owners zoneOf').walkFrom p =
      ((of owners zoneOf).walkFrom p).map (Slot.rezone zoneOf') := by
  by_cases owned : ∃ s ∈ (of owners zoneOf).slots, s.partition = p
  · obtain ⟨s, mem, rfl⟩ := owned
    have mem' : s.rezone zoneOf' ∈ (of owners zoneOf').slots := by
      rw [slots_of_rezone owners zoneOf]
      exact List.mem_map_of_mem mem
    rw [walkFrom_eq (ascending_slots_of owners zoneOf) mem, List.map_append]
    refine (walkFrom_eq (ascending_slots_of owners zoneOf') mem').trans ?_
    rw [slots_of_rezone owners zoneOf, List.filter_map, List.filter_map]
    rfl
  · have absent : ∀ s ∈ (of owners zoneOf).slots, s.partition ≠ p :=
      fun s mem same => owned ⟨s, mem, same⟩
    have absent' : ∀ s ∈ (of owners zoneOf').slots, s.partition ≠ p := by
      rw [slots_of_rezone owners zoneOf]
      intro s mem
      obtain ⟨t, memT, rfl⟩ := List.mem_map.1 mem
      exact absent t memT
    rw [walkFrom_eq_nil absent, walkFrom_eq_nil absent', List.map_nil]

/-! ### Keys -/

theorem partitionOfKey?_eq_none_iff : r.partitionOfKey? key = none ↔ r.slots = [] := by
  simp only [partitionOfKey?, Option.map_eq_none_iff, List.getElem?_eq_none_iff]
  constructor
  · intro none
    by_contra some
    have pos : 0 < r.slots.length := List.length_pos_iff.2 some
    exact absurd (Nat.mod_lt _ pos) (Nat.not_lt.2 none)
  · intro none
    rw [none]
    exact Nat.zero_le _

theorem exists_slot_of_partitionOfKey? (found : r.partitionOfKey? key = some p) :
    ∃ s ∈ r.slots, s.partition = p := by
  obtain ⟨s, here, same⟩ := Option.map_eq_some_iff.1 found
  exact ⟨s, List.mem_of_getElem? here, same⟩

end Ring

end Resharding
