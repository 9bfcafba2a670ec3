import Mathlib.Data.List.Rotate
import Resharding.Proofs.Placement.Keepers
import Resharding.Proofs.Placement.Strategy

/-!
Consistent placement, told without a walk.

From a partition, the owned partitions come in turn: in ascending order from it on and, behind the
highest, on from the lowest (`Cluster.turnFrom`). A turn is known by where it begins
(`Cluster.eq_turnFrom`), and it is what a walk of the ring passes (`Ring.map_partition_walkFrom`).
The first slots of the nodes are then the partitions that come first in turn of all that their owner
has (`firstOwned`), and a consistent strategy places copies on as many of these as it is asked for
(`Strategy.consistent_takes_first_owned`).
-/

namespace Resharding

variable {c : Cluster} {owners owners' : SortedMap PartitionId NodeId} {zoneOf : NodeId → ZoneId}
  {ps : List PartitionId} {p : PartitionId} {slots : List Slot} {taken : List NodeId} {s : Slot}

/-! ### Partitions in turn -/

namespace Cluster

/-- The owned partitions in turn from one on. -/
def turnFrom (c : Cluster) (p : PartitionId) : List PartitionId :=
  c.partitionSet.toList.rotate (c.partitionSet.toList.idxOf p)

theorem mem_turnFrom {q : PartitionId} : q ∈ c.turnFrom p ↔ q ∈ c.partitionSet :=
  List.mem_rotate.trans SortedSet.mem_toList

theorem isRotated_turnFrom (c : Cluster) (p : PartitionId) :
    (c.turnFrom p).IsRotated c.partitionSet.toList :=
  List.IsRotated.symm ⟨_, rfl⟩

/-- A turn is known by where it begins. -/
theorem eq_turnFrom (turn : ps.IsRotated c.partitionSet.toList) (first : ps.head? = some p) :
    ps = c.turnFrom p := by
  obtain ⟨n, rfl⟩ := turn.symm
  have some : 0 < c.partitionSet.toList.length := by
    refine List.length_pos_iff.2 fun none => ?_
    rw [none, List.rotate_nil] at first
    cases first
  rw [← List.rotate_mod, List.head?_rotate (Nat.mod_lt _ some)] at first
  obtain ⟨within, here⟩ := List.getElem?_eq_some_iff.1 first
  simp only [turnFrom]
  rw [← here, (SortedSet.nodup_toList c.partitionSet).idxOf_getElem, List.rotate_mod]

end Cluster

/-! ### Walks -/

namespace Ring

theorem map_partition_slots_of (owns : c.ownership = .ok owners) (zoneOf : NodeId → ZoneId) :
    (of owners zoneOf).slots.map (·.partition) = c.partitionSet.toList := by
  rw [← Cluster.keys_ownership owns]
  exact List.map_map

/-- A walk is the ring, begun at the position of the partition. -/
theorem walkFrom_eq_rotate {r : Ring} {i : Nat} (position : r.index? p = some i) :
    r.walkFrom p = r.slots.rotate i := by
  obtain ⟨_, atI, -⟩ := exists_of_index? position
  obtain ⟨inside, -⟩ := List.getElem?_eq_some_iff.1 atI
  simp only [walkFrom]
  rw [position, List.rotate_eq_drop_append_take (Nat.le_of_lt inside)]

theorem isRotated_walkFrom {r : Ring} (ascending : r.slots.Pairwise (·.partition < ·.partition))
    (mem : s ∈ r.slots) : (r.walkFrom s.partition).IsRotated r.slots := by
  obtain ⟨i, position, -⟩ := exists_index? ascending mem
  rw [walkFrom_eq_rotate position]
  exact List.IsRotated.symm ⟨i, rfl⟩

/-- A walk from an owned partition passes the owned partitions in turn. -/
theorem map_partition_walkFrom (owns : c.ownership = .ok owners) (zoneOf : NodeId → ZoneId)
    (mem : p ∈ c.partitionSet) :
    ((of owners zoneOf).walkFrom p).map (·.partition) = c.turnFrom p := by
  obtain ⟨s, onRing, rfl⟩ : ∃ s ∈ (of owners zoneOf).slots, s.partition = p := by
    rw [← SortedSet.mem_toList, ← map_partition_slots_of owns zoneOf] at mem
    exact List.mem_map.1 mem
  have ascending := ascending_slots_of owners zoneOf
  apply Cluster.eq_turnFrom
  · rw [← map_partition_slots_of owns zoneOf]
    exact (isRotated_walkFrom ascending onRing).map _
  · obtain ⟨rest, walk⟩ := exists_walkFrom_eq_cons ascending onRing
    rw [walk]
    rfl

end Ring

/-! ### First of an owner -/

/-- The partitions that come first of all that their owner has. -/
def firstOwned (owners : SortedMap PartitionId NodeId) (ps : List PartitionId) : List PartitionId :=
  ps.eraseDupsBy fun q q' => owners.get? q == owners.get? q'

theorem firstOwned_cons :
    firstOwned owners (p :: ps) =
      p :: firstOwned owners (ps.filter fun q => owners.get? q != owners.get? p) := by
  simp only [firstOwned]
  rw [List.eraseDupsBy_cons]
  refine congrArg (fun rest => p :: List.eraseDupsBy _ rest) (List.filter_congr fun q _ => ?_)
  simp only [bne, Bool.decide_eq_false]

theorem map_partition_firstSlots
    (owned : ∀ s ∈ slots, owners.get? s.partition = some s.node) :
    (firstSlots taken slots).map (·.partition) =
      firstOwned owners ((slots.filter fun s => s.node ∉ taken).map (·.partition)) := by
  induction slots generalizing taken with
  | nil => rfl
  | cons s rest ih =>
    have ownedRest : ∀ t ∈ rest, owners.get? t.partition = some t.node :=
      fun t mem => owned t (List.mem_cons_of_mem _ mem)
    simp only [firstSlots]
    by_cases inTaken : s.node ∈ taken
    · rw [if_pos inTaken, List.filter_cons_of_neg (by simpa using inTaken)]
      exact ih ownedRest
    · rw [if_neg inTaken, List.filter_cons_of_pos (by simpa using inTaken), List.map_cons,
        List.map_cons, firstOwned_cons, ih ownedRest, List.filter_map, List.filter_filter]
      -- What is dropped behind the slot is what its owner has.
      refine congrArg (fun ts : List Slot =>
        s.partition :: firstOwned owners (ts.map (·.partition))) (List.filter_congr fun t mem => ?_)
      simp only [Function.comp, ownedRest t mem, owned s List.mem_cons_self, List.mem_cons, not_or,
        Bool.decide_and, bne, decide_not, beq_eq_decide, Option.some.injEq]

/-- The first slot of a node is the first partition that the node has. -/
theorem find?_of_mem_firstSlots (owned : ∀ s ∈ slots, owners.get? s.partition = some s.node)
    (mem : s ∈ firstSlots taken slots) :
    (slots.map (·.partition)).find? (fun q => owners.get? q == some s.node) =
      some s.partition := by
  induction slots generalizing taken with
  | nil => cases mem
  | cons t rest ih =>
    have ownedRest : ∀ u ∈ rest, owners.get? u.partition = some u.node :=
      fun u memU => owned u (List.mem_cons_of_mem _ memU)
    rw [List.map_cons, List.find?_cons, owned t List.mem_cons_self, Option.some_beq_some]
    simp only [firstSlots] at mem
    by_cases same : t.node = s.node
    · have here : s = t := by
        split at mem
        · exact absurd (same ▸ ‹t.node ∈ taken›) (not_mem_taken mem)
        · exact (List.mem_cons.1 mem).resolve_right fun later =>
            not_mem_taken later (same ▸ List.mem_cons_self)
      rw [here, beq_self_eq_true]
    · rw [beq_false_of_ne same]
      split at mem
      · exact ih ownedRest mem
      · exact ih ownedRest ((List.mem_cons.1 mem).resolve_left fun here => same (here ▸ rfl))

namespace Ring

theorem get?_of_mem_walkFrom (mem : s ∈ (of owners zoneOf).walkFrom p) :
    owners.get? s.partition = some s.node :=
  (mem_slots_of.1 (mem_of_mem_walkFrom mem)).1

theorem map_partition_firstSlots_walkFrom (owns : c.ownership = .ok owners)
    (zoneOf : NodeId → ZoneId) (mem : p ∈ c.partitionSet) :
    (firstSlots [] ((of owners zoneOf).walkFrom p)).map (·.partition) =
      firstOwned owners (c.turnFrom p) := by
  rw [map_partition_firstSlots fun _ => get?_of_mem_walkFrom, ← map_partition_walkFrom owns zoneOf mem]
  simp only [List.not_mem_nil, not_false_eq_true, decide_true, List.filter_true]

/-- First slots are of partitions with different owners. -/
theorem nodup_owners {chosen : List Slot}
    (sub : chosen.Sublist (firstSlots [] ((of owners zoneOf).walkFrom p))) :
    ((chosen.map (·.partition)).map owners.get?).Nodup := by
  have owner : ∀ s ∈ chosen, (owners.get? ∘ (·.partition)) s = (some ∘ (·.node)) s :=
    fun s mem => get?_of_mem_walkFrom ((sub.trans (firstSlots_sublist _ _)).subset mem)
  rw [List.map_map, List.map_congr_left owner, ← List.map_map]
  exact ((nodup_node_firstSlots _ _).sublist (sub.map _)).map (fun _ _ => Option.some.inj)

end Ring

/-! ### Consistent strategies -/

/-- A node with three of four partitions: behind the other node's, its first holds the copy. -/
def Cluster.skewed : Cluster where
  name := "skewed"
  nodes := [.create 0 "h0" [0, 1, 2], .create 1 "h1" [3]]
  zones := [.sole]

namespace Strategy

theorem replicas_of_consistent (owns : c.ownership = .ok owners) (mem : p ∈ c.partitionSet)
    (copies : Nat) :
    (ofRing (.of owners c.zoneOf) copies (consistentWalk copies [])).replicas p =
      (firstOwned owners (c.turnFrom p)).take copies := by
  simp only [ofRing, consistentWalk_eq_take]
  rw [List.map_take, Ring.map_partition_firstSlots_walkFrom owns c.zoneOf mem]

/-- Copies go to the partitions that come first in turn of all that their owner has, to as many of
them as are asked for. -/
theorem consistent_takes_first_owned (owns : c.ownership = .ok owners) (copies : Nat) :
    ∃ s, consistent c copies = .ok s ∧
      (∀ p ∈ c.partitionSet,
        s.replicas p = (firstOwned owners (c.turnFrom p)).take (max copies 1) ∧
        ((s.replicas p).map owners.get?).Nodup ∧
        (s.replicas p).length = min (max copies 1) c.keepers.length ∧
        (∀ q ∈ s.replicas p,
          (c.turnFrom p).find? (fun q' => owners.get? q' == owners.get? q) = some q) ∧
        ∀ more t, copies ≤ more → consistent c more = .ok t → s.replicas p <+: t.replicas p) ∧
      (c.nodes.Pairwise (·.id < ·.id) →
        c.keepers.length = (c.nodes.filter fun n => !n.partitions.isEmpty).length) := by
  refine ⟨_, consistent_eq owns copies, fun p mem => ?_, Cluster.length_keepers⟩
  have listed : p ∈ c.listed := SortedSet.mem_ofList.1 mem
  refine ⟨replicas_of_consistent owns mem _, ?_⟩
  simp only [ofRing, consistentWalk_eq_take]
  refine ⟨Ring.nodup_owners (List.take_sublist _ _), ?_, ?_, ?_⟩
  · rw [List.length_map, List.length_take,
      ← (Ring.firstSlots_perm_keepers owns listed).length_eq, List.length_map]
  · intro q chosen
    obtain ⟨s, first, rfl⟩ := List.mem_map.1 chosen
    have first := List.mem_of_mem_take first
    rw [← Ring.map_partition_walkFrom owns c.zoneOf mem,
      Ring.get?_of_mem_walkFrom ((firstSlots_sublist _ _).subset first)]
    exact find?_of_mem_firstSlots (fun _ => Ring.get?_of_mem_walkFrom) first
  · intro more t atLeast built
    rw [consistent_eq owns] at built
    cases built
    simp only [ofRing, consistentWalk_eq_take]
    exact (List.take_prefix_take_left (by omega)).map _

theorem consistent_takes_first_owned_skewed :
    ∃ owners s, Cluster.skewed.ownership = .ok owners ∧ consistent .skewed 2 = .ok s ∧
      s.replicas 1 = (firstOwned owners [1, 2, 3, 0]).take 2 ∧ s.replicas 1 = [1, 3] := by
  obtain ⟨owners, owns⟩ : ∃ owners, Cluster.skewed.ownership = .ok owners := ⟨_, rfl⟩
  obtain ⟨s, built, places, -⟩ := consistent_takes_first_owned owns 2
  obtain ⟨reference, -⟩ := places 1 (by decide +kernel)
  refine ⟨owners, s, owns, built, reference, ?_⟩
  cases built
  decide +kernel

end Strategy

end Resharding
