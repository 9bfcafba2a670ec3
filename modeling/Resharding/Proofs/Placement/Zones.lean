import Mathlib.Data.List.Flatten
import Resharding.Proofs.Placement.Turn

/-!
Placement by zone is consistent placement in each zone.

The copies that a zoned strategy places in one zone are those that a consistent strategy places on
the nodes of that zone alone, from the first partition in turn that the zone owns
(`Cluster.MergesZones`, `Strategy.zoned_merges_zones`): what comes first of an owner is the same among
all partitions in turn and among those of the owner's zone (`filter_firstOwned`), and these come in
turn themselves (`Cluster.IsZoneOf.filter_turnFrom`).

A zone may be cut short in two ways (`Strategy.zoned_cuts_zones_short`). The zone of a partition is the
one in which the cluster finds its owner, which need not be the zone of the node that lists the
partition where an id is repeated. And the copies of all zones are counted in a word, so that of zones
that ask for more together only the first few copies are placed.
-/

namespace Resharding

variable {c sub : Cluster} {owners owners' : SortedMap PartitionId NodeId}
  {quotas : SortedMap ZoneId UInt64} {zone : ZoneId} {ps : List PartitionId}
  {keep : PartitionId → Bool} {p q : PartitionId} {s : Strategy}

/-- What a filter leaves of a turn is in turn. -/
theorem isRotated_filter {α : Type} {as bs : List α} (turn : as.IsRotated bs) (keep : α → Bool) :
    (as.filter keep).IsRotated (bs.filter keep) := by
  obtain ⟨n, within, rfl⟩ := List.isRotated_iff_mod.1 turn
  have cut : as.filter keep = (as.take n).filter keep ++ (as.drop n).filter keep := by
    rw [← List.filter_append, List.take_append_drop]
  rw [List.rotate_eq_drop_append_take within, List.filter_append, cut]
  exact List.isRotated_append

/-! ### First of an owner -/

/-- Which partitions come first of their owners depends on the owners of these partitions alone. -/
theorem firstOwned_congr {ps : List PartitionId}
    (same : ∀ q ∈ ps, owners.get? q = owners'.get? q) :
    firstOwned owners ps = firstOwned owners' ps := by
  match ps with
  | [] => rfl
  | p :: ps =>
    have sameRest : ∀ q ∈ ps, owners.get? q = owners'.get? q :=
      fun q mem => same q (List.mem_cons_of_mem _ mem)
    have alike : ∀ q ∈ ps, (owners.get? q != owners.get? p) = (owners'.get? q != owners'.get? p) :=
      fun q mem => by rw [sameRest q mem, same p List.mem_cons_self]
    rw [firstOwned_cons, firstOwned_cons, List.filter_congr alike,
      firstOwned_congr fun q mem => sameRest q (List.mem_of_mem_filter mem)]
termination_by ps.length
decreasing_by exact Nat.lt_succ_of_le (List.length_filter_le _ _)

/-- Where all partitions of an owner are kept or none is, the first of the owners that are kept stay
the first. -/
theorem filter_firstOwned {ps : List PartitionId}
    (byOwner : ∀ q q', owners.get? q = owners.get? q' → keep q = keep q') :
    (firstOwned owners ps).filter keep = firstOwned owners (ps.filter keep) := by
  match ps with
  | [] => rfl
  | p :: ps =>
    rw [firstOwned_cons]
    cases kept : keep p with
    | true =>
      rw [List.filter_cons_of_pos kept, List.filter_cons_of_pos kept, firstOwned_cons,
        List.filter_comm, filter_firstOwned byOwner]
    | false =>
      rw [List.filter_cons_of_neg (Bool.not_eq_true _ ▸ kept),
        List.filter_cons_of_neg (Bool.not_eq_true _ ▸ kept), filter_firstOwned byOwner,
        List.filter_filter]
      refine congrArg (firstOwned owners) (List.filter_congr fun q _ => ?_)
      rw [Bool.and_eq_left_iff_imp, bne_iff_ne]
      intro keptToo same
      rw [byOwner q p same, kept] at keptToo
      cases keptToo
termination_by ps.length
decreasing_by all_goals exact Nat.lt_succ_of_le (List.length_filter_le _ _)

/-! ### Zones of partitions -/

namespace Cluster

/-- The owner of a partition is found in a zone. -/
def ownedIn (c : Cluster) (owners : SortedMap PartitionId NodeId) (zone : ZoneId)
    (p : PartitionId) : Bool :=
  (owners.get? p).map c.zoneOf == some zone

/-- A cluster of the nodes that are found in a zone. -/
def IsZoneOf (sub c : Cluster) (zone : ZoneId) : Prop :=
  sub.nodes = c.nodes.filter fun n => c.zoneOf n.id == zone

theorem ownedIn_iff :
    c.ownedIn owners zone p = true ↔ ∃ node, owners.get? p = some node ∧ c.zoneOf node = zone := by
  simp only [ownedIn, beq_iff_eq, Option.map_eq_some_iff]

theorem ownedIn_congr (same : owners.get? p = owners.get? q) :
    c.ownedIn owners zone p = c.ownedIn owners zone q := by
  simp only [ownedIn, same]

theorem IsZoneOf.exists_ownership (isZone : sub.IsZoneOf c zone) (owns : c.ownership = .ok owners) :
    ∃ owners', sub.ownership = .ok owners' := by
  refine ⟨_, ownership_eq_ok_iff.2 ⟨(ownership_eq_ok_iff.1 owns).1.sublist ?_, rfl⟩⟩
  simp only [listed]
  rw [isZone]
  exact List.filter_sublist.flatMap _

/-- In a zone, its partitions are owned by whom they are owned by in the cluster. -/
theorem IsZoneOf.get?_ownership (isZone : sub.IsZoneOf c zone) (owns : c.ownership = .ok owners)
    (owns' : sub.ownership = .ok owners') {node : NodeId} :
    owners'.get? p = some node ↔ owners.get? p = some node ∧ c.zoneOf node = zone := by
  rw [Cluster.get?_ownership owns', Cluster.get?_ownership owns, isZone]
  simp only [List.mem_filter, beq_iff_eq]
  constructor
  · rintro ⟨n, ⟨mem, here⟩, rfl, lists⟩
    exact ⟨⟨n, mem, rfl, lists⟩, here⟩
  · rintro ⟨⟨n, mem, rfl, lists⟩, here⟩
    exact ⟨n, ⟨mem, here⟩, rfl, lists⟩

theorem IsZoneOf.get?_eq (isZone : sub.IsZoneOf c zone) (owns : c.ownership = .ok owners)
    (owns' : sub.ownership = .ok owners') (mem : p ∈ sub.partitionSet) :
    owners'.get? p = owners.get? p := by
  obtain ⟨node, owner⟩ := (mem_partitionSet_iff_owner owns').1 mem
  rw [owner, ((isZone.get?_ownership owns owns').1 owner).1]

theorem IsZoneOf.toList_partitionSet (isZone : sub.IsZoneOf c zone)
    (owns : c.ownership = .ok owners) :
    sub.partitionSet.toList = c.partitionSet.toList.filter (c.ownedIn owners zone) := by
  obtain ⟨owners', owns'⟩ := isZone.exists_ownership owns
  refine SortedSet.members_ext sub.partitionSet.ascending (c.partitionSet.ascending.filter _)
    fun p => ?_
  have listed : p ∈ c.partitionSet ↔ ∃ node, owners.get? p = some node :=
    mem_partitionSet_iff_owner owns
  rw [List.mem_filter, ownedIn_iff]
  refine (mem_partitionSet_iff_owner owns').trans ⟨?_, ?_⟩
  · rintro ⟨node, owner⟩
    have ⟨owner, here⟩ := (isZone.get?_ownership owns owns').1 owner
    exact ⟨listed.2 ⟨node, owner⟩, node, owner, here⟩
  · rintro ⟨-, node, owner, here⟩
    exact ⟨node, (isZone.get?_ownership owns owns').2 ⟨owner, here⟩⟩

/-- The partitions of a zone come in turn from the first of them on. -/
theorem IsZoneOf.filter_turnFrom (isZone : sub.IsZoneOf c zone) (owns : c.ownership = .ok owners)
    (first : (c.turnFrom p).find? (c.ownedIn owners zone) = some q) :
    (c.turnFrom p).filter (c.ownedIn owners zone) = sub.turnFrom q := by
  apply eq_turnFrom
  · rw [isZone.toList_partitionSet owns]
    exact isRotated_filter (c.isRotated_turnFrom p) _
  · rw [List.head?_filter]
    exact first

theorem IsZoneOf.mem_partitionSet (isZone : sub.IsZoneOf c zone) (owns : c.ownership = .ok owners)
    (first : (c.turnFrom p).find? (c.ownedIn owners zone) = some q) : q ∈ sub.partitionSet := by
  refine SortedSet.mem_toList.1 ?_
  rw [isZone.toList_partitionSet owns, List.mem_filter]
  exact ⟨mem_turnFrom.1 (List.mem_of_find?_eq_some first), List.find?_some first⟩

/-- A zone that owns something has a first partition in every turn. -/
theorem exists_find?_turnFrom (owns : c.ownership = .ok owners) (p : PartitionId)
    (owning : c.keepersIn zone ≠ []) :
    ∃ q, (c.turnFrom p).find? (c.ownedIn owners zone) = some q := by
  obtain ⟨node, keeps⟩ := List.exists_mem_of_ne_nil _ owning
  obtain ⟨keeps, here⟩ := mem_keepersIn.1 keeps
  obtain ⟨q, owner⟩ := (mem_keepers_iff_owner owns).1 keeps
  have inTurn : q ∈ c.turnFrom p :=
    mem_turnFrom.2 ((mem_partitionSet_iff_owner owns).2 ⟨node, owner⟩)
  exact Option.isSome_iff_exists.1
    (List.find?_isSome.2 ⟨q, inTurn, ownedIn_iff.2 ⟨node, owner, here⟩⟩)

end Cluster

/-! ### Zoned strategies -/

/-- Partitions in turn from one on, no two with one owner and all in zones that are to have copies. In
each of these zones they are those that a consistent strategy for the nodes there alone places from
the first partition in turn that the zone owns. -/
structure Cluster.MergesZones (c : Cluster) (owners : SortedMap PartitionId NodeId)
    (quotas : SortedMap ZoneId UInt64) (p : PartitionId) (merged : List PartitionId) : Prop where
  apart : (merged.map owners.get?).Nodup
  inTurn : merged.Sublist (c.turnFrom p)
  asked : ∀ q ∈ merged, ∃ zone k,
    c.ownedIn owners zone q ∧ quotas.get? zone = some k ∧ 0 < k
  zones : ∀ zone k, quotas.get? zone = some k → 0 < k → c.keepersIn zone ≠ [] →
    ∃ q, (c.turnFrom p).find? (c.ownedIn owners zone) = some q ∧
      (∀ sub : Cluster, sub.IsZoneOf c zone → ∃ t, Strategy.consistent sub k.toNat = .ok t ∧
        merged.filter (c.ownedIn owners zone) = t.replicas q) ∧
      (merged.filter (c.ownedIn owners zone)).length = min k.toNat (c.keepersIn zone).length

/-- Two zones of two nodes each. -/
def Cluster.paired : Cluster where
  name := "paired"
  nodes := [.create 0 "a0" [0, 4], .create 1 "a1" [1, 5], (Node.create 2 "b0" [2, 6]).inZone 1,
    (Node.create 3 "b1" [3, 7]).inZone 1]
  zones := [⟨0, [1]⟩, ⟨1, [0]⟩]

/-- One id that is listed in two zones. -/
def Cluster.doubled : Cluster where
  name := "doubled"
  nodes := [.create 0 "a" [0], (Node.create 0 "b" [1]).inZone 1]
  zones := [⟨0, []⟩, ⟨1, []⟩]

namespace Ring

/-- Along a walk, a slot is in the zone that owns its partition. -/
theorem map_partition_slotsIn {chosen : List Slot}
    (onWalk : chosen ⊆ (of owners c.zoneOf).walkFrom p) (zone : ZoneId) :
    (slotsIn zone chosen).map (·.partition) =
      (chosen.map (·.partition)).filter (c.ownedIn owners zone) := by
  rw [List.filter_map]
  refine congrArg (List.map _) (List.filter_congr fun s mem => ?_)
  have ⟨owner, label⟩ := mem_slots_of.1 (mem_of_mem_walkFrom (onWalk mem))
  simp only [Function.comp, Cluster.ownedIn, owner, label, Option.map_some, Option.some_beq_some]

end Ring

namespace Strategy

theorem getD_perZone {k : UInt64} (asks : quotas.get? zone = some k) :
    (perZone quotas).getD zone 0 = k.toNat := by
  simp only [SortedMap.getD, perZone, SortedMap.get?_map, asks, Option.map_some, Option.getD_some]

theorem exists_quota_of_getD_pos (some : 0 < (perZone quotas).getD zone 0) :
    ∃ k, quotas.get? zone = Option.some k ∧ 0 < k := by
  cases asks : quotas.get? zone with
  | some k =>
    rw [getD_perZone asks] at some
    exact ⟨k, rfl, UInt64.lt_iff_toNat_lt.2 some⟩
  | none =>
    simp only [SortedMap.getD, perZone, SortedMap.get?_map, asks, Option.map_none,
      Option.getD_none] at some
    cases some

/-- What is rationed is in zones that have a quota. -/
theorem exists_quota_of_mem_rationed
    (chosen : q ∈ (rationed (perZone quotas)
      (firstSlots [] ((Ring.of owners c.zoneOf).walkFrom p))).map (·.partition)) :
    ∃ zone k, c.ownedIn owners zone q = true ∧ quotas.get? zone = some k ∧ 0 < k := by
  obtain ⟨s, mem, rfl⟩ := List.mem_map.1 chosen
  have onWalk := ((rationed_sublist _ _).trans (firstSlots_sublist _ _)).subset mem
  have ⟨owner, label⟩ := Ring.mem_slots_of.1 (Ring.mem_of_mem_walkFrom onWalk)
  obtain ⟨k, asks, pos⟩ := exists_quota_of_getD_pos (getD_pos_of_mem_rationed mem)
  exact ⟨s.zone, k, Cluster.ownedIn_iff.2 ⟨s.node, owner, label.symm⟩, asks, pos⟩

/-- The slots that are rationed in a zone are the first ones there, as many as its quota allows. -/
theorem filter_rationed (quotas : SortedMap ZoneId Nat) (zone : ZoneId) :
    ((rationed quotas (firstSlots [] ((Ring.of owners c.zoneOf).walkFrom p))).map
        (·.partition)).filter (c.ownedIn owners zone) =
      ((slotsIn zone (firstSlots [] ((Ring.of owners c.zoneOf).walkFrom p))).take
        (quotas.getD zone 0)).map (·.partition) := by
  have onWalk := (rationed_sublist quotas
    (firstSlots [] ((Ring.of owners c.zoneOf).walkFrom p))).trans (firstSlots_sublist _ _)
  rw [← Ring.map_partition_slotsIn onWalk.subset, slotsIn_rationed]

/-- In the zone, these are the partitions that a consistent strategy for the zone chooses. -/
theorem map_partition_slotsIn_firstSlots (owns : c.ownership = .ok owners)
    (owns' : sub.ownership = .ok owners') (isZone : sub.IsZoneOf c zone) (mem : p ∈ c.partitionSet)
    (first : (c.turnFrom p).find? (c.ownedIn owners zone) = some q) :
    (slotsIn zone (firstSlots [] ((Ring.of owners c.zoneOf).walkFrom p))).map (·.partition) =
      firstOwned owners' (sub.turnFrom q) := by
  rw [Ring.map_partition_slotsIn (firstSlots_sublist _ _).subset,
    Ring.map_partition_firstSlots_walkFrom owns c.zoneOf mem,
    filter_firstOwned fun _ _ => Cluster.ownedIn_congr, isZone.filter_turnFrom owns first]
  exact firstOwned_congr fun x memX =>
    (isZone.get?_eq owns owns' (Cluster.mem_turnFrom.1 memX)).symm

/-- The zoned walk places the first few rations. -/
theorem replicas_of_zonedWalk (copies : Nat) (quotas : SortedMap ZoneId Nat) :
    (ofRing (.of owners c.zoneOf) copies (zonedWalk copies quotas [])).replicas p =
      ((rationed quotas (firstSlots [] ((Ring.of owners c.zoneOf).walkFrom p))).map
        (·.partition)).take copies := by
  simp only [ofRing]
  rw [zonedWalk_eq_take zonedByNode_walkFrom, List.map_take]

/-- All rations together are a merge of what consistent strategies place in the zones. -/
theorem mergesZones_rationed (owns : c.ownership = .ok owners) (mem : p ∈ c.partitionSet) :
    c.MergesZones owners quotas p ((rationed (perZone quotas)
      (firstSlots [] ((Ring.of owners c.zoneOf).walkFrom p))).map (·.partition)) where
  apart := Ring.nodup_owners (rationed_sublist _ _)
  inTurn := by
    rw [← Ring.map_partition_walkFrom owns c.zoneOf mem]
    exact ((rationed_sublist _ _).trans (firstSlots_sublist _ _)).map _
  asked _ chosen := exists_quota_of_mem_rationed chosen
  zones := by
    intro zone k asks pos owning
    obtain ⟨q, first⟩ := Cluster.exists_find?_turnFrom owns p owning
    refine ⟨q, first, fun part isZone => ?_, ?_⟩
    · obtain ⟨owners', owns'⟩ := isZone.exists_ownership owns
      refine ⟨_, consistent_eq owns' _, ?_⟩
      have one : max k.toNat 1 = k.toNat := Nat.max_eq_left (UInt64.lt_iff_toNat_lt.1 pos)
      rw [filter_rationed, getD_perZone asks, List.map_take,
        map_partition_slotsIn_firstSlots owns owns' isZone mem first, one,
        replicas_of_consistent owns' (isZone.mem_partitionSet owns first)]
    · rw [filter_rationed, getD_perZone asks, List.length_map, List.length_take,
        Ring.length_slotsIn_firstSlots owns (SortedSet.mem_ofList.1 mem)]

/-- The copies of a partition lie in turn from it on, in zones that are to have some, and no two have
one owner. They are the merge of what consistent strategies place in the zones, as far as a word
counts the copies of all zones: the whole merge if the number fits the word.

Where ids ascend, the nodes that are found in a zone are those that are listed there. -/
theorem zoned_merges_zones (built : zoned c quotas = .ok s) :
    ∃ owners, c.ownership = .ok owners ∧
      s.copies = total (perZone quotas).values % UInt64.size ∧
      (∀ p ∈ c.partitionSet,
        ((s.replicas p).map owners.get?).Nodup ∧
        (s.replicas p).Sublist (c.turnFrom p) ∧
        (∀ q ∈ s.replicas p, ∃ zone k,
          c.ownedIn owners zone q ∧ quotas.get? zone = some k ∧ 0 < k) ∧
        ∃ merged, c.MergesZones owners quotas p merged ∧
          s.replicas p = merged.take s.copies ∧ (FitsWord quotas → s.replicas p = merged)) ∧
      (c.nodes.Pairwise (·.id < ·.id) → ∀ zone,
        (∀ sub : Cluster, sub.IsZoneOf c zone ↔ sub.nodes = c.nodesIn zone) ∧
        (c.keepersIn zone).length =
          ((c.nodesIn zone).filter fun n => !n.partitions.isEmpty).length) := by
  obtain ⟨owners, owns, rfl⟩ := exists_of_zoned built
  refine ⟨owners, owns, ?_, fun p mem => ?_, fun ascending zone => ⟨fun sub => ?_, ?_⟩⟩
  · rw [values_perZone]
    exact toNat_wrappedTotal _
  · have merges : c.MergesZones owners quotas p _ := mergesZones_rationed owns mem
    rw [replicas_of_zonedWalk]
    have sub := List.take_sublist (wrappedTotal quotas.values).toNat ((rationed (perZone quotas)
      (firstSlots [] ((Ring.of owners c.zoneOf).walkFrom p))).map (·.partition))
    refine ⟨merges.apart.sublist (sub.map _), sub.trans merges.inTurn,
      fun q chosen => merges.asked q (sub.subset chosen), _, merges, rfl, fun fits => ?_⟩
    rw [toNat_wrappedTotal_of_fits fits]
    apply List.take_of_length_le
    rw [List.length_map]
    exact length_rationed_le _ _
  · have found : c.nodes.filter (fun n => c.zoneOf n.id == zone) = c.nodesIn zone :=
      List.filter_congr fun n mem => by rw [Cluster.zoneOf_of_mem ascending mem]
    simp only [Cluster.IsZoneOf]
    rw [found]
  · exact Cluster.length_keepersIn ascending zone

/-- Two nodes in each of two zones: of the three copies of a partition of zone 1, the two in zone 0
are where zone 0 alone would place them. -/
theorem zoned_merges_zones_paired :
    ∃ owners s t, Cluster.paired.ownership = .ok owners ∧
      zoned .paired (.ofList [(0, 2), (1, 1)]) = .ok s ∧
      consistent { Cluster.paired with nodes := Cluster.paired.nodesIn 0 } 2 = .ok t ∧
      s.replicas 2 = [2, 4, 5] ∧
      (s.replicas 2).filter (Cluster.paired.ownedIn owners 0) = t.replicas 4 := by
  obtain ⟨s, built⟩ : ∃ s, zoned .paired (.ofList [(0, 2), (1, 1)]) = .ok s := ⟨_, rfl⟩
  obtain ⟨owners, owns, -, merges, zones⟩ := zoned_merges_zones built
  obtain ⟨-, -, -, merged, inZones, -, whole⟩ := merges 2 (by decide +kernel)
  obtain ⟨q, first, alike, -⟩ := inZones.zones 0 2 rfl (by decide +kernel) (by decide +kernel)
  obtain ⟨t, alone, same⟩ := alike { Cluster.paired with nodes := Cluster.paired.nodesIn 0 }
    (((zones (by decide +kernel) 0).1 _).2 rfl)
  rw [← whole (by decide +kernel)] at same
  refine ⟨owners, s, t, owns, built, alone, ?_, ?_⟩
  · cases built
    decide +kernel
  · cases owns
    cases first
    exact same

/-- Two zones that get no copy, though a strategy for the nodes that are listed there would place some.
An id that is listed in two zones is found in one of them, and nothing is placed in the other. And
where two zones ask for `2 ^ 64 + 1` copies together, a single one is placed. -/
theorem zoned_cuts_zones_short :
    (∃ s t, zoned .doubled (.ofList [(0, 1)]) = .ok s ∧
      consistent { Cluster.doubled with nodes := Cluster.doubled.nodesIn 0 } 1 = .ok t ∧
      0 ∈ Cluster.doubled.partitionSet ∧ t.replicas 0 = [0] ∧ s.replicas 0 = []) ∧
    ∃ s t, zoned .paired (.ofList [(0, 0x8000000000000000), (1, 0x8000000000000001)]) = .ok s ∧
      consistent { Cluster.paired with nodes := Cluster.paired.nodesIn 1 } 0x8000000000000001 = .ok t ∧
      0 ∈ Cluster.paired.partitionSet ∧ t.replicas 2 = [2, 3] ∧ s.replicas 0 = [0] :=
  ⟨⟨_, _, rfl, rfl, by decide +kernel, by decide +kernel, by decide +kernel⟩,
    _, _, rfl, rfl, by decide +kernel, by decide +kernel, by decide +kernel⟩

end Strategy

end Resharding
