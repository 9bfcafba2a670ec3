import Resharding.Proofs.Placement.Reach
import Resharding.Proofs.Planning.Holdings
import Resharding.Proofs.Planning.Moves

/-!
How far a move is felt.

A move of a donor's own partitions leaves the ring as it is but for the owners of what is moved: the
same partitions are on it (`Cluster.Reassigns.partitionSet_eq`), and the slots of all others are the same
(`Ring.mem_slots_move`). So a walk that visits no moved partition finds what it found before, and
the copies are placed as before (`Cluster.move_felt_locally`).
-/

namespace Resharding

variable {c c' : Cluster} {owners owners' : SortedMap PartitionId NodeId} {ring : Ring}
  {stealer donor : Node} {partitions : SortedSet PartitionId} {node : NodeId} {s : Slot}

namespace Cluster

/-- Members stay in their zones. -/
theorem zoneOf_move (wf : c.WellFormed) (admits : c.Admits stealer)
    (member : c.node? donor.id = some donor) (known : c.contains node)
    (partitions : SortedSet PartitionId) :
    (c.move stealer donor partitions).zoneOf node = c.zoneOf node := by
  obtain ⟨n, found⟩ := Option.isSome_iff_exists.1 known
  simp only [zoneOf]
  by_cases isStealer : node = stealer.id
  · rw [isStealer] at found ⊢
    have itself : c.node? stealer.id = some stealer :=
      admits.resolve_right fun new => by rw [new.1] at found; cases found
    rw [admits.node?_move_stealer, itself]
    rfl
  by_cases isDonor : node = donor.id
  · rw [isDonor] at isStealer ⊢
    rw [node?_move_donor (Ne.symm isStealer) (Option.isSome_of_mem member), member]
    rfl
  · rw [node?_move_other wf isStealer isDonor]

/-- A mapping after a move: the stealer has what was moved, and all else is whose it was. -/
def Reassigns (owners owners' : SortedMap PartitionId NodeId) (partitions : SortedSet PartitionId)
    (stealer : NodeId) : Prop :=
  ∀ p, owners'.get? p = if p ∈ partitions then some stealer else owners.get? p

/-- A member can give away what it lists. -/
theorem Admits.ownership_move_of_lists (wf : c.WellFormed) (owns : c.ownership = .ok owners)
    (admits : c.Admits stealer) (member : c.node? donor.id = some donor)
    (lists : ∀ p ∈ partitions, p ∈ donor.partitions) :
    (∀ p ∈ partitions, owners.get? p = some donor.id) ∧
      ∃ owners', (c.move stealer donor partitions).ownership = .ok owners' ∧
        Reassigns owners owners' partitions stealer.id := by
  refine ⟨fun p moved => get?_of_lists owns member (lists p moved), _, ?_,
    SortedMap.get?_insertAll_const partitions.toList stealer.id owners⟩
  exact admits.ownership_move wf owns (Option.isSome_of_mem member)
    (sparesOthers_of_lists owns member lists)

/-- Where all that is moved had an owner, the same partitions have one. -/
theorem Reassigns.partitionSet_eq (reassigns : Reassigns owners owners' partitions stealer.id)
    (owns : c.ownership = .ok owners) (owns' : c'.ownership = .ok owners')
    (owned : ∀ p ∈ partitions, owners.get? p = some donor.id) :
    c'.partitionSet = c.partitionSet := by
  refine SortedSet.ext_mem fun p => ?_
  rw [mem_partitionSet_iff_owner owns', mem_partitionSet_iff_owner owns, reassigns p]
  split
  · rename_i moved
    exact iff_of_true ⟨_, rfl⟩ ⟨_, owned p moved⟩
  · rfl

end Cluster

/-- The slots of what is not moved stay on the ring. -/
theorem Ring.mem_slots_move (wf : c.WellFormed) (owns : c.ownership = .ok owners)
    (admits : c.Admits stealer) (member : c.node? donor.id = some donor)
    (reassigns : Cluster.Reassigns owners owners' partitions stealer.id)
    (mem : s ∈ (Ring.of owners c.zoneOf).slots) (spared : s.partition ∉ partitions) :
    s ∈ (Ring.of owners' (c.move stealer donor partitions).zoneOf).slots := by
  obtain ⟨owner, zone⟩ := mem_slots_of.1 mem
  refine mem_slots_of.2 ⟨?_, ?_⟩
  · rw [reassigns s.partition, if_neg spared]
    exact owner
  · rw [Cluster.zoneOf_move wf admits member (wf.contains_owner owns owner)]
    exact zone

/-- A move of what its donor owns changes only the copies of partitions whose walk visits something
of it. A store has no strategy before and after the move, for the same reason, or one before and one
after; the copies of a partition are on what the store's walk takes, and they are on the same
partitions after the move if the walk has visited no moved one by the time it stops. -/
theorem Cluster.move_felt_locally (built : c.Built) (onRing : Ring.ofCluster c = .ok ring)
    (member : c.node? donor.id = some donor) (admits : c.Admits stealer)
    (lists : ∀ p ∈ partitions, p ∈ donor.partitions) (store : StoreDefinition) :
    (∃ e, Strategy.ofStore store c = .error e ∧
      Strategy.ofStore store (c.move stealer donor partitions) = .error e) ∨
    ∃ before after, Strategy.ofStore store c = .ok before ∧
      Strategy.ofStore store (c.move stealer donor partitions) = .ok after ∧
      ∀ p ∈ c.partitionSet,
        before.replicas p = (store.walk.taken (ring.walkFrom p)).map (·.partition) ∧
        ((∀ s ∈ store.walk.visited (ring.walkFrom p), s.partition ∉ partitions) →
          after.replicas p = before.replicas p) := by
  have wf := built.wellFormed
  obtain ⟨owners, owns, rfl⟩ := Ring.exists_of_ofCluster onRing
  obtain ⟨owned, owners', owns', reassigns⟩ :=
    admits.ownership_move_of_lists wf owns member lists
  refine (Strategy.ofStore_both owns owns' (zones_move wf stealer donor partitions)
    (name_move c stealer donor partitions) store).imp_right ?_
  rintro ⟨copies, accepted, accepted'⟩
  refine ⟨_, _, accepted, accepted', fun p mem => ⟨?_, fun spared => ?_⟩⟩
  · simp only [Strategy.ofRing, StoreDefinition.choose_eq_taken]
  · have same := reassigns.partitionSet_eq owns owns' owned
    have chosen := store.choose_walkFrom_eq same owns owns' mem fun s visited =>
      Ring.mem_slots_move wf owns admits member reassigns
        (Ring.mem_of_mem_walkFrom ((Walk.visitedFrom_prefix _ _ _).subset visited))
        (spared s visited)
    exact congrArg (List.map (·.partition)) chosen

/-- Node 1 takes partition 4 from node 2. The walk from partition 0 has stopped before, at partition
2, and the copy of 0 stays there; the walk from partition 3 visits 4, and the copy of 3 is moved
on. -/
theorem Cluster.move_felt_locally_uniform :
    ∃ before after, Strategy.ofStore (.plain 2) (.uniform 3 2) = .ok before ∧
      Strategy.ofStore (.plain 2)
        ((Cluster.uniform 3 2).move (.uniform 2 1) (.uniform 2 2) (.ofList [4])) = .ok after ∧
      after.replicas 0 = before.replicas 0 ∧ before.replicas 0 = [0, 2] ∧
      before.replicas 3 = [3, 4] ∧ after.replicas 3 = [3, 5] := by
  obtain ⟨ring, onRing⟩ : ∃ ring, Ring.ofCluster (.uniform 3 2) = .ok ring := ⟨_, rfl⟩
  have member : (Cluster.uniform 3 2).node? (Node.uniform 2 2).id = some (.uniform 2 2) := by
    decide +kernel
  have admits : (Cluster.uniform 3 2).Admits (.uniform 2 1) := .inl (by decide +kernel)
  have lists : ∀ p ∈ SortedSet.ofList [(4 : PartitionId)], p ∈ (Node.uniform 2 2).partitions := by
    intro p mem
    rw [List.mem_singleton.1 (SortedSet.mem_ofList.1 mem)]
    decide +kernel
  have walked : ((StoreDefinition.plain 2).walk.visited (ring.walkFrom 0)).map (·.partition) =
      [0, 1, 2] := by
    cases onRing
    decide +kernel
  rcases move_felt_locally (.uniform 3 2) onRing member admits lists (.plain 2) with
    ⟨e, refused, -⟩ | ⟨before, after, accepted, accepted', placed⟩
  · cases refused
  · refine ⟨before, after, accepted, accepted', (placed 0 (by decide +kernel)).2 ?_, ?_⟩
    · intro s visited moved
      have here := List.mem_map_of_mem (f := (·.partition)) visited
      rw [walked, List.mem_singleton.1 (SortedSet.mem_ofList.1 moved)] at here
      exact absurd here (by decide)
    · cases accepted
      cases accepted'
      decide +kernel

end Resharding
