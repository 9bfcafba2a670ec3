import Resharding.Placement.Walk
import Resharding.Store.Definition

/-!
Strategies that say which partitions hold copies of a partition, and which nodes hold a key.

A strategy is a record of answers, so that others than the two built here can take part in planning.
-/

namespace Resharding

/-- Where copies are placed. -/
structure Strategy where
  /-- Copies kept of every partition, the primary included. -/
  copies : Nat
  /-- Partitions on the ring. -/
  partitionCount : Nat
  /-- The partitions whose owners hold a partition's data, its own first. -/
  replicas : PartitionId → List PartitionId
  /-- The partition of a key. -/
  partitionOfKey? : List UInt8 → Option PartitionId
  /-- The primary owner of a partition. -/
  owner? : PartitionId → Option NodeId

/-- How a store is given its strategy on a cluster. -/
abbrev StrategyChoice := StoreDefinition → Cluster → Except Error Strategy

namespace Strategy

/-- The nodes that hold a key, in the order of the copies. -/
def nodesOfKey (s : Strategy) (key : List UInt8) : List NodeId :=
  match s.partitionOfKey? key with
  | some primary => (s.replicas primary).filterMap s.owner?
  | none => []

/-- The strategy that takes slots from a walk of the ring by `choose`. -/
def ofRing (ring : Ring) (copies : Nat) (choose : List Slot → List Slot) : Strategy where
  copies := copies
  partitionCount := ring.slots.length
  replicas p := (choose (ring.walkFrom p)).map (·.partition)
  partitionOfKey? := ring.partitionOfKey?
  owner? := ring.owner?

/-- Copies on the next distinct nodes; at least one copy. -/
def consistent (c : Cluster) (copies : Nat) : Except Error Strategy :=
  (Ring.ofCluster c).map fun ring =>
    ofRing ring (max copies 1) (consistentWalk (max copies 1) [])

/-- The first zone that is given copies and is not in the cluster. -/
def missingZone? (c : Cluster) (quotas : SortedMap ZoneId UInt64) : Option ZoneId :=
  quotas.keys.find? fun zone => (c.zone? zone).isNone

/-- Copies by zone; every zone that is given copies has to be in the cluster. The walk stops when it has
as many copies as a word counts for all zones. -/
def zoned (c : Cluster) (quotas : SortedMap ZoneId UInt64) : Except Error Strategy :=
  match missingZone? c quotas with
  | some zone => .error (.routing (.zoneNotInCluster zone c.name))
  | none =>
    let copies := (wrappedTotal quotas.values).toNat
    let quotas := quotas.map fun _ count => count.toNat
    (Ring.ofCluster c).map fun ring => ofRing ring copies (zonedWalk copies quotas [])

/-- The strategy that a store asks for. -/
def ofStore : StrategyChoice := fun store c =>
  match store.spread with
  | .consistent => consistent c store.replicationFactor
  | .zoned => zoned c store.zoneCopies

end Strategy

end Resharding
