import Resharding.Hash.Lanes
import Resharding.Topology.Cluster
import Resharding.Wire.Codec

/-!
The ring of partitions.

The ring lists every owned partition once, in ascending order, with its owner and the owner's zone.
Copies are placed by walking it from a partition upwards and, behind the highest partition, on from
the lowest.
-/

namespace Resharding

/-- A partition on the ring. -/
structure Slot where
  partition : PartitionId
  node : NodeId
  zone : ZoneId
deriving DecidableEq, Repr

/-- The owned partitions in ascending order. -/
structure Ring where
  slots : List Slot
deriving DecidableEq, Repr

namespace Ring

/-- The ring of a cluster in which no partition is listed twice. -/
def ofCluster (c : Cluster) : Except Error Ring :=
  c.ownership.map fun owners => ⟨owners.toList.map fun (partition, node) =>
    ⟨partition, node, ((c.node? node).map (·.zone)).getD defaultZone⟩⟩

/-- The position of a partition. -/
def index? (r : Ring) (p : PartitionId) : Option Nat :=
  bisect? (fun s => compare s.partition p) r.slots

/-- One full turn from a partition on; empty if it is not on the ring. -/
def walkFrom (r : Ring) (p : PartitionId) : List Slot :=
  match r.index? p with
  | some i => r.slots.drop i ++ r.slots.take i
  | none => []

/-- The owner of a partition. -/
def owner? (r : Ring) (p : PartitionId) : Option NodeId :=
  ((r.index? p).bind fun i => r.slots[i]?).map (·.node)

/-- The hash of a key: the lane hash of the key's length in eight bytes and the key. -/
def keyHash (key : List UInt8) : UInt64 :=
  Hash.hash64 0 (Wire.Codec.word64.encode (UInt64.ofNat key.length) ++ key)

/-- The partition of a key, chosen by its hash; none on the empty ring. -/
def partitionOfKey? (r : Ring) (key : List UInt8) : Option PartitionId :=
  (r.slots[(keyHash key).toNat % r.slots.length]?).map (·.partition)

end Ring

end Resharding
