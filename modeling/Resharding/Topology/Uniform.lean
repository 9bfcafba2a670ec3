import Resharding.Topology.Cluster

/-!
Clusters of one machine for trials: every node owns a run of equally many partitions.
-/

namespace Resharding

/-- The partitions from one on up to another one, which is not among them. -/
def partitionsUpTo (first last : PartitionId) : List PartitionId :=
  (List.range (last.toNat - first.toNat)).map fun j => .ofNat (first.toNat + j)

/-- Node `i` of a uniform cluster owns the `i`-th run of `perNode` partitions, and listens on the
default ports moved up by three for each node before it. The ends of the run are words, so that a run
owns nothing which goes past the largest partition. -/
def Node.uniform (perNode i : Nat) : Node :=
  let offset := UInt16.ofNat (3 * i)
  let first : PartitionId := .ofNat (perNode * i)
  let run := partitionsUpTo first (first + .ofNat perNode)
  (Node.create (UInt64.ofNat i) "localhost" run).listeningOn (8081 + offset) (6666 + offset)
    (6667 + offset)

/-- A cluster of `count` nodes that own `perNode` partitions each. -/
def Cluster.uniform (count perNode : Nat) : Cluster :=
  ofMap "test-cluster" (byId ((List.range count).map (Node.uniform perNode))) []

end Resharding
