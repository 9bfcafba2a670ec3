import Resharding.Topology.Cluster

/-!
Moving partitions between nodes of a cluster.
-/

namespace Resharding.Cluster

/-- The cluster after `stealer` took partitions from `donor`. The stealer keeps what it owns in the
cluster and what the given value lists, and the donor what it owns in the cluster or, if it is no
member, what the given value lists. Both lists come out ascending. -/
def move (c : Cluster) (stealer donor : Node) (partitions : SortedSet PartitionId) : Cluster :=
  let present := ((c.node? stealer.id).map (·.partitionSet)).getD .empty
  let receiver := stealer.owning (stealer.partitionSet ∪ present ∪ partitions).toList
  if stealer.hasIdOf donor then c.replaceNodes [receiver]
  else
    let kept := ((c.node? donor.id).getD donor).partitionSet \ partitions
    c.replaceNodes [receiver, donor.owning kept.toList]

/-- The cluster after the owner of a partition gave it to `stealer`, whose value in the cluster
counts if it is a member. -/
def donate (c : Cluster) (stealer : Node) (partition : PartitionId) : Except Error Cluster :=
  match c.owner? partition with
  | none => .error (.unownedPartition partition)
  | some donor =>
    if donor.id = stealer.id then .ok c
    else
      let receiver := (c.node? stealer.id).getD stealer
      .ok <| c.replaceNodes
        [receiver.gaining [partition], donor.losing (.ofList [partition])]

end Resharding.Cluster
