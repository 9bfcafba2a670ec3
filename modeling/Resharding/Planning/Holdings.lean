import Resharding.Placement.Strategy

/-!
Which partitions every node holds, copies included.

Only the store with the most copies is looked at: the copies of any other store are among its own.
-/

namespace Resharding

/-- The partitions that each node holds. -/
abbrev Holdings := SortedMap NodeId (SortedSet PartitionId)

namespace Holdings

/-- Every node of the cluster holding nothing. -/
def start (c : Cluster) : Holdings := .ofList (c.nodeIds.map fun id => (id, .empty))

/-- One more partition held by a node. -/
def credit (h : Holdings) (node : NodeId) (p : PartitionId) : Holdings :=
  h.adjust node .empty (·.insert p)

/-- Partition `p` credited to the owner of each of its copies. -/
def creditCopies (owners : SortedMap PartitionId NodeId) (p : PartitionId)
    (h : Holdings) (copies : List PartitionId) : Except Error Holdings :=
  copies.foldlM (fun h copy =>
    match owners.get? copy with
    | some holder => .ok (h.credit holder p)
    | none => .error (.unownedPartition copy)) h

/-- Every listed partition credited to the owners of its copies, with or without the copy that is
the partition itself. -/
def ofStrategy (c : Cluster) (owners : SortedMap PartitionId NodeId) (strategy : Strategy)
    (includePrimary : Bool) : Except Error Holdings :=
  (c.nodes.flatMap (·.partitions)).foldlM (fun h p =>
    creditCopies owners p h <|
      (strategy.replicas p).filter fun copy => includePrimary || copy != p) (start c)

end Holdings

/-- The partitions that every node of a cluster holds for some stores. -/
def Cluster.holdings (choose : StrategyChoice) (c : Cluster) (stores : List StoreDefinition)
    (includePrimary : Bool) : Except Error Holdings := do
  let owners ← c.ownership
  match StoreDefinition.mostReplicated? stores with
  | none => throw .noStores
  | some store =>
    let strategy ← choose store c
    Holdings.ofStrategy c owners strategy includePrimary

end Resharding
