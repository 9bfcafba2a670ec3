import Resharding.Planning.Holdings

/-!
What a node has to take over, and gives up, between a current and a target cluster.
-/

namespace Resharding

/-- The partitions in `target` that are not in `current`; a missing side is empty. -/
def gained (current target : Option (SortedSet PartitionId)) : SortedSet PartitionId :=
  match current, target with
  | _, none => .empty
  | none, some target => target
  | some current, some target => target \ current

/-- The partitions in `current` that are not in `target`; a missing side is empty. -/
def lost (current target : Option (SortedSet PartitionId)) : SortedSet PartitionId :=
  gained target current

/-- The partitions that a node of the target owns there and does not own now. -/
def primariesGained (current target : Cluster) (stealer : NodeId) :
    Except Error (SortedSet PartitionId) := do
  let there ← target.node stealer
  return gained ((current.node? stealer).map (·.partitionSet)) (some there.partitionSet)

/-- The partitions that a node holds as copies in the target and neither holds as copies nor owns
now. -/
def replicasGained (choose : StrategyChoice) (current target : Cluster)
    (stores : List StoreDefinition) (stealer : NodeId) : Except Error (SortedSet PartitionId) := do
  let here ← current.holdings choose stores false
  let there ← target.holdings choose stores false
  let owned := ((current.node? stealer).map (·.partitionSet)).getD .empty
  return gained (here.get? stealer) (there.get? stealer) \ owned

end Resharding
