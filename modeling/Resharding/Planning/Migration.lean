import Resharding.Identifier
import Resharding.Ordered.Set
import Resharding.Store.Definition
import Resharding.Text.Listing
import Resharding.Text.Quoted

/-!
Migrations: single steps of a plan, each moving partitions from one node to another.
-/

namespace Resharding

/-- Partitions that move from `donor` to `stealer`, for every one of the named stores. -/
structure Migration where
  stealer : NodeId
  donor : NodeId
  partitions : SortedSet PartitionId
  stores : List String
deriving DecidableEq

namespace Migration

/-- The migrations, made for exactly the given stores. -/
def retarget (plans : List Migration) (stores : List StoreDefinition) : List Migration :=
  plans.map fun m => { m with stores := stores.map (·.name) }

def text (m : Migration) : String :=
  "RebalancePartitionsInfo(stealer " ++ toString m.stealer ++ " <- donor " ++ toString m.donor ++
    ", partitions " ++ Text.braced (m.partitions.toList.map toString) ++
    ", stores " ++ Text.bracketed (m.stores.map Text.quoted) ++ ")"

end Migration

end Resharding
