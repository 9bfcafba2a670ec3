import Resharding.Planning.Gains
import Resharding.Planning.Migration
import Resharding.Planning.Move

/-!
Relocating primaries: the migrations by which a cluster comes to own what a target owns.

What a node of the target gains is grouped by the nodes that own it now, and each group is one
migration. Migrations are made one after the other, each between the nodes as they are by then.
-/

namespace Resharding

namespace Cluster

/-- A partition credited to the node that owns it, if any. -/
def creditOwner (c : Cluster) (h : Holdings) (p : PartitionId) : Holdings :=
  match c.owner? p with
  | some owner => h.credit owner.id p
  | none => h

/-- Partitions by the nodes that own them; what nobody owns is left out. -/
def byOwner (c : Cluster) (partitions : SortedSet PartitionId) : Holdings :=
  partitions.toList.foldl c.creditOwner .empty

end Cluster

/-- The migrations that bring a node what it owns in the target. -/
def migrationsTo (current target : Cluster) (stealer : NodeId) : Except Error (List Migration) := do
  let gained ← primariesGained current target stealer
  return (current.byOwner gained).toList.map fun (donor, partitions) =>
    ⟨stealer, donor, partitions, []⟩

/-- The migrations that bring all nodes of the target what they own there. -/
def migrations (current target : Cluster) : Except Error (List Migration) := do
  let byStealer ← target.nodeIds.mapM (migrationsTo current target)
  return byStealer.flatten

namespace Cluster

/-- The cluster after a migration between two of its nodes. -/
def migrate (c : Cluster) (m : Migration) : Except Error Cluster := do
  let stealer ← c.node m.stealer
  let donor ← c.node m.donor
  return c.move stealer donor m.partitions

/-- The cluster after several migrations in turn. -/
def migrateAll (c : Cluster) (ms : List Migration) : Except Error Cluster := ms.foldlM migrate c

end Cluster

end Resharding
