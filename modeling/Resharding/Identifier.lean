/-!
Identifiers of nodes, partitions and zones.

Identifiers are words of a fixed width, because records that carry them have a fixed-width written
form.
-/

namespace Resharding

/-- A storage node. -/
abbrev NodeId := UInt64

/-- A slice of the key space. -/
abbrev PartitionId := UInt32

/-- A group of nodes that fail together. -/
abbrev ZoneId := UInt32

/-- The zone of a node that was given none. -/
def defaultZone : ZoneId := 0

end Resharding
