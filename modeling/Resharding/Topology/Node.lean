import Resharding.Identifier
import Resharding.Ordered.Set

/-!
Storage nodes and the partitions they own.

A node's partitions are kept in a definite order and are listed once each: every edit goes through
`keepFirst`, which drops the repeats of a list and leaves the rest in order.
-/

namespace Resharding

section Repeats

variable {α : Type} [DecidableEq α]

/-- The elements of a list that are not in `seen`, each at its first place. -/
def keepUnseen : List α → List α → List α
  | _, [] => []
  | seen, a :: rest =>
    if a ∈ seen then keepUnseen seen rest else a :: keepUnseen (a :: seen) rest

/-- The list with each element at its first place only. -/
def keepFirst (as : List α) : List α := keepUnseen [] as

end Repeats

/-- A group of nodes that fail together. -/
structure Zone where
  id : ZoneId
  /-- The other zones, nearest first. -/
  proximity : List ZoneId
deriving DecidableEq, Repr

/-- The only zone of a cluster that was given none. -/
def Zone.sole : Zone := ⟨defaultZone, []⟩

/-- A storage node: its address, its zone and the partitions it owns as primary. -/
structure Node where
  id : NodeId
  host : String
  httpPort : UInt16 := 8081
  socketPort : UInt16 := 6666
  adminPort : UInt16 := 6667
  zone : ZoneId := defaultZone
  partitions : List PartitionId
deriving DecidableEq, Repr

namespace Node

/-- A node in the default zone with the default ports, owning the listed partitions. -/
def create (id : NodeId) (host : String) (partitions : List PartitionId) : Node :=
  { id, host, partitions := keepFirst partitions }

/-- The node listening on other ports. -/
def listeningOn (n : Node) (http socket admin : UInt16) : Node :=
  { n with httpPort := http, socketPort := socket, adminPort := admin }

/-- The node in another zone. -/
def inZone (n : Node) (zone : ZoneId) : Node := { n with zone }

/-- The node owning the listed partitions instead of its own. -/
def owning (n : Node) (partitions : List PartitionId) : Node :=
  { n with partitions := keepFirst partitions }

/-- The node owning the listed partitions too, new ones behind its own. -/
def gaining (n : Node) (added : List PartitionId) : Node :=
  n.owning (n.partitions ++ added)

/-- The node without the given partitions. -/
def losing (n : Node) (removed : SortedSet PartitionId) : Node :=
  n.owning (n.partitions.filter fun p => !removed.contains p)

/-- The partitions as a set. -/
def partitionSet (n : Node) : SortedSet PartitionId := .ofList n.partitions

/-- Whether the node owns a partition. -/
def owns (n : Node) (p : PartitionId) : Bool := n.partitions.contains p

/-- Whether two values describe one node, whatever its address and partitions. -/
def hasIdOf (n m : Node) : Bool := n.id == m.id

/-! ### Edits -/

/-- A change to one node. -/
inductive Edit where
  | own (partitions : List PartitionId)
  | gain (partitions : List PartitionId)
  | lose (partitions : SortedSet PartitionId)
  | zone (zone : ZoneId)
  | ports (http socket admin : UInt16)
deriving DecidableEq

/-- The node after an edit. -/
def edit (n : Node) : Edit → Node
  | .own partitions => n.owning partitions
  | .gain partitions => n.gaining partitions
  | .lose partitions => n.losing partitions
  | .zone zone => n.inZone zone
  | .ports http socket admin => n.listeningOn http socket admin

/-- The node after several edits in turn. -/
def editAll (n : Node) (edits : List Edit) : Node := edits.foldl edit n

end Node

end Resharding
