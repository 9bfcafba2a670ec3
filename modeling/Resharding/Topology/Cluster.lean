import Resharding.Error
import Resharding.Ordered.Bisection
import Resharding.Topology.Node
import Resharding.Total

/-!
Clusters: named lists of nodes and zones.

Clusters that are built here keep their nodes in ascending order of their ids, without repeats, and
have at least one zone (`Cluster.ofNodes`), and so does everything made from them. A cluster that
was read from bytes may have any nodes in any order.
-/

namespace Resharding

/-- A named set of nodes, and the zones they are in. -/
structure Cluster where
  name : String
  nodes : List Node
  zones : List Zone
deriving DecidableEq, Repr

namespace Cluster

/-! ### Building -/

/-- The first node id that repeats an earlier one. -/
def repeatedId? : List NodeId → List Node → Option NodeId
  | _, [] => none
  | seen, n :: rest => if n.id ∈ seen then some n.id else repeatedId? (n.id :: seen) rest

/-- Nodes by their ids; the last of several nodes with one id counts. -/
def byId (nodes : List Node) : SortedMap NodeId Node := .ofList (nodes.map fun n => (n.id, n))

/-- The cluster of the nodes in a map, in order of their ids; without zones it has the sole zone. -/
def ofMap (name : String) (nodes : SortedMap NodeId Node) (zones : List Zone) : Cluster where
  name := name
  nodes := nodes.values
  zones := if zones.isEmpty then [.sole] else zones

/-- The cluster of some nodes, unless two of them have one id. -/
def ofNodes (name : String) (nodes : List Node) (zones : List Zone) : Except Error Cluster :=
  match repeatedId? [] nodes with
  | some id => .error (.config (.duplicateNode id))
  | none => .ok (ofMap name (byId nodes) zones)

/-! ### Reading -/

def nodeIds (c : Cluster) : List NodeId := c.nodes.map (·.id)

/-- How many partitions the nodes list, repeats included. -/
def partitionCount (c : Cluster) : Nat := total (c.nodes.map fun n => n.partitions.length)

/-- Every partition that some node owns. -/
def partitionSet (c : Cluster) : SortedSet PartitionId := .ofList (c.nodes.flatMap (·.partitions))

/-- The node with an id, found by halving. -/
def node? (c : Cluster) (id : NodeId) : Option Node :=
  bisectFind? (fun n => compare n.id id) c.nodes

/-- The node with an id, found from the front. -/
def scanNode? (c : Cluster) (id : NodeId) : Option Node := c.nodes.find? fun n => n.id == id

/-- The node with an id, or the error that there is none. -/
def node (c : Cluster) (id : NodeId) : Except Error Node :=
  match c.node? id with
  | some n => .ok n
  | none => .error (.unknownNode id)

def contains (c : Cluster) (id : NodeId) : Bool := (c.node? id).isSome

/-- The first node that owns a partition. -/
def owner? (c : Cluster) (p : PartitionId) : Option Node := c.nodes.find? (·.owns p)

def zone? (c : Cluster) (id : ZoneId) : Option Zone := c.zones.find? fun z => z.id == id

/-- The nodes in a zone. -/
def nodesIn (c : Cluster) (zone : ZoneId) : List Node := c.nodes.filter fun n => n.zone == zone

/-! ### Ownership -/

/-- The listed partitions with the node that lists them, in the order of the lists. -/
def claims (c : Cluster) : List (PartitionId × NodeId) :=
  c.nodes.flatMap fun n => n.partitions.map fun p => (p, n.id)

/-- Write claims into a mapping up to the first one on a partition that is taken. -/
def settle (taken : SortedMap PartitionId NodeId) :
    List (PartitionId × NodeId) → Except Error (SortedMap PartitionId NodeId)
  | [] => .ok taken
  | (p, node) :: rest =>
    match taken.get? p with
    | some first => .error (.listedTwice p first node)
    | none => settle (taken.insert p node) rest

/-- The owner of every partition, unless a partition is listed twice. -/
def ownership (c : Cluster) : Except Error (SortedMap PartitionId NodeId) :=
  settle .empty c.claims

/-! ### Changing -/

/-- The cluster with each of the given nodes in the place of its own node of that id, or added. The
last of several given nodes with one id counts. -/
def replaceNodes (c : Cluster) (updated : List Node) : Cluster :=
  ofMap c.name ((byId c.nodes).insertAll (updated.map fun n => (n.id, n))) c.zones

/-- The cluster with every node of `target` that it lacks, owning nothing yet. -/
def stage (c target : Cluster) : Cluster :=
  c.replaceNodes <|
    (target.nodes.filter fun n => !c.contains n.id).map fun n => n.owning []

/-! ### Text -/

/-- The name, and the partitions of every node, as `Cluster('name', nodes: [0:[0, 1], 2:[]])`. -/
def text (c : Cluster) : String :=
  let entry (n : Node) := toString n.id ++ ":" ++ Text.bracketed (n.partitions.map toString)
  "Cluster('" ++ c.name ++ "', nodes: " ++ Text.bracketed (c.nodes.map entry) ++ ")"

end Cluster

end Resharding
