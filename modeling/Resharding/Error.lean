import Resharding.ServerState
import Resharding.Version.Clock
import Resharding.Wire.Fault

/-!
What can go wrong: in a single call to a server, and in an operation on the cluster.

Each error is a cause with what is known about it; its wording is in the one function `message` of
its type.
-/

namespace Resharding

/-! ### Calls -/

/-- What a server complains of. -/
inductive RemoteFault where
  | noClusterMetadata (node : NodeId)
  | storeNotFound (store : String)
  /-- The task that made the call broke down before it had an answer, for a reason told by those who
  run tasks. -/
  | taskFailed (reason : String)
  /-- A reason given by the caller. -/
  | other (text : String)
deriving DecidableEq, Repr

def RemoteFault.message : RemoteFault → String
  | .noClusterMetadata node => "no cluster metadata on node " ++ toString node
  | .storeNotFound store => "store " ++ store ++ " not found"
  | .taskFailed reason => "task failed: " ++ reason
  | .other text => text

/-- Why a server refuses a request. -/
inductive Refusal where
  | clusterUpdates (node : NodeId)
  /-- A reason given by the caller. -/
  | other (text : String)
deriving DecidableEq, Repr

def Refusal.message : Refusal → String
  | .clusterUpdates node => "node " ++ toString node ++ " refuses cluster updates"
  | .other text => text

/-- Why a single call to a server failed. -/
inductive CallError where
  | unreachable (node : NodeId)
  | timeout (node : NodeId)
  | remote (fault : RemoteFault)
  | rejected (refusal : Refusal)
deriving DecidableEq, Repr

def CallError.message : CallError → String
  | .unreachable node => "node " ++ toString node ++ " unreachable"
  | .timeout node => "call to node " ++ toString node ++ " timed out"
  | .remote fault => "remote error: " ++ fault.message
  | .rejected refusal => "rejected: " ++ refusal.message

/-! ### Operations -/

/-- Why a configuration, or the description of a cluster, is refused. -/
inductive ConfigFault where
  | duplicateNode (node : NodeId)
  | noParallelism
  | noShutdownTimeout
  | noCallCapacity
  /-- A reason given by the caller. -/
  | other (text : String)
deriving DecidableEq, Repr

def ConfigFault.message : ConfigFault → String
  | .duplicateNode node => "duplicate node id " ++ toString node
  | .noParallelism => "max_parallelism must be at least 1"
  | .noShutdownTimeout => "shutdown_timeout must be non-zero"
  | .noCallCapacity => "admin client needs at least one thread and one connection per node"
  | .other text => text

/-- Why a store cannot be placed on a cluster. -/
inductive RoutingFault where
  | zoneNotInCluster (zone : ZoneId) (cluster : String)
  /-- A reason given by the caller. -/
  | other (text : String)
deriving DecidableEq, Repr

def RoutingFault.message : RoutingFault → String
  | .zoneNotInCluster zone cluster =>
    "replication factor given for zone " ++ toString zone ++ " which is not in cluster " ++ cluster
  | .other text => text

/-- Why an operation on the cluster failed. -/
inductive Error where
  /-- Two nodes hold versions of the cluster that were written independently. -/
  | versionConflict (first : NodeId) (firstVersion : Clock) (second : NodeId)
      (secondVersion : Clock)
  /-- A node whose answer is needed gave none. -/
  | noAnswer (node : NodeId) (source : CallError)
  /-- A partition is listed twice; `first` listed it before `second`. -/
  | listedTwice (partition : PartitionId) (first second : NodeId)
  | unownedPartition (partition : PartitionId)
  | unknownNode (node : NodeId)
  /-- Required nodes did not take the cluster, given as text, at its version. -/
  | notTaken (cluster : String) (version : Clock) (failed : List NodeId)
  | notNormal (node : NodeId) (host : String) (state : ServerState)
  | immovableStore (node : NodeId) (store format expected : String)
  | storesDiffer (node : NodeId)
  | noStores
  | routing (fault : RoutingFault)
  | call (source : CallError)
  | config (fault : ConfigFault)
  | serialization (fault : Wire.Fault)
deriving DecidableEq

namespace Error

def message : Error → String
  | versionConflict first firstVersion second secondVersion =>
    "cluster is in inconsistent state, got conflicting clocks " ++ firstVersion.text ++
      " (node " ++ toString first ++ ") and " ++ secondVersion.text ++
      " (node " ++ toString second ++ ")"
  | noAnswer node source =>
    "required node " ++ toString node ++ " did not answer: " ++ source.message
  | listedTwice partition first second =>
    "partition id " ++ toString partition ++ " found on two nodes: " ++ toString first ++
      " and " ++ toString second
  | unownedPartition partition => "no node owns partition " ++ toString partition
  | unknownNode node => "node not found: " ++ toString node
  | notTaken cluster version failed =>
    "failed to propagate cluster " ++ cluster ++ " at version " ++ version.text ++
      " to required nodes " ++ Text.bracketed (failed.map toString)
  | notNormal node host state =>
    "cannot rebalance since node " ++ toString node ++ " (" ++ host ++
      ") is not in normal state, but in " ++ state.text
  | immovableStore node store format expected =>
    "cannot rebalance since node " ++ toString node ++ " has store " ++ store ++
      " not using format " ++ expected ++ " (found " ++ format ++ ")"
  | storesDiffer node =>
    "store definitions on node " ++ toString node ++ " do not match those on other nodes"
  | noStores => "could not retrieve list of store definitions"
  | routing fault => "routing error: " ++ fault.message
  | call source => "admin error: " ++ source.message
  | config fault => "config error: " ++ fault.message
  | serialization fault => "serialization error: " ++ fault.message

/-- The nodes that the error is about, for callers that retry node by node. -/
def nodeIds : Error → List NodeId
  | versionConflict first _ second _ => [first, second]
  | noAnswer node _ => [node]
  | listedTwice _ first second => [first, second]
  | unknownNode node => [node]
  | notTaken _ _ failed => failed
  | notNormal node _ _ => [node]
  | immovableStore node _ _ _ => [node]
  | storesDiffer node => [node]
  | _ => []

/-- The failed call behind the error. -/
def source? : Error → Option CallError
  | noAnswer _ source => some source
  | call source => some source
  | _ => none

end Error

end Resharding
