import Resharding.Error
import Resharding.Store.Definition
import Resharding.Topology.Cluster
import Resharding.Version.Versioned

/-!
Storage servers and what can be asked of them.

A request is answered from the record of the server as the call finds it (`Request.reply`), and only
an update changes the record (`Request.effect`).
-/

namespace Resharding

/-- What one server stores and how it behaves. -/
structure Server where
  /-- The cluster it knows, if it was given one. -/
  cluster : Option (Versioned Cluster) := none
  state : ServerState := .normal
  stores : List StoreDefinition := []
  /-- Codes of the formats of its read-only stores. -/
  formats : SortedMap String String := .empty
  /-- Whether it cannot be reached. -/
  isDown : Bool := false
  refusesUpdates : Bool := false
  /-- Milliseconds until it answers. -/
  delay : Nat := 0
deriving DecidableEq

/-- What a call does on a server. -/
inductive Operation where
  | getCluster
  | updateCluster
  | getStoreDefinitions
  | getServerState
  | getReadOnlyFormat
deriving DecidableEq, Repr

/-- An operation with what it needs. -/
inductive Request where
  | cluster
  | update (cluster : Versioned Cluster)
  | stores
  | state
  | formats (stores : List String)
deriving DecidableEq

namespace Request

def operation : Request → Operation
  | cluster => .getCluster
  | update _ => .updateCluster
  | stores => .getStoreDefinitions
  | state => .getServerState
  | formats _ => .getReadOnlyFormat

/-- The kind of value that answers a request. -/
@[reducible] def Reply : Request → Type
  | cluster => Versioned Cluster
  | update _ => Unit
  | stores => List StoreDefinition
  | state => ServerState
  | formats _ => SortedMap String String

/-- The formats of the named stores, unless one of them has none. -/
def formatsOf (formats : SortedMap String String) (stores : List String) :
    Except CallError (SortedMap String String) :=
  stores.foldlM (fun found store =>
    match formats.get? store with
    | some format => .ok (found.insert store format)
    | none => .error (.remote (.storeNotFound store))) .empty

/-- The answer of the server of `node` as its record stands. -/
def reply (node : NodeId) (s : Server) : (r : Request) → Except CallError r.Reply
  | cluster =>
    match s.cluster with
    | some held => .ok held
    | none => .error (.remote (.noClusterMetadata node))
  | update _ =>
    if s.refusesUpdates then .error (.rejected (.clusterUpdates node)) else .ok ()
  | stores => .ok s.stores
  | state => .ok s.state
  | formats names => formatsOf s.formats names

/-- The record of the server after the request. -/
def effect (s : Server) : Request → Server
  | update held => if s.refusesUpdates then s else { s with cluster := some held }
  | _ => s

/-- The answer to a call that found the server's record or failed before it did. -/
def answer (r : Request) (node : NodeId) (found : Except CallError Server) :
    Except CallError r.Reply :=
  match found with
  | .ok s => r.reply node s
  | .error e => .error e

end Request

end Resharding
