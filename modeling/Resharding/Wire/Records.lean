import Resharding.Planning.Migration
import Resharding.Store.Definition
import Resharding.Topology.Cluster
import Resharding.Version.Versioned
import Resharding.Wire.Codec

/-!
Written forms of the records that nodes exchange and store.

A record is its fields one after another. Reading takes a record as it stands: nodes in any order,
repeated partitions, zero counters and empty zone lists are all given back. The kinds of records
that are exchanged (`Record`) are migrations and values of several kinds with their versions.
-/

namespace Resharding.Wire

namespace Codec

/-- The value that bytes begin with, or the error that they begin with none. -/
def load {α : Type} (c : Codec α) (bytes : List UInt8) : Except Error α :=
  (c.read bytes).mapError .serialization

def clock : Codec Clock :=
  ((map word64 word64).pair word64).convert (fun (counters, timestamp) => ⟨counters, timestamp⟩)
    fun c => (c.counters, c.timestamp)

/-- A value, then its version. -/
def versioned {α : Type} (value : Codec α) : Codec (Versioned α) :=
  (value.pair clock).convert (fun (value, version) => ⟨value, version⟩)
    fun v => (v.value, v.version)

def zone : Codec Zone :=
  (word32.pair word32.list).convert (fun (id, proximity) => ⟨id, proximity⟩)
    fun z => (z.id, z.proximity)

def node : Codec Node :=
  (word64.pair <| text.pair <| word16.pair <| word16.pair <| word16.pair <|
      word32.pair word32.list).convert
    (fun (id, host, http, socket, admin, zone, partitions) =>
      ⟨id, host, http, socket, admin, zone, partitions⟩)
    fun n => (n.id, n.host, n.httpPort, n.socketPort, n.adminPort, n.zone, n.partitions)

def cluster : Codec Cluster :=
  (text.pair <| node.list.pair zone.list).convert
    (fun (name, nodes, zones) => ⟨name, nodes, zones⟩) fun c => (c.name, c.nodes, c.zones)

def store : Codec StoreDefinition :=
  (text.pair <| text.pair <| word64.pair <| (variant Spread.all).pair <|
      (map word32 word64).pair <| word64.pair <| word64.pair text.option).convert
    (fun (name, engine, copies, spread, zones, reads, writes, view) =>
      ⟨name, engine, copies, spread, zones, reads, writes, view⟩)
    fun s => (s.name, s.engine, s.declaredCopies, s.spread, s.zoneCopies, s.requiredReads,
      s.requiredWrites, s.viewOf)

def migration : Codec Migration :=
  (word64.pair <| word64.pair <| (set word32).pair text.list).convert
    (fun (stealer, donor, partitions, stores) => ⟨stealer, donor, partitions, stores⟩)
    fun m => (m.stealer, m.donor, m.partitions, m.stores)

def serverState : Codec ServerState := variant ServerState.all

end Codec

/-! ### Kinds of records -/

/-- What is sent and stored with a version. -/
inductive Payload where
  | cluster
  | text
  | partitions
  | stores
  | migration
  | serverState
deriving DecidableEq, Repr

namespace Payload

def Value : Payload → Type
  | cluster => Cluster
  | text => String
  | partitions => List PartitionId
  | stores => List StoreDefinition
  | migration => Migration
  | serverState => ServerState

def codec : (p : Payload) → Codec p.Value
  | cluster => Codec.cluster
  | text => Codec.text
  | partitions => Codec.word32.list
  | stores => Codec.store.list
  | migration => Codec.migration
  | serverState => Codec.serverState

end Payload

/-- The records that are exchanged: migrations, which need no version, and values with theirs. -/
inductive Record where
  | migration
  | versioned (payload : Payload)
deriving DecidableEq, Repr

namespace Record

def Value : Record → Type
  | migration => Migration
  | versioned payload => Versioned payload.Value

def codec : (r : Record) → Codec r.Value
  | migration => Codec.migration
  | versioned payload => payload.codec.versioned

end Record

end Resharding.Wire
