import Resharding.Fleet.Round
import Resharding.Fleet.Server
import Resharding.Settings
import Resharding.Total

/-!
A fleet of servers and the calls that are under way to them.

Time is a number of milliseconds. A call of a round first needs one of the round's slots. When it
starts it is recorded, and if the client has limits it needs a connection to its node and then a
thread, both within the connection timeout. It then travels for as long as the node's delay says at
that moment, finds the server's record, acts on it and gives back what it held.

Calls that can go on are in the list `ready`, in the order in which they became able to. Calls that
wait are in the list `parked`, in the order in which they began to, so that all waiting is first
come, first served.
-/

namespace Resharding

/-- A call that reached the client. -/
structure CallRecord where
  node : NodeId
  operation : Operation
deriving DecidableEq, Repr

/-! ### Permits -/

/-- The limits of a client and what of them is free. -/
structure Permits where
  limits : ClientLimits
  freeThreads : Nat
  /-- Free connections of the nodes that were called; other nodes have all theirs. -/
  freeConnections : SortedMap NodeId Nat
deriving DecidableEq

namespace Permits

/-- Everything free; a limit of zero counts as one. -/
def full (limits : ClientLimits) : Permits := ⟨limits, max limits.threads 1, .empty⟩

def freeAt (p : Permits) (node : NodeId) : Nat :=
  p.freeConnections.getD node (max p.limits.connectionsPerNode 1)

def takeConnection? (p : Permits) (node : NodeId) : Option Permits :=
  match p.freeAt node with
  | 0 => none
  | left + 1 => some { p with freeConnections := p.freeConnections.insert node left }

def takeThread? (p : Permits) : Option Permits :=
  match p.freeThreads with
  | 0 => none
  | left + 1 => some { p with freeThreads := left }

def giveConnection (p : Permits) (node : NodeId) : Permits :=
  { p with freeConnections := p.freeConnections.insert node (p.freeAt node + 1) }

def giveThread (p : Permits) : Permits := { p with freeThreads := p.freeThreads + 1 }

end Permits

/-! ### Calls under way -/

/-- Who waits for the answer of a call. -/
inductive Caller where
  /-- The `index`-th of the calls that are awaited by themselves. -/
  | direct (index : Nat)
  /-- The task of the call's node in the `index`-th round. -/
  | task (index : Nat)
deriving DecidableEq, Repr

/-- A call under way: whose it is, where it goes and what it asks. -/
structure Flight where
  caller : Caller
  node : NodeId
  request : Request
deriving DecidableEq

/-- What a call that can go on does next. -/
inductive Action where
  /-- It asks for a slot of its round. -/
  | ask
  /-- It starts; if it is in a round, it holds a slot. -/
  | start
  /-- It holds a connection and asks for a thread, to be had by the deadline. -/
  | board (deadline : Nat)
  /-- It holds all it needs and sets out. -/
  | depart
  /-- It reaches the server. -/
  | arrive
  /-- It has waited too long, holding a connection or not. -/
  | giveUp (connected : Bool)
deriving DecidableEq, Repr

/-- What a call waits for. -/
inductive Wait where
  /-- The time at which it is to start. -/
  | start (time : Nat)
  /-- A slot of its round. -/
  | slot
  /-- A connection to its node, to be had by the deadline. -/
  | connection (deadline : Nat)
  /-- A thread, to be had by the deadline; it holds a connection. -/
  | thread (deadline : Nat)
  /-- The time at which it reaches the server. -/
  | arrival (time : Nat)
deriving DecidableEq, Repr

/-- A bound on the steps that a call still has to make. -/
def Action.stepsLeft : Action → Nat
  | ask => 9
  | start => 7
  | board _ => 5
  | depart => 3
  | arrive => 1
  | giveUp _ => 1

/-- A bound on the steps that a call still has to make, this wait included. -/
def Wait.stepsLeft : Wait → Nat
  | slot => 8
  | start _ => 8
  | connection _ => 6
  | thread _ => 4
  | arrival _ => 2

/-- The time at which a wait is over even if the call did not get what it waits for, and what the
call does then. -/
def Wait.ending? : Wait → Option (Nat × Action)
  | slot => none
  | start time => some (time, .start)
  | connection deadline => some (deadline, .giveUp false)
  | thread deadline => some (deadline, .giveUp true)
  | arrival time => some (time, .arrive)

/-- A round and what all its calls ask. -/
structure Campaign where
  request : Request
  round : Round Server

/-- A call that ended: whose it was, when it ended and what it found. -/
structure Landing where
  index : Nat
  time : Nat
  found : Except CallError Server

/-! ### The fleet -/

/-- Servers, the client that calls them, and the calls under way. -/
structure Fleet where
  now : Nat := 0
  servers : SortedMap NodeId Server := .empty
  /-- Every call that reached the client, the latest last. -/
  calls : List CallRecord := []
  /-- The limits of the client, if it has any. -/
  permits : Option Permits := none
  /-- Nodes whose calls break down in their task before they reach the client, and the reason that is
  told of it. -/
  crashing : SortedMap NodeId String := .empty
  /-- All rounds so far, the latest last. -/
  campaigns : List Campaign := []
  /-- Calls that can go on, in the order in which they became able to. -/
  ready : List (Flight × Action) := []
  /-- Calls that wait, in the order in which they began to. -/
  parked : List (Flight × Wait) := []
  /-- The ends of the calls that are awaited by themselves. -/
  landings : List Landing := []

namespace Fleet

/-- The fleet whose servers hold a cluster before any update. -/
def holding (c : Cluster) : Fleet where
  servers := .ofList (c.nodeIds.map fun id => (id, { cluster := some (.initial c) }))

/-- The fleet called by a client with limits, all of them free. -/
def withLimits (f : Fleet) (limits : ClientLimits) : Fleet :=
  { f with permits := some (.full limits) }

/-- Change the record of a server, which is a new one if the node had none. -/
def adjust (f : Fleet) (node : NodeId) (change : Server → Server) : Fleet :=
  { f with servers := f.servers.adjust node {} change }

def setCluster (f : Fleet) (node : NodeId) (held : Versioned Cluster) : Fleet :=
  f.adjust node fun s => { s with cluster := some held }

def setState (f : Fleet) (node : NodeId) (state : ServerState) : Fleet :=
  f.adjust node fun s => { s with state }

def setStores (f : Fleet) (node : NodeId) (stores : List StoreDefinition) : Fleet :=
  f.adjust node fun s => { s with stores }

def setFormat (f : Fleet) (node : NodeId) (store format : String) : Fleet :=
  f.adjust node fun s => { s with formats := s.formats.insert store format }

def setDelay (f : Fleet) (node : NodeId) (delay : Nat) : Fleet :=
  f.adjust node fun s => { s with delay }

/-- From now on the node cannot be reached. -/
def fail (f : Fleet) (node : NodeId) : Fleet := f.adjust node fun s => { s with isDown := true }

def recover (f : Fleet) (node : NodeId) : Fleet := f.adjust node fun s => { s with isDown := false }

/-- From now on the node refuses updates. -/
def refuseUpdates (f : Fleet) (node : NodeId) : Fleet :=
  f.adjust node fun s => { s with refusesUpdates := true }

/-- From now on the tasks of calls to the node break down, for a given reason. -/
def crash (f : Fleet) (node : NodeId) (reason : String) : Fleet :=
  { f with crashing := f.crashing.insert node reason }

def clearCalls (f : Fleet) : Fleet := { f with calls := [] }

/-- The reason that is told if a task of a call to the node breaks down. -/
def reason (f : Fleet) (node : NodeId) : String := f.crashing.getD node ""

/-- The cluster that a node holds. -/
def stored? (f : Fleet) (node : NodeId) : Option (Versioned Cluster) :=
  (f.servers.get? node).bind (·.cluster)

/-- What a call that arrives at a node now finds. -/
def find (f : Fleet) (node : NodeId) : Except CallError Server :=
  match f.servers.get? node with
  | some s => if s.isDown then .error (.unreachable node) else .ok s
  | none => .error (.unreachable node)

/-- How long a call that sets out for a node now will travel. -/
def delayOf (f : Fleet) (node : NodeId) : Nat := ((f.servers.get? node).map (·.delay)).getD 0

/-- The fleet at a time, or as it is if that has passed. -/
def waitUntil (f : Fleet) (time : Nat) : Fleet := { f with now := max f.now time }

/-- A bound on the steps that all calls under way still have to make. -/
def stepsLeft (f : Fleet) : Nat :=
  total (f.ready.map fun e => e.2.stepsLeft) + total (f.parked.map fun e => e.2.stepsLeft)

end Fleet

end Resharding
