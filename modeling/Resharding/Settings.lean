import Resharding.Error

/-!
Settings of a rebalancing: how many calls go on at once, how long to wait for them, and the limits
of the client that makes them. Times are in milliseconds.
-/

namespace Resharding

/-- Limits of a client that calls servers. -/
structure ClientLimits where
  /-- Connections open to one node at once. -/
  connectionsPerNode : Nat := 1
  /-- Calls in progress at once, over all nodes. -/
  threads : Nat := 1
  /-- How long a call may wait for its connection and thread. -/
  connectTimeout : Nat := 60000
  /-- How long one read or write may take. -/
  socketTimeout : Nat := 86400000
  /-- Size of a socket's buffer in bytes. -/
  bufferSize : Nat := 16777216
deriving DecidableEq, Repr

/-- The limits under which a rebalancing runs. -/
def ClientLimits.ofCapacity (threads connectionsPerNode : Nat) : ClientLimits :=
  { threads, connectionsPerNode }

/-- Settings of the rounds of calls that an operation makes. -/
structure Settings where
  /-- Calls of one round in progress at once. -/
  parallelism : Nat := 8
  /-- How long a round waits for its calls. -/
  shutdownTimeout : Nat := 30000
  client : ClientLimits := {}
deriving DecidableEq, Repr

namespace Settings

/-- Settings that let all nodes of a cluster be called at once. -/
def ofWidth (width : Nat) : Settings := { parallelism := max width 1 }

/-- Refuses settings under which no call could ever end. -/
def validate (s : Settings) : Except ConfigFault Unit :=
  if s.parallelism = 0 then .error .noParallelism
  else if s.shutdownTimeout = 0 then .error .noShutdownTimeout
  else if s.client.connectionsPerNode = 0 ∨ s.client.threads = 0 then .error .noCallCapacity
  else .ok ()

end Settings

end Resharding
