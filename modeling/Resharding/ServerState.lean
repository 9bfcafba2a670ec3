/-!
What a storage server reports to be doing.
-/

namespace Resharding

/-- The execution state of a server. -/
inductive ServerState where
  /-- Serving, with no rebalancing in progress. -/
  | normal
  /-- Taking or giving partitions in a running rebalancing. -/
  | rebalancing
  /-- Forwarding writes for partitions it is handing off. -/
  | grandfathering
  /-- Reachable, but not serving. -/
  | offline
deriving DecidableEq, Repr

namespace ServerState

/-- The states in the order of their written form. -/
def all : List ServerState := [normal, rebalancing, grandfathering, offline]

/-- Whether rebalancing may start. -/
def isNormal (s : ServerState) : Bool := s == normal

def text : ServerState → String
  | normal => "NORMAL_SERVER"
  | rebalancing => "REBALANCING_MASTER_SERVER"
  | grandfathering => "GRANDFATHERING_SERVER"
  | offline => "OFFLINE_SERVER"

end ServerState

end Resharding
