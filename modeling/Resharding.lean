import Resharding.Coordination.Agreement
import Resharding.Coordination.Propagation
import Resharding.Coordination.Readiness
import Resharding.Coordination.Resolution
import Resharding.Fleet.Progress
import Resharding.Planning.Gains
import Resharding.Planning.Migration
import Resharding.Planning.Move
import Resharding.Topology.Uniform
import Resharding.Wire.Records
import Resharding.Proofs.Coordination.Agreement
import Resharding.Proofs.Coordination.Determinacy
import Resharding.Proofs.Coordination.Issuing
import Resharding.Proofs.Coordination.Overtaking
import Resharding.Proofs.Coordination.Propagation
import Resharding.Proofs.Coordination.Readiness
import Resharding.Proofs.Coordination.Resolution
import Resharding.Proofs.Coordination.Succession
import Resharding.Proofs.Coordination.Timing
import Resharding.Proofs.Coordination.Uptake
import Resharding.Proofs.Fleet.Account
import Resharding.Proofs.Fleet.Admission
import Resharding.Proofs.Fleet.Awaited
import Resharding.Proofs.Fleet.Backlog
import Resharding.Proofs.Fleet.CallRound
import Resharding.Proofs.Fleet.Course
import Resharding.Proofs.Fleet.Dealings
import Resharding.Proofs.Fleet.Effect
import Resharding.Proofs.Fleet.Fate
import Resharding.Proofs.Fleet.Gateway
import Resharding.Proofs.Fleet.Gathering
import Resharding.Proofs.Fleet.Limits
import Resharding.Proofs.Fleet.Reachable
import Resharding.Proofs.Fleet.Round
import Resharding.Proofs.Fleet.Simulation
import Resharding.Proofs.Fleet.Single
import Resharding.Proofs.Fleet.Slots
import Resharding.Proofs.Fleet.View
import Resharding.Proofs.Ordered.Listing
import Resharding.Proofs.Placement.Keepers
import Resharding.Proofs.Placement.Owners
import Resharding.Proofs.Placement.Positions
import Resharding.Proofs.Placement.Ring
import Resharding.Proofs.Placement.Strategy
import Resharding.Proofs.Placement.Turn
import Resharding.Proofs.Placement.Walk
import Resharding.Proofs.Placement.Zones
import Resharding.Proofs.Planning.Conservation
import Resharding.Proofs.Planning.Copies
import Resharding.Proofs.Planning.Donations
import Resharding.Proofs.Planning.Gains
import Resharding.Proofs.Planning.Holdings
import Resharding.Proofs.Planning.Locality
import Resharding.Proofs.Planning.Migrations
import Resharding.Proofs.Planning.Nesting
import Resharding.Proofs.Planning.Primaries
import Resharding.Proofs.Planning.Relocation
import Resharding.Proofs.Planning.Staging
import Resharding.Proofs.Topology.Built
import Resharding.Proofs.Topology.Canonical
import Resharding.Proofs.Topology.Edits
import Resharding.Proofs.Topology.Lookup
import Resharding.Proofs.Topology.Owned
import Resharding.Proofs.Topology.Ownership
import Resharding.Proofs.Topology.Replacement
import Resharding.Proofs.Version.Branching
import Resharding.Proofs.Version.Merge
import Resharding.Proofs.Version.Order
import Resharding.Proofs.Wire.Records
