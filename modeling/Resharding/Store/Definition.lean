import Resharding.Identifier
import Resharding.Ordered.Map
import Resharding.Total

/-!
Stores and which of them take part in rebalancing.

All stores of a cluster share its partitions, so a move carries the data of every eligible store and
has to respect the one with the most copies.
-/

namespace Resharding

/-- How the copies of a partition are spread. -/
inductive Spread where
  /-- One copy on each of the next distinct nodes. -/
  | consistent
  /-- As many copies in each zone as the store asks for there. -/
  | zoned
deriving DecidableEq, Repr

/-- The ways to spread, in the order of their written form. -/
def Spread.all : List Spread := [.consistent, .zoned]

/-- One store of the cluster. -/
structure StoreDefinition where
  name : String
  engine : String
  /-- The number of copies as declared, which counts for consistent spreading only. -/
  declaredCopies : UInt64
  spread : Spread := .consistent
  /-- Copies by zone, which count for zoned spreading only. -/
  zoneCopies : SortedMap ZoneId UInt64 := .empty
  requiredReads : UInt64 := 1
  requiredWrites : UInt64 := 1
  /-- The store of which this one is a view. -/
  viewOf : Option String := none
deriving DecidableEq

namespace StoreDefinition

/-- The engine of stores that are built offline and then only read. -/
def readOnlyEngine : String := "read-only"

/-- Engines whose data cannot be moved while it is in use. -/
def immovableEngines : List String := ["mysql", "memory"]

/-- The store spread by zone, with the sum of the zones' copies as its declared number. -/
def withZones (s : StoreDefinition) (copies : SortedMap ZoneId UInt64) : StoreDefinition :=
  { s with spread := .zoned, declaredCopies := wrappedTotal copies.values, zoneCopies := copies }

/-- Copies kept of every partition. The zones' copies are counted in a word. -/
def replicationFactor (s : StoreDefinition) : Nat :=
  match s.spread with
  | .consistent => s.declaredCopies.toNat
  | .zoned => (wrappedTotal s.zoneCopies.values).toNat

def isView (s : StoreDefinition) : Bool := s.viewOf.isSome

def isReadOnly (s : StoreDefinition) : Bool := s.engine == readOnlyEngine

/-- Whether the store's partitions are moved in a rebalancing. -/
def isEligible (s : StoreDefinition) : Bool := !s.isView && !immovableEngines.contains s.engine

/-- The stores that take part in a rebalancing. -/
def eligible (stores : List StoreDefinition) : List StoreDefinition := stores.filter isEligible

/-- The read-only stores. -/
def readOnly (stores : List StoreDefinition) : List StoreDefinition := stores.filter isReadOnly

/-- The stores that are not read-only. -/
def writable (stores : List StoreDefinition) : List StoreDefinition :=
  stores.filter fun s => !s.isReadOnly

/-- The first store of those with the most copies. -/
def mostReplicated? : List StoreDefinition → Option StoreDefinition
  | [] => none
  | s :: rest => some <| rest.foldl (fun best s =>
      if best.replicationFactor < s.replicationFactor then s else best) s

end StoreDefinition

end Resharding
