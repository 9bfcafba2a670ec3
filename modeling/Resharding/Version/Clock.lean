import Resharding.Identifier
import Resharding.Ordered.Map
import Resharding.Text.Listing

/-!
Version clocks: one counter per node that has issued updates.

The view of a clock is `counter`, where a node without an entry counts as zero. An entry may hold an
explicit zero, which `counter` cannot tell from a missing one. Clocks are related by their counters
alone: the time stamp is carried along for display.
-/

namespace Resharding

/-- How one version relates to another. -/
inductive Causality where
  | before
  | after
  | concurrent
  | equal
deriving DecidableEq, Repr

/-- The same relation seen from the other side. -/
def Causality.reverse : Causality → Causality
  | .before => .after
  | .after => .before
  | .concurrent => .concurrent
  | .equal => .equal

/-- Counters of updates by node, and the time in milliseconds of the last update. -/
structure Clock where
  counters : SortedMap NodeId UInt64
  timestamp : UInt64
deriving DecidableEq

namespace Clock

/-- The clock before any update. -/
def empty : Clock := ⟨.empty, 0⟩

instance : Inhabited Clock := ⟨empty⟩

/-- The clock of listed counters: zeros are left out, and the last counter of a node counts. -/
def ofEntries (entries : List (NodeId × UInt64)) (timestamp : UInt64) : Clock :=
  ⟨.ofList (entries.filter fun e => e.2 != 0), timestamp⟩

/-- The counter of a node, zero if it has none. -/
def counter (c : Clock) (node : NodeId) : UInt64 := c.counters.getD node 0

/-- Whether no node has an entry. -/
def isEmpty (c : Clock) : Bool := c.counters.isEmpty

/-- One more update by `node`, made at `timestamp`. -/
def increment (c : Clock) (node : NodeId) (timestamp : UInt64) : Clock :=
  ⟨c.counters.adjust node 0 (· + 1), timestamp⟩

/-- The larger counter of each node and the later time stamp. -/
def merge (a b : Clock) : Clock :=
  ⟨a.counters.mergeWith max b.counters, max a.timestamp b.timestamp⟩

/-- Whether `a` counts more updates than `b` for some node. -/
def exceeds (a b : Clock) : Bool :=
  a.counters.toList.any fun e => b.counter e.1 < e.2

/-- Whether `a` counts fewer updates than `b` for some node: for one of its own entries, or because
`b` alone has an entry, and not a zero. -/
def trails (a b : Clock) : Bool :=
  (a.counters.toList.any fun e => e.2 < b.counter e.1) ||
    b.counters.toList.any fun e => 0 < e.2 && !a.counters.contains e.1

/-- `a` is after `b` if it counts more for some node and nowhere less. -/
def relation (a b : Clock) : Causality :=
  match a.exceeds b, a.trails b with
  | true, true => .concurrent
  | true, false => .after
  | false, true => .before
  | false, false => .equal

/-- Whether each clock counts an update that the other does not. -/
def isIndependentOf (a b : Clock) : Bool := a.relation b == .concurrent

/-- The entries by node and the time stamp, as `version(1:2, 3:1) ts:42`. -/
def text (c : Clock) : String :=
  let entry (e : NodeId × UInt64) := toString e.1 ++ ":" ++ toString e.2
  "version(" ++ Text.commaSeparated (c.counters.toList.map entry) ++ ") ts:" ++ toString c.timestamp

/-! ### Laws of counters -/

theorem counter_increment (c : Clock) (node other : NodeId) (timestamp : UInt64) :
    (c.increment node timestamp).counter other =
      if other = node then c.counter node + 1 else c.counter other := by
  show ((c.counters.adjust node 0 (· + 1)).get? other).getD 0 = _
  rw [SortedMap.get?_adjust]
  split <;> rfl

theorem counter_merge (a b : Clock) (node : NodeId) :
    (a.merge b).counter node = max (a.counter node) (b.counter node) := by
  have zero_max (n : UInt64) : max 0 n = n := if_pos n.zero_le
  have max_zero (n : UInt64) : max n 0 = n := by
    show (if n ≤ 0 then 0 else n) = n
    split
    · rename_i le; exact (UInt64.le_zero_iff.1 le).symm
    · rfl
  show ((a.counters.mergeWith max b.counters).get? node).getD 0 =
    max ((a.counters.get? node).getD 0) ((b.counters.get? node).getD 0)
  rw [SortedMap.get?_mergeWith]
  cases a.counters.get? node <;> cases b.counters.get? node <;> simp [zero_max, max_zero]

end Clock

end Resharding
