import Resharding.Placement.Ring

/-!
Choosing the slots that hold copies along a walk.

Both walks take at most one slot of a node. The consistent walk takes the first slot of every node
until it has enough; the zoned walk takes a slot only while its zone asks for more copies.
-/

namespace Resharding

/-- The first slot of each node that is not `taken`, up to `count` of them. -/
def consistentWalk : Nat → List NodeId → List Slot → List Slot
  | 0, _, _ => []
  | _ + 1, _, [] => []
  | count + 1, taken, s :: rest =>
    if s.node ∈ taken then consistentWalk (count + 1) taken rest
    else s :: consistentWalk count (s.node :: taken) rest

/-- The first slots of nodes that are not `taken`, up to `count` of them and in each zone up to its
quota. -/
def zonedWalk : Nat → SortedMap ZoneId Nat → List NodeId → List Slot → List Slot
  | 0, _, _, _ => []
  | _ + 1, _, _, [] => []
  | count + 1, quotas, taken, s :: rest =>
    if s.node ∈ taken then zonedWalk (count + 1) quotas taken rest
    else
      match quotas.getD s.zone 0 with
      | 0 => zonedWalk (count + 1) quotas taken rest
      | left + 1 => s :: zonedWalk count (quotas.insert s.zone left) (s.node :: taken) rest

end Resharding
