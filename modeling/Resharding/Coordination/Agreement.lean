import Resharding.Fleet.Schedule

/-!
Store definitions that every node of a cluster agrees on.
-/

namespace Resharding

/-- Whether two lists are equally long and everything in the first is in the second. -/
def sameStores (a b : List StoreDefinition) : Bool :=
  a.length == b.length && a.all fun s => b.contains s

/-- The eligible stores of the first answer, unless a node did not answer or a later answer has
other ones. `agreed` are the stores of the answers before. -/
def agree : Option (List StoreDefinition) →
    List (NodeId × Except CallError (List StoreDefinition)) → Except Error (List StoreDefinition)
  | none, [] => .error .noStores
  | some agreed, [] => .ok agreed
  | _, (node, .error e) :: _ => .error (.noAnswer node e)
  | none, (_, .ok stores) :: rest => agree (some (StoreDefinition.eligible stores)) rest
  | some agreed, (node, .ok stores) :: rest =>
    if sameStores agreed (StoreDefinition.eligible stores) then agree (some agreed) rest
    else .error (.storesDiffer node)

namespace Fleet

/-- Ask every node of a cluster for its store definitions. -/
def agreedStores (f : Fleet) (settings : Settings) (c : Cluster) :
    Except Error (List StoreDefinition) × Fleet :=
  let (outcome, f) := f.callRound settings .stores c.nodeIds
  (agree none (outcome.takeAll c.nodeIds), f)

end Fleet

end Resharding
