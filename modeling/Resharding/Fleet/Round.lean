import Resharding.Error
import Resharding.Ordered.Set

/-!
Rounds of calls to a set of nodes, of which only so many go on at once.

Every node of a round has one task. A task waits for its turn, runs, and ends with a result or
breaks down. A round may be looked at before all its tasks have ended: the nodes of the others are
then abandoned, though their tasks go on. Tasks are awaited in the order of their nodes up to the
first one that has not ended. A result is found wherever it is, but that a task broke down is only known
once it has been awaited.
-/

namespace Resharding

/-- How far the task of one node is. -/
inductive Task (α : Type) where
  | waiting
  | running
  | finished (result : Except CallError α)
  | crashed

namespace Task

variable {α : Type}

def isRunning : Task α → Bool
  | running => true
  | _ => false

/-- Whether the task has a result or broke down. -/
def hasEnded : Task α → Bool
  | finished _ => true
  | crashed => true
  | _ => false

end Task

/-- What came back from a round. -/
structure RoundOutcome (α : Type) where
  /-- The results of the nodes whose tasks ended in time. -/
  completed : SortedMap NodeId (Except CallError α)
  /-- The nodes whose tasks did not. -/
  abandoned : SortedSet NodeId

namespace RoundOutcome

variable {α β : Type}

/-- The result of a node, which is then used up. An abandoned call counts as timed out. -/
def take (o : RoundOutcome α) (node : NodeId) : Except CallError α × RoundOutcome α :=
  if o.abandoned.contains node then (.error (.timeout node), o)
  else
    match o.completed.get? node with
    | some result => (result, { o with completed := o.completed.erase node })
    | none => (.error (.unreachable node), o)

/-- The results of several nodes, taken one after the other. -/
def takeAll : RoundOutcome α → List NodeId → List (NodeId × Except CallError α)
  | _, [] => []
  | o, node :: rest =>
    let (result, o) := o.take node
    (node, result) :: o.takeAll rest

/-- The outcome with every result passed through `f`. -/
def map (f : NodeId → Except CallError α → Except CallError β) (o : RoundOutcome α) :
    RoundOutcome β :=
  ⟨o.completed.map f, o.abandoned⟩

end RoundOutcome

/-- One task for every node, at most `width` of them running. -/
structure Round (α : Type) where
  width : Nat
  tasks : SortedMap NodeId (Task α)

namespace Round

variable {α : Type}

/-- The round of all distinct nodes of a list, before any task runs. A round without room for one
task is given that room. -/
def start (parallelism : Nat) (nodes : List NodeId) : Round α :=
  ⟨max parallelism 1, .ofList (nodes.map fun node => (node, .waiting))⟩

/-- How many tasks are running. -/
def runningCount (r : Round α) : Nat := r.tasks.values.countP Task.isRunning

def hasRoom (r : Round α) : Bool := r.runningCount < r.width

/-- Whether every task has ended. -/
def isOver (r : Round α) : Bool := r.tasks.values.all Task.hasEnded

/-! ### Steps -/

/-- The task of a node begins to run, if there is room. -/
def launch? (r : Round α) (node : NodeId) : Option (Round α) :=
  match r.tasks.get? node with
  | some .waiting =>
    if r.hasRoom then some { r with tasks := r.tasks.insert node .running } else none
  | _ => none

/-- The running task of a node ends with a result. -/
def finish? (r : Round α) (node : NodeId) (result : Except CallError α) : Option (Round α) :=
  match r.tasks.get? node with
  | some .running => some { r with tasks := r.tasks.insert node (.finished result) }
  | _ => none

/-- The running task of a node breaks down. -/
def crash? (r : Round α) (node : NodeId) : Option (Round α) :=
  match r.tasks.get? node with
  | some .running => some { r with tasks := r.tasks.insert node .crashed }
  | _ => none

/-! ### Looking at a round -/

/-- The nodes whose tasks have been awaited: those before the first task that has not ended. -/
def awaited (r : Round α) : List NodeId :=
  (r.tasks.toList.takeWhile fun e => e.2.hasEnded).map (·.1)

/-- What a task has to report, where `awaited` are the nodes whose tasks have been awaited, and
`reason` tells of each node why its task broke down if it did. -/
def report? (reason : NodeId → String) (awaited : List NodeId) :
    NodeId × Task α → Option (NodeId × Except CallError α)
  | (node, .finished result) => some (node, result)
  | (node, .crashed) =>
    if node ∈ awaited then some (node, .error (.remote (.taskFailed (reason node)))) else none
  | _ => none

/-- What the round has come to by now. -/
def outcome (r : Round α) (reason : NodeId → String) (awaited : List NodeId) : RoundOutcome α :=
  let completed := SortedMap.ofList (r.tasks.toList.filterMap (report? reason awaited))
  ⟨completed, .ofList (r.tasks.keys.filter fun node => !completed.contains node)⟩

end Round

end Resharding
