import Resharding.Fleet.Schedule

/-!
Finding the newest version of the cluster that the nodes hold.

What follows from the answers is decided by `resolve`, whatever order they arrived in: first whether
a required answer is missing, then whether two answers conflict, then which answer is newest.
-/

namespace Resharding

/-- The answers that came, in order, unless a required node gave none. -/
def gather {α : Type} (required : SortedSet NodeId) :
    List (NodeId × Except CallError α) → Except Error (List (NodeId × α))
  | [] => .ok []
  | (node, .ok a) :: rest => (gather required rest).map ((node, a) :: ·)
  | (node, .error e) :: rest =>
    if required.contains node then .error (.noAnswer node e)
    else gather required rest

/-- The first answer among `rest` whose version was written independently of `version`. -/
def rival? (version : Clock) (rest : List (NodeId × Versioned Cluster)) :
    Option (NodeId × Versioned Cluster) :=
  rest.find? fun (_, other) => version.isIndependentOf other.version

/-- The conflict between the first two answers, in order, that were written independently. -/
def conflict? : List (NodeId × Versioned Cluster) → Option Error
  | [] => none
  | (first, a) :: rest =>
    match rival? a.version rest with
    | some (second, b) => some (.versionConflict first a.version second b.version)
    | none => conflict? rest

/-- The newest of some values: a later one counts only if its version is after all before it. -/
def newest {α : Type} (start : Versioned α) (answers : List (Versioned α)) : Versioned α :=
  answers.foldl (fun best a => if a.relation best = .after then a else best) start

/-- The newest cluster among the answers of some nodes, which come in the order of the node ids, or
`bootstrap` before any update if no answer is newer. -/
def resolve (bootstrap : Cluster) (required : SortedSet NodeId)
    (answers : List (NodeId × Except CallError (Versioned Cluster))) :
    Except Error (Versioned Cluster) := do
  let answers ← gather required answers
  match conflict? answers with
  | some conflict => throw conflict
  | none => return newest (.initial bootstrap) (answers.map (·.2))

namespace Fleet

/-- Ask the nodes of the bootstrap cluster and the required ones for the cluster they hold. -/
def latestCluster (f : Fleet) (settings : Settings) (bootstrap : Cluster)
    (required : List NodeId) : Except Error (Versioned Cluster) × Fleet :=
  let required := SortedSet.ofList required
  let targets := (required.insertAll bootstrap.nodeIds).toList
  let (outcome, f) := f.callRound settings .cluster targets
  (resolve bootstrap required (outcome.takeAll targets), f)

end Fleet

end Resharding
