import Resharding.Fleet.Schedule

/-!
Giving a cluster to the nodes.

The nodes that are not required come first, and what they answer is only reported. The required ones
come next, all of them, and any failure among them fails the whole. Nothing is taken back: nodes
that took the cluster keep it.
-/

namespace Resharding

/-- What became of a propagation that reached every required node; both lists are ascending. -/
structure PropagationReport where
  updated : List NodeId
  /-- Nodes that were not required and did not take the cluster. -/
  skipped : List NodeId
deriving DecidableEq, Repr

namespace Propagation

/-- The nodes with an answer that took the cluster. -/
def takers (answers : List (NodeId × Except CallError Unit)) : List NodeId :=
  (answers.filter fun a => a.2.isOk).map (·.1)

/-- The nodes that did not. -/
def refusers (answers : List (NodeId × Except CallError Unit)) : List NodeId :=
  (answers.filter fun a => !a.2.isOk).map (·.1)

/-- Some nodes in ascending order. -/
def ascending (nodes : List NodeId) : List NodeId := (SortedSet.ofList nodes).toList

/-- The nodes to be updated first: those to be attempted that are not required. -/
def bestEffort (attempt : List NodeId) (required : SortedSet NodeId) : List NodeId :=
  (SortedSet.ofList attempt \ required).toList

/-- The required nodes that are in the cluster. -/
def members (c : Cluster) (required : SortedSet NodeId) : List NodeId :=
  required.toList.filter c.contains

/-- The required nodes that are not. -/
def strangers (c : Cluster) (required : SortedSet NodeId) : List NodeId :=
  required.toList.filter fun node => !c.contains node

/-- What the answers of both groups come to. Required nodes outside the cluster have failed. -/
def conclude (held : Versioned Cluster) (required : SortedSet NodeId)
    (optional obliged : List (NodeId × Except CallError Unit)) :
    Except Error PropagationReport :=
  match strangers held.value required ++ refusers obliged with
  | [] => .ok ⟨ascending (takers optional ++ takers obliged), refusers optional⟩
  | failed => .error (.notTaken held.value.text held.version (ascending failed))

end Propagation

namespace Fleet

open Propagation

/-- Give a cluster at its version to the nodes to be attempted and to the required ones. -/
def propagate (f : Fleet) (settings : Settings) (held : Versioned Cluster)
    (attempt required : List NodeId) : Except Error PropagationReport × Fleet :=
  let required := SortedSet.ofList required
  let optional := bestEffort attempt required
  let (outcome, f) := f.callRound settings (.update held) optional
  let optionalAnswers := outcome.takeAll optional
  let obliged := members held.value required
  let (outcome, f) := f.callRound settings (.update held) obliged
  (conclude held required optionalAnswers (outcome.takeAll obliged), f)

/-- Give a cluster to all its nodes. -/
def propagateEverywhere (f : Fleet) (settings : Settings) (held : Versioned Cluster)
    (required : List NodeId) : Except Error PropagationReport × Fleet :=
  f.propagate settings held held.value.nodeIds required

end Fleet

end Resharding
