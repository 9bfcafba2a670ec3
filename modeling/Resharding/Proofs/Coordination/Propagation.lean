import Resharding.Coordination.Propagation
import Resharding.Proofs.Fleet.Account
import Resharding.Proofs.Fleet.Effect
import Resharding.Proofs.Topology.Lookup
import Resharding.Topology.Uniform

/-!
What a propagation comes to.

The result follows from how the update calls ended (`Propagation.verdict`), and
`Propagation.Concludes` says what follows: the propagation fails with exactly the required nodes that
are not in the cluster or did not take it, if there are any, and otherwise reports who took it and
who was skipped. `propagate_concludes` ties both to a fleet, and says that each node that is to be
called is called once.
-/

namespace Resharding

namespace Propagation

open RoundOutcome

/-- How the update calls to the nodes ended, as far as they have. -/
abbrev Ends := NodeId → Option (Except CallError Unit)

/-! ### What is to follow from the answers -/

section Spec

variable (held : Versioned Cluster) (attempt required : List NodeId) (ends : Ends)

/-- The result when the calls have ended like that. -/
def verdict : Except Error PropagationReport :=
  conclude held (.ofList required) (taken ends (bestEffort attempt (.ofList required)))
    (taken ends (members held.value (.ofList required)))

/-- A node is to be attempted, but need not take the cluster. -/
def Optional (node : NodeId) : Prop := node ∈ attempt ∧ node ∉ required

/-- A node of the cluster must take it. -/
def Obliged (node : NodeId) : Prop := node ∈ required ∧ node ∈ held.value.nodeIds

def Called (node : NodeId) : Prop := Optional attempt required node ∨ Obliged held required node

instance (node : NodeId) : Decidable (Called held attempt required node) :=
  inferInstanceAs (Decidable ((_ ∧ _) ∨ (_ ∧ _)))

def Took (node : NodeId) : Prop := ends node = some (.ok ())

/-- A required node is not in the cluster or did not take it. -/
def Failed (node : NodeId) : Prop :=
  node ∈ required ∧ node ∉ held.value.nodeIds ∨ Obliged held required node ∧ ¬ Took ends node

inductive Concludes : Except Error PropagationReport → Prop where
  | failed {nodes : List NodeId} (some : nodes ≠ []) (ascending : nodes.Pairwise (· < ·))
      (exactly : ∀ node, node ∈ nodes ↔ Failed held required ends node) :
      Concludes (.error (.notTaken held.value.text held.version nodes))
  | reported {updated skipped : List NodeId} (none : ∀ node, ¬ Failed held required ends node)
      (updatedAscending : updated.Pairwise (· < ·)) (skippedAscending : skipped.Pairwise (· < ·))
      (mem_updated : ∀ node, node ∈ updated ↔ Called held attempt required node ∧ Took ends node)
      (mem_skipped : ∀ node, node ∈ skipped ↔ Optional attempt required node ∧ ¬ Took ends node) :
      Concludes (.ok ⟨updated, skipped⟩)

end Spec

variable {held : Versioned Cluster} {attempt required nodes : List NodeId} {ends ends' : Ends}
  {node : NodeId}

/-! ### The lists -/

theorem ascending_ext {as bs : List NodeId} (ascendingA : as.Pairwise (· < ·))
    (ascendingB : bs.Pairwise (· < ·)) (same : ∀ node, node ∈ as ↔ node ∈ bs) : as = bs :=
  SortedSet.members_ext (ascendingA.imp Std.compare_eq_lt.2) (ascendingB.imp Std.compare_eq_lt.2)
    same

theorem isOk_orTimeout_iff : (orTimeout node (ends node)).isOk ↔ Took ends node := by
  refine Iff.trans ?_ (orTimeout_eq_ok_iff : orTimeout node (ends node) = .ok () ↔ _)
  cases orTimeout node (ends node) with
  | ok a => exact iff_of_true rfl rfl
  | error e => exact iff_of_false Bool.false_ne_true nofun

theorem takers_taken : takers (taken ends nodes) =
    nodes.filter fun node => (orTimeout node (ends node)).isOk := by
  simp only [takers, taken]
  rw [List.filter_map, List.map_map]
  exact List.map_id _

theorem refusers_taken : refusers (taken ends nodes) =
    nodes.filter fun node => !(orTimeout node (ends node)).isOk := by
  simp only [refusers, taken]
  rw [List.filter_map, List.map_map]
  exact List.map_id _

theorem mem_takers : node ∈ takers (taken ends nodes) ↔ node ∈ nodes ∧ Took ends node := by
  rw [takers_taken, List.mem_filter, isOk_orTimeout_iff]

theorem mem_refusers : node ∈ refusers (taken ends nodes) ↔ node ∈ nodes ∧ ¬ Took ends node := by
  rw [refusers_taken, List.mem_filter, ← isOk_orTimeout_iff, Bool.not_eq_true', Bool.not_eq_true]

theorem mem_ascending : node ∈ ascending nodes ↔ node ∈ nodes := SortedSet.mem_ofList

theorem ascending_ascending : (ascending nodes).Pairwise (· < ·) := SortedSet.toList_ascending _

theorem mem_bestEffort :
    node ∈ bestEffort attempt (.ofList required) ↔ Optional attempt required node := by
  simp only [bestEffort]
  rw [SortedSet.mem_toList, SortedSet.mem_diff, SortedSet.mem_ofList, SortedSet.mem_ofList]
  rfl

theorem ascending_bestEffort :
    (bestEffort attempt (.ofList required)).Pairwise (· < ·) := SortedSet.toList_ascending _

section Sorted

variable (sorted : held.value.nodes.Pairwise (·.id ≤ ·.id))

include sorted

theorem mem_members :
    node ∈ members held.value (.ofList required) ↔ Obliged held required node := by
  simp only [members]
  rw [List.mem_filter, SortedSet.mem_toList, SortedSet.mem_ofList, Cluster.contains_iff sorted]
  rfl

theorem mem_strangers : node ∈ strangers held.value (.ofList required) ↔
    node ∈ required ∧ node ∉ held.value.nodeIds := by
  simp only [strangers]
  rw [List.mem_filter, SortedSet.mem_toList, SortedSet.mem_ofList, ← Cluster.contains_iff sorted,
    Bool.not_eq_true', Bool.not_eq_true]

/-- The nodes that have failed, before they are sorted. -/
theorem mem_failed : node ∈ strangers held.value (.ofList required) ++
      refusers (taken ends (members held.value (.ofList required))) ↔
    Failed held required ends node := by
  rw [List.mem_append, mem_strangers sorted, mem_refusers, mem_members sorted]
  rfl

/-! ### The result -/

theorem concludes_verdict :
    Concludes held attempt required ends (verdict held attempt required ends) := by
  simp only [verdict, conclude]
  split
  · rename_i none
    refine .reported ?_ ascending_ascending ?_ ?_ ?_
    · intro node failed
      rw [← mem_failed sorted, none] at failed
      cases failed
    · rw [refusers_taken]
      exact ascending_bestEffort.filter _
    · intro node
      rw [mem_ascending, List.mem_append, mem_takers, mem_takers, mem_bestEffort,
        mem_members sorted, ← or_and_right]
      rfl
    · intro node
      rw [mem_refusers, mem_bestEffort]
  · rename_i some
    refine .failed ?_ ascending_ascending ?_
    · intro empty
      apply some
      apply List.eq_nil_iff_forall_not_mem.2
      intro node mem
      have mem' := mem_ascending.2 mem
      rw [empty] at mem'
      cases mem'
    · intro node
      rw [mem_ascending, mem_failed sorted]

end Sorted

theorem Concludes.unique {result result' : Except Error PropagationReport}
    (first : Concludes held attempt required ends result)
    (second : Concludes held attempt required ends result') : result = result' := by
  cases first with
  | failed some ascending exactly =>
    cases second with
    | failed _ ascending' exactly' =>
      rw [ascending_ext ascending ascending' fun node => (exactly node).trans (exactly' node).symm]
    | reported none =>
      obtain ⟨node, mem⟩ := List.exists_mem_of_ne_nil _ some
      exact absurd ((exactly node).1 mem) (none node)
  | reported none updatedAscending skippedAscending updated skipped =>
    cases second with
    | failed some ascending exactly =>
      obtain ⟨node, mem⟩ := List.exists_mem_of_ne_nil _ some
      exact absurd ((exactly node).1 mem) (none node)
    | reported _ updatedAscending' skippedAscending' updated' skipped' =>
      rw [ascending_ext updatedAscending updatedAscending' fun node =>
          (updated node).trans (updated' node).symm,
        ascending_ext skippedAscending skippedAscending' fun node =>
          (skipped node).trans (skipped' node).symm]

theorem verdict_eq_iff (sorted : held.value.nodes.Pairwise (·.id ≤ ·.id))
    {result : Except Error PropagationReport} :
    verdict held attempt required ends = result ↔ Concludes held attempt required ends result := by
  constructor
  · rintro rfl
    exact concludes_verdict sorted
  · exact (concludes_verdict sorted).unique

/-! ### Consequences -/

/-- Every node that was named is reported, and in one list only. -/
theorem Concludes.partition {report : PropagationReport}
    (concludes : Concludes held attempt required ends (.ok report)) (node : NodeId) :
    (node ∈ attempt ∨ node ∈ required ↔ node ∈ report.updated ∨ node ∈ report.skipped) ∧
      ¬ (node ∈ report.updated ∧ node ∈ report.skipped) := by
  cases concludes with
  | reported none _ _ updated skipped =>
    rw [updated, skipped]
    refine ⟨⟨?_, ?_⟩, fun both => both.2.2 both.1.2⟩
    · intro named
      by_cases must : node ∈ required
      · have member : node ∈ held.value.nodeIds := by
          by_contra stranger
          exact none node (.inl ⟨must, stranger⟩)
        have took : Took ends node := by
          by_contra missed
          exact none node (.inr ⟨⟨must, member⟩, missed⟩)
        exact .inl ⟨.inr ⟨must, member⟩, took⟩
      · have optional : Optional attempt required node := ⟨named.resolve_right must, must⟩
        by_cases took : Took ends node
        · exact .inl ⟨.inl optional, took⟩
        · exact .inr ⟨optional, took⟩
    · rintro (⟨optional | obliged, -⟩ | ⟨optional, -⟩)
      · exact .inl optional.1
      · exact .inr obliged.1
      · exact .inl optional.1

/-- Only required nodes decide on failure. -/
theorem Concludes.error_congr (same : ∀ node ∈ required, ends node = ends' node) {e : Error}
    (concludes : Concludes held attempt required ends (.error e)) :
    Concludes held attempt required ends' (.error e) := by
  cases concludes with
  | failed some ascending exactly =>
    refine .failed some ascending fun node => (exactly node).trans (or_congr_right ?_)
    apply and_congr_right
    intro obliged
    simp only [Took]
    rw [same node obliged.1]

end Propagation

namespace Fleet

open Propagation

variable {f : Fleet} {settings : Settings} {held : Versioned Cluster}
  {attempt required : List NodeId} {node : NodeId}

/-- The fleet after the first of the two rounds. -/
def attempted (f : Fleet) (settings : Settings) (held : Versioned Cluster)
    (attempt required : List NodeId) : Fleet :=
  (f.callRound settings (.update held) (bestEffort attempt (.ofList required))).2

/-- What the update calls of both rounds ended with, as far as they have. -/
def updateEnds (f : Fleet) (settings : Settings) (held : Versioned Cluster)
    (attempt required : List NodeId) : Propagation.Ends := fun node =>
  if node ∈ required then
    (f.attempted settings held attempt required).ends settings (.update held)
      (members held.value (.ofList required)) node
  else f.ends settings (.update held) (bestEffort attempt (.ofList required)) node

theorem snd_propagate : (f.propagate settings held attempt required).2 =
    ((f.attempted settings held attempt required).callRound settings (.update held)
      (members held.value (.ofList required))).2 := rfl

theorem updateEnds_of_mem (must : node ∈ required) :
    f.updateEnds settings held attempt required node =
      (f.attempted settings held attempt required).ends settings (.update held)
        (members held.value (.ofList required)) node := if_pos must

theorem updateEnds_of_not_mem (free : node ∉ required) :
    f.updateEnds settings held attempt required node =
      f.ends settings (.update held) (bestEffort attempt (.ofList required)) node := if_neg free

theorem mem_of_mem_members (mem : node ∈ members held.value (.ofList required)) :
    node ∈ required :=
  SortedSet.mem_ofList.1 (List.mem_filter.1 mem).1

theorem not_mem_bestEffort (must : node ∈ required) :
    node ∉ bestEffort attempt (.ofList required) :=
  fun mem => (mem_bestEffort.1 mem).2 must

theorem nodup_bestEffort : (bestEffort attempt (.ofList required)).Nodup :=
  SortedSet.nodup_toList _

theorem nodup_members : (members held.value (.ofList required)).Nodup :=
  (SortedSet.nodup_toList _).filter _

theorem consistent_attempted (ok : f.view.Consistent) :
    (f.attempted settings held attempt required).view.Consistent := consistent_callRound ok

theorem consistent_propagate (ok : f.view.Consistent) :
    (f.propagate settings held attempt required).2.view.Consistent :=
  consistent_callRound (consistent_attempted ok)

theorem fst_propagate : (f.propagate settings held attempt required).1 =
    conclude held (.ofList required)
      ((f.callRound settings (.update held) (bestEffort attempt (.ofList required))).1.takeAll
        (bestEffort attempt (.ofList required)))
      (((f.attempted settings held attempt required).callRound settings (.update held)
        (members held.value (.ofList required))).1.takeAll
        (members held.value (.ofList required))) := by
  simp only [propagate, attempted]

theorem propagate_eq (ok : f.view.Consistent) :
    (f.propagate settings held attempt required).1 =
      verdict held attempt required (f.updateEnds settings held attempt required) := by
  have optional : ∀ node ∈ bestEffort attempt (.ofList required),
      f.updateEnds settings held attempt required node =
        f.ends settings (.update held) (bestEffort attempt (.ofList required)) node :=
    fun _ mem => updateEnds_of_not_mem (mem_bestEffort.1 mem).2
  have obliged : ∀ node ∈ members held.value (.ofList required),
      f.updateEnds settings held attempt required node =
        (f.attempted settings held attempt required).ends settings (.update held)
          (members held.value (.ofList required)) node :=
    fun _ mem => updateEnds_of_mem (mem_of_mem_members mem)
  simp only [verdict]
  rw [fst_propagate, takeAll_callRound ok nodup_bestEffort,
    takeAll_callRound (consistent_attempted ok) nodup_members, RoundOutcome.taken_congr optional,
    RoundOutcome.taken_congr obliged]

/-- From a fleet without calls under way, both rounds are accounted for. -/
theorem Quiet.tracked_propagate (quiet : f.Quiet) :
    Tracked f.view (f.propagate settings held attempt required).2 := by
  have fresh (node : NodeId) (i : Nat) (young : f.view.campaigns.length ≤ i) :
      f.view.task? i node = none := View.task?_of_length_le young
  have first : Tracked f.view (f.attempted settings held attempt required) :=
    quiet.tracked.callRound fun node _ i => fresh node i
  apply first.callRound
  intro node mem i young
  exact task?_callRound_eq_none quiet.consistent (fresh node i young)
    fun _ => not_mem_bestEffort (mem_of_mem_members mem)

/-- No call is under way after a propagation of which no call is abandoned. -/
theorem Quiet.propagate (quiet : f.Quiet)
    (optional : ∀ node ∈ bestEffort attempt (.ofList required),
      f.updateEnds settings held attempt required node ≠ none)
    (obliged : ∀ node ∈ members held.value (.ofList required),
      f.updateEnds settings held attempt required node ≠ none) :
    (f.propagate settings held attempt required).2.Quiet := by
  have first : Over f.view (f.attempted settings held attempt required) := by
    apply (over_self f).callRound quiet.consistent
    intro node mem
    rw [← updateEnds_of_not_mem (mem_bestEffort.1 mem).2]
    exact optional node mem
  have second : Over f.view ((f.attempted settings held attempt required).callRound settings
      (.update held) (members held.value (.ofList required))).2 := by
    apply first.callRound (consistent_attempted quiet.consistent)
    intro node mem
    rw [← updateEnds_of_mem (mem_of_mem_members mem)]
    exact obliged node mem
  exact quiet.tracked_propagate.quiet second

theorem tally_propagate (ok : f.view.Consistent) (settings : Settings)
    (sorted : held.value.nodes.Pairwise (·.id ≤ ·.id)) (attempt required : List NodeId)
    (node : NodeId) :
    (f.propagate settings held attempt required).2.view.tally .updateCluster node =
        f.view.tally .updateCluster node +
          (if Called held attempt required node then 1 else 0) ∧
      (node ∉ f.crashing → (f.propagate settings held attempt required).2.view.broken
        .updateCluster node = f.view.broken .updateCluster node) := by
  obtain ⟨tally, broken⟩ := tally_callRound ok settings (.update held)
    (bestEffort attempt (.ofList required)) .updateCluster node
  obtain ⟨tally', broken'⟩ := tally_callRound (consistent_attempted ok) settings (.update held)
    (members held.value (.ofList required)) .updateCluster node
  have crashing : (f.attempted settings held attempt required).crashing = f.crashing :=
    (follows_callRound ok).crashing
  constructor
  · have first : (f.attempted settings held attempt required).view.tally .updateCluster node = _ :=
      tally
    rw [snd_propagate, tally', first]
    by_cases optional : Optional attempt required node
    · have free : ¬ Obliged held required node := fun obliged => optional.2 obliged.1
      rw [if_pos ⟨rfl, mem_bestEffort.2 optional⟩,
        if_neg fun both => free ((mem_members sorted).1 both.2),
        if_pos (show Called held attempt required node from .inl optional)]
    · rw [if_neg fun both => optional (mem_bestEffort.1 both.2)]
      by_cases obliged : Obliged held required node
      · rw [if_pos ⟨rfl, (mem_members sorted).2 obliged⟩,
          if_pos (show Called held attempt required node from .inr obliged)]
      · rw [if_neg fun both => obliged ((mem_members sorted).1 both.2),
          if_neg fun called : Called held attempt required node => called.elim optional obliged]
  · intro sound
    rw [snd_propagate, broken' (crashing ▸ sound)]
    exact broken sound

/-- Between quiet fleets, what has been begun and did not break down has been made. -/
theorem made_propagate (quiet : f.Quiet) (sorted : held.value.nodes.Pairwise (·.id ≤ ·.id))
    (after : (f.propagate settings held attempt required).2.Quiet) (sound : node ∉ f.crashing) :
    (f.propagate settings held attempt required).2.view.made .updateCluster node =
      f.view.made .updateCluster node + if Called held attempt required node then 1 else 0 := by
  obtain ⟨tally, broken⟩ := tally_propagate quiet.consistent settings sorted attempt required node
  simp only [View.tally] at tally
  rw [quiet.due, after.due, broken sound] at tally
  omega

/-- Propagating concludes as the ends of the calls say, whatever calls of earlier rounds go on. One
call is begun to each node that is to be called, and to no other. -/
theorem propagate_concludes (reachable : f.Reachable) (settings : Settings)
    (held : Versioned Cluster) (sorted : held.value.nodes.Pairwise (·.id ≤ ·.id))
    (attempt required : List NodeId) :
    (f.propagate settings held attempt required).1 =
        verdict held attempt required (f.updateEnds settings held attempt required) ∧
      (∀ node, (f.propagate settings held attempt required).2.view.tally .updateCluster node =
        f.view.tally .updateCluster node +
          if Called held attempt required node then 1 else 0) ∧
      (f.Quiet → (∀ node, Called held attempt required node →
          f.updateEnds settings held attempt required node ≠ none) →
        (f.propagate settings held attempt required).2.Quiet ∧ ∀ node, node ∉ f.crashing →
          (f.propagate settings held attempt required).2.view.made .updateCluster node =
            f.view.made .updateCluster node +
              if Called held attempt required node then 1 else 0) ∧
      (∀ ends result, verdict held attempt required ends = result ↔
        Concludes held attempt required ends result) ∧
      (∀ ends report, verdict held attempt required ends = .ok report → ∀ node,
        (node ∈ attempt ∨ node ∈ required ↔ node ∈ report.updated ∨ node ∈ report.skipped) ∧
          ¬ (node ∈ report.updated ∧ node ∈ report.skipped)) ∧
      ∀ ends ends' : Propagation.Ends, (∀ node ∈ required, ends node = ends' node) → ∀ e,
        verdict held attempt required ends = .error e ↔
          verdict held attempt required ends' = .error e := by
  refine ⟨propagate_eq reachable.consistent,
    fun node => (tally_propagate reachable.consistent settings sorted attempt required node).1,
    fun quiet all => ?_,
    fun ends result => verdict_eq_iff sorted, fun ends report same => ?_,
    fun ends ends' agree e => ?_⟩
  · have after := quiet.propagate (fun node mem => all node (.inl (mem_bestEffort.1 mem)))
      fun node mem => all node (.inr ((mem_members sorted).1 mem))
    exact ⟨after, fun node sound => made_propagate quiet sorted after sound⟩
  · exact ((verdict_eq_iff sorted).1 same).partition
  · rw [verdict_eq_iff sorted, verdict_eq_iff sorted]
    exact ⟨fun fails => fails.error_congr agree,
      fun fails => fails.error_congr fun node mem => (agree node mem).symm⟩

/-- Three nodes of which the second refuses updates. -/
def reluctant : Fleet := (holding (.uniform 3 1)).refuseUpdates 1

/-- A newer version of their cluster, of twice as many partitions. -/
def doubled : Versioned Cluster := ⟨.uniform 3 2, .increment .empty 0 7⟩

/-- A propagation fails with a member that refuses the update and a stranger, though two other nodes
take it. -/
theorem propagate_concludes_partly :
    Concludes doubled [0, 8] [2, 1, 9, 1] (reluctant.updateEnds {} doubled [0, 8] [2, 1, 9, 1])
      (.error (.notTaken doubled.value.text doubled.version [1, 9])) := by
  have reachable : reluctant.Reachable := .adjust (.fresh 0 _ none .empty) 1 _
  have sorted : doubled.value.nodes.Pairwise (·.id ≤ ·.id) := by decide +kernel
  have concludes := propagate_concludes reachable {} doubled sorted [0, 8] [2, 1, 9, 1]
  refine (concludes.2.2.2.1 _ _).1 (concludes.1.symm.trans ?_)
  rfl

end Fleet

end Resharding
