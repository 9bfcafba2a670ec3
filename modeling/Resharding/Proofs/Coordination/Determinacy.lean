import Resharding.Proofs.Coordination.Resolution
import Resharding.Topology.Uniform

/-!
Resolutions of the same versions.

Which node holds which version has no part in what a resolution comes to. Whether it ends in a conflict
depends on the versions that are answered alone (`exists_conflict_iff`), and where it does not, the
version it returns is the least one that is at least all of them (`exists_latest_eq_ok`), of which
there is one up to equality (`latestCluster_determined`).
-/

namespace Resharding

namespace Resolution

variable {bootstrap : Cluster} {required required' : List NodeId} {ends ends' : Ends}

section Spec

variable (bootstrap : Cluster) (required : List NodeId) (ends : Ends)

/-- The counters of the answered versions, one version for each node that answers. -/
def counted : List (NodeId → UInt64) :=
  (answers ends (asked bootstrap required)).map fun e => e.2.version.counter

end Spec

theorem mem_counted {counter : NodeId → UInt64} :
    counter ∈ counted bootstrap required ends ↔
      ∃ node held, Answers bootstrap required ends node held ∧ held.version.counter = counter := by
  simp only [counted, List.mem_map, Prod.exists]
  simp only [mem_answers_asked]

/-- Where the same counters are answered, every answer has its like. -/
theorem exists_answer_of_subset
    (sub : counted bootstrap required ends ⊆ counted bootstrap required' ends') {node : NodeId}
    {held : Versioned Cluster} (answer : Answers bootstrap required ends node held) :
    ∃ node' held', Answers bootstrap required' ends' node' held' ∧
      held'.version.counter = held.version.counter :=
  mem_counted.1 (sub (mem_counted.2 ⟨node, held, answer, rfl⟩))

/-! ### Conflicts -/

/-- There is a conflict if any two answers were written independently, whichever nodes they are of. -/
theorem exists_conflict_iff :
    (∃ i j, Conflict bootstrap required ends i j) ↔
      ∃ i a j b, Answers bootstrap required ends i a ∧ Answers bootstrap required ends j b ∧
        a.version.relation b.version = .concurrent := by
  constructor
  · rintro ⟨i, j, -, a, b, ofI, ofJ, independent⟩
    exact ⟨i, a, j, b, ofI, ofJ, independent⟩
  · rintro ⟨i, a, j, b, ofI, ofJ, independent⟩
    have apart : i ≠ j := by
      rintro rfl
      cases ofI.2.symm.trans ofJ.2
      exact (Clock.relation_eq_concurrent_iff.1 independent).1 (Clock.le_refl _)
    rcases UInt64.lt_or_lt_of_ne apart with less | greater
    · exact ⟨i, j, less, a, b, ofI, ofJ, independent⟩
    · refine ⟨j, i, greater, b, a, ofJ, ofI, ?_⟩
      rw [Clock.relation_swap, independent]
      rfl

/-- A conflict among some answers is one among all answers with the same counters. -/
theorem exists_conflict_of_subset
    (sub : counted bootstrap required ends ⊆ counted bootstrap required' ends')
    (conflict : ∃ i j, Conflict bootstrap required ends i j) :
    ∃ i j, Conflict bootstrap required' ends' i j := by
  obtain ⟨i, a, j, b, ofI, ofJ, independent⟩ := exists_conflict_iff.1 conflict
  obtain ⟨i', a', ofI', sameA⟩ := exists_answer_of_subset sub ofI
  obtain ⟨j', b', ofJ', sameB⟩ := exists_answer_of_subset sub ofJ
  refine exists_conflict_iff.2 ⟨i', a', j', b', ofI', ofJ', ?_⟩
  rw [Clock.relation_congr (congrFun sameA) (congrFun sameB)]
  exact independent

theorem exists_latest_eq_conflict (answered : ∀ node, ¬ Missing required ends node)
    (conflict : ∃ i j, Conflict bootstrap required ends i j) :
    ∃ i u j v, latest bootstrap required ends = .error (.versionConflict i u j v) := by
  obtain ⟨i, j, conflict⟩ := conflict
  obtain ⟨result, settles⟩ := exists_settles bootstrap required ends
  rw [latest_eq_of_settles settles]
  cases settles with
  | missing first => exact absurd first.1 (answered _)
  | conflict => exact ⟨_, _, _, _, rfl⟩
  | newest _ agreed => exact absurd conflict (agreed i j)
  | unwritten _ agreed => exact absurd conflict (agreed i j)

/-! ### The least version that is at least all -/

/-- The version of the result is at most another one exactly if all answered versions are. -/
theorem exists_latest_eq_ok (answered : ∀ node, ¬ Missing required ends node)
    (agreed : ∀ i j, ¬ Conflict bootstrap required ends i j) :
    ∃ held, latest bootstrap required ends = .ok held ∧ ∀ bound : Clock,
      held.version ≤ bound ↔
        ∀ node v, Answers bootstrap required ends node v → v.version ≤ bound := by
  refine ⟨_, latest_of_agreed answered agreed, fun bound => ?_⟩
  rcases newest_of_ascending bootstrap (ascending_answers ascending_asked) (agreed_answers agreed)
    with ⟨same, below⟩ | ⟨node, held, mem, same, -, top, -⟩
  · rw [same]
    refine iff_of_true (Clock.empty_le bound) fun node v answer => ?_
    exact Clock.le_trans (below _ (mem_answers_asked.2 answer)) (Clock.empty_le bound)
  · rw [same]
    constructor
    · intro le other v answer
      exact Clock.le_trans (top _ (mem_answers_asked.2 answer)) le
    · intro all
      exact all node held (mem_answers_asked.1 mem)

/-- What bounds some answered versions bounds those with the same counters. -/
theorem bounds_of_subset {bound : Clock}
    (sub : counted bootstrap required ends ⊆ counted bootstrap required' ends')
    (all : ∀ node v, Answers bootstrap required' ends' node v → v.version ≤ bound) :
    ∀ node v, Answers bootstrap required ends node v → v.version ≤ bound := by
  intro node v answer
  obtain ⟨node', v', answer', same⟩ := exists_answer_of_subset sub answer
  intro writer
  rw [← congrFun same writer]
  exact all node' v' answer' writer

end Resolution

namespace Fleet

open Resolution

/-- Two resolutions for one bootstrap cluster in which all required nodes answer, and the versions that
are answered have the same counters, whatever nodes answer them and with whatever clusters and time
stamps, both end in a conflict, or both return versions that are equal. -/
theorem latestCluster_determined (bootstrap : Cluster) :
    (∀ f : Fleet, f.Reachable → ∀ settings required,
      (f.latestCluster settings bootstrap required).1 =
        latest bootstrap required (f.ends settings .cluster (asked bootstrap required))) ∧
    ∀ (required required' : List NodeId) (ends ends' : Ends),
      (∀ node ∈ required, ∃ held, ends node = some (.ok held)) →
      (∀ node ∈ required', ∃ held, ends' node = some (.ok held)) →
      (counted bootstrap required ends).Perm (counted bootstrap required' ends') →
      ((∃ i u j v, latest bootstrap required ends = .error (.versionConflict i u j v)) ∧
        ∃ i u j v, latest bootstrap required' ends' = .error (.versionConflict i u j v)) ∨
      ∃ held held', latest bootstrap required ends = .ok held ∧
        latest bootstrap required' ends' = .ok held' ∧
        held.version.relation held'.version = .equal := by
  refine ⟨fun f reachable settings required => latestCluster_eq reachable.consistent, ?_⟩
  intro required required' ends ends' answers answers' same
  have forth : counted bootstrap required ends ⊆ counted bootstrap required' ends' := same.subset
  have back : counted bootstrap required' ends' ⊆ counted bootstrap required ends :=
    same.symm.subset
  have answered : ∀ node, ¬ Missing required ends node := by
    rintro node ⟨mem, unanswered⟩
    obtain ⟨held, answer⟩ := answers node mem
    exact unanswered held answer
  have answered' : ∀ node, ¬ Missing required' ends' node := by
    rintro node ⟨mem, unanswered⟩
    obtain ⟨held, answer⟩ := answers' node mem
    exact unanswered held answer
  by_cases conflict : ∃ i j, Conflict bootstrap required ends i j
  · exact .inl ⟨exists_latest_eq_conflict answered conflict,
      exists_latest_eq_conflict answered' (exists_conflict_of_subset forth conflict)⟩
  · have agreed : ∀ i j, ¬ Conflict bootstrap required ends i j :=
      fun i j here => conflict ⟨i, j, here⟩
    have agreed' : ∀ i j, ¬ Conflict bootstrap required' ends' i j :=
      fun i j here => conflict (exists_conflict_of_subset back ⟨i, j, here⟩)
    obtain ⟨held, done, least⟩ := exists_latest_eq_ok answered agreed
    obtain ⟨held', done', least'⟩ := exists_latest_eq_ok answered' agreed'
    refine .inr ⟨held, held', done, done', Clock.relation_eq_equal_iff.2 ⟨?_, ?_⟩⟩
    · exact (least _).2 (bounds_of_subset forth ((least' _).1 (Clock.le_refl _)))
    · exact (least' _).2 (bounds_of_subset back ((least _).1 (Clock.le_refl _)))

/-- The newer of two versions is found on either node, at another time stamp and with another
cluster. -/
theorem latestCluster_determined_swapped :
    let older : Clock := ⟨.ofList [(0, 1)], 3⟩
    let newer : Clock := ⟨.ofList [(0, 1), (1, 1)], 8⟩
    let ends : Ends := fun node => some (.ok ⟨.uniform 2 1, if node = 0 then older else newer⟩)
    let ends' : Ends := fun node =>
      some (.ok ⟨.uniform 2 3, if node = 0 then ⟨newer.counters, 5⟩ else older⟩)
    ∃ held held', latest (.uniform 2 1) [0, 1] ends = .ok held ∧
      latest (.uniform 2 1) [1] ends' = .ok held' ∧
      held.version.relation held'.version = .equal := by
  intro older newer ends ends'
  have listed : counted (.uniform 2 1) [0, 1] ends = [older.counter, newer.counter] := rfl
  have listed' : counted (.uniform 2 1) [1] ends' = [newer.counter, older.counter] := rfl
  have same : (counted (.uniform 2 1) [0, 1] ends).Perm (counted (.uniform 2 1) [1] ends') := by
    rw [listed, listed']
    exact .swap _ _ _
  rcases (latestCluster_determined (.uniform 2 1)).2 [0, 1] [1] ends ends' (fun _ _ => ⟨_, rfl⟩)
    (fun _ _ => ⟨_, rfl⟩) same with ⟨⟨i, u, j, v, conflict⟩, -⟩ | agree
  · have resolved : latest (.uniform 2 1) [0, 1] ends = .ok ⟨.uniform 2 1, newer⟩ := rfl
    rw [resolved] at conflict
    cases conflict
  · exact agree

end Fleet

end Resharding
