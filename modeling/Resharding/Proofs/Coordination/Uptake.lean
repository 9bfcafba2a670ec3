import Resharding.Proofs.Coordination.Propagation

/-!
What the nodes hold after a propagation.

A node whose call ended well holds the cluster that was given, and a node whose call ended otherwise,
or that was not called, is as it was (`stored?_of_took`, `get?_of_refused`, `get?_of_not_called`).
This is so whether or not the propagation failed, as nothing is taken back (`propagate_uptake`). Only
of a node whose call was abandoned nothing is known: the call may still arrive.
-/

namespace Resharding.Fleet

open Propagation

variable {f : Fleet} {settings : Settings} {held : Versioned Cluster}
  {attempt required : List NodeId} {node : NodeId}

/-! ### From answers to tasks -/

/-- The task behind an answer, as it is after both rounds. -/
theorem exists_task_of_updateEnds (ok : f.view.Consistent) {answer : Except CallError Unit}
    (ended : f.updateEnds settings held attempt required node = some answer) :
    ∃ i task, f.campaigns.length ≤ i ∧
      (f.propagate settings held attempt required).2.view.request? i = some (.update held) ∧
      (f.propagate settings held attempt required).2.view.task? i node = some task ∧
      (task = .crashed ∧ answer = .error (.remote (.taskFailed (f.reason node))) ∨
        ∃ found, task = .finished found ∧ answer = (Request.update held).answer node found) := by
  have ok' : (f.attempted settings held attempt required).view.Consistent := consistent_attempted ok
  have grown : (f.attempted settings held attempt required).campaigns.length =
      f.campaigns.length + 1 :=
    (follows_callRound ok).length.trans (List.length_append ..)
  by_cases must : node ∈ required
  · rw [updateEnds_of_mem must] at ended
    obtain ⟨task, here, -, kind⟩ := exists_task_of_ends ok' ended
    have kept : (f.attempted settings held attempt required).reason = f.reason :=
      (follows_callRound ok).reason
    rw [kept] at kind
    have young : f.campaigns.length ≤
        (f.attempted settings held attempt required).campaigns.length :=
      Nat.le_trans (Nat.le_succ _) (Nat.le_of_eq grown.symm)
    exact ⟨_, task, young, request?_callRound ok', here, kind⟩
  · rw [updateEnds_of_not_mem must] at ended
    obtain ⟨task, here, done, kind⟩ := exists_task_of_ends ok ended
    exact ⟨_, task, Nat.le_refl _, request?_callRound_of_some ok' (request?_callRound ok),
      task?_callRound ok' here done, kind⟩

theorem task?_propagate_eq_none (ok : f.view.Consistent)
    (free : node ∉ bestEffort attempt (.ofList required))
    (spared : node ∉ members held.value (.ofList required)) {i : Nat}
    (young : f.campaigns.length ≤ i) :
    (f.propagate settings held attempt required).2.view.task? i node = none :=
  task?_callRound_eq_none (consistent_attempted ok)
    (task?_callRound_eq_none ok (View.task?_of_length_le young) fun _ => free) fun _ => spared

/-! ### From tasks to records -/

/-- An update is answered well by a server that does not refuse it. -/
theorem exists_server_of_answer {found : Except CallError Server}
    (answer : (Request.update held).answer node found = .ok ()) :
    ∃ s, found = .ok s ∧ s.refusesUpdates = false := by
  cases found with
  | error e => cases answer
  | ok s =>
    refine ⟨s, rfl, Bool.eq_false_iff.2 fun refuses => ?_⟩
    have refused : (Request.update held).reply node s = .error _ := if_pos refuses
    exact nomatch answer.symm.trans refused

theorem stored?_of_took (quiet : f.Quiet)
    (took : f.updateEnds settings held attempt required node = some (.ok ())) :
    (f.propagate settings held attempt required).2.stored? node = some held := by
  obtain ⟨i, task, young, request, here, ⟨-, crashed⟩ | ⟨found, rfl, answer⟩⟩ :=
    exists_task_of_updateEnds quiet.consistent took
  · cases crashed
  · obtain ⟨s, rfl, takes⟩ := exists_server_of_answer answer.symm
    obtain ⟨-, -, now⟩ := quiet.tracked_propagate.since.found young request here
    have effect : (Request.update held).effect s = { s with cluster := some held } :=
      if_neg (Bool.eq_false_iff.1 takes)
    rw [effect] at now
    simp only [stored?]
    rw [show (f.propagate settings held attempt required).2.servers.get? node = _ from now]
    rfl

theorem get?_of_refused (quiet : f.Quiet) {e : CallError}
    (refused : f.updateEnds settings held attempt required node = some (.error e)) :
    (f.propagate settings held attempt required).2.servers.get? node = f.servers.get? node := by
  have tracked : Tracked f.view (f.propagate settings held attempt required).2 :=
    quiet.tracked_propagate
  obtain ⟨i, task, young, request, here, kind⟩ :=
    exists_task_of_updateEnds quiet.consistent refused
  by_cases hit : ∃ s, task = .finished (.ok s)
  · obtain ⟨s, rfl⟩ := hit
    obtain ⟨was, -, now⟩ := tracked.since.found young request here
    have refuses : s.refusesUpdates := by
      rcases kind with ⟨crashed, -⟩ | ⟨found, same, answer⟩
      · cases crashed
      · cases same
        by_contra takes
        have took : (Request.update held).reply node s = .ok () := if_neg takes
        exact nomatch answer.trans took
    have effect : (Request.update held).effect s = s := if_pos refuses
    rw [effect] at now
    exact now.trans was.symm
  · rw [not_exists] at hit
    exact tracked.since.spared (tracked.since.spares young here hit)

theorem get?_of_not_called (quiet : f.Quiet)
    (free : node ∉ bestEffort attempt (.ofList required))
    (spared : node ∉ members held.value (.ofList required)) :
    (f.propagate settings held attempt required).2.servers.get? node = f.servers.get? node := by
  apply quiet.tracked_propagate.since.spared
  intro i s young ended
  rw [task?_propagate_eq_none quiet.consistent free spared young] at ended
  cases ended

/-! ### From results to answers -/

/-- Members that a failed propagation does not name took the cluster. -/
theorem took_of_not_named {ends : Propagation.Ends} {text : String} {version : Clock}
    {nodes : List NodeId} (fails : verdict held attempt required ends =
      .error (.notTaken text version nodes)) (must : node ∈ required)
    (member : held.value.contains node) (unnamed : node ∉ nodes) : Took ends node := by
  simp only [verdict, conclude] at fails
  split at fails
  · cases fails
  · cases fails
    by_contra missed
    have inMembers : node ∈ members held.value (.ofList required) :=
      List.mem_filter.2 ⟨SortedSet.mem_ofList.2 must, member⟩
    exact unnamed (mem_ascending.2 (List.mem_append_right _ (mem_refusers.2 ⟨inMembers, missed⟩)))

theorem took_of_mem_updated {ends : Propagation.Ends} {report : PropagationReport}
    (done : verdict held attempt required ends = .ok report) (mem : node ∈ report.updated) :
    Took ends node := by
  simp only [verdict, conclude] at done
  split at done
  · cases done
    rcases List.mem_append.1 (mem_ascending.1 mem) with mem | mem
    · exact (mem_takers.1 mem).2
    · exact (mem_takers.1 mem).2
  · cases done

/-- What a propagation does to the servers, from a fleet without calls under way. -/
theorem propagate_uptake (quiet : f.Quiet) (settings : Settings) (held : Versioned Cluster)
    (attempt required : List NodeId) :
    (∀ node, f.updateEnds settings held attempt required node = some (.ok ()) →
        (f.propagate settings held attempt required).2.stored? node = some held) ∧
      (∀ node e, f.updateEnds settings held attempt required node = some (.error e) →
        (f.propagate settings held attempt required).2.servers.get? node = f.servers.get? node) ∧
      (∀ node, (node ∈ required → held.value.contains node = false) →
        (node ∈ attempt → node ∈ required) →
        (f.propagate settings held attempt required).2.servers.get? node = f.servers.get? node) ∧
      (∀ node, ((f.propagate settings held attempt required).2.servers.get? node).map
          (fun s => { s with cluster := none }) =
        (f.servers.get? node).map fun s => { s with cluster := none }) ∧
      (∀ text version failed, (f.propagate settings held attempt required).1 =
          .error (.notTaken text version failed) →
        ∀ node ∈ required, held.value.contains node → node ∉ failed →
          (f.propagate settings held attempt required).2.stored? node = some held) ∧
      ∀ report, (f.propagate settings held attempt required).1 = .ok report →
        ∀ node ∈ report.updated,
          (f.propagate settings held attempt required).2.stored? node = some held := by
  refine ⟨fun node => stored?_of_took quiet, fun node e => get?_of_refused quiet, ?_,
    quiet.tracked_propagate.besides, ?_, ?_⟩
  · intro node stranger free
    apply get?_of_not_called quiet
    · intro mem
      have optional := mem_bestEffort.1 mem
      exact optional.2 (free optional.1)
    · intro mem
      have member := (List.mem_filter.1 mem).2
      rw [stranger (mem_of_mem_members mem)] at member
      cases member
  · intro text version failed fails node must member unnamed
    rw [propagate_eq quiet.consistent] at fails
    exact stored?_of_took quiet (took_of_not_named fails must member unnamed)
  · intro report done node mem
    rw [propagate_eq quiet.consistent] at done
    exact stored?_of_took quiet (took_of_mem_updated done mem)

/-- After a propagation that fails, the required member that is not named stores the new version, and
the one that refused it is as it was. -/
theorem propagate_uptake_partly :
    reluctant.Quiet ∧
      (reluctant.propagate {} doubled [0, 8] [2, 1, 9, 1]).2.stored? 2 = some doubled ∧
      (reluctant.propagate {} doubled [0, 8] [2, 1, 9, 1]).2.servers.get? 1 =
        reluctant.servers.get? 1 := by
  have quiet : reluctant.Quiet := ⟨rfl, rfl⟩
  obtain ⟨-, refused, -, -, failed, -⟩ :=
    propagate_uptake quiet {} doubled [0, 8] [2, 1, 9, 1]
  refine ⟨quiet, failed doubled.value.text doubled.version [1, 9] ?_ 2 ?_ ?_ ?_,
    refused 1 (.rejected (.clusterUpdates 1)) ?_⟩
  · rfl
  · decide
  · rfl
  · decide
  · rfl

end Resharding.Fleet
