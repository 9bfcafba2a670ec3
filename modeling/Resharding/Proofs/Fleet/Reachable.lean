import Resharding.Proofs.Fleet.CallRound

/-!
The fleets that there are.

A fleet starts with any servers, without calls under way, and then is changed and called by its
client in any order (`Fleet.Reachable`). Such a fleet is consistent (`Fleet.Reachable.consistent`),
though calls that a round has abandoned may go on in it. So the answers that are taken from a round
are those of its tasks, with a timeout for every task that has not ended
(`Fleet.takeAll_callRound`).
-/

namespace Resharding.Fleet

/-- What a fleet can come to, step by step. -/
inductive Reachable : Fleet → Prop where
  | fresh (now : Nat) (servers : SortedMap NodeId Server) (limits : Option ClientLimits)
      (crashing : SortedMap NodeId String) :
      Reachable { now, servers, crashing, permits := limits.map .full }
  | adjust {f : Fleet} (before : Reachable f) (node : NodeId) (change : Server → Server) :
      Reachable (f.adjust node change)
  | crash {f : Fleet} (before : Reachable f) (node : NodeId) (reason : String) :
      Reachable (f.crash node reason)
  | clearCalls {f : Fleet} (before : Reachable f) : Reachable f.clearCalls
  | sleep {f : Fleet} (before : Reachable f) (duration : Nat) : Reachable (f.sleep duration)
  | callAll {f : Fleet} (before : Reachable f) (calls : List Planned) :
      Reachable (f.callAll calls).2
  | callRound {f : Fleet} (before : Reachable f) (settings : Settings) (request : Request)
      (nodes : List NodeId) : Reachable (f.callRound settings request nodes).2

/-- No call is under way. -/
structure Quiet (f : Fleet) : Prop where
  ready : f.ready = []
  parked : f.parked = []

variable {f : Fleet} {settings : Settings} {request : Request} {nodes : List NodeId}

theorem Quiet.pending (quiet : f.Quiet) : f.view.pending = 0 := by
  change f.pending = 0
  simp only [Fleet.pending]
  rw [quiet.ready, quiet.parked]
  rfl

theorem quiet_of_pending (none : f.view.pending = 0) : f.Quiet := by
  have empty := List.append_eq_nil_iff.1 (Multiset.coe_eq_zero _ |>.1 none)
  exact ⟨List.map_eq_nil_iff.1 empty.1, List.map_eq_nil_iff.1 empty.2⟩

theorem Quiet.consistent (quiet : f.Quiet) : f.view.Consistent := by
  intro flight stage others eq
  rw [quiet.pending] at eq
  exact absurd eq.symm (Multiset.cons_ne_zero)

/-! ### Staying consistent -/

/-- Calls that are to be made on their own fit in anywhere. -/
theorem consistent_plan {planned : List (Flight × Wait)} (ok : f.view.Consistent)
    (single : ∀ e ∈ planned, (∃ index, e.1.caller = .direct index) ∧ ∃ time, e.2 = .start time) :
    ({ f with parked := f.parked ++ planned } : Fleet).view.Consistent := by
  induction planned generalizing f with
  | nil =>
    rw [List.append_nil]
    exact ok
  | cons e rest ih =>
    obtain ⟨flight, wait⟩ := e
    obtain ⟨⟨index, caller⟩, time, waits⟩ := single _ List.mem_cons_self
    have fits : f.view.Fits flight wait.stage := by
      refine ⟨fun i task => ?_, fun _ _ i task => ?_, fun _ _ => ?_⟩
      · cases caller.symm.trans task
      · cases caller.symm.trans task
      · cases (waits : wait = .start time)
        exact fun same => by cases same
    have first : (f.park flight wait).view.Consistent := by
      rw [view_park]
      exact View.consistent_add_iff.2 ⟨ok, fits⟩
    have whole := ih first fun e mem => single e (List.mem_cons_of_mem _ mem)
    have eq : f.parked ++ (flight, wait) :: rest = (f.park flight wait).parked ++ rest :=
      List.append_cons ..
    rw [eq]
    exact whole

theorem consistent_run {stop : Fleet → Bool} {limit : Option Nat} (ok : f.view.Consistent) :
    (f.run stop limit).view.Consistent := (events_run ok stop limit).consistent ok

theorem consistent_callAll (ok : f.view.Consistent) (calls : List Planned) :
    (f.callAll calls).2.view.Consistent := by
  simp only [callAll]
  refine View.Consistent.congr (consistent_run ?_) rfl rfl
  refine View.Consistent.congr (consistent_plan ok ?_) rfl rfl
  intro e mem
  obtain ⟨⟨c, i⟩, -, rfl⟩ := List.mem_map.1 mem
  exact ⟨⟨i, rfl⟩, _, rfl⟩

theorem consistent_callRound (ok : f.view.Consistent) :
    (f.callRound settings request nodes).2.view.Consistent :=
  (events_callRound ok settings request nodes).consistent ok.begin

/-- Every call under way is at one with its task, whatever was done before. -/
theorem Reachable.consistent (reachable : f.Reachable) : f.view.Consistent := by
  induction reachable with
  | fresh => exact Quiet.consistent ⟨rfl, rfl⟩
  | adjust _ node change ih => exact ih.congr rfl rfl
  | crash _ node reason ih => exact ih.congr rfl rfl
  | clearCalls _ ih => exact ih.congr rfl rfl
  | sleep _ duration ih => exact (consistent_run ih).congr rfl rfl
  | callAll _ calls ih => exact consistent_callAll ih calls
  | callRound _ settings request nodes ih => exact consistent_callRound ih

/-! ### Taking the answers -/

/-- What the calls of a round ended with, as far as they have. -/
def ends (f : Fleet) (settings : Settings) (request : Request) (nodes : List NodeId)
    (node : NodeId) : Option (Except CallError request.Reply) :=
  (f.callRound settings request nodes).1.completed.get? node

/-- The answers of a round are the ends of its calls, or timeouts. -/
theorem takeAll_callRound (ok : f.view.Consistent) (distinct : nodes.Nodup) :
    (f.callRound settings request nodes).1.takeAll nodes =
      RoundOutcome.taken (f.ends settings request nodes) nodes := by
  obtain ⟨c, -, -, follows, eq⟩ := callRound_spec ok settings request nodes
  apply RoundOutcome.takeAll_eq distinct
  intro node mem
  rw [eq, RoundOutcome.completed_map, Option.map_eq_none_iff]
  refine Round.mem_abandoned_iff.trans (and_iff_right ?_)
  rw [follows.keys]
  exact Round.mem_keys_start.2 mem

/-- A call that has ended is that of a task that has ended, and answers what the task found. -/
theorem exists_task_of_ends (ok : f.view.Consistent) {node : NodeId}
    {answer : Except CallError request.Reply}
    (ended : f.ends settings request nodes node = some answer) :
    ∃ task, (f.callRound settings request nodes).2.view.task? f.campaigns.length node = some task ∧
      task.hasEnded ∧
      (task = .crashed ∧ answer = .error (.remote (.taskFailed (f.reason node))) ∨
        ∃ found, task = .finished found ∧ answer = request.answer node found) := by
  obtain ⟨c, found, -, -, eq⟩ := callRound_spec ok settings request nodes
  simp only [ends] at ended
  rw [eq, RoundOutcome.completed_map, Round.get?_completed] at ended
  obtain ⟨result, reports, rfl⟩ := Option.map_eq_some_iff.1 ended
  obtain ⟨task, here, reported⟩ := Option.bind_eq_some_iff.1 reports
  have same : (f.callRound settings request nodes).2.view.task? f.campaigns.length node =
      some task := Option.bind_eq_some_iff.2 ⟨c, found, here⟩
  refine ⟨task, same, ?_⟩
  cases task with
  | waiting => cases reported
  | running => cases reported
  | finished result' =>
    cases reported
    exact ⟨rfl, .inr ⟨_, rfl, rfl⟩⟩
  | crashed =>
    obtain ⟨-, same⟩ := Option.ite_none_right_eq_some.1 reported
    cases same
    exact ⟨rfl, .inl ⟨rfl, rfl⟩⟩

end Resharding.Fleet
