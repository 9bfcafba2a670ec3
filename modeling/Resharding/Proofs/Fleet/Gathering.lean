import Mathlib.Data.List.Induction
import Resharding.Proofs.Fleet.Reachable

/-!
Rounds move by move.

While a round goes on, its tasks get slots, finish and break down in any order; at the same time the
tasks are awaited one after the other until the time is up, and at some later moment the results
that are there are taken (`Gathering.step?`). Nothing that the tasks do is tied to what has been
awaited: a task may end unnoticed after the time is up, and go on after the results were taken.

What a course of moves has led to is told by `Gathering.Accords`, which every move keeps
(`Accords.step`): the task of a node is as far as the moves of that node tell (`Told`), and what has
been put down and taken is what the tasks report (`Reports`).
-/

namespace Resharding

/-! ### Moves -/

/-- A round that is carried out and waited for. -/
structure Gathering (α : Type) where
  round : Round α
  /-- Why the tasks of nodes break down, if they do. -/
  reason : NodeId → String
  /-- The results at hand: those of the tasks that have finished, and a fault for each awaited task
  that has broken down. -/
  results : SortedMap NodeId (Except CallError α)
  /-- The nodes whose tasks have been awaited. -/
  awaited : List NodeId
  /-- The nodes whose tasks are still to be awaited. -/
  ahead : List NodeId
  /-- What came back, once it has. -/
  outcome : Option (RoundOutcome α)

namespace Gathering

/-- Something that happens while a round is carried out or waited for. -/
inductive Move (α : Type) where
  /-- The task of a node gets a slot and makes its call. -/
  | launch (node : NodeId)
  /-- The call to a node ends with a result, which is put down. -/
  | finish (node : NodeId) (result : Except CallError α)
  /-- The task of a node breaks down. -/
  | crash (node : NodeId)
  /-- The task that is to be awaited next is seen to have ended. -/
  | await
  /-- The time is up: no further task is awaited. -/
  | giveUp
  /-- What is at hand is taken as the outcome. -/
  | collect

namespace Move

variable {α : Type}

/-- The node that a call is made to. -/
def calls? : Move α → Option NodeId
  | launch node => some node
  | _ => none

/-- Whether the call to a node ends, well or not. -/
def ends (node : NodeId) : Move α → Bool
  | finish other _ => other = node
  | crash other => other = node
  | _ => false

/-- The node whose task the move is of. -/
def node? : Move α → Option NodeId
  | launch node => some node
  | finish node _ => some node
  | crash node => some node
  | _ => none

/-- What a task does to its round. -/
def change? : Move α → Round α → Option (Round α)
  | launch node, r => r.launch? node
  | finish node result, r => r.finish? node result
  | crash node, r => r.crash? node
  | _, _ => none

end Move

variable {α : Type}

/-- A round of all distinct nodes of a list, before anything has happened. -/
def start (reason : NodeId → String) (parallelism : Nat) (nodes : List NodeId) : Gathering α where
  round := .start parallelism nodes
  reason := reason
  results := .empty
  awaited := []
  ahead := (Round.start (α := α) parallelism nodes).tasks.keys
  outcome := none

/-- What is at hand, and the nodes of which nothing is. -/
def gathered (g : Gathering α) : RoundOutcome α :=
  ⟨g.results, .ofList (g.round.tasks.keys.filter fun node => !g.results.contains node)⟩

/-- One move, if it is possible. -/
def step? (g : Gathering α) : Move α → Option (Gathering α)
  | .launch node => (g.round.launch? node).map fun round => { g with round }
  | .finish node result => (g.round.finish? node result).map fun round =>
      { g with round, results := g.results.insert node result }
  | .crash node => (g.round.crash? node).map fun round => { g with round }
  | .await =>
    match g.ahead with
    | [] => none
    | node :: rest =>
      match g.round.tasks.get? node with
      | some (.finished _) => some { g with awaited := g.awaited ++ [node], ahead := rest }
      | some .crashed => some { g with
          results := g.results.insert node (.error (.remote (.taskFailed (g.reason node))))
          awaited := g.awaited ++ [node]
          ahead := rest }
      | _ => none
  | .giveUp => some { g with ahead := [] }
  | .collect =>
    match g.ahead, g.outcome with
    | [], none => some { g with results := .empty, outcome := some g.gathered }
    | _, _ => none

/-- Moves one after the other. -/
def run? (g : Gathering α) (moves : List (Move α)) : Option (Gathering α) :=
  moves.foldlM step? g

theorem run?_cons (g : Gathering α) (m : Move α) (moves : List (Move α)) :
    g.run? (m :: moves) = (g.step? m).bind fun h => h.run? moves := List.foldlM_cons

theorem run?_append (g : Gathering α) (moves more : List (Move α)) :
    g.run? (moves ++ more) = (g.run? moves).bind fun h => h.run? more := List.foldlM_append

theorem run?_concat (g : Gathering α) (moves : List (Move α)) (m : Move α) :
    g.run? (moves ++ [m]) = (g.run? moves).bind fun h => h.step? m := by
  rw [run?_append]
  exact congrArg _ (funext fun h => bind_pure (h.step? m))

/-- The nodes that were called, each as often as it was. -/
def called (moves : List (Move α)) : List NodeId := moves.filterMap Move.calls?

/-- The nodes whose calls have not ended. -/
def inProgress (moves : List (Move α)) : List NodeId :=
  (called moves).filter fun node => !moves.any (Move.ends node)

/-! ### What the moves tell of the tasks -/

variable {reason : NodeId → String} {parallelism : Nat} {nodes : List NodeId}
  {moves : List (Move α)} {m : Move α}
  {g g' : Gathering α} {r r' : Round α} {node : NodeId}

/-- The moves that have led the task of a node to where it is. -/
def tale (node : NodeId) : Task α → List (Move α)
  | .waiting => []
  | .running => [.launch node]
  | .finished result => [.launch node, .finish node result]
  | .crashed => [.launch node, .crash node]

/-- Every task of a round is as far as the moves say, and no more of them run than may. -/
structure Told (moves : List (Move α)) (r : Round α) : Prop where
  tale : ∀ node, (moves.filter fun m => m.node? = some node) =
    ((r.tasks.get? node).map (tale node)).getD []
  within : r.runningCount ≤ r.width

theorem told_start : Told [] (Round.start (α := α) parallelism nodes) where
  tale node := by
    rw [Round.get?_start]
    split <;> rfl
  within := (Nat.le_of_eq (Round.runningCount_start _ _)).trans (Nat.zero_le _)

/-- A move of a task is the next one in the tale of its node, and in no other. -/
theorem tale_concat {old task : Task α} (told : Told moves r)
    (was : r.tasks.get? node = some old) (own : m.node? = some node)
    (next : tale node task = tale node old ++ [m]) (other : NodeId) :
    ((moves ++ [m]).filter fun m => m.node? = some other) =
      (((r.tasks.insert node task).get? other).map (tale other)).getD [] := by
  rw [List.filter_append, told.tale, SortedMap.get?_insert]
  simp only [List.filter_cons, List.filter_nil, own]
  by_cases same : other = node
  · subst same
    rw [was, if_pos rfl, if_pos (decide_eq_true rfl)]
    exact next.symm
  · have apart : ¬ decide (some node = some other) := fun eq =>
      same (Option.some.inj (of_decide_eq_true eq)).symm
    rw [if_neg same, if_neg apart, List.append_nil]

theorem Told.change (told : Told moves r) (changes : m.change? r = some r') :
    Told (moves ++ [m]) r' := by
  cases m with
  | launch node =>
    obtain ⟨waits, room, rfl⟩ := Round.launch?_eq_some_iff.1 changes
    have more := Round.runningCount_launch waits
    exact ⟨tale_concat told waits rfl rfl, (Nat.le_of_eq more).trans (of_decide_eq_true room)⟩
  | finish node result =>
    obtain ⟨runs, rfl⟩ := Round.finish?_eq_some_iff.1 changes
    have fewer := Round.runningCount_end (.finished result) runs rfl
    exact ⟨tale_concat told runs rfl rfl,
      (Nat.le_of_lt (Nat.lt_of_succ_le (Nat.le_of_eq fewer))).trans told.within⟩
  | crash node =>
    obtain ⟨runs, rfl⟩ := Round.crash?_eq_some_iff.1 changes
    have fewer := Round.runningCount_end .crashed runs rfl
    exact ⟨tale_concat told runs rfl rfl,
      (Nat.le_of_lt (Nat.lt_of_succ_le (Nat.le_of_eq fewer))).trans told.within⟩
  | _ => cases changes

theorem Told.pause (told : Told moves r) (ofNone : m.node? = none) : Told (moves ++ [m]) r := by
  refine ⟨fun node => ?_, told.within⟩
  rw [List.filter_append, told.tale]
  simp only [List.filter_cons, List.filter_nil, ofNone]
  exact List.append_nil _

theorem node?_of_calls? (calls : m.calls? = some node) : m.node? = some node := by
  cases m with
  | launch => exact calls
  | _ => cases calls

/-- What was called, as the tale of one node has it. -/
theorem count_called (moves : List (Move α)) (node : NodeId) :
    (called moves).count node =
      (called (moves.filter fun m => m.node? = some node)).count node := by
  induction moves with
  | nil => rfl
  | cons m moves ih =>
    rw [List.filter_cons]
    simp only [called] at ih ⊢
    cases calls : m.calls? with
    | none =>
      rw [List.filterMap_cons_none calls]
      split
      · rw [List.filterMap_cons_none calls, ih]
      · exact ih
    | some other =>
      rw [List.filterMap_cons_some calls, node?_of_calls? calls]
      by_cases same : other = node
      · subst same
        rw [if_pos (decide_eq_true rfl), List.filterMap_cons_some calls, List.count_cons,
          List.count_cons, ih]
      · have apart : ¬ decide (some other = some node) := fun eq =>
          same (Option.some.inj (of_decide_eq_true eq))
        rw [if_neg apart, List.count_cons_of_ne same, ih]

/-- No node is called twice. -/
theorem Told.nodup_called (told : Told moves r) : (called moves).Nodup := by
  apply List.nodup_iff_count_le_one.2
  intro node
  rw [count_called, told.tale]
  cases r.tasks.get? node with
  | none => exact Nat.zero_le 1
  | some task =>
    cases task with
    | waiting => exact Nat.zero_le 1
    | _ => exact Nat.le_of_eq List.count_singleton_self

theorem mem_called_iff : node ∈ called moves ↔ .launch node ∈ moves := by
  simp only [called]
  rw [List.mem_filterMap]
  constructor
  · rintro ⟨m, mem, calls⟩
    cases m with
    | launch other =>
      cases calls
      exact mem
    | _ => cases calls
  · intro mem
    exact ⟨_, mem, rfl⟩

theorem Told.mem (told : Told moves r) {task : Task α} (here : r.tasks.get? node = some task)
    {m : Move α} (part : m ∈ Gathering.tale node task) : m ∈ moves := by
  have mem : m ∈ moves.filter fun m => m.node? = some node := by
    rw [told.tale, here]
    exact part
  exact List.mem_of_mem_filter mem

/-- Only nodes of the round are called, and their calls are in their tales. -/
theorem Told.exists_task (told : Told moves r) (mem : node ∈ called moves) :
    ∃ task, r.tasks.get? node = some task ∧ .launch node ∈ Gathering.tale node task := by
  have launched : .launch node ∈ moves.filter fun m => m.node? = some node :=
    List.mem_filter.2 ⟨mem_called_iff.1 mem, decide_eq_true rfl⟩
  rw [told.tale] at launched
  cases here : r.tasks.get? node with
  | none =>
    rw [here] at launched
    cases launched
  | some task =>
    rw [here] at launched
    exact ⟨task, rfl, launched⟩

/-- A call that has not ended is that of a task that runs. -/
theorem Told.running (told : Told moves r) (going : node ∈ inProgress moves) :
    r.tasks.get? node = some .running := by
  obtain ⟨called, ongoing⟩ := List.mem_filter.1 going
  obtain ⟨task, here, launched⟩ := told.exists_task called
  have noEnd (m : Move α) (mem : m ∈ moves) : ¬ m.ends node := by
    intro ends
    rw [List.any_eq_true.2 ⟨m, mem, ends⟩] at ongoing
    cases ongoing
  cases task with
  | running => exact here
  | waiting => cases launched
  | finished result =>
    refine absurd (decide_eq_true rfl) (noEnd (.finish node result) ?_)
    exact told.mem here (List.mem_cons_of_mem _ List.mem_cons_self)
  | crashed =>
    refine absurd (decide_eq_true rfl) (noEnd (.crash node) ?_)
    exact told.mem here (List.mem_cons_of_mem _ List.mem_cons_self)

/-- No more calls are in progress than tasks may run. -/
theorem Told.length_inProgress_le (told : Told moves r) : (inProgress moves).length ≤ r.width := by
  let running : List NodeId := (r.tasks.toList.filter fun e => e.2.isRunning).map Prod.fst
  have within : inProgress moves ⊆ running := by
    intro node going
    exact List.mem_map.2 ⟨(node, .running),
      List.mem_filter.2 ⟨SortedMap.get?_eq_some_iff.1 (told.running going), rfl⟩, rfl⟩
  have count : running.length = r.runningCount := by
    change _ = (r.tasks.toList.map Prod.snd).countP Task.isRunning
    rw [List.length_map, List.countP_map, List.countP_eq_length_filter]
    rfl
  calc (inProgress moves).length
      ≤ running.length := (List.subperm_of_subset (told.nodup_called.filter _) within).length_le
    _ = r.runningCount := count
    _ ≤ r.width := told.within

/-! ### What is at hand -/

/-- What has been put down and taken is what the tasks report. -/
structure Reports (g : Gathering α) : Prop where
  awaited : ∀ node ∈ g.awaited, ∃ task, g.round.tasks.get? node = some task ∧ task.hasEnded
  results : g.outcome = none → ∀ node,
    g.results.get? node = (g.round.tasks.get? node).bind (Round.reportOf g.reason g.awaited node)
  /-- What was taken is what an earlier state of the round had come to. -/
  collected : ∀ o, g.outcome = some o →
    ∃ (r : Round α) (awaited : List NodeId), r.Follows g.round ∧ o = r.outcome g.reason awaited

theorem reports_start : (start (α := α) reason parallelism nodes).Reports where
  awaited _ mem := nomatch mem
  results _ node := by
    change none = ((Round.start parallelism nodes).tasks.get? node).bind _
    rw [Round.get?_start]
    split <;> rfl
  collected _ taken := nomatch taken

/-- What is at hand is what the round has come to, where the tasks awaited so far are known to have
ended. -/
theorem Reports.gathered_eq (reports : g.Reports) (open' : g.outcome = none) :
    g.gathered = g.round.outcome g.reason g.awaited := by
  have same : g.results = (g.round.outcome g.reason g.awaited).completed := by
    apply SortedMap.ext_get?
    intro node
    rw [reports.results open', Round.get?_completed]
  simp only [gathered]
  rw [same]
  rfl

/-- A task goes on, and puts down what it now reports. -/
theorem Reports.retask (reports : g.Reports) {old task : Task α}
    {results : SortedMap NodeId (Except CallError α)}
    (was : g.round.tasks.get? node = some old) (going : old.hasEnded = false)
    (others : ∀ other ≠ node, results.get? other = g.results.get? other)
    (own : node ∉ g.awaited → g.results.get? node = none →
      results.get? node = Round.reportOf g.reason g.awaited node task) :
    ({ g with round := { g.round with tasks := g.round.tasks.insert node task }, results } :
      Gathering α).Reports := by
  have follows : g.round.Follows { g.round with tasks := g.round.tasks.insert node task } :=
    Round.follows_insert was going
  refine ⟨fun other mem => ?_, fun untaken other => ?_, fun o taken => ?_⟩
  · obtain ⟨ended, here, done⟩ := reports.awaited other mem
    exact ⟨ended, follows.ended other ended here done, done⟩
  · dsimp only
    rw [SortedMap.get?_insert]
    by_cases same : other = node
    · subst same
      have unnoticed : other ∉ g.awaited := by
        intro mem
        obtain ⟨ended, here, done⟩ := reports.awaited other mem
        cases was.symm.trans here
        rw [going] at done
        cases done
      have nothing : g.results.get? other = none := by
        rw [reports.results untaken, was]
        cases old with
        | waiting | running => rfl
        | finished | crashed => cases going
      rw [if_pos rfl]
      exact own unnoticed nothing
    · rw [if_neg same, others other same]
      exact reports.results untaken other
  · obtain ⟨r, awaited, before, same⟩ := reports.collected o taken
    exact ⟨r, awaited, before.trans follows, same⟩

theorem reportOf_concat_of_ne {awaited : List NodeId} {other : NodeId} (apart : other ≠ node)
    (task : Task α) :
    Round.reportOf reason (awaited ++ [node]) other task =
      Round.reportOf reason awaited other task := by
  cases task with
  | crashed =>
    refine if_congr ?_ rfl rfl
    rw [List.mem_append, List.mem_singleton, or_iff_left apart]
  | _ => rfl

/-- That a task has ended is noticed, and put down if the task has broken down. -/
theorem Reports.notice (reports : g.Reports) {task : Task α} {ahead : List NodeId}
    {results : SortedMap NodeId (Except CallError α)}
    (here : g.round.tasks.get? node = some task) (ended : task.hasEnded)
    (others : ∀ other ≠ node, results.get? other = g.results.get? other)
    (own : g.outcome = none →
      results.get? node = Round.reportOf g.reason (g.awaited ++ [node]) node task) :
    ({ g with results, awaited := g.awaited ++ [node], ahead } : Gathering α).Reports := by
  refine ⟨fun other mem => ?_, fun untaken other => ?_, reports.collected⟩
  · rcases List.mem_append.1 mem with mem | mem
    · exact reports.awaited other mem
    · cases List.mem_singleton.1 mem
      exact ⟨task, here, ended⟩
  · dsimp only
    by_cases same : other = node
    · subst same
      rw [here]
      exact own untaken
    · rw [others other same, reports.results untaken]
      cases g.round.tasks.get? other with
      | none => rfl
      | some task => exact (reportOf_concat_of_ne same task).symm

theorem Reports.step (reports : g.Reports) (moved : g.step? m = some g') : g'.Reports := by
  cases m with
  | launch node =>
    obtain ⟨r, launches, rfl⟩ := Option.map_eq_some_iff.1 moved
    obtain ⟨waits, -, rfl⟩ := Round.launch?_eq_some_iff.1 launches
    exact reports.retask waits rfl (fun _ _ => rfl) fun _ nothing => nothing
  | finish node result =>
    obtain ⟨r, finishes, rfl⟩ := Option.map_eq_some_iff.1 moved
    obtain ⟨runs, rfl⟩ := Round.finish?_eq_some_iff.1 finishes
    refine reports.retask runs rfl (fun other apart => ?_) fun _ _ => ?_
    · exact (SortedMap.get?_insert _ _ _ _).trans (if_neg apart)
    · exact (SortedMap.get?_insert _ _ _ _).trans (if_pos rfl)
  | crash node =>
    obtain ⟨r, crashes, rfl⟩ := Option.map_eq_some_iff.1 moved
    obtain ⟨runs, rfl⟩ := Round.crash?_eq_some_iff.1 crashes
    exact reports.retask runs rfl (fun _ _ => rfl) fun unnoticed nothing =>
      nothing.trans (if_neg unnoticed).symm
  | await =>
    simp only [step?] at moved
    split at moved
    · cases moved
    · split at moved
      · rename_i node rest _ result here
        cases moved
        refine reports.notice here rfl (fun _ _ => rfl) fun untaken => ?_
        rw [reports.results untaken, here]
        rfl
      · rename_i node rest _ here
        cases moved
        refine reports.notice here rfl (fun other apart => ?_) fun _ => ?_
        · exact (SortedMap.get?_insert _ _ _ _).trans (if_neg apart)
        · rw [SortedMap.get?_insert, if_pos rfl]
          exact (if_pos (List.mem_append_right _ (List.mem_singleton_self _))).symm
      · cases moved
  | giveUp =>
    cases moved
    exact ⟨reports.awaited, reports.results, reports.collected⟩
  | collect =>
    simp only [step?] at moved
    split at moved
    · rename_i _ untaken
      cases moved
      refine ⟨reports.awaited, fun fresh => absurd fresh (Option.some_ne_none _), fun o taken => ?_⟩
      cases taken
      exact ⟨g.round, g.awaited, .refl _, reports.gathered_eq untaken⟩
    · cases moved

/-! ### Courses -/

/-- What a move does to the round. -/
theorem step?_round (moved : g.step? m = some g') :
    m.change? g.round = some g'.round ∨ m.node? = none ∧ g'.round = g.round := by
  cases m with
  | launch | finish | crash =>
    obtain ⟨r, changes, rfl⟩ := Option.map_eq_some_iff.1 moved
    exact .inl changes
  | await =>
    refine .inr ⟨rfl, ?_⟩
    simp only [step?] at moved
    split at moved
    · cases moved
    · split at moved <;> cases moved <;> rfl
  | giveUp =>
    cases moved
    exact .inr ⟨rfl, rfl⟩
  | collect =>
    refine .inr ⟨rfl, ?_⟩
    simp only [step?] at moved
    split at moved <;> cases moved
    rfl

/-- Why tasks break down does not depend on what has happened. -/
theorem step?_reason (moved : g.step? m = some g') : g'.reason = g.reason := by
  cases m with
  | launch | finish | crash =>
    obtain ⟨r, -, rfl⟩ := Option.map_eq_some_iff.1 moved
    rfl
  | await =>
    simp only [step?] at moved
    split at moved
    · cases moved
    · split at moved <;> cases moved <;> rfl
  | giveUp =>
    cases moved
    rfl
  | collect =>
    simp only [step?] at moved
    split at moved <;> cases moved
    rfl

theorem follows_change (changes : m.change? r = some r') : r.Follows r' := by
  cases m with
  | launch => exact Round.follows_launch changes
  | finish => exact Round.follows_finish changes
  | crash => exact Round.follows_crash changes
  | _ => cases changes

/-- What the moves of a round have led to. -/
structure Accords (reason : NodeId → String) (parallelism : Nat) (nodes : List NodeId)
    (moves : List (Move α)) (g : Gathering α) : Prop where
  told : Told moves g.round
  reports : g.Reports
  reason : g.reason = reason
  follows : (Round.start parallelism nodes).Follows g.round

theorem Accords.step (ok : Accords reason parallelism nodes moves g)
    (moved : g.step? m = some g') : Accords reason parallelism nodes (moves ++ [m]) g' := by
  have kept := (step?_reason moved).trans ok.reason
  rcases step?_round moved with changes | ⟨ofNone, same⟩
  · exact ⟨ok.told.change changes, ok.reports.step moved, kept,
      ok.follows.trans (follows_change changes)⟩
  · have told := ok.told.pause ofNone
    have follows := ok.follows
    rw [← same] at told follows
    exact ⟨told, ok.reports.step moved, kept, follows⟩

theorem accords_run (ran : (start reason parallelism nodes).run? moves = some g) :
    Accords reason parallelism nodes moves g := by
  induction moves using List.reverseRecOn generalizing g with
  | nil =>
    cases ran
    exact ⟨told_start, reports_start, rfl, .refl _⟩
  | append_singleton moves m ih =>
    rw [run?_concat] at ran
    obtain ⟨h, before, moved⟩ := Option.bind_eq_some_iff.1 ran
    exact (ih before).step moved

end Gathering

end Resharding
