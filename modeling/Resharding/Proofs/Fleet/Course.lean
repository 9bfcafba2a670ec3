import Resharding.Proofs.Fleet.Gathering

/-!
What comes of a round, whatever its course.

In every course of moves (`Gathering.run?`) no node is called twice and no more calls are in
progress than the round may have; and what comes back settles every node that was asked, each for
itself (`Gathering.Settled`). The rounds that a fleet goes through are such courses: the events of
the fleet are moves of the tasks (`Event.round`), and looking at a round is to await the tasks
before the first one that has not ended, to give up, and to take what is there
(`Gathering.exists_run_collect`).
-/

namespace Resharding

namespace Gathering

variable {α : Type} {reason : NodeId → String} {parallelism : Nat} {nodes : List NodeId}
  {moves : List (Move α)} {m : Move α} {g : Gathering α} {r : Round α} {node : NodeId}
  {o : RoundOutcome α}

/-! ### Settling every node -/

/-- What came back is the result of each node asked or that there is none yet, and whoever takes
results, in any order, is told that. -/
structure Settled (reason : NodeId → String) (nodes : List NodeId) (moves : List (Move α))
    (o : RoundOutcome α) : Prop where
  asked : ∀ node, node ∈ nodes ↔ node ∈ o.completed.keys ∨ node ∈ o.abandoned
  apart : ∀ node ∈ o.abandoned, node ∉ o.completed.keys
  own : ∀ node result, o.completed.get? node = some result →
    .finish node result ∈ moves ∨
      .crash node ∈ moves ∧ result = .error (.remote (.taskFailed (reason node)))
  late : ∀ taken, ∀ node ∈ o.abandoned, ((o.without taken).take node).1 = .error (.timeout node)
  first : ∀ taken node result, o.completed.get? node = some result → node ∉ taken →
    ((o.without taken).take node).1 = result
  again : ∀ taken node, node ∈ o.completed.keys → node ∈ taken →
    ((o.without taken).take node).1 = .error (.unreachable node)
  foreign : ∀ taken node, node ∉ nodes →
    ((o.without taken).take node).1 = .error (.unreachable node)

/-- The answer for a node that is not abandoned, once some results have been taken. -/
theorem take_without (taken : List NodeId) (inTime : node ∉ o.abandoned) :
    ((o.without taken).take node).1 =
      (if node ∈ taken then none else o.completed.get? node).getD (.error (.unreachable node)) := by
  rw [RoundOutcome.take_of_inTime (by rwa [RoundOutcome.abandoned_without]),
    RoundOutcome.get?_without taken inTime]
  split
  · rename_i result here
    rw [here]
    rfl
  · rename_i gone
    rw [gone]
    rfl

/-- Being asked, being apart and having one's own result is all that settling takes. -/
theorem settled_of_own (asked : ∀ node, node ∈ nodes ↔ node ∈ o.completed.keys ∨ node ∈ o.abandoned)
    (apart : ∀ node ∈ o.abandoned, node ∉ o.completed.keys)
    (own : ∀ node result, o.completed.get? node = some result →
      .finish node result ∈ moves ∨
        .crash node ∈ moves ∧ result = .error (.remote (.taskFailed (reason node)))) :
    Settled reason nodes moves o where
  asked := asked
  apart := apart
  own := own
  late taken node mem := by
    rw [RoundOutcome.take_of_abandoned (by rwa [RoundOutcome.abandoned_without])]
  first taken node result here untaken := by
    have inTime : node ∉ o.abandoned := fun late =>
      apart node late (SortedMap.mem_keys_iff.2 ⟨result, here⟩)
    rw [take_without taken inTime, if_neg untaken, here]
    rfl
  again taken node mem gone := by
    rw [take_without taken fun late => apart node late mem, if_pos gone]
    rfl
  foreign taken node unasked := by
    have inTime : node ∉ o.abandoned := fun late => unasked ((asked node).2 (.inr late))
    have nothing : o.completed.get? node = none := by
      apply Option.eq_none_iff_forall_ne_some.2
      intro result here
      exact unasked ((asked node).2 (.inl (SortedMap.mem_keys_iff.2 ⟨result, here⟩)))
    rw [take_without taken inTime, nothing, ite_self]
    rfl

/-- The nodes of what a round has come to are those of the round. -/
theorem mem_outcome_iff (r : Round α) (reason : NodeId → String) (awaited : List NodeId)
    (node : NodeId) :
    node ∈ r.tasks.keys ↔ node ∈ (r.outcome reason awaited).completed.keys ∨
      node ∈ (r.outcome reason awaited).abandoned := by
  rw [Round.mem_abandoned_iff, SortedMap.mem_keys_iff, SortedMap.mem_keys_iff]
  cases here : (r.outcome reason awaited).completed.get? node with
  | none =>
    have absent : ¬ ∃ result : Except CallError α, none = some result := fun ⟨_, eq⟩ => nomatch eq
    rw [or_iff_right absent, and_iff_left rfl]
  | some result =>
    refine iff_of_true ?_ (.inl ⟨result, rfl⟩)
    rw [Round.get?_completed] at here
    obtain ⟨task, there, -⟩ := Option.bind_eq_some_iff.1 here
    exact ⟨task, there⟩

/-- What a task reports, it has come to by the moves of its own node. -/
theorem Told.own (told : Told moves r) {task : Task α} (here : r.tasks.get? node = some task)
    {awaited : List NodeId} {result : Except CallError α}
    (reports : Round.reportOf reason awaited node task = some result) :
    .finish node result ∈ moves ∨
      .crash node ∈ moves ∧ result = .error (.remote (.taskFailed (reason node))) := by
  cases task with
  | waiting | running => cases reports
  | finished result' =>
    cases reports
    exact .inl (told.mem here (List.mem_cons_of_mem _ List.mem_cons_self))
  | crashed =>
    obtain ⟨-, same⟩ := Option.ite_none_right_eq_some.1 reports
    cases same
    exact .inr ⟨told.mem here (List.mem_cons_of_mem _ List.mem_cons_self), rfl⟩

theorem Accords.settled (ok : Accords reason parallelism nodes moves g)
    (taken : g.outcome = some o) : Settled reason nodes moves o := by
  rw [← ok.reason]
  obtain ⟨r, awaited, before, rfl⟩ := ok.reports.collected o taken
  have keys : r.tasks.keys = (Round.start (α := α) parallelism nodes).tasks.keys :=
    before.keys.symm.trans ok.follows.keys
  apply settled_of_own
  · intro node
    rw [← mem_outcome_iff, keys, Round.mem_keys_start]
  · intro node late mem
    obtain ⟨result, here⟩ := SortedMap.mem_keys_iff.1 mem
    rw [(Round.mem_abandoned_iff.1 late).2] at here
    cases here
  · intro node result here
    rw [Round.get?_completed] at here
    obtain ⟨task, there, reports⟩ := Option.bind_eq_some_iff.1 here
    have ended : task.hasEnded := by
      cases task with
      | waiting | running => cases reports
      | _ => rfl
    exact ok.told.own (before.ended node task there ended) reports

theorem Accords.called_subset (ok : Accords reason parallelism nodes moves g) :
    called moves ⊆ nodes := by
  intro node mem
  obtain ⟨task, here, -⟩ := ok.told.exists_task mem
  have known : node ∈ (Round.start (α := α) parallelism nodes).tasks.keys := by
    rw [← ok.follows.keys]
    exact SortedMap.mem_keys_iff.2 ⟨task, here⟩
  exact Round.mem_keys_start.1 known

/-! ### Going on and looking -/

/-- A task of the round may go on at any time, and that is all that changes of what is waited for.
-/
theorem exists_step_of_change (g : Gathering α) (changes : m.change? g.round = some r) :
    ∃ g', g.step? m = some g' ∧ g'.round = r ∧ g'.awaited = g.awaited ∧ g'.ahead = g.ahead ∧
      g'.outcome = g.outcome := by
  cases m with
  | launch | finish | crash =>
    exact ⟨_, Option.map_eq_some_iff.2 ⟨r, changes, rfl⟩, rfl, rfl, rfl, rfl⟩
  | _ => cases changes

theorem exists_step_await {task : Task α} {rest : List NodeId} (ahead : g.ahead = node :: rest)
    (here : g.round.tasks.get? node = some task) (ended : task.hasEnded) :
    ∃ g', g.step? .await = some g' ∧ g'.round = g.round ∧ g'.awaited = g.awaited ++ [node] ∧
      g'.ahead = rest ∧ g'.outcome = g.outcome := by
  simp only [step?]
  rw [ahead]
  dsimp only
  rw [here]
  cases task with
  | waiting | running => cases ended
  | finished | crashed => exact ⟨_, rfl, rfl, rfl, rfl, rfl⟩

/-- Tasks that have ended can be awaited one after the other. -/
theorem exists_run_await {front rest : List NodeId} (ahead : g.ahead = front ++ rest)
    (ended : ∀ node ∈ front, ∃ task, g.round.tasks.get? node = some task ∧ task.hasEnded) :
    ∃ moves g', g.run? moves = some g' ∧ g'.round = g.round ∧ g'.awaited = g.awaited ++ front ∧
      g'.ahead = rest ∧ g'.outcome = g.outcome := by
  induction front generalizing g with
  | nil => exact ⟨[], g, rfl, rfl, (List.append_nil _).symm, ahead, rfl⟩
  | cons node front ih =>
    obtain ⟨task, here, done⟩ := ended node List.mem_cons_self
    obtain ⟨h, moved, round, awaited, ahead', outcome⟩ := exists_step_await ahead here done
    obtain ⟨moves, g', ran, round', awaited', rest', outcome'⟩ := ih ahead' fun other mem =>
      round ▸ ended other (List.mem_cons_of_mem _ mem)
    refine ⟨.await :: moves, g', ?_, round'.trans round, ?_, rest', outcome'.trans outcome⟩
    · rw [run?_cons, moved]
      exact ran
    · rw [awaited', awaited, List.append_assoc]
      rfl

theorem run?_look (untaken : g.outcome = none) :
    g.run? [.giveUp, .collect] =
      some { g with ahead := [], results := .empty, outcome := some g.gathered } := by
  cases g
  cases untaken
  rfl

/-- A round can be looked at at any time: the tasks before the first one that has not ended are
awaited, and what is there is taken. -/
theorem exists_run_collect (ran : (start reason parallelism nodes).run? moves = some g)
    (unseen : g.awaited = []) (ahead : g.ahead = g.round.tasks.keys) (untaken : g.outcome = none) :
    ∃ more g', g.run? more = some g' ∧ g'.round = g.round ∧
      g'.outcome = some (g.round.outcome reason g.round.awaited) := by
  have parts : g.ahead = g.round.awaited ++
      (g.round.tasks.toList.dropWhile fun e => e.2.hasEnded).map Prod.fst := by
    simp only [Round.awaited]
    rw [ahead, ← List.map_append, List.takeWhile_append_dropWhile]
    rfl
  have ended (node : NodeId) (mem : node ∈ g.round.awaited) :
      ∃ task, g.round.tasks.get? node = some task ∧ task.hasEnded := by
    obtain ⟨⟨other, task⟩, front, rfl⟩ := List.mem_map.1 mem
    have done := List.mem_takeWhile_imp (p := fun e : NodeId × Task α => e.2.hasEnded) front
    exact ⟨task, SortedMap.get?_eq_some_iff.2 (List.takeWhile_subset _ front), done⟩
  obtain ⟨more, h, waited, round, awaited, -, outcome⟩ := exists_run_await parts ended
  have whole : (start reason parallelism nodes).run? (moves ++ more) = some h := by
    rw [run?_append, ran]
    exact waited
  have ok : Accords reason parallelism nodes (moves ++ more) h := accords_run whole
  have atHand : h.gathered = g.round.outcome reason g.round.awaited := by
    rw [ok.reports.gathered_eq (outcome.trans untaken), ok.reason, round, awaited, unseen,
      List.nil_append]
  refine ⟨more ++ [.giveUp, .collect],
    { h with ahead := [], results := .empty, outcome := some h.gathered }, ?_, round, ?_⟩
  · rw [run?_append, waited]
    exact run?_look (outcome.trans untaken)
  · rw [atHand]

end Gathering

/-! ### Rounds of a fleet -/

open Gathering (Move)

namespace View

variable {v : View} {i j : Nat} {c : Campaign}

/-- A change that is a move of a task changes its own round by that move, if at all. -/
theorem round_changeRound {change : Round Server → Option (Round Server)} (m : Move Server)
    (moves : ∀ r, change r = m.change? r) (found : v.campaigns[j]? = some c) :
    (v.changeRound i change).campaigns[j]? = some c ∨
      ∃ (m : Move Server) (r : Round Server), m.change? c.round = some r ∧
        (v.changeRound i change).campaigns[j]? = some { c with round := r } := by
  by_cases same : i = j
  · subst same
    cases changes : change c.round with
    | none =>
      left
      rw [getElem?_changeRound, if_pos rfl, found, Option.map_some, changes]
      rfl
    | some r =>
      exact .inr ⟨m, r, (moves _).symm.trans changes, getElem?_changeRound_self found changes⟩
  · exact .inl ((getElem?_changeRound_of_ne same).trans found)

theorem round_hand {flight : Flight} {result : Except CallError Server}
    (found : v.campaigns[j]? = some c) :
    (v.hand flight result).campaigns[j]? = some c ∨
      ∃ (m : Move Server) (r : Round Server), m.change? c.round = some r ∧
        (v.hand flight result).campaigns[j]? = some { c with round := r } := by
  simp only [hand]
  cases flight.caller with
  | direct index => exact .inl found
  | task i => exact round_changeRound (.finish flight.node result) (fun _ => rfl) found

end View

/-- An event is a move of one task of a round, or leaves the round alone. -/
theorem Event.round {v w : View} (event : Event v w) {j : Nat} {c : Campaign}
    (found : v.campaigns[j]? = some c) :
    w.campaigns[j]? = some c ∨ ∃ (m : Move Server) (r : Round Server),
      m.change? c.round = some r ∧ w.campaigns[j]? = some { c with round := r } := by
  cases event with
  | @launch v flight i =>
    exact View.round_changeRound (v := v) (.launch flight.node) (fun _ => rfl) found
  | @crash v flight i =>
    exact View.round_changeRound (v := v) (.crash flight.node) (fun _ => rfl) found
  | issue => exact .inl found
  | board => exact .inl found
  | @land v flight => exact View.round_hand (v := v.visit flight) found
  | @expire v flight => exact View.round_hand (v := v) found

namespace Gathering

/-- What a fleet goes through is, for one of its rounds, a course of moves. -/
theorem exists_run_of_events {v w : View} (events : Events v w) {j : Nat} {c : Campaign}
    (found : v.campaigns[j]? = some c) {g : Gathering Server} (here : g.round = c.round) :
    ∃ moves g', g.run? moves = some g' ∧ w.campaigns[j]? = some { c with round := g'.round } ∧
      g'.awaited = g.awaited ∧ g'.ahead = g.ahead ∧ g'.outcome = g.outcome := by
  induction events with
  | refl => exact ⟨[], g, rfl, by rw [here]; exact found, rfl, rfl, rfl⟩
  | tail _ event ih =>
    obtain ⟨moves, h, ran, found, awaited, ahead, outcome⟩ := ih
    rcases event.round found with same | ⟨m, r, changes, changed⟩
    · exact ⟨moves, h, ran, same, awaited, ahead, outcome⟩
    · obtain ⟨g', moved, rfl, awaited', ahead', outcome'⟩ := exists_step_of_change h changes
      refine ⟨moves ++ [m], g', ?_, changed, awaited'.trans awaited, ahead'.trans ahead,
        outcome'.trans outcome⟩
      rw [run?_concat, ran]
      exact moved

end Gathering

namespace Fleet

variable {f : Fleet} {settings : Settings} {request : Request} {nodes : List NodeId}

/-- A round of a fleet, with all that becomes of its calls later, is a course of moves. -/
theorem exists_run_callRound (ok : f.view.Consistent) {w : View}
    (later : Events (f.callRound settings request nodes).2.view w) :
    ∃ moves g c, (Gathering.start f.reason settings.parallelism nodes).run? moves = some g ∧
      w.campaigns[f.campaigns.length]? = some c ∧ g.round = c.round ∧
      g.outcome.map (·.map request.answer) = some (f.callRound settings request nodes).1 := by
  obtain ⟨c, found, -, -, answers⟩ := callRound_spec ok settings request nodes
  obtain ⟨going, g, ran, went, unseen, ahead, untaken⟩ :=
    Gathering.exists_run_of_events (g := .start f.reason settings.parallelism nodes)
      (events_callRound ok settings request nodes) View.getElem?_begin_self rfl
  have here : g.round = c.round :=
    congrArg Campaign.round (Option.some.inj (went.symm.trans found))
  have keys : g.ahead = g.round.tasks.keys :=
    ahead.trans (Gathering.accords_run ran).follows.keys.symm
  obtain ⟨looking, h, looked, round, taken⟩ :=
    Gathering.exists_run_collect ran unseen keys untaken
  obtain ⟨after, g', went', found', -, -, kept⟩ :=
    Gathering.exists_run_of_events later found (round.trans here)
  refine ⟨going ++ looking ++ after, g', _, ?_, found', rfl, ?_⟩
  · rw [Gathering.run?_append, Gathering.run?_append, ran, Option.bind_some, looked]
    exact went'
  · rw [kept, taken, here, answers]
    rfl

end Fleet

/-! ### All rounds -/

namespace Gathering

/-- In every course of a round at most as many calls are in progress as the round may have, no node
is called twice, and what comes back settles all nodes asked and no other. The rounds of a fleet,
followed for as long as their calls go on, are such courses. -/
theorem gathered_in_full :
    (∀ (α : Type) (reason : NodeId → String) (parallelism : Nat) (nodes : List NodeId)
      (moves : List (Move α)) (g : Gathering α),
      (start reason parallelism nodes).run? moves = some g →
        (inProgress moves).length ≤ max 1 parallelism ∧ (called moves).Nodup ∧
          called moves ⊆ nodes ∧ ∀ o, g.outcome = some o → Settled reason nodes moves o) ∧
    ∀ f : Fleet, f.Reachable → ∀ (settings : Settings) (request : Request) (nodes : List NodeId)
      (w : View), Events (f.callRound settings request nodes).2.view w →
        ∃ moves g c, (start f.reason settings.parallelism nodes).run? moves = some g ∧
          w.campaigns[f.campaigns.length]? = some c ∧ g.round = c.round ∧
          g.outcome.map (·.map request.answer) = some (f.callRound settings request nodes).1 := by
  constructor
  · intro α reason parallelism nodes moves g ran
    have ok := accords_run ran
    have width : g.round.width = max 1 parallelism :=
      ok.follows.width.trans (Nat.max_comm _ _)
    exact ⟨width ▸ ok.told.length_inProgress_le, ok.told.nodup_called, ok.called_subset,
      fun o taken => ok.settled taken⟩
  · intro f reachable settings request nodes w later
    exact Fleet.exists_run_callRound reachable.consistent later

/-- A course in which one task breaks down and another one ends after the round was looked at. -/
theorem gathered_in_full_late :
    let moves : List (Move Nat) := [.launch 5, .launch 2, .crash 2, .launch 7, .await,
      .finish 5 (.ok 50), .await, .giveUp, .collect, .finish 7 (.ok 70)]
    let reason : NodeId → String := fun _ => "panicked"
    (∃ g o, (start reason 2 [7, 2, 5, 2]).run? moves = some g ∧ g.outcome = some o ∧
      o.completed.keys = [2, 5] ∧ o.abandoned.toList = [7] ∧
      Settled reason [7, 2, 5, 2] moves o) ∧
    ∃ moves g c, (start ({} : Fleet).reason 1 [4, 4]).run? moves = some g ∧
      ((({} : Fleet).callRound { parallelism := 1 } .state [4, 4]).2.campaigns)[0]? = some c ∧
      g.round = c.round ∧ g.outcome.map (·.map (Request.answer .state)) =
        some (({} : Fleet).callRound { parallelism := 1 } .state [4, 4]).1 :=
  ⟨⟨_, _, rfl, rfl, rfl, rfl, (gathered_in_full.1 Nat _ 2 _ _ _ rfl).2.2.2 _ rfl⟩,
    gathered_in_full.2 {} (.fresh 0 .empty none .empty) { parallelism := 1 } .state [4, 4] _ .refl⟩

end Gathering

end Resharding
