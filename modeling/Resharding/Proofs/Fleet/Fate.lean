import Resharding.Proofs.Fleet.Account
import Resharding.Proofs.Fleet.Effect

/-!
What a call comes to if it is left to end.

A client without limits makes a round of calls while no other call is under way. Then nothing but the
servers and the crashing nodes decides what each call comes to (`View.fate`): a call that has ended
has ended like that in every order of events (`Events.fated`), however many calls go on at once and
however long each of them travels. So if none is abandoned, the round comes back with
`Fleet.foretold` for every node, and leaves of the servers what `Fleet.touched` says.
-/

namespace Resharding

namespace View

variable {v w v₀ : View} {flight : Flight} {i : Nat} {node : NodeId} {task : Task Server}

/-- What the task of a node ends as. -/
def fate (v : View) (node : NodeId) : Task Server :=
  if v.crashing.contains node then .crashed else .finished (v.find node)

/-- A client without limits has made calls since `v₀`, and those that have ended are as they were to
be. -/
structure Fated (v₀ v : View) : Prop where
  unlimited : v.limited = false
  crashing : v.crashing = v₀.crashing
  /-- No call needs a permit, and none that is on its way was to break down. -/
  way : ∀ e ∈ v.pending, e.2 ≠ .boarding ∧ (e.2 = .travelling → e.1.node ∉ v₀.crashing)
  ended : ∀ {i node task}, v₀.campaigns.length ≤ i → v.task? i node = some task → task.hasEnded →
    task = v₀.fate node
  /-- No call to a crashing node has reached the client. -/
  made : ∀ {operation node}, node ∈ v₀.crashing →
    v.made operation node = v₀.made operation node

theorem fate_of_crashing (crashes : node ∈ v.crashing) : v.fate node = .crashed :=
  if_pos (SortedMap.contains_iff.2 crashes)

theorem fate_of_sound (sound : node ∉ v.crashing) : v.fate node = .finished (v.find node) :=
  if_neg fun crashes => sound (SortedMap.contains_iff.1 crashes)

theorem find_congr (same : v.servers.get? node = w.servers.get? node) : v.find node = w.find node := by
  simp only [find, Fleet.find]
  rw [same]

/-- The start of a round while no call is under way. -/
theorem Fated.begin (unlimited : v.limited = false) (quiet : v.pending = 0) {request : Request}
    {parallelism : Nat} {nodes : List NodeId} :
    Fated v (v.begin request parallelism nodes) where
  unlimited := unlimited
  crashing := rfl
  way e mem := by
    rcases Multiset.mem_add.1 mem with mem | mem
    · rw [quiet] at mem
      exact absurd mem (Multiset.notMem_zero e)
    · obtain ⟨flight, -, rfl⟩ := List.mem_map.1 mem
      exact ⟨nofun, nofun⟩
  ended young here done := by
    rw [task?_begin] at here
    split at here
    · split at here <;> cases here
      cases done
    · rw [task?_of_length_le young] at here
      cases here
  made _ := rfl

/-- The task of a node goes on, and ends as it was to if it ends. -/
theorem Fated.retask (fated : Fated v₀ v) {c : Campaign}
    {change : Round Server → Option (Round Server)} (there : v.campaigns[i]? = some c)
    (changes : change c.round = some { c.round with tasks := c.round.tasks.insert node task })
    (settled : task.hasEnded → task = v₀.fate node) : Fated v₀ (v.changeRound i change) where
  unlimited := fated.unlimited
  crashing := fated.crashing
  way := fated.way
  ended young here done := by
    rw [task?_changeRound there changes] at here
    split at here
    · rename_i same
      cases here
      rw [same.2]
      exact settled done
    · exact fated.ended young here done
  made := fated.made

/-- A call joins those under way, or leaves them. -/
theorem Fated.restage (fated : Fated v₀ v) (servers : SortedMap NodeId Server)
    (pending : Multiset (Flight × Stage))
    (way : ∀ e ∈ pending, e.2 ≠ .boarding ∧ (e.2 = .travelling → e.1.node ∉ v₀.crashing)) :
    Fated v₀ { v with servers, pending } :=
  ⟨fated.unlimited, fated.crashing, way, fated.ended, fated.made⟩

end View

/-! ### Events -/

section

variable {v w v₀ : View}

open View in
theorem Event.fated (event : Event v w) (ok : v.Consistent) (young : v₀.Young v)
    (since : Since v₀ v) (fated : Fated v₀ v) : Fated v₀ w := by
  cases event with
  | @launch v flight i c r caller there launches =>
    obtain ⟨-, -, rfl⟩ := Round.launch?_eq_some_iff.1 launches
    have retasked : Fated v₀ ((v.add flight .queued).changeRound i (·.launch? flight.node)) :=
      fated.retask there launches nofun
    refine retasked.restage v.servers _ fun e mem => ?_
    rcases Multiset.mem_cons.1 mem with rfl | mem
    · exact ⟨nofun, nofun⟩
    · exact fated.way e (Multiset.mem_cons_of_mem mem)
  | @crash v flight i caller crashes =>
    obtain ⟨c, there, -, runs, -⟩ := (consistent_add_iff.1 ok).2.running caller (by decide)
    have crashes' : flight.node ∈ v₀.crashing := fated.crashing ▸ crashes
    have retasked : Fated v₀ ((v.add flight .launched).changeRound i (·.crash? flight.node)) :=
      fated.retask there (Round.crash?_of_running runs) fun _ => (fate_of_crashing crashes').symm
    exact retasked.restage v.servers _ fun e mem => fated.way e (Multiset.mem_cons_of_mem mem)
  | @issue v flight sound =>
    obtain ⟨i, caller, -⟩ := young _ (Multiset.mem_cons_self _ _)
    have sound' : flight.node ∉ v₀.crashing := fated.crashing ▸ sound i caller
    have unlimited : v.limited = false := fated.unlimited
    refine ⟨fated.unlimited, fated.crashing, fun e mem => ?_, fated.ended, fun crashes => ?_⟩
    · rw [unlimited] at mem
      rcases Multiset.mem_cons.1 mem with rfl | mem
      · exact ⟨nofun, fun _ => sound'⟩
      · exact fated.way e (Multiset.mem_cons_of_mem mem)
    · change (v.record flight).made _ _ = _
      rw [made_record, if_neg]
      · exact fated.made crashes
      · rintro ⟨rfl, -⟩
        exact sound' crashes
  | @board v flight => exact absurd rfl (fated.way _ (Multiset.mem_cons_self _ _)).1
  | @land v flight =>
    obtain ⟨i, caller, old⟩ := young _ (Multiset.mem_cons_self _ _)
    obtain ⟨c, there, -, runs, -⟩ := (consistent_add_iff.1 ok).2.running caller (by decide)
    have sound : flight.node ∉ v₀.crashing := (fated.way _ (Multiset.mem_cons_self _ _)).2 rfl
    -- No other call has found the node, so this one finds what was there at first.
    have spares : Spares v₀ (v.add flight .travelling) flight.node :=
      since.spares old (task?_eq_some_iff.2 ⟨c, there, runs⟩) nofun
    have finds : v.find flight.node = v₀.find flight.node := find_congr (since.spared spares)
    have visited : Fated v₀ (v.visit flight) :=
      fated.restage _ v.pending fun e mem => fated.way e (Multiset.mem_cons_of_mem mem)
    rw [hand_task caller]
    refine visited.retask there (Round.finish?_of_running runs _) fun _ => ?_
    rw [fate_of_sound sound, finds]
  | @expire v flight => exact absurd rfl (fated.way _ (Multiset.mem_cons_self _ _)).1

/-- In whatever order the calls go on, those that have ended have ended as they were to. -/
theorem Events.fated (events : Events v w) (ok : v.Consistent) (young : v₀.Young v)
    (since : View.Since v₀ v) (fated : View.Fated v₀ v) : View.Fated v₀ w := by
  induction events with
  | refl => exact fated
  | tail events event ih =>
    obtain ⟨since, young⟩ := Events.since events ok young since
    exact event.fated (Events.consistent events ok) young since ih

end

/-! ### Rounds -/

/-- What a round has come to, read as answers to what it asks. -/
def View.outcome (v : View) (i : Nat) (request : Request) : RoundOutcome request.Reply :=
  match v.campaigns[i]? with
  | some c => (c.round.outcome v.reason c.round.awaited).map request.answer
  | none => ⟨.empty, .empty⟩

namespace Fleet

/-- A round that is begun goes on, in any order, until all its calls have ended. -/
structure Conducted (f : Fleet) (request : Request) (nodes : List NodeId) (w : View) : Prop where
  events : ∃ parallelism, Events (f.view.begin request parallelism nodes) w
  allEnded : ∀ {node task}, w.task? f.campaigns.length node = some task → task.hasEnded

/-- No call of the round is abandoned. -/
def InTime (f : Fleet) (settings : Settings) (request : Request) (nodes : List NodeId) : Prop :=
  ∀ node ∈ nodes, f.ends settings request nodes node ≠ none

instance (f : Fleet) (settings : Settings) (request : Request) (nodes : List NodeId) :
    Decidable (f.InTime settings request nodes) :=
  List.decidableBAll (fun node => f.ends settings request nodes node ≠ none) nodes

/-- The answer that a call to a node comes to. -/
def foretold (f : Fleet) (request : Request) (node : NodeId) : Except CallError request.Reply :=
  if f.crashing.contains node then .error (.remote (.taskFailed (f.reason node)))
  else request.answer node (f.find node)

/-- The record that a call to a node leaves. -/
def touched (f : Fleet) (request : Request) (node : NodeId) : Option Server :=
  (f.servers.get? node).map fun s =>
    if f.crashing.contains node || s.isDown then s else request.effect s

/-- The calls of a round that reach the client. -/
def reaching (f : Fleet) (request : Request) (nodes : List NodeId) : List CallRecord :=
  ((SortedSet.ofList nodes).toList.filter fun node => !f.crashing.contains node).map
    fun node => ⟨node, request.operation⟩

variable {f : Fleet} {w : View} {settings : Settings} {request : Request} {nodes : List NodeId}
  {node : NodeId}

theorem count_reaching (operation : Operation) (node : NodeId) :
    (f.reaching request nodes).count ⟨node, operation⟩ =
      if request.operation = operation ∧ node ∈ nodes ∧ node ∉ f.crashing then 1 else 0 := by
  have nodup : (f.reaching request nodes).Nodup := by
    apply List.Nodup.map
    · intro a b same
      cases same
      rfl
    · exact (SortedSet.nodup_toList _).filter _
  have mem : ⟨node, operation⟩ ∈ f.reaching request nodes ↔
      request.operation = operation ∧ node ∈ nodes ∧ node ∉ f.crashing := by
    simp only [reaching]
    rw [List.mem_map]
    constructor
    · rintro ⟨other, mem, same⟩
      cases same
      rw [List.mem_filter, Bool.not_eq_true', ← Bool.not_eq_true, SortedMap.contains_iff] at mem
      exact ⟨rfl, SortedSet.mem_ofList.1 mem.1, mem.2⟩
    · rintro ⟨rfl, asked, sound⟩
      rw [← SortedMap.contains_iff, Bool.not_eq_true, ← Bool.not_eq_true'] at sound
      exact ⟨node, List.mem_filter.2 ⟨SortedSet.mem_ofList.2 asked, sound⟩, rfl⟩
  rw [nodup.count]
  exact if_congr mem rfl rfl

theorem touched_of_find {s : Server} (sound : node ∉ f.crashing) (finds : f.find node = .ok s) :
    f.touched request node = some (request.effect s) := by
  obtain ⟨here, up⟩ := View.find_eq_ok_iff.1 (show f.view.find node = .ok s from finds)
  have kept : f.crashing.contains node = false :=
    Bool.eq_false_iff.2 fun mem => sound (SortedMap.contains_iff.1 mem)
  simp only [touched]
  rw [show f.servers.get? node = some s from here, Option.map_some, kept, up]
  rfl

/-- A call that does not find its node leaves it as it is. -/
theorem touched_of_missed (missed : node ∉ f.crashing → ∃ e, f.find node = .error e) :
    f.touched request node = f.servers.get? node := by
  simp only [touched]
  cases here : f.servers.get? node with
  | none => rfl
  | some s =>
    have kept : f.crashing.contains node || s.isDown := by
      rw [Bool.or_eq_true, SortedMap.contains_iff, or_iff_not_imp_left]
      intro sound
      obtain ⟨e, finds⟩ := missed sound
      by_contra up
      have found : f.view.find node = .ok s :=
        View.find_eq_ok_iff.2 ⟨here, Bool.eq_false_iff.2 up⟩
      cases finds.symm.trans found
    exact congrArg some (if_pos kept)

theorem report_fate {awaited : List NodeId} (mem : node ∈ awaited) :
    (Round.reportOf f.reason awaited node (f.view.fate node)).map (request.answer node) =
      some (f.foretold request node) := by
  simp only [foretold]
  by_cases crashes : node ∈ f.crashing
  · rw [View.fate_of_crashing (show node ∈ f.view.crashing from crashes),
      if_pos (SortedMap.contains_iff.2 crashes)]
    exact congrArg (Option.map (request.answer node)) (if_pos mem)
  · rw [View.fate_of_sound (show node ∉ f.view.crashing from crashes),
      if_neg fun mem => crashes (SortedMap.contains_iff.1 mem)]
    rfl

theorem unlimited_iff : f.permits = none ↔ f.view.limited = false := by
  rw [← Option.isNone_iff_eq_none, ← Option.not_isSome, Bool.not_eq_true']
  rfl

/-- A round of which no call is abandoned is conducted to its end. -/
theorem Quiet.conducted (quiet : f.Quiet) (inTime : f.InTime settings request nodes) :
    f.Conducted request nodes (f.callRound settings request nodes).2.view :=
  ⟨⟨_, events_callRound quiet.consistent settings request nodes⟩,
    fun here => (over_self f).callRound quiet.consistent inTime (Nat.le_refl _) here⟩

theorem outcome_callRound (ok : f.view.Consistent) : (f.callRound settings request nodes).1 =
    (f.callRound settings request nodes).2.view.outcome f.campaigns.length request := by
  obtain ⟨c, found, -, -, eq⟩ := callRound_spec ok settings request nodes
  have follows := (events_callRound ok settings request nodes).follows
  simp only [View.outcome]
  rw [show (f.callRound settings request nodes).2.view.campaigns[f.campaigns.length]? = some c
    from found, follows.reason]
  exact eq

namespace Conducted

variable (done : f.Conducted request nodes w)

include done

theorem follows : ∃ parallelism, (f.view.begin request parallelism nodes).Follows w := by
  obtain ⟨parallelism, events⟩ := done.events
  exact ⟨parallelism, events.follows⟩

theorem task?_eq_none (absent : node ∉ nodes) {i : Nat} (young : f.campaigns.length ≤ i) :
    w.task? i node = none := by
  obtain ⟨parallelism, follows⟩ := done.follows
  apply follows.task?_eq_none
  rw [View.task?_begin, if_neg absent, View.task?_of_length_le young, ite_self]

theorem exists_campaign : ∃ c, w.campaigns[f.campaigns.length]? = some c ∧ c.request = request ∧
    ∀ node, node ∈ c.round.tasks.keys ↔ node ∈ nodes := by
  obtain ⟨parallelism, follows⟩ := done.follows
  obtain ⟨c, found, asks, stays⟩ := follows.campaigns _ _ View.getElem?_begin_self
  refine ⟨c, found, asks, fun node => ?_⟩
  rw [stays.keys]
  exact Round.mem_keys_start

variable (quiet : f.Quiet)

include quiet

theorem tracked : w.Consistent ∧ View.Since f.view w ∧ f.view.Young w := by
  obtain ⟨parallelism, events⟩ := done.events
  have since := events.since quiet.consistent.begin
    (View.Young.begin quiet.tracked.young (Nat.le_refl _))
    (quiet.tracked.since.begin fun _ _ _ young => View.task?_of_length_le young)
  exact ⟨events.consistent quiet.consistent.begin, since⟩

/-- No call is under way when all of the round have ended. -/
theorem pending : w.pending = 0 := by
  obtain ⟨ok, -, young⟩ := done.tracked quiet
  apply ok.pending_eq_zero young
  intro i node task old here
  obtain ⟨parallelism, follows⟩ := done.follows
  have length : w.campaigns.length = f.campaigns.length + 1 :=
    follows.length.trans (List.length_append ..)
  obtain ⟨c, there, -⟩ := View.task?_eq_some_iff.1 here
  have less : i < w.campaigns.length := (List.getElem?_eq_some_iff.1 there).1
  rw [length] at less
  cases Nat.le_antisymm (Nat.le_of_lt_succ less) old
  exact done.allEnded here

variable (unlimited : f.permits = none)

include unlimited

theorem fated : View.Fated f.view w := by
  obtain ⟨parallelism, events⟩ := done.events
  exact events.fated quiet.consistent.begin
    (View.Young.begin quiet.tracked.young (Nat.le_refl _))
    (quiet.tracked.since.begin fun _ _ _ young => View.task?_of_length_le young)
    (.begin (unlimited_iff.1 unlimited) quiet.pending)

theorem task?_eq (mem : node ∈ nodes) :
    w.task? f.campaigns.length node = some (f.view.fate node) := by
  obtain ⟨c, found, -, keys⟩ := done.exists_campaign
  obtain ⟨task, here⟩ := SortedMap.mem_keys_iff.1 ((keys node).2 mem)
  have there : w.task? f.campaigns.length node = some task :=
    View.task?_eq_some_iff.2 ⟨c, found, here⟩
  rw [there]
  exact congrArg some ((done.fated quiet unlimited).ended (Nat.le_refl _) there (done.allEnded there))

/-! ### What a round comes to -/

/-- Every node that was asked has the answer that was foretold. -/
theorem get?_outcome (node : NodeId) :
    (w.outcome f.campaigns.length request).completed.get? node =
      if node ∈ nodes then some (f.foretold request node) else none := by
  obtain ⟨c, found, -, keys⟩ := done.exists_campaign
  obtain ⟨_, follows⟩ := done.follows
  have tasks (node : NodeId) : w.task? f.campaigns.length node = c.round.tasks.get? node := by
    simp only [View.task?]
    rw [found]
    rfl
  have awaited : c.round.awaited = c.round.tasks.keys := by
    apply Round.awaited_of_ended
    intro node task here
    exact done.allEnded ((tasks node).trans here)
  simp only [View.outcome]
  rw [found, follows.reason]
  dsimp only
  rw [RoundOutcome.completed_map, Round.get?_completed, ← tasks, awaited]
  split
  · rename_i mem
    rw [done.task?_eq quiet unlimited mem]
    exact report_fate ((keys node).2 mem)
  · rename_i absent
    rw [done.task?_eq_none absent (Nat.le_refl _)]
    rfl

theorem abandoned : (w.outcome f.campaigns.length request).abandoned = .empty := by
  apply SortedSet.ext_mem
  intro node
  apply iff_of_false _ (SortedSet.not_mem_empty node)
  intro mem
  have reported := done.get?_outcome quiet unlimited node
  obtain ⟨c, found, -, keys⟩ := done.exists_campaign
  simp only [View.outcome] at mem reported
  rw [found] at mem reported
  obtain ⟨asked, absent⟩ := Round.mem_abandoned_iff.1 mem
  rw [if_pos ((keys node).1 asked), RoundOutcome.completed_map, absent] at reported
  cases reported

/-- A node that was asked is left as was foretold, and the others as they were. -/
theorem get?_servers (node : NodeId) : w.servers.get? node =
    if node ∈ nodes then f.touched request node else f.servers.get? node := by
  obtain ⟨-, since, -⟩ := done.tracked quiet
  split
  · rename_i mem
    have here := done.task?_eq quiet unlimited mem
    by_cases crashes : node ∈ f.crashing
    · rw [View.fate_of_crashing (show node ∈ f.view.crashing from crashes)] at here
      rw [touched_of_missed fun sound => absurd crashes sound]
      exact since.spared (since.spares (Nat.le_refl _) here nofun)
    · rw [View.fate_of_sound (show node ∉ f.view.crashing from crashes)] at here
      cases finds : f.find node with
      | error e =>
        rw [touched_of_missed fun _ => ⟨e, finds⟩]
        rw [show f.view.find node = .error e from finds] at here
        exact since.spared (since.spares (Nat.le_refl _) here nofun)
      | ok s =>
        rw [touched_of_find crashes finds]
        rw [show f.view.find node = .ok s from finds] at here
        obtain ⟨c, found, asks, -⟩ := done.exists_campaign
        have asked : w.request? f.campaigns.length = some request :=
          Option.map_eq_some_iff.2 ⟨c, found, asks⟩
        exact (since.found (Nat.le_refl _) asked here).2.2
  · rename_i absent
    apply since.spared
    intro i s young ended
    cases ended.symm.trans (done.task?_eq_none absent young)

theorem made (operation : Operation) (node : NodeId) : w.made operation node =
    f.view.made operation node + (f.reaching request nodes).count ⟨node, operation⟩ := by
  rw [count_reaching]
  by_cases crashes : node ∈ f.crashing
  · rw [(done.fated quiet unlimited).made crashes, if_neg fun all => all.2.2 crashes]
    rfl
  · obtain ⟨parallelism, events⟩ := done.events
    obtain ⟨tally, broken⟩ := events.tally quiet.consistent.begin operation node
    have due : w.due operation node = 0 := by
      simp only [View.due]
      rw [done.pending quiet]
      exact Multiset.countP_zero _
    rw [View.tally_begin] at tally
    rw [View.broken_begin] at broken
    simp only [View.tally] at tally
    rw [due, quiet.due, broken crashes] at tally
    simp only [crashes, not_false_eq_true, and_true]
    omega

/-- The calls that reach the client are known, though not their order. -/
theorem calls : ∃ more, w.calls = f.calls ++ more ∧ more.Perm (f.reaching request nodes) := by
  obtain ⟨parallelism, events⟩ := done.events
  exact View.exists_calls_of_made events.grown (done.made quiet unlimited)

end Conducted

end Fleet

end Resharding
