import Resharding.Proofs.Fleet.Fate
import Resharding.Proofs.Fleet.Slots

/-!
The calls of a round that are still to start when the round is looked at.

A call waits for a slot exactly while its task waits for its turn, so there are as many queued calls as
waiting tasks (`View.Counted`). As no slot is left free while a call waits for one, a round that is
looked at has as many calls still to start as calls are late beyond those that have a slot
(`Fleet.unissued_callRound`). If no more are late than there are slots, every call of the round
that does not break down has reached the client, and none comes later (`Fleet.issued_callRound`).
-/

namespace Resharding

def Task.isWaiting {α : Type} : Task α → Bool
  | waiting => true
  | _ => false

namespace Round

variable {α : Type} {r : Round α} {node : NodeId}

/-- How many tasks wait for their turn. -/
def waitingCount (r : Round α) : Nat := r.tasks.values.countP Task.isWaiting

theorem waitingCount_insert {old : Task α} (task : Task α) (was : r.tasks.get? node = some old) :
    (⟨r.width, r.tasks.insert node task⟩ : Round α).waitingCount + (if old.isWaiting then 1 else 0) =
      r.waitingCount + if task.isWaiting then 1 else 0 :=
  SortedMap.countP_values_insert Task.isWaiting task was

theorem waitingCount_start (parallelism : Nat) (nodes : List NodeId) :
    (start (α := α) parallelism nodes).waitingCount =
      (start (α := α) parallelism nodes).tasks.keys.length := by
  have all : ∀ task ∈ (start (α := α) parallelism nodes).tasks.values, task.isWaiting := by
    intro task mem
    rw [eq_waiting_of_mem_start mem]
    rfl
  simp only [waitingCount]
  rw [List.countP_eq_length.2 all]
  exact (List.length_map _).trans (List.length_map _).symm

/-- Tasks that wait or run have nothing to report, and only broken ones may have nothing either. -/
theorem countP_unreported (reason : NodeId → String) (awaited : List NodeId)
    (es : List (NodeId × Task α)) :
    es.countP (fun e => e.2.isWaiting) + es.countP (fun e => e.2.isRunning) ≤
        es.countP (fun e => (reportOf reason awaited e.1 e.2).isNone) ∧
      ((∀ e ∈ es, e.2 ≠ .crashed) →
        es.countP (fun e => e.2.isWaiting) + es.countP (fun e => e.2.isRunning) =
          es.countP (fun e => (reportOf reason awaited e.1 e.2).isNone)) := by
  induction es with
  | nil => exact ⟨Nat.le_refl _, fun _ => rfl⟩
  | cons e rest ih =>
    obtain ⟨node, task⟩ := e
    simp only [List.countP_cons, List.forall_mem_cons]
    cases task with
    | crashed => exact ⟨Nat.le_add_right_of_le ih.1, fun sound => absurd rfl sound.1⟩
    | waiting =>
      change _ + 1 + _ ≤ _ + 1 ∧ (_ → _ + 1 + _ = _ + 1)
      rw [Nat.add_right_comm]
      exact ⟨Nat.succ_le_succ ih.1, fun sound => congrArg Nat.succ (ih.2 sound.2)⟩
    | running => exact ⟨Nat.succ_le_succ ih.1, fun sound => congrArg Nat.succ (ih.2 sound.2)⟩
    | finished result => exact ⟨ih.1, fun sound => ih.2 sound.2⟩

/-- Nodes whose tasks wait or run have no result, and others have one unless their task broke down. -/
theorem waitingCount_add_runningCount (r : Round α) (reason : NodeId → String)
    (awaited : List NodeId) :
    r.waitingCount + r.runningCount ≤
        r.tasks.keys.countP (fun node => ((r.outcome reason awaited).completed.get? node).isNone) ∧
      ((∀ node, r.tasks.get? node ≠ some .crashed) → r.waitingCount + r.runningCount =
        r.tasks.keys.countP fun node => ((r.outcome reason awaited).completed.get? node).isNone) := by
  have unreported : r.tasks.keys.countP
        (fun node => ((r.outcome reason awaited).completed.get? node).isNone) =
      r.tasks.toList.countP fun e => (reportOf reason awaited e.1 e.2).isNone := by
    refine List.countP_map.trans (List.countP_congr fun e mem => ?_)
    rw [Function.comp_apply, get?_completed, SortedMap.get?_eq_some_iff.2 mem, Option.bind_some]
  have counted (p : Task α → Bool) :
      r.tasks.values.countP p = r.tasks.toList.countP fun e => p e.2 := List.countP_map
  obtain ⟨atMost, exactly⟩ := countP_unreported reason awaited r.tasks.toList
  simp only [waitingCount, runningCount]
  rw [unreported, counted, counted]
  refine ⟨atMost, fun sound => exactly fun e mem broke => ?_⟩
  exact sound e.1 (broke ▸ SortedMap.get?_eq_some_iff.2 mem)

end Round

/-! ### Queued calls and waiting tasks -/

namespace View

/-- How many calls of the `i`-th round wait for a slot. -/
def queued (v : View) (i : Nat) : Nat :=
  v.pending.countP fun e => e.1.caller = .task i ∧ e.2 = .queued

/-- How many calls of the `i`-th round are still to start. -/
def unissued (v : View) (i : Nat) : Nat :=
  v.pending.countP fun e => e.1.caller = .task i ∧ e.2.isDue

/-- As many calls of the `i`-th round wait for a slot as tasks of it wait for their turn, and no
more of them run than may. -/
def Counted (v : View) (i : Nat) : Prop :=
  ∀ c, v.campaigns[i]? = some c →
    v.queued i = c.round.waitingCount ∧ c.round.runningCount ≤ c.round.width

variable {v w : View} {flight : Flight} {stage : Stage} {i j : Nat} {c : Campaign}

theorem queued_add : (v.add flight stage).queued i =
    v.queued i + if flight.caller = .task i ∧ stage = .queued then 1 else 0 :=
  Multiset.countP_cons _ _ _

theorem Counted.congr (counted : v.Counted i) (queued : w.queued i = v.queued i)
    (campaigns : w.campaigns = v.campaigns) : w.Counted i := by
  intro c there
  rw [campaigns] at there
  rw [queued]
  exact counted c there

/-- A call that holds a slot does not wait for one. -/
theorem counted_add_iff (started : stage ≠ .queued) :
    (v.add flight stage).Counted i ↔ v.Counted i := by
  have same : (v.add flight stage).queued i = v.queued i := by
    rw [queued_add, if_neg fun both => started both.2]
    rfl
  constructor
  · intro counted
    exact Counted.congr (v := v.add flight stage) (w := v) counted same.symm rfl
  · intro counted
    exact counted.congr same rfl

theorem Counted.changeRound_of_ne {change : Round Server → Option (Round Server)} (ne : j ≠ i)
    (counted : v.Counted i) : (v.changeRound j change).Counted i := by
  intro c there
  rw [getElem?_changeRound_of_ne ne] at there
  exact counted c there

/-- A task that ends did not wait. -/
theorem Counted.retask (counted : v.Counted i) (fits : v.Fits flight stage)
    (caller : flight.caller = .task j) (started : stage ≠ .queued) {ended : Task Server}
    {change : Round Server → Option (Round Server)}
    (changes : ∀ r : Round Server, r.tasks.get? flight.node = some .running →
      change r = some { r with tasks := r.tasks.insert flight.node ended })
    (done : ended.hasEnded) : (v.changeRound j change).Counted i := by
  by_cases same : j = i
  · subst same
    obtain ⟨c, found, -, runs, within⟩ := fits.running caller started
    intro d there
    rw [getElem?_changeRound_self found (changes _ runs)] at there
    cases there
    have stopped : ended.isRunning = false ∧ ended.isWaiting = false := by
      cases ended with
      | finished result => exact ⟨rfl, rfl⟩
      | crashed => exact ⟨rfl, rfl⟩
      | _ => cases done
    have fewer := Round.runningCount_end ended runs stopped.1
    have waiting := Round.waitingCount_insert ended runs
    rw [stopped.2] at waiting
    constructor
    · exact (counted c found).1.trans waiting.symm
    · exact Nat.le_trans (Nat.le_of_lt (Nat.lt_of_succ_le (Nat.le_of_eq fewer))) within
  · exact counted.changeRound_of_ne same

theorem Counted.hand (counted : v.Counted i) (fits : v.Fits flight stage)
    (started : stage ≠ .queued) (found : Except CallError Server) :
    (v.hand flight found).Counted i := by
  simp only [View.hand]
  cases caller : flight.caller with
  | direct index => exact counted.congr rfl rfl
  | task j =>
    exact counted.retask fits caller started (fun r runs => Round.finish?_of_running runs found) rfl

theorem Counted.launch (counted : (v.add flight .queued).Counted i)
    (caller : flight.caller = .task j) (found : v.campaigns[j]? = some c) {r : Round Server}
    (launches : c.round.launch? flight.node = some r) :
    ((v.changeRound j (·.launch? flight.node)).add flight .launched).Counted i := by
  rw [counted_add_iff (by decide)]
  by_cases same : j = i
  · subst same
    intro d there
    rw [getElem?_changeRound_self found launches] at there
    cases there
    obtain ⟨waits, room, rfl⟩ := Round.launch?_eq_some_iff.1 launches
    have more := Round.runningCount_launch waits
    have fewer := Round.waitingCount_insert (.running : Task Server) waits
    have before := (counted c found).1
    rw [queued_add, if_pos ⟨caller, rfl⟩] at before
    constructor
    · exact Nat.succ_injective (before.trans fewer.symm)
    · exact Nat.le_trans (Nat.le_of_eq more) (of_decide_eq_true room)
  · have kept : (v.add flight .queued).queued i = v.queued i := by
      rw [queued_add, if_neg]
      · rfl
      · rintro ⟨callerI, -⟩
        cases caller.symm.trans callerI
        exact same rfl
    have before : v.Counted i :=
      Counted.congr (v := v.add flight .queued) (w := v) counted kept.symm rfl
    exact before.changeRound_of_ne same

theorem counted_begin (ok : v.Consistent) {request : Request} {parallelism : Nat}
    {nodes : List NodeId} : (v.begin request parallelism nodes).Counted v.campaigns.length := by
  intro c there
  rw [getElem?_begin_self] at there
  cases there
  have old : v.pending.countP
      (fun e => e.1.caller = .task v.campaigns.length ∧ e.2 = .queued) = 0 := by
    apply Multiset.countP_eq_zero.2
    rintro e mem ⟨caller, -⟩
    exact Nat.lt_irrefl _ (ok.lt_length mem caller)
  have all : ∀ e ∈ (roundCalls v.campaigns.length request nodes).map (·, Stage.queued),
      e.1.caller = .task v.campaigns.length ∧ e.2 = .queued := by
    intro e mem
    obtain ⟨flight, inCalls, rfl⟩ := List.mem_map.1 mem
    obtain ⟨node, -, rfl⟩ := mem_roundCalls.1 inCalls
    exact ⟨rfl, rfl⟩
  constructor
  · simp only [queued, View.begin]
    rw [Multiset.countP_add, old, Multiset.coe_countP, List.countP_eq_length.2 (by simpa using all),
      Round.waitingCount_start, Nat.zero_add, List.length_map]
    exact List.length_map _
  · exact Nat.le_trans (Nat.le_of_eq (Round.runningCount_start _ _)) (Nat.zero_le _)

end View

open View in
theorem Event.counted {v w : View} (event : Event v w) (ok : v.Consistent) {i : Nat}
    (counted : v.Counted i) : w.Counted i := by
  cases event with
  | launch caller found launches => exact counted.launch caller found launches
  | @crash v flight j caller crashes =>
    have fits := (consistent_add_iff.1 ok).2
    have before : v.Counted i := (counted_add_iff (by decide)).1 counted
    exact before.retask fits caller (by decide) (fun r runs => Round.crash?_of_running runs) rfl
  | @issue v flight sound =>
    have before : v.Counted i := (counted_add_iff (by decide)).1 counted
    have recorded : (v.record flight).Counted i := before.congr rfl rfl
    apply (counted_add_iff _).2 recorded
    split <;> exact nofun
  | board => exact (counted_add_iff (by decide)).2 ((counted_add_iff (by decide)).1 counted)
  | @land v flight =>
    have fits := (consistent_add_iff.1 ok).2
    have before : v.Counted i := (counted_add_iff (by decide)).1 counted
    have visited : Fits (v.visit flight) flight .travelling := fits.congr rfl rfl
    have kept : (v.visit flight).Counted i := before.congr rfl rfl
    exact kept.hand visited (by decide) _
  | expire =>
    have fits := (consistent_add_iff.1 ok).2
    have before := (counted_add_iff (by decide)).1 counted
    exact before.hand fits (by decide) _

theorem Events.counted {v w : View} (events : Events v w) (ok : v.Consistent) {i : Nat}
    (counted : v.Counted i) : w.Counted i := by
  induction events with
  | refl => exact counted
  | tail events event ih => exact event.counted (Events.consistent events ok) ih

open View in
/-- Only the tasks of crashing nodes break down. -/
theorem Event.crashed {v w : View} (event : Event v w) (ok : v.Consistent) {i : Nat} {node : NodeId}
    (broke : w.task? i node = some .crashed) :
    v.task? i node = some .crashed ∨ node ∈ v.crashing := by
  cases event with
  | @launch v flight j c r caller there launches =>
    obtain ⟨-, -, rfl⟩ := Round.launch?_eq_some_iff.1 launches
    have changed : (v.changeRound j (·.launch? flight.node)).task? i node = some .crashed := broke
    rcases of_task?_changeRound (show v.campaigns[j]? = some c from there) launches changed with
      old | ⟨-, -, same⟩
    · exact .inl old
    · cases same
  | @crash v flight j caller crashes =>
    obtain ⟨c, there, -, runs, -⟩ := (consistent_add_iff.1 ok).2.running caller (by decide)
    rcases of_task?_changeRound there (Round.crash?_of_running runs) broke with old | ⟨-, rfl, -⟩
    · exact .inl old
    · exact .inr crashes
  | issue => exact .inl broke
  | board => exact .inl broke
  | @land v flight =>
    have fits := (consistent_add_iff.1 ok).2
    have visited : Fits (v.visit flight) flight .travelling := fits.congr rfl rfl
    rcases visited.of_task?_hand (by decide) broke with old | ⟨-, -, same⟩
    · exact .inl old
    · cases same
  | expire =>
    rcases (consistent_add_iff.1 ok).2.of_task?_hand (by decide) broke with old | ⟨-, -, same⟩
    · exact .inl old
    · cases same

theorem Events.crashed {v w : View} (events : Events v w) (ok : v.Consistent) {i : Nat}
    {node : NodeId} (broke : w.task? i node = some .crashed) :
    v.task? i node = some .crashed ∨ node ∈ v.crashing := by
  induction events with
  | refl => exact .inl broke
  | tail events event ih =>
    rcases event.crashed (Events.consistent events ok) broke with before | crashes
    · exact ih before
    · rw [(Events.follows events).crashing] at crashes
      exact .inr crashes

/-! ### Rounds -/

namespace Fleet

variable {f : Fleet} {settings : Settings} {request : Request} {nodes : List NodeId} {i : Nat}

theorem mem_pending_of_parked {e : Flight × Wait} (parked : e ∈ f.parked) :
    (e.1, e.2.stage) ∈ f.view.pending := by
  apply Multiset.mem_coe.2
  exact List.mem_append_right _ (List.mem_map_of_mem parked)

/-- A round is looked at when no call can go on and none of its calls waits for a slot that is free. -/
theorem rest_callRound (ok : f.view.Consistent) (settings : Settings) (request : Request)
    (nodes : List NodeId) :
    (f.callRound settings request nodes).2.ready = [] ∧
      (f.callRound settings request nodes).2.Slotted f.campaigns.length := by
  have slotted : (f.begin request settings.parallelism nodes).Slotted f.campaigns.length := by
    intro e mem caller
    exact absurd (ok.lt_length (mem_pending_of_parked mem) caller) (Nat.lt_irrefl _)
  have start : (f.begin request settings.parallelism nodes).view.Consistent := by
    rw [view_begin]
    exact ok.begin
  have ran := slotted_run slotted start (·.isRoundOver f.campaigns.length)
    (some (f.now + settings.shutdownTimeout))
  have rests := (run_atRest (f.begin request settings.parallelism nodes)
    (·.isRoundOver f.campaigns.length) (some (f.now + settings.shutdownTimeout))).1
  rw [begin_eq] at ran rests
  simp only [callRound]
  split
  · exact ⟨rests, ran⟩
  · exact ⟨rests, ran.of_subset (List.Subset.refl _) rfl⟩

section

variable (idle : f.ready = []) (slotted : f.Slotted i)

include idle slotted

/-- When no call can go on, the calls that are still to start wait for slots. -/
theorem unissued_eq_queued : f.view.unissued i = f.view.queued i := by
  change f.pending.countP _ = f.pending.countP _
  simp only [Fleet.pending]
  rw [idle, Multiset.coe_countP, Multiset.coe_countP]
  apply List.countP_congr
  intro e mem
  obtain ⟨⟨flight, wait⟩, parked, rfl⟩ := List.mem_map.1 mem
  simp only [decide_eq_true_eq]
  apply and_congr_right
  intro caller
  have launched := (slotted _ parked caller).1
  constructor
  · intro due
    cases stage : wait.stage with
    | queued => rfl
    | launched => exact absurd stage launched
    | boarding => rw [stage] at due; cases due
    | travelling => rw [stage] at due; cases due
  · intro queued
    rw [queued]
    rfl

theorem full_of_unissued (left : f.view.unissued i ≠ 0) : f.Full i := by
  rw [unissued_eq_queued idle slotted] at left
  obtain ⟨e, mem, caller, queued⟩ := Multiset.countP_pos.1 (Nat.pos_of_ne_zero left)
  change e ∈ f.pending at mem
  simp only [Fleet.pending] at mem
  rw [idle] at mem
  obtain ⟨⟨flight, wait⟩, parked, rfl⟩ := List.mem_map.1 (Multiset.mem_coe.1 mem)
  exact (slotted _ parked caller).2 queued

/-- The calls of a round that are still to start are those that its slots have no room for. -/
theorem unissued_eq (counted : f.view.Counted i) {c : Campaign}
    (there : f.campaigns[i]? = some c) :
    f.view.unissued i = c.round.waitingCount + c.round.runningCount - c.round.width := by
  obtain ⟨queued, within⟩ := counted c there
  rw [← unissued_eq_queued idle slotted] at queued
  by_cases done : f.view.unissued i = 0
  · omega
  · have full := full_of_unissued idle slotted done c there
    simp only [Round.hasRoom, decide_eq_true_eq] at full
    omega

end

/-- How many calls of a round have not ended when it is looked at, as far as is known then. -/
def late (f : Fleet) (settings : Settings) (request : Request) (nodes : List NodeId) : Nat :=
  nodes.countP fun node => (f.ends settings request nodes node).isNone

theorem late_eq (ok : f.view.Consistent) (distinct : nodes.Nodup) {c : Campaign}
    (there : (f.callRound settings request nodes).2.campaigns[f.campaigns.length]? = some c) :
    f.late settings request nodes = c.round.tasks.keys.countP fun node =>
      ((c.round.outcome f.reason c.round.awaited).completed.get? node).isNone := by
  obtain ⟨c', there', -, follows, eq⟩ := callRound_spec ok settings request nodes
  cases there.symm.trans there'
  have perm : nodes.Perm c.round.tasks.keys := by
    rw [List.perm_ext_iff_of_nodup distinct (SortedMap.nodup_keys _)]
    intro node
    rw [follows.keys]
    exact Round.mem_keys_start.symm
  simp only [late, ends]
  rw [perm.countP_eq, eq]
  apply List.countP_congr
  intro node _
  rw [RoundOutcome.completed_map, Option.isNone_map]

/-- When a round is looked at, as many of its calls are still to start as calls are late beyond those
that have a slot, or fewer if some have broken down. -/
theorem unissued_callRound (ok : f.view.Consistent) (settings : Settings) (request : Request)
    (distinct : nodes.Nodup) :
    (f.callRound settings request nodes).2.view.unissued f.campaigns.length ≤
        f.late settings request nodes - max settings.parallelism 1 ∧
      ((∀ node ∈ nodes, node ∉ f.crashing) →
        (f.callRound settings request nodes).2.view.unissued f.campaigns.length =
          f.late settings request nodes - max settings.parallelism 1) := by
  obtain ⟨c, there, -, follows, -⟩ := callRound_spec ok settings request nodes
  have events := events_callRound ok settings request nodes
  obtain ⟨idle, slotted⟩ := rest_callRound ok settings request nodes
  have counted := events.counted ok.begin (View.counted_begin ok)
  obtain ⟨atMost, exactly⟩ := c.round.waitingCount_add_runningCount f.reason c.round.awaited
  have width : c.round.width = max settings.parallelism 1 := follows.width
  rw [unissued_eq idle slotted counted there, late_eq ok distinct there, width]
  constructor
  · exact Nat.sub_le_sub_right atMost _
  · intro sound
    rw [exactly]
    intro node broke
    have task : (f.callRound settings request nodes).2.view.task? f.campaigns.length node =
        some .crashed := View.task?_eq_some_iff.2 ⟨c, there, broke⟩
    have mem : node ∈ nodes := by
      have known := SortedMap.mem_keys_iff.2 ⟨_, broke⟩
      rw [follows.keys] at known
      exact Round.mem_keys_start.1 known
    rcases events.crashed ok.begin task with before | crashes
    · rw [View.task?_begin, if_pos (show f.campaigns.length = f.view.campaigns.length from rfl),
        if_pos mem] at before
      cases before
    · exact sound node mem crashes

end Fleet

/-! ### Rounds of which every call has started -/

namespace View

/-- Every call under way has reached the client. -/
def Issued (v : View) : Prop := ∀ e ∈ v.pending, e.2.isDue = false

/-- The calls that are still to start are those of rounds since the `n`-th. -/
def DueSince (v : View) (n : Nat) : Prop :=
  ∀ e ∈ v.pending, e.2.isDue → ∃ i, e.1.caller = .task i ∧ n ≤ i

variable {v : View} {n : Nat}

theorem Issued.due (issued : v.Issued) (operation : Operation) (node : NodeId) :
    v.due operation node = 0 := by
  apply Multiset.countP_eq_zero.2
  rintro e mem ⟨-, -, due⟩
  rw [issued e mem] at due
  cases due

theorem Issued.begin (issued : v.Issued) {request : Request} {parallelism : Nat}
    {nodes : List NodeId} : (v.begin request parallelism nodes).DueSince v.campaigns.length := by
  intro e mem due
  rcases Multiset.mem_add.1 mem with mem | mem
  · rw [issued e mem] at due
    cases due
  · obtain ⟨flight, inCalls, rfl⟩ := List.mem_map.1 mem
    obtain ⟨node, -, rfl⟩ := mem_roundCalls.1 inCalls
    exact ⟨v.campaigns.length, rfl, Nat.le_refl _⟩

/-- If no call of the last round is still to start, none is. -/
theorem DueSince.issued (dueSince : v.DueSince n) (ok : v.Consistent)
    (last : v.campaigns.length = n + 1) (none : v.unissued n = 0) : v.Issued := by
  intro e mem
  apply Bool.eq_false_iff.2
  intro due
  obtain ⟨i, caller, since⟩ := dueSince e mem due
  have less := ok.lt_length mem caller
  rw [last] at less
  cases Nat.le_antisymm (Nat.le_of_lt_succ less) since
  exact Multiset.countP_eq_zero.1 none e mem ⟨caller, due⟩

end View

section

variable {v w : View} {n : Nat}

/-- Once every call has started, no event records another one. -/
theorem Event.issued (event : Event v w) (issued : v.Issued) : w.Issued ∧ w.calls = v.calls := by
  constructor
  · intro e mem
    obtain ⟨stage, before, later⟩ := event.mem_pending mem
    apply Bool.eq_false_iff.2
    intro due
    have still := later due
    rw [issued _ before] at still
    cases still
  · rcases event.calls with same | ⟨flight, launched, -⟩
    · exact same
    · cases issued _ launched

theorem Events.issued (events : Events v w) (issued : v.Issued) :
    w.Issued ∧ w.calls = v.calls := by
  induction events with
  | refl => exact ⟨issued, rfl⟩
  | tail _ event ih =>
    obtain ⟨still, same⟩ := event.issued ih.1
    exact ⟨still, same.trans ih.2⟩

theorem Event.dueSince (event : Event v w) (dueSince : v.DueSince n) : w.DueSince n := by
  intro e mem due
  obtain ⟨stage, before, later⟩ := event.mem_pending mem
  exact dueSince (e.1, stage) before (later due)

theorem Events.dueSince (events : Events v w) (dueSince : v.DueSince n) : w.DueSince n := by
  induction events with
  | refl => exact dueSince
  | tail _ event ih => exact event.dueSince ih

/-- No call of a round to a crashing node is recorded. -/
theorem Event.made_of_crashing (event : Event v w) (dueSince : v.DueSince n)
    (operation : Operation) {node : NodeId} (crashes : node ∈ v.crashing) :
    w.made operation node = v.made operation node := by
  simp only [View.made]
  rcases event.calls with same | ⟨flight, launched, sound, more⟩
  · rw [same]
  · obtain ⟨i, caller, -⟩ := dueSince _ launched rfl
    have apart : flight.node ≠ node := fun same => sound i caller (same ▸ crashes)
    rw [more, List.countP_append, List.countP_singleton, if_neg, Nat.add_zero]
    rw [decide_eq_true_eq]
    exact fun both => apart both.1

theorem Events.made_of_crashing (events : Events v w) (dueSince : v.DueSince n)
    (operation : Operation) {node : NodeId} (crashes : node ∈ v.crashing) :
    w.made operation node = v.made operation node := by
  induction events with
  | refl => rfl
  | tail events event ih =>
    rw [← (Events.follows events).crashing] at crashes
    exact (event.made_of_crashing (Events.dueSince events dueSince) operation crashes).trans ih

end

namespace Fleet

variable {f : Fleet} {settings : Settings} {request : Request} {nodes : List NodeId}

theorem made_callRound (ok : f.view.Consistent) (before : f.view.Issued)
    (after : (f.callRound settings request nodes).2.view.Issued) (operation : Operation)
    (node : NodeId) : (f.callRound settings request nodes).2.view.made operation node =
      f.view.made operation node + (f.reaching request nodes).count ⟨node, operation⟩ := by
  rw [count_reaching]
  have events := events_callRound ok settings request nodes
  by_cases crashes : node ∈ f.crashing
  · rw [if_neg fun all => all.2.2 crashes]
    exact events.made_of_crashing before.begin operation crashes
  · obtain ⟨tally, broken⟩ := tally_callRound ok settings request nodes operation node
    simp only [View.tally] at tally
    rw [before.due, after.due, broken crashes] at tally
    simp only [crashes, not_false_eq_true, and_true]
    omega

/-- If no more calls of a round are late than have a slot, every call has started when the round is
looked at, and those have reached the client that do not break down. -/
theorem issued_callRound (ok : f.view.Consistent) (distinct : nodes.Nodup)
    (issued : f.view.Issued)
    (few : f.late settings request nodes ≤ max settings.parallelism 1) :
    (f.callRound settings request nodes).2.view.Issued ∧
      ∃ more, (f.callRound settings request nodes).2.calls = f.calls ++ more ∧
        more.Perm (f.reaching request nodes) := by
  have events := events_callRound ok settings request nodes
  have none := (unissued_callRound ok settings request distinct).1
  rw [Nat.sub_eq_zero_of_le few, Nat.le_zero] at none
  have last : (f.callRound settings request nodes).2.view.campaigns.length =
      f.campaigns.length + 1 := events.follows.length.trans (List.length_append ..)
  have after := (events.dueSince issued.begin).issued (events.consistent ok.begin) last none
  refine ⟨after, View.exists_calls_of_made events.grown ?_⟩
  exact made_callRound ok issued after

end Fleet

end Resharding
