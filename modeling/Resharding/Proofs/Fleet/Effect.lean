import Resharding.Proofs.Fleet.Reachable

/-!
What rounds do to the servers.

From a moment at which no call is under way, rounds of calls to different nodes are begun, one after
the other. As long as nothing else happens, the record of a node is as it was at that moment until
the call to it has found it, and from then on is what the call made of it (`View.Since`). So every
node that no call has found is as it was, whatever became of its own call.
-/

namespace Resharding

namespace View

variable {v w v₀ : View} {flight : Flight} {i j : Nat} {c : Campaign} {node : NodeId}

/-- What the calls of the `i`-th round ask. -/
def request? (v : View) (i : Nat) : Option Request := (v.campaigns[i]?).map (·.request)

/-- No call that has begun since `v₀` has found the node. -/
def Spares (v₀ v : View) (node : NodeId) : Prop :=
  ∀ i s, v₀.campaigns.length ≤ i → v.task? i node ≠ some (.finished (.ok s))

/-- Since `v₀` only rounds of calls to different nodes have been begun, and their calls alone have
reached the servers. -/
structure Since (v₀ v : View) : Prop where
  /-- A node is called in one of the rounds only. -/
  alone : ∀ {node i j}, v₀.campaigns.length ≤ i → v₀.campaigns.length ≤ j →
    v.task? i node ≠ none → v.task? j node ≠ none → i = j
  spared : ∀ {node}, Spares v₀ v node → v.servers.get? node = v₀.servers.get? node
  found : ∀ {node i s request}, v₀.campaigns.length ≤ i → v.request? i = some request →
    v.task? i node = some (.finished (.ok s)) →
    v₀.servers.get? node = some s ∧ s.isDown = false ∧
      v.servers.get? node = some (request.effect s)

/-! ### Tasks -/

theorem task?_eq_some_iff {task : Task Server} :
    v.task? i node = some task ↔
      ∃ c, v.campaigns[i]? = some c ∧ c.round.tasks.get? node = some task :=
  Option.bind_eq_some_iff

theorem request?_changeRound {change : Round Server → Option (Round Server)} :
    (v.changeRound i change).request? j = v.request? j := by
  simp only [request?]
  rw [getElem?_changeRound]
  split
  · cases v.campaigns[j]? <;> rfl
  · rfl

theorem task?_changeRound {change : Round Server → Option (Round Server)} {task : Task Server}
    {other : NodeId} (found : v.campaigns[i]? = some c)
    (changes : change c.round = some { c.round with tasks := c.round.tasks.insert node task }) :
    (v.changeRound i change).task? j other =
      if j = i ∧ other = node then some task else v.task? j other := by
  simp only [task?]
  by_cases same : i = j
  · subst same
    rw [getElem?_changeRound_self found changes, found, Option.bind_some, Option.bind_some]
    refine (SortedMap.get?_insert _ _ _ _).trans ?_
    simp only [true_and]
  · rw [getElem?_changeRound_of_ne same, if_neg fun both => same both.1.symm]

/-- A task is as it was, or is the one that has changed. -/
theorem of_task?_changeRound {change : Round Server → Option (Round Server)}
    {task now : Task Server} {other : NodeId} (found : v.campaigns[i]? = some c)
    (changes : change c.round = some { c.round with tasks := c.round.tasks.insert node task })
    (here : (v.changeRound i change).task? j other = some now) :
    v.task? j other = some now ∨ j = i ∧ other = node ∧ task = now := by
  rw [task?_changeRound found changes] at here
  split at here
  · rename_i same
    cases here
    exact .inr ⟨same.1, same.2, rfl⟩
  · exact .inl here

theorem getElem?_begin_of_ne {request : Request} {parallelism : Nat} {nodes : List NodeId}
    (apart : i ≠ v.campaigns.length) :
    (v.begin request parallelism nodes).campaigns[i]? = v.campaigns[i]? := by
  rcases Nat.lt_or_gt_of_ne apart with less | greater
  · exact getElem?_begin_of_lt less
  · rw [List.getElem?_eq_none (Nat.le_of_lt greater), List.getElem?_eq_none]
    exact Nat.le_trans (Nat.le_of_eq (List.length_append ..)) greater

theorem request?_begin {request : Request} {parallelism : Nat} {nodes : List NodeId} :
    (v.begin request parallelism nodes).request? i =
      if i = v.campaigns.length then some request else v.request? i := by
  simp only [request?]
  split
  · rename_i same
    rw [same, getElem?_begin_self]
    rfl
  · rename_i apart
    rw [getElem?_begin_of_ne apart]

theorem task?_begin {request : Request} {parallelism : Nat} {nodes : List NodeId} :
    (v.begin request parallelism nodes).task? i node =
      if i = v.campaigns.length then if node ∈ nodes then some .waiting else none
      else v.task? i node := by
  simp only [task?]
  split
  · rename_i same
    rw [same, getElem?_begin_self]
    exact Round.get?_start _ _ _
  · rename_i apart
    rw [getElem?_begin_of_ne apart]

/-! ### Keeping account -/

theorem task?_of_length_le (beyond : v.campaigns.length ≤ i) : v.task? i node = none := by
  simp only [task?]
  rw [List.getElem?_eq_none beyond]
  rfl

theorem Since.start (v : View) : Since v v where
  alone beyond _ task := absurd (task?_of_length_le beyond) task
  spared _ := rfl
  found beyond _ task := by
    rw [task?_of_length_le beyond] at task
    cases task

theorem Since.congr (since : Since v₀ v) (servers : w.servers = v.servers)
    (campaigns : w.campaigns = v.campaigns) : Since v₀ w := by
  have tasks (i : Nat) (node : NodeId) : w.task? i node = v.task? i node := by
    simp only [task?]
    rw [campaigns]
  have requests (i : Nat) : w.request? i = v.request? i := by
    simp only [request?]
    rw [campaigns]
  constructor
  · intro node i j hi hj
    rw [tasks, tasks]
    exact since.alone hi hj
  · intro node spares
    rw [servers]
    apply since.spared
    intro i s hi
    rw [← tasks]
    exact spares i s hi
  · intro node i s request hi
    rw [tasks, requests, servers]
    exact since.found hi

/-- The start of a round of calls to nodes that have not been called since. -/
theorem Since.begin (since : Since v₀ v) {request : Request} {parallelism : Nat}
    {nodes : List NodeId}
    (fresh : ∀ node ∈ nodes, ∀ i, v₀.campaigns.length ≤ i → v.task? i node = none) :
    Since v₀ (v.begin request parallelism nodes) := by
  constructor
  · intro node i j hi hj taskI taskJ
    rw [task?_begin] at taskI taskJ
    split at taskI <;> split at taskJ
    · rename_i sameI sameJ
      exact sameI.trans sameJ.symm
    · rename_i sameI apartJ
      split at taskI
      · rename_i mem
        exact absurd (fresh node mem j hj) taskJ
      · exact absurd rfl taskI
    · rename_i apartI sameJ
      split at taskJ
      · rename_i mem
        exact absurd (fresh node mem i hi) taskI
      · exact absurd rfl taskJ
    · exact since.alone hi hj taskI taskJ
  · intro node spares
    apply since.spared
    intro i s hi
    have still := spares i s hi
    rw [task?_begin] at still
    split at still
    · rename_i same
      rw [same, task?_of_length_le (Nat.le_refl _)]
      exact nofun
    · exact still
  · intro node i s asked hi request task
    rw [task?_begin] at task
    rw [request?_begin] at request
    split at task
    · split at task <;> cases task
    · rename_i apart
      rw [if_neg apart] at request
      exact since.found hi request task

/-- A node whose call has not found it is found by no other call. -/
theorem Since.spares (since : Since v₀ v) (young : v₀.campaigns.length ≤ i) {task : Task Server}
    (here : v.task? i node = some task) (missed : ∀ s, task ≠ .finished (.ok s)) :
    Spares v₀ v node := by
  intro j s hj ended
  have same : j = i := by
    have there : v.task? j node ≠ none := by
      rw [ended]
      exact Option.some_ne_none _
    refine since.alone hj young there ?_
    rw [here]
    exact Option.some_ne_none _
  rw [same, here] at ended
  exact missed s (Option.some.inj ended)

/-- The task of a node goes on. The node's record changes only if the task has now found it. -/
theorem Since.retask (since : Since v₀ v) (young : v₀.campaigns.length ≤ i)
    (change : Round Server → Option (Round Server)) {old task : Task Server}
    {servers : SortedMap NodeId Server} (there : v.campaigns[i]? = some c)
    (was : c.round.tasks.get? node = some old) (going : old.hasEnded = false)
    (changes : change c.round = some { c.round with tasks := c.round.tasks.insert node task })
    (others : ∀ m ≠ node, servers.get? m = v.servers.get? m)
    (missed : (∀ s, task ≠ .finished (.ok s)) → servers.get? node = v.servers.get? node)
    (hit : ∀ s, task = .finished (.ok s) → v.servers.get? node = some s ∧ s.isDown = false ∧
      servers.get? node = some (c.request.effect s)) :
    Since v₀ (({ v with servers } : View).changeRound i change) := by
  have had : v.task? i node = some old := task?_eq_some_iff.2 ⟨c, there, was⟩
  have spares := since.spares young had fun s ended => by
    rw [ended] at going
    cases going
  have tasks {j : Nat} {m : NodeId} :
      (({ v with servers } : View).changeRound i change).task? j m =
        if j = i ∧ m = node then some task else v.task? j m := task?_changeRound there changes
  have tasksOf {j : Nat} {m : NodeId} (apart : m ≠ node) :
      (({ v with servers } : View).changeRound i change).task? j m = v.task? j m := by
    rw [tasks, if_neg fun both => apart both.2]
  constructor
  · intro m j k hj hk taskJ taskK
    have exist {l : Nat}
        (exists' : (({ v with servers } : View).changeRound i change).task? l m ≠ none) :
        v.task? l m ≠ none := by
      rw [tasks] at exists'
      split at exists'
      · rename_i here
        rw [here.1, here.2, had]
        exact Option.some_ne_none _
      · exact exists'
    exact since.alone hj hk (exist taskJ) (exist taskK)
  · intro m spared
    change servers.get? m = _
    by_cases same : m = node
    · subst same
      rw [missed, since.spared spares]
      rintro s rfl
      refine spared i s young ?_
      rw [tasks, if_pos ⟨rfl, rfl⟩]
    · rw [others m same]
      refine since.spared fun j s hj ended => spared j s hj ?_
      rw [tasksOf same]
      exact ended
  · intro m j s request hj asked ended
    rw [request?_changeRound] at asked
    change _ ∧ _ ∧ servers.get? m = _
    by_cases same : m = node
    · subst same
      rw [tasks] at ended
      split at ended
      · rename_i here
        cases ended
        obtain ⟨was, up, now⟩ := hit s rfl
        have request : c.request = request := by
          rw [here.1] at asked
          simp only [request?] at asked
          rw [show ({ v with servers } : View).campaigns[i]? = some c from there] at asked
          exact Option.some.inj asked
        exact ⟨(since.spared spares).symm.trans was, up, request ▸ now⟩
      · exact absurd ended (spares j s hj)
    · rw [tasksOf same] at ended
      rw [others m same]
      exact since.found hj asked ended

end View

/-! ### Events -/

section

variable {v w v₀ : View}

/-- No event makes a call, and none that has started is to start again. -/
theorem Event.mem_pending (event : Event v w) {e : Flight × Stage} (mem : e ∈ w.pending) :
    ∃ stage, (e.1, stage) ∈ v.pending ∧ (e.2.isDue → stage.isDue) := by
  have kept {v : View} {flight : Flight} {before after : Stage} (later : after.isDue → before.isDue)
      (mem : e ∈ (v.add flight after).pending) :
      ∃ stage, (e.1, stage) ∈ (v.add flight before).pending ∧ (e.2.isDue → stage.isDue) := by
    rcases Multiset.mem_cons.1 mem with rfl | mem
    · exact ⟨before, Multiset.mem_cons_self _ _, later⟩
    · exact ⟨e.2, Multiset.mem_cons_of_mem mem, id⟩
  have left {v : View} {flight : Flight} {before : Stage} (mem : e ∈ v.pending) :
      ∃ stage, (e.1, stage) ∈ (v.add flight before).pending ∧ (e.2.isDue → stage.isDue) :=
    ⟨e.2, Multiset.mem_cons_of_mem mem, id⟩
  have handed {v : View} {flight : Flight} {ended : Except CallError Server} :
      (v.hand flight ended).pending = v.pending := by
    simp only [View.hand]
    cases flight.caller <;> rfl
  cases event with
  | launch => exact kept (fun _ => rfl) mem
  | crash => exact left mem
  | issue => exact kept (fun _ => rfl) mem
  | board => exact kept (by decide) mem
  | land =>
    rw [handed] at mem
    exact left mem
  | expire =>
    rw [handed] at mem
    exact left mem

/-- Every call under way is that of a round that was begun since. -/
def View.Young (v₀ v : View) : Prop :=
  ∀ e ∈ v.pending, ∃ i, e.1.caller = .task i ∧ v₀.campaigns.length ≤ i

theorem View.Young.begin (young : v₀.Young v) (old : v₀.campaigns.length ≤ v.campaigns.length)
    {request : Request} {parallelism : Nat} {nodes : List NodeId} :
    v₀.Young (v.begin request parallelism nodes) := by
  intro e mem
  rcases Multiset.mem_add.1 mem with mem | mem
  · exact young e mem
  · obtain ⟨flight, inCalls, rfl⟩ := List.mem_map.1 mem
    obtain ⟨node, -, rfl⟩ := View.mem_roundCalls.1 inCalls
    exact ⟨v.campaigns.length, rfl, old⟩

/-- A call under way asks what its round asks. -/
theorem View.Consistent.request? (ok : v.Consistent) {e : Flight × Stage} (mem : e ∈ v.pending)
    {i : Nat} (caller : e.1.caller = .task i) : v.request? i = some e.1.request := by
  obtain ⟨others, eq⟩ := Multiset.exists_cons_of_mem mem
  obtain ⟨c, there, asks, -⟩ := (ok e.1 e.2 others eq).backed i caller
  exact Option.map_eq_some_iff.2 ⟨c, there, asks.symm⟩

/-- No call is under way once all tasks have ended. -/
theorem View.Consistent.pending_eq_zero (ok : v.Consistent) (young : v₀.Young v)
    (allEnded : ∀ {i node task}, v₀.campaigns.length ≤ i → v.task? i node = some task →
      task.hasEnded) : v.pending = 0 := by
  apply Multiset.eq_zero_of_forall_notMem
  intro e mem
  obtain ⟨i, caller, old⟩ := young e mem
  obtain ⟨others, eq⟩ := Multiset.exists_cons_of_mem mem
  obtain ⟨c, there, -, task, -⟩ := (ok e.1 e.2 others eq).backed i caller
  have ended := allEnded old (View.task?_eq_some_iff.2 ⟨c, there, task⟩)
  revert ended
  cases e.2 <;> exact nofun

theorem Event.young (event : Event v w) (young : v₀.Young v) : v₀.Young w := by
  intro e mem
  obtain ⟨stage, before, -⟩ := event.mem_pending mem
  exact young (e.1, stage) before

theorem View.hand_task {flight : Flight} {i : Nat} (caller : flight.caller = .task i)
    (ended : Except CallError Server) :
    v.hand flight ended = v.changeRound i (·.finish? flight.node ended) := by
  simp only [View.hand]
  rw [caller]

theorem View.task?_hand_direct {flight : Flight} {i j : Nat} {node : NodeId}
    (caller : flight.caller = .direct i) (ended : Except CallError Server) :
    (v.hand flight ended).task? j node = v.task? j node := by
  simp only [hand]
  rw [caller]
  rfl

/-- A call that is handed an end finishes its own task with it, if it has one. -/
theorem View.Fits.of_task?_hand {flight : Flight} {stage : Stage} {j : Nat} {node : NodeId}
    {now : Task Server} (fits : Fits v flight stage) (started : stage ≠ .queued)
    {ended : Except CallError Server} (here : (v.hand flight ended).task? j node = some now) :
    v.task? j node = some now ∨
      flight.caller = .task j ∧ flight.node = node ∧ .finished ended = now := by
  cases caller : flight.caller with
  | direct i =>
    rw [task?_hand_direct caller] at here
    exact .inl here
  | task i =>
    obtain ⟨c, there, -, runs, -⟩ := fits.running caller started
    rw [hand_task caller] at here
    rcases of_task?_changeRound there (Round.finish?_of_running runs _) here with
      old | ⟨rfl, rfl, same⟩
    · exact .inl old
    · exact .inr ⟨rfl, rfl, same⟩

/-- A call that reaches its node finds the record that the node has. -/
theorem View.find_eq_ok_iff {node : NodeId} {s : Server} :
    v.find node = .ok s ↔ v.servers.get? node = some s ∧ s.isDown = false := by
  simp only [View.find, Fleet.find]
  cases v.servers.get? node with
  | none => exact iff_of_false nofun fun both => nomatch both.1
  | some s' =>
    dsimp only
    rw [Option.some.injEq]
    split
    · rename_i down
      refine iff_of_false nofun fun both => ?_
      rw [both.1, both.2] at down
      exact Bool.false_ne_true down
    · rename_i up
      rw [Except.ok.injEq]
      refine ⟨fun same => ⟨same, ?_⟩, And.left⟩
      rw [← same]
      exact Bool.eq_false_iff.2 up

theorem View.servers_visit_of_ok {flight : Flight} {s : Server}
    (finds : v.find flight.node = .ok s) :
    v.visit flight =
      { v with servers := v.servers.insert flight.node (flight.request.effect s) } := by
  simp only [View.visit, Fleet.visit]
  rw [show Fleet.find { servers := v.servers } flight.node = .ok s from finds]

theorem View.servers_visit_of_error {flight : Flight} {e : CallError}
    (finds : v.find flight.node = .error e) : v.visit flight = v := by
  simp only [View.visit, Fleet.visit]
  rw [show Fleet.find { servers := v.servers } flight.node = .error e from finds]

open View in
theorem Event.since (event : Event v w) (ok : v.Consistent) (young : v₀.Young v)
    (since : Since v₀ v) : Since v₀ w := by
  cases event with
  | @launch v flight i c r caller there launches =>
    obtain ⟨waits, -, rfl⟩ := Round.launch?_eq_some_iff.1 launches
    obtain ⟨j, callerJ, old⟩ := young _ (Multiset.mem_cons_self _ _)
    cases caller.symm.trans callerJ
    have before : Since v₀ v := since.congr rfl rfl
    have retasked := before.retask old (·.launch? flight.node) there waits rfl launches
      (fun _ _ => rfl) (fun _ => rfl) fun _ same => nomatch same
    exact retasked.congr rfl rfl
  | @crash v flight i caller crashes =>
    obtain ⟨c, there, -, runs, -⟩ := (consistent_add_iff.1 ok).2.running caller (by decide)
    obtain ⟨j, callerJ, old⟩ := young _ (Multiset.mem_cons_self _ _)
    cases caller.symm.trans callerJ
    have before : Since v₀ v := since.congr rfl rfl
    exact before.retask old (·.crash? flight.node) there runs rfl (Round.crash?_of_running runs)
      (fun _ _ => rfl) (fun _ => rfl) fun _ same => nomatch same
  | issue => exact since.congr rfl rfl
  | board => exact since.congr rfl rfl
  | @land v flight =>
    obtain ⟨i, caller, old⟩ := young _ (Multiset.mem_cons_self _ _)
    obtain ⟨c, there, asks, runs, -⟩ := (consistent_add_iff.1 ok).2.running caller (by decide)
    have before : Since v₀ v := since.congr rfl rfl
    rw [hand_task caller]
    cases finds : v.find flight.node with
    | error e =>
      rw [servers_visit_of_error finds]
      exact before.retask old _ there runs rfl (Round.finish?_of_running runs _) (fun _ _ => rfl)
        (fun _ => rfl) fun _ same => nomatch same
    | ok s =>
      obtain ⟨here, up⟩ := find_eq_ok_iff.1 finds
      rw [servers_visit_of_ok finds]
      refine before.retask old _ there runs rfl (Round.finish?_of_running runs _)
        (fun m apart => ?_) (fun missed => absurd rfl (missed s)) fun s' same => ?_
      · exact (SortedMap.get?_insert _ _ _ _).trans (if_neg apart)
      · cases same
        rw [← asks]
        exact ⟨here, up, (SortedMap.get?_insert _ _ _ _).trans (if_pos rfl)⟩
  | @expire v flight =>
    obtain ⟨i, caller, old⟩ := young _ (Multiset.mem_cons_self _ _)
    obtain ⟨c, there, -, runs, -⟩ := (consistent_add_iff.1 ok).2.running caller (by decide)
    have before : Since v₀ v := since.congr rfl rfl
    rw [hand_task caller]
    exact before.retask old _ there runs rfl (Round.finish?_of_running runs _) (fun _ _ => rfl)
      (fun _ => rfl) fun _ same => nomatch same

theorem Events.since (events : Events v w) (ok : v.Consistent) (young : v₀.Young v)
    (since : View.Since v₀ v) : View.Since v₀ w ∧ v₀.Young w := by
  induction events with
  | refl => exact ⟨since, young⟩
  | tail events event ih =>
    exact ⟨event.since (Events.consistent events ok) ih.2 ih.1, event.young ih.2⟩

end

/-! ### Rounds -/

section

variable {v w : View} {i : Nat} {node : NodeId} {task : Task Server}

theorem View.Follows.task? (follows : v.Follows w) (here : v.task? i node = some task)
    (ended : task.hasEnded) : w.task? i node = some task := by
  obtain ⟨c, there, was⟩ := View.task?_eq_some_iff.1 here
  obtain ⟨d, there', -, stays⟩ := follows.campaigns i c there
  exact View.task?_eq_some_iff.2 ⟨d, there', stays.ended node task was ended⟩

theorem View.Follows.task?_eq_none (follows : v.Follows w) (absent : v.task? i node = none) :
    w.task? i node = none := by
  simp only [View.task?] at absent ⊢
  cases there : v.campaigns[i]? with
  | some c =>
    obtain ⟨d, there', -, stays⟩ := follows.campaigns i c there
    rw [there, Option.bind_some] at absent
    rw [there', Option.bind_some]
    exact (stays.nodes node).2 absent
  | none =>
    have beyond := List.getElem?_eq_none_iff.1 there
    rw [List.getElem?_eq_none (Nat.le_trans (Nat.le_of_eq follows.length) beyond)]
    rfl

theorem View.Follows.request? {request : Request} (follows : v.Follows w)
    (here : v.request? i = some request) : w.request? i = some request := by
  simp only [View.request?] at here ⊢
  obtain ⟨c, there, rfl⟩ := Option.map_eq_some_iff.1 here
  obtain ⟨d, there', same, -⟩ := follows.campaigns i c there
  rw [there', ← same]
  rfl

theorem View.Follows.request?_eq (follows : v.Follows w) (i : Nat) : w.request? i = v.request? i := by
  cases here : v.request? i with
  | some request => exact follows.request? here
  | none =>
    have beyond := List.getElem?_eq_none_iff.1 (Option.map_eq_none_iff.1 here)
    have beyond' : w.campaigns.length ≤ i := Nat.le_trans (Nat.le_of_eq follows.length) beyond
    simp only [View.request?]
    rw [List.getElem?_eq_none beyond']
    rfl

end

namespace Fleet

variable {f : Fleet} {v₀ : View} {settings : Settings} {request : Request} {nodes : List NodeId}

/-- All that has happened since `v₀` are rounds of calls to different nodes. -/
structure Tracked (v₀ : View) (f : Fleet) : Prop where
  consistent : f.view.Consistent
  old : v₀.campaigns.length ≤ f.campaigns.length
  young : v₀.Young f.view
  since : View.Since v₀ f.view

theorem Quiet.tracked (quiet : f.Quiet) : Tracked f.view f where
  consistent := quiet.consistent
  old := Nat.le_refl _
  young e mem := by
    rw [quiet.pending] at mem
    exact absurd mem (Multiset.notMem_zero e)
  since := .start _

/-- What had ended stays, and the new round is there. -/
theorem follows_callRound (ok : f.view.Consistent) :
    (f.view.begin request settings.parallelism nodes).Follows
      (f.callRound settings request nodes).2.view :=
  (events_callRound ok settings request nodes).follows

theorem Tracked.callRound (tracked : Tracked v₀ f)
    (fresh : ∀ node ∈ nodes, ∀ i, v₀.campaigns.length ≤ i → f.view.task? i node = none) :
    Tracked v₀ (f.callRound settings request nodes).2 := by
  have events := events_callRound tracked.consistent settings request nodes
  obtain ⟨since, young⟩ := events.since tracked.consistent.begin (tracked.young.begin tracked.old)
    (tracked.since.begin fresh)
  refine ⟨consistent_callRound tracked.consistent, ?_, young, since⟩
  have grown : (f.callRound settings request nodes).2.campaigns.length = f.campaigns.length + 1 :=
    (follows_callRound tracked.consistent).length.trans (List.length_append ..)
  rw [grown]
  exact Nat.le_succ_of_le tracked.old

theorem task?_callRound (ok : f.view.Consistent) {i : Nat} {node : NodeId} {task : Task Server}
    (here : f.view.task? i node = some task) (ended : task.hasEnded) :
    (f.callRound settings request nodes).2.view.task? i node = some task := by
  refine (follows_callRound ok).task? ?_ ended
  rw [View.task?_begin, if_neg, here]
  rintro rfl
  rw [View.task?_of_length_le (Nat.le_refl _)] at here
  cases here

theorem task?_callRound_eq_none (ok : f.view.Consistent) {i : Nat} {node : NodeId}
    (absent : f.view.task? i node = none) (apart : i = f.campaigns.length → node ∉ nodes) :
    (f.callRound settings request nodes).2.view.task? i node = none := by
  refine (follows_callRound ok).task?_eq_none ?_
  rw [View.task?_begin]
  split
  · rename_i same
    exact if_neg (apart same)
  · exact absent

theorem request?_callRound (ok : f.view.Consistent) :
    (f.callRound settings request nodes).2.view.request? f.campaigns.length = some request := by
  refine (follows_callRound ok).request? ?_
  rw [View.request?_begin]
  exact if_pos rfl

theorem request?_callRound_of_some (ok : f.view.Consistent) {i : Nat} {request' : Request}
    (here : f.view.request? i = some request') :
    (f.callRound settings request nodes).2.view.request? i = some request' := by
  refine (follows_callRound ok).request? ?_
  rw [View.request?_begin, if_neg, here]
  rintro rfl
  simp only [View.request?] at here
  rw [List.getElem?_eq_none (Nat.le_refl _)] at here
  cases here

/-- A call changes nothing of a record but the cluster, whatever it asks. -/
theorem effect_besides (request : Request) (s : Server) :
    ({ request.effect s with cluster := none } : Server) = { s with cluster := none } := by
  cases request with
  | update held =>
    simp only [Request.effect]
    split <;> rfl
  | _ => rfl

theorem Tracked.besides (tracked : Tracked v₀ f) (node : NodeId) :
    (f.servers.get? node).map (fun s => { s with cluster := none }) =
      (v₀.servers.get? node).map fun s => { s with cluster := none } := by
  by_cases spares : View.Spares v₀ f.view node
  · exact congrArg _ (tracked.since.spared spares)
  · simp only [View.Spares] at spares
    simp only [not_forall, not_not] at spares
    obtain ⟨i, s, young, ended⟩ := spares
    obtain ⟨c, there, -⟩ := View.task?_eq_some_iff.1 ended
    have asked : f.view.request? i = some c.request := Option.map_eq_some_iff.2 ⟨c, there, rfl⟩
    obtain ⟨was, -, now⟩ := tracked.since.found young asked ended
    have now : f.servers.get? node = some (c.request.effect s) := now
    rw [was, now, Option.map_some, Option.map_some, effect_besides]

/-- Every task of the rounds since `v₀` has ended. -/
def Over (v₀ : View) (f : Fleet) : Prop :=
  ∀ ⦃i node task⦄, v₀.campaigns.length ≤ i → f.view.task? i node = some task → task.hasEnded

theorem over_self (f : Fleet) : Over f.view f := by
  intro i node task young here
  rw [View.task?_of_length_le young] at here
  cases here

/-- A round of which no call is abandoned is over with all before it. -/
theorem Over.callRound (allOver : Over v₀ f) (ok : f.view.Consistent)
    (all : ∀ node ∈ nodes, f.ends settings request nodes node ≠ none) :
    Over v₀ (f.callRound settings request nodes).2 := by
  intro i node task young here
  cases before : f.view.task? i node with
  | some old =>
    have ended := allOver young before
    rw [task?_callRound ok before ended] at here
    cases here
    exact ended
  | none =>
    have fresh : i = f.campaigns.length ∧ node ∈ nodes := by
      by_contra other
      rw [task?_callRound_eq_none ok before fun same mem => other ⟨same, mem⟩] at here
      cases here
    obtain ⟨rfl, mem⟩ := fresh
    obtain ⟨answer, ended⟩ := Option.ne_none_iff_exists'.1 (all node mem)
    obtain ⟨task', there, done, -⟩ := exists_task_of_ends ok ended
    cases here.symm.trans there
    exact done

/-- A tracked fleet has no call under way once all is over. -/
theorem Tracked.quiet (tracked : Tracked v₀ f) (allOver : Over v₀ f) : f.Quiet :=
  quiet_of_pending (tracked.consistent.pending_eq_zero tracked.young fun young => allOver young)

/-! ### Reading -/

theorem Quiet.tracked_callRound (quiet : f.Quiet) :
    Tracked f.view (f.callRound settings request nodes).2 :=
  quiet.tracked.callRound fun _ _ _ young => View.task?_of_length_le young

/-- A round that asks for no change leaves the servers as they are. -/
theorem Quiet.get?_callRound (quiet : f.Quiet) (reads : ∀ s, request.effect s = s) (node : NodeId) :
    (f.callRound settings request nodes).2.servers.get? node = f.servers.get? node := by
  have tracked : Tracked f.view (f.callRound settings request nodes).2 := quiet.tracked_callRound
  by_cases spares : View.Spares f.view (f.callRound settings request nodes).2.view node
  · exact tracked.since.spared spares
  · simp only [View.Spares] at spares
    simp only [not_forall, not_not] at spares
    obtain ⟨i, s, young, ended⟩ := spares
    have new : i = f.campaigns.length := by
      by_contra old
      rw [task?_callRound_eq_none quiet.consistent (View.task?_of_length_le young)
        fun same => absurd same old] at ended
      cases ended
    rw [new] at ended
    obtain ⟨was, -, now⟩ := tracked.since.found (Nat.le_refl _)
      (request?_callRound quiet.consistent) ended
    rw [reads] at now
    exact now.trans was.symm

/-- An answer comes from the record of the node. -/
theorem Quiet.exists_server_of_ends (quiet : f.Quiet) {node : NodeId} {reply : request.Reply}
    (ended : f.ends settings request nodes node = some (.ok reply)) :
    ∃ s, f.servers.get? node = some s ∧ request.reply node s = .ok reply := by
  obtain ⟨task, here, -, ⟨-, crashed⟩ | ⟨found, rfl, answer⟩⟩ :=
    exists_task_of_ends quiet.consistent ended
  · cases crashed
  · cases found with
    | error e => cases answer
    | ok s =>
      obtain ⟨was, -, -⟩ := quiet.tracked_callRound.since.found (Nat.le_refl _)
        (request?_callRound quiet.consistent) here
      exact ⟨s, was, answer.symm⟩

end Fleet

end Resharding
