import Mathlib.Data.Multiset.Count
import Resharding.Proofs.Fleet.Reachable

/-!
How often the nodes are called.

A call that has been begun either has reached the client, or is still to start, or has broken down
in its task before it could. No event changes how many there are of the three together
(`Event.tally`), and a round adds one for each of its nodes (`Fleet.tally_callRound`). So no node is
called twice in a round, and none that is not in it.
-/

namespace Resharding

def Task.hasBroken {α : Type} : Task α → Bool
  | crashed => true
  | _ => false

namespace View

/-- How many calls of an operation to a node have reached the client. -/
def made (v : View) (operation : Operation) (node : NodeId) : Nat :=
  v.calls.countP fun c => c.node = node ∧ c.operation = operation

/-- How many of those under way are still to start. -/
def due (v : View) (operation : Operation) (node : NodeId) : Nat :=
  v.pending.countP fun e => e.1.node = node ∧ e.1.request.operation = operation ∧ e.2.isDue

/-- How many have broken down before they reached the client. -/
def broken (v : View) (operation : Operation) (node : NodeId) : Nat :=
  v.campaigns.countP fun c =>
    c.request.operation = operation ∧ (c.round.tasks.get? node).any Task.hasBroken

/-- How many calls of an operation to a node have been begun. -/
def tally (v : View) (operation : Operation) (node : NodeId) : Nat :=
  v.made operation node + v.due operation node + v.broken operation node

variable {v w : View} {flight : Flight} {stage : Stage} {operation : Operation} {node : NodeId}

theorem due_add :
    (v.add flight stage).due operation node = v.due operation node +
      if flight.node = node ∧ flight.request.operation = operation ∧ stage.isDue then 1 else 0 :=
  Multiset.countP_cons _ _ _

theorem made_record :
    (v.record flight).made operation node = v.made operation node +
      if flight.node = node ∧ flight.request.operation = operation then 1 else 0 := by
  simp only [made, record]
  rw [List.countP_append, List.countP_singleton]
  simp only [decide_eq_true_eq]

/-- A task that goes on adds to the broken ones if it breaks down. -/
theorem broken_changeRound (operation : Operation) (node : NodeId) {i : Nat} {c : Campaign}
    (change : Round Server → Option (Round Server)) {old task : Task Server} {at' : NodeId}
    (found : v.campaigns[i]? = some c) (was : c.round.tasks.get? at' = some old)
    (going : old.hasEnded = false)
    (changes : change c.round = some { c.round with tasks := c.round.tasks.insert at' task }) :
    (v.changeRound i change).broken operation node = v.broken operation node +
      if at' = node ∧ c.request.operation = operation ∧ task.hasBroken then 1 else 0 := by
  obtain ⟨less, here⟩ := List.getElem?_eq_some_iff.1 found
  obtain ⟨before, c', after, split, length, modified⟩ := List.exists_of_modify
    (fun c => { c with round := (change c.round).getD c.round }) less
  have same : c' = c := by
    simp only [split, ← length, List.getElem_append_right (Nat.le_refl _), Nat.sub_self,
      List.getElem_cons_zero] at here
    exact here
  rw [same, changes, Option.getD_some] at modified
  rw [same] at split
  change (v.campaigns.modify i _).countP _ = v.campaigns.countP _ + _
  rw [modified, split, List.countP_append, List.countP_append, List.countP_cons, List.countP_cons]
  dsimp only
  rw [SortedMap.get?_insert]
  by_cases eq : at' = node
  · have intact : old.hasBroken = false := by
      cases old with
      | crashed => cases going
      | _ => rfl
    rw [if_pos eq.symm, ← eq, was]
    simp only [decide_eq_true_eq, true_and, Option.any_some, intact, Bool.false_eq_true, and_false,
      if_false, Nat.add_zero, Nat.add_assoc]
  · rw [if_neg (Ne.symm eq)]
    simp only [eq, false_and, if_false, Nat.add_zero]

theorem tally_hand (operation : Operation) (node : NodeId) (ended : Except CallError Server)
    (ok : Fits v flight stage) (started : stage ≠ .queued) :
    (v.hand flight ended).tally operation node = v.tally operation node ∧
      (v.hand flight ended).broken operation node = v.broken operation node := by
  simp only [View.hand]
  cases caller : flight.caller with
  | direct index => exact ⟨rfl, rfl⟩
  | task i =>
    obtain ⟨c, found, -, runs, -⟩ := ok.running caller started
    have same := broken_changeRound operation node (·.finish? flight.node ended) found runs
      rfl (Round.finish?_of_running runs ended)
    rw [if_neg fun all => Bool.false_ne_true all.2.2, Nat.add_zero] at same
    exact ⟨congrArg (v.made operation node + v.due operation node + ·) same, same⟩

end View

open View in
/-- Calls are begun by no event, and only those to crashing nodes break down. -/
theorem Event.tally {v w : View} (event : Event v w) (ok : v.Consistent) (operation : Operation)
    (node : NodeId) :
    w.tally operation node = v.tally operation node ∧
      (node ∉ v.crashing → w.broken operation node = v.broken operation node) := by
  cases event with
  | @launch v flight i c r caller found launches =>
    obtain ⟨waits, -, rfl⟩ := Round.launch?_eq_some_iff.1 launches
    have same := broken_changeRound operation node (·.launch? flight.node) found waits rfl launches
    rw [if_neg fun all => Bool.false_ne_true all.2.2, Nat.add_zero] at same
    refine ⟨?_, fun _ => same⟩
    simp only [View.tally]
    rw [due_add, due_add]
    exact congrArg (v.made operation node + (v.due operation node + _) + ·) same
  | @crash v flight i caller crashes =>
    obtain ⟨c, found, asks, runs, -⟩ := (consistent_add_iff.1 ok).2.running caller (by decide)
    have more := broken_changeRound operation node (·.crash? flight.node) found runs rfl
      (Round.crash?_of_running runs)
    rw [← asks] at more
    constructor
    · simp only [View.tally]
      rw [more, due_add]
      change v.made _ _ + v.due _ _ + (v.broken _ _ + _) = v.made _ _ + (v.due _ _ + _) + v.broken _ _
      simp only [Task.hasBroken, Stage.isDue]
      omega
    · intro sound
      rw [more, if_neg, Nat.add_zero]
      · rfl
      · rintro ⟨rfl, -⟩
        exact sound crashes
  | @issue v flight sound =>
    refine ⟨?_, fun _ => rfl⟩
    have started : (if v.limited then Stage.boarding else Stage.travelling).isDue = false := by
      split <;> rfl
    simp only [View.tally]
    rw [due_add, due_add, started]
    change (v.record flight).made _ _ + (v.due _ _ + _) + v.broken _ _ =
      v.made _ _ + (v.due _ _ + _) + v.broken _ _
    rw [made_record]
    simp only [Stage.isDue, and_true, Bool.false_eq_true, and_false, if_false]
    omega
  | board =>
    refine ⟨?_, fun _ => rfl⟩
    simp only [View.tally]
    rw [due_add, due_add]
    rfl
  | @land v flight =>
    have fits := (consistent_add_iff.1 ok).2
    have kept : Fits (v.visit flight) flight .travelling := fits.congr rfl rfl
    obtain ⟨tally, broken⟩ := tally_hand operation node (v.find flight.node) kept (by decide)
    refine ⟨?_, fun _ => broken⟩
    rw [tally]
    simp only [View.tally]
    rw [due_add, if_neg fun all => Bool.false_ne_true all.2.2]
    rfl
  | @expire v flight =>
    obtain ⟨tally, broken⟩ := tally_hand operation node (.error (.timeout flight.node))
      (consistent_add_iff.1 ok).2 (by decide)
    refine ⟨?_, fun _ => broken⟩
    rw [tally]
    simp only [View.tally]
    rw [due_add, if_neg fun all => Bool.false_ne_true all.2.2]
    rfl

theorem Events.tally {v w : View} (events : Events v w) (ok : v.Consistent) (operation : Operation)
    (node : NodeId) :
    w.tally operation node = v.tally operation node ∧
      (node ∉ v.crashing → w.broken operation node = v.broken operation node) := by
  induction events with
  | refl => exact ⟨rfl, fun _ => rfl⟩
  | tail events event ih =>
    obtain ⟨tally, broken⟩ := event.tally (Events.consistent events ok) operation node
    refine ⟨tally.trans ih.1, ?_⟩
    intro sound
    refine (broken ?_).trans (ih.2 sound)
    rw [(Events.follows events).crashing]
    exact sound

/-- The only call that an event can record is one that starts, and it is not to a crashing node if it
is that of a round. -/
theorem Event.calls {v w : View} (event : Event v w) : w.calls = v.calls ∨
    ∃ flight, (flight, .launched) ∈ v.pending ∧
      (∀ i, flight.caller = .task i → flight.node ∉ v.crashing) ∧
      w.calls = v.calls ++ [⟨flight.node, flight.request.operation⟩] := by
  have handed (v : View) (flight : Flight) (ended : Except CallError Server) :
      (v.hand flight ended).calls = v.calls := by
    simp only [View.hand]
    cases flight.caller <;> rfl
  cases event with
  | @issue v flight sound => exact .inr ⟨flight, Multiset.mem_cons_self _ _, sound, rfl⟩
  | land => exact .inl (handed _ _ _)
  | expire => exact .inl (handed _ _ _)
  | _ => exact .inl rfl

/-- No record of a call is taken back. -/
theorem Event.grown {v w : View} (event : Event v w) : v.calls <+: w.calls := by
  rcases event.calls with same | ⟨flight, -, -, more⟩
  · exact ⟨[], (List.append_nil _).trans same.symm⟩
  · exact ⟨_, more.symm⟩

theorem Events.grown {v w : View} (events : Events v w) : v.calls <+: w.calls := by
  induction events with
  | refl => exact List.prefix_refl _
  | tail _ event ih => exact ih.trans event.grown

namespace View

variable {v w : View} {request : Request} {parallelism : Nat} {nodes : List NodeId}
  {operation : Operation} {node : NodeId}

/-- The calls that have come are known up to order if it is known how many there are of each. -/
theorem exists_calls_of_made {records : List CallRecord} (grown : v.calls <+: w.calls)
    (counted : ∀ operation node, w.made operation node = v.made operation node +
      records.count ⟨node, operation⟩) :
    ∃ more, w.calls = v.calls ++ more ∧ more.Perm records := by
  obtain ⟨more, split⟩ := grown
  refine ⟨more, split.symm, List.perm_iff_count.2 fun c => ?_⟩
  have sums := counted c.operation c.node
  simp only [made] at sums
  rw [← split, List.countP_append] at sums
  have count : more.count c = more.countP fun d => d.node = c.node ∧ d.operation = c.operation := by
    refine List.countP_congr fun d _ => ?_
    obtain ⟨node, operation⟩ := d
    obtain ⟨node', operation'⟩ := c
    simp
  rw [count]
  exact Nat.add_left_cancel sums

theorem broken_begin :
    (v.begin request parallelism nodes).broken operation node = v.broken operation node := by
  change (v.campaigns ++ [_]).countP _ = _
  rw [List.countP_append, List.countP_singleton]
  dsimp only
  rw [Round.get?_start]
  split <;> simp [Task.hasBroken, broken]

theorem due_begin :
    (v.begin request parallelism nodes).due operation node = v.due operation node +
      if request.operation = operation ∧ node ∈ nodes then 1 else 0 := by
  change Multiset.countP _ (v.pending + _) = _
  rw [Multiset.countP_add, Multiset.coe_countP]
  refine congrArg (v.due operation node + ·) ?_
  simp only [roundCalls]
  rw [List.countP_map, List.countP_map]
  have keys : (Round.start (α := Server) 1 nodes).tasks.keys.countP (· == node) =
      if node ∈ nodes then 1 else 0 := by
    rw [← List.count, List.Nodup.count (SortedMap.nodup_keys _)]
    simp only [Round.mem_keys_start]
  by_cases same : request.operation = operation
  · simp only [same, true_and]
    rw [← keys]
    apply List.countP_congr
    intro other _
    simp [same, Stage.isDue]
  · rw [if_neg fun both => same both.1]
    apply List.countP_eq_zero.2
    intro other _
    simp [same]

theorem tally_begin :
    (v.begin request parallelism nodes).tally operation node = v.tally operation node +
      if request.operation = operation ∧ node ∈ nodes then 1 else 0 := by
  simp only [tally]
  rw [broken_begin, due_begin]
  change v.made operation node + _ + _ = _
  omega

end View

namespace Fleet

variable {f : Fleet}

/-- A round makes one call to each of its nodes, and none to others. -/
theorem tally_callRound (ok : f.view.Consistent) (settings : Settings) (request : Request)
    (nodes : List NodeId) (operation : Operation) (node : NodeId) :
    (f.callRound settings request nodes).2.view.tally operation node =
        f.view.tally operation node +
          (if request.operation = operation ∧ node ∈ nodes then 1 else 0) ∧
      (node ∉ f.crashing → (f.callRound settings request nodes).2.view.broken operation node =
        f.view.broken operation node) := by
  obtain ⟨tally, broken⟩ :=
    (events_callRound ok settings request nodes).tally ok.begin operation node
  rw [View.tally_begin] at tally
  rw [View.broken_begin] at broken
  exact ⟨tally, broken⟩

theorem Quiet.due (quiet : f.Quiet) (operation : Operation) (node : NodeId) :
    f.view.due operation node = 0 := by
  simp only [View.due]
  rw [quiet.pending]
  exact Multiset.countP_zero _

end Fleet

end Resharding
