import Resharding.Proofs.Fleet.Account
import Resharding.Proofs.Fleet.Single

/-!
A call that is awaited while others are under way.

Calls that a round has abandoned go on while later calls are awaited. They change nothing of a
server but its cluster, so a call that is awaited finds the rest of the record as it was when the
call was made (`Event.awaits`). It always comes back: a run does not come to rest while it is under
way (`Fleet.directs_eq_zero`).
-/

namespace Resharding

/-- A record but for its cluster. -/
def Server.besides (s : Server) : Server := { s with cluster := none }

def Caller.isDirect : Caller → Bool
  | direct _ => true
  | task _ => false

theorem Caller.isDirect_iff {caller : Caller} : caller.isDirect ↔ ∀ i, caller ≠ .task i := by
  cases caller with
  | direct index => exact iff_of_true rfl nofun
  | task i => exact iff_of_false Bool.false_ne_true fun none => none i rfl

/-- What a call finds of a record but for its cluster depends on nothing but that. -/
theorem Fleet.find_besides {f g : Fleet} {node : NodeId}
    (alike : (f.servers.get? node).map Server.besides = (g.servers.get? node).map Server.besides) :
    (f.find node).map Server.besides = (g.find node).map Server.besides := by
  simp only [find]
  cases here : f.servers.get? node with
  | none =>
    cases there : g.servers.get? node with
    | none => rfl
    | some t =>
      rw [here, there] at alike
      cases alike
  | some s =>
    cases there : g.servers.get? node with
    | none =>
      rw [here, there] at alike
      cases alike
    | some t =>
      rw [here, there] at alike
      have same : s.besides = t.besides := Option.some.inj alike
      have down : s.besides.isDown = t.besides.isDown := congrArg Server.isDown same
      change s.isDown = t.isDown at down
      dsimp only
      rw [down]
      split
      · rfl
      · exact congrArg Except.ok same

/-- A request whose answer does not tell the cluster is answered alike by records that are alike but
for it. -/
theorem Request.answer_besides {request : Request} {node : NodeId}
    (blind : ∀ s, request.reply node s.besides = request.reply node s)
    {found found' : Except CallError Server}
    (alike : found.map Server.besides = found'.map Server.besides) :
    request.answer node found = request.answer node found' := by
  cases found with
  | error e =>
    cases found' with
    | error e' =>
      cases alike
      rfl
    | ok t => cases alike
  | ok s =>
    cases found' with
    | error e => cases alike
    | ok t =>
      have same : s.besides = t.besides := Except.ok.inj alike
      change request.reply node s = request.reply node t
      rw [← blind s, same, blind t]

namespace View

variable {v w : View} {flight : Flight} {stage : Stage}

/-! ### Calls that are awaited by themselves -/

/-- How many calls that are awaited by themselves are under way. -/
def directs (v : View) : Nat := v.pending.countP fun e => e.1.caller.isDirect

theorem directs_add :
    (v.add flight stage).directs = v.directs + if flight.caller.isDirect then 1 else 0 :=
  Multiset.countP_cons _ _ _

theorem directs_hand (v : View) (flight : Flight) (found : Except CallError Server) :
    (v.hand flight found).landings.length + (v.hand flight found).directs =
      v.landings.length + v.directs + if flight.caller.isDirect then 1 else 0 := by
  simp only [hand]
  cases flight.caller with
  | direct index =>
    change (v.landings ++ [_]).length + v.directs = v.landings.length + v.directs + 1
    rw [List.length_append]
    exact Nat.add_right_comm _ _ _
  | task i => rfl

end View

open View in
/-- A call that is awaited by itself is under way until it is handed over. -/
theorem Event.directs {v w : View} (event : Event v w) :
    w.landings.length + w.directs = v.landings.length + v.directs := by
  cases event with
  | @launch v flight i c r caller found launches =>
    rw [directs_add, directs_add]
    rfl
  | @crash v flight i caller crashes =>
    rw [directs_add, caller]
    rfl
  | issue =>
    rw [directs_add, directs_add]
    rfl
  | board =>
    rw [directs_add, directs_add]
    rfl
  | @land v flight =>
    rw [directs_hand, directs_add, ← Nat.add_assoc]
    rfl
  | @expire v flight =>
    rw [directs_hand, directs_add, ← Nat.add_assoc]
    rfl

theorem Events.directs {v w : View} (events : Events v w) :
    w.landings.length + w.directs = v.landings.length + v.directs := by
  induction events with
  | refl => rfl
  | tail _ event ih => exact event.directs.trans ih

/-! ### What such a call finds -/

/-- Where a call is awaited since the servers were like `servers`: they differ from these by their
clusters only, and the call is still under way or has found the record that its node had. -/
structure Awaits (servers : SortedMap NodeId Server) (flight : Flight) (v : View) : Prop where
  unlimited : v.limited = false
  besides : ∀ node, (v.servers.get? node).map Server.besides =
    (servers.get? node).map Server.besides
  pending : ∀ e ∈ v.pending, (∃ i, e.1.caller = .task i) ∨
    e.1 = flight ∧ (e.2 = .launched ∨ e.2 = .travelling)
  landings : ∀ l ∈ v.landings, flight.caller = .direct l.1 ∧ l.2.map Server.besides =
    (Fleet.find { servers } flight.node).map Server.besides

section

variable {servers : SortedMap NodeId Server} {flight own : Flight} {stage : Stage} {v w : View}

theorem Awaits.congr (awaits : Awaits servers own v) (limited : w.limited = v.limited)
    (same : w.servers = v.servers) (pending : ∀ e ∈ w.pending, e ∈ v.pending)
    (landings : w.landings = v.landings) : Awaits servers own w := by
  refine ⟨limited.trans awaits.unlimited, fun node => ?_, fun e mem => ?_, fun l mem => ?_⟩
  · rw [same]
    exact awaits.besides node
  · exact awaits.pending e (pending e mem)
  · exact awaits.landings l (landings ▸ mem)

theorem Awaits.add (awaits : Awaits servers own v)
    (fits : (∃ i, flight.caller = .task i) ∨
      flight = own ∧ (stage = .launched ∨ stage = .travelling)) :
    Awaits servers own (v.add flight stage) :=
  ⟨awaits.unlimited, awaits.besides, fun _ mem => (Multiset.mem_cons.1 mem).elim (· ▸ fits)
    (awaits.pending _), awaits.landings⟩

theorem Awaits.rest (awaits : Awaits servers own (v.add flight stage)) : Awaits servers own v :=
  awaits.congr rfl rfl (fun _ => Multiset.mem_cons_of_mem) rfl

/-- A call changes at most the cluster of the record that it finds. -/
theorem Awaits.visit (awaits : Awaits servers own v) (flight : Flight) :
    Awaits servers own (v.visit flight) := by
  cases finds : v.find flight.node with
  | error e =>
    rw [View.servers_visit_of_error finds]
    exact awaits
  | ok s =>
    rw [View.servers_visit_of_ok finds]
    refine ⟨awaits.unlimited, fun node => ?_, awaits.pending, awaits.landings⟩
    rw [SortedMap.get?_insert, ← awaits.besides]
    split
    · rename_i same
      rw [same, (View.find_eq_ok_iff.1 finds).1]
      exact congrArg some (Fleet.effect_besides flight.request s)
    · rfl

theorem Awaits.hand (awaits : Awaits servers own v) {found : Except CallError Server}
    (fits : (∃ i, flight.caller = .task i) ∨ flight = own ∧
      found.map Server.besides = (Fleet.find { servers } own.node).map Server.besides) :
    Awaits servers own (v.hand flight found) := by
  simp only [View.hand]
  cases caller : flight.caller with
  | task i => exact awaits.congr rfl rfl (fun _ mem => mem) rfl
  | direct index =>
    refine ⟨awaits.unlimited, awaits.besides, awaits.pending, fun l mem => ?_⟩
    rcases List.mem_append.1 mem with mem | mem
    · exact awaits.landings l mem
    · cases List.mem_singleton.1 mem
      rcases fits with ⟨i, task⟩ | ⟨rfl, alike⟩
      · cases caller.symm.trans task
      · exact ⟨caller, alike⟩

/-- Whatever happens, a call that is awaited finds the record of its node as it was but for the
cluster. -/
theorem Event.awaits (event : Event v w) (awaits : Awaits servers own v) :
    Awaits servers own w := by
  cases event with
  | @launch v flight i c r caller found launches =>
    have launched : Awaits servers own (v.changeRound i (·.launch? flight.node)) :=
      awaits.rest.congr rfl rfl (fun _ mem => mem) rfl
    exact launched.add (.inl ⟨i, caller⟩)
  | crash => exact awaits.rest.congr rfl rfl (fun _ mem => mem) rfl
  | @issue v flight sound =>
    have unlimited : v.limited = false := awaits.unlimited
    have recorded : Awaits servers own (v.record flight) :=
      awaits.rest.congr rfl rfl (fun _ mem => mem) rfl
    rw [unlimited]
    refine recorded.add ((awaits.pending _ (Multiset.mem_cons_self _ _)).imp id fun both => ?_)
    exact ⟨both.1, .inr rfl⟩
  | @board v flight =>
    refine awaits.rest.add ((awaits.pending _ (Multiset.mem_cons_self _ _)).imp id fun both => ?_)
    exact ⟨both.1, .inr rfl⟩
  | @land v flight =>
    refine (awaits.rest.visit flight).hand
      ((awaits.pending _ (Multiset.mem_cons_self _ _)).imp id fun both => ⟨both.1, ?_⟩)
    rw [← both.1]
    exact Fleet.find_besides (f := { servers := v.servers }) (g := { servers })
      (awaits.rest.besides flight.node)
  | @expire v flight =>
    rcases awaits.pending _ (Multiset.mem_cons_self _ _) with task | ⟨-, boards⟩
    · exact awaits.rest.hand (.inl task)
    · rcases boards with boards | boards <;> cases boards

theorem Events.awaits (events : Events v w) (awaits : Awaits servers own v) :
    Awaits servers own w := by
  induction events with
  | refl => exact awaits
  | tail _ event ih => exact event.awaits ih

end

namespace Fleet

variable {f : Fleet} {node : NodeId} {request : Request}

/-! ### Coming back -/

/-- A fleet in which calls of rounds may be under way, but no call is awaited by itself. -/
structure Serving (f : Fleet) : Prop where
  consistent : f.view.Consistent
  unattended : ∀ e ∈ f.view.pending, ∃ i, e.1.caller = .task i

theorem Quiet.serving (quiet : f.Quiet) : f.Serving := by
  refine ⟨quiet.consistent, fun e mem => ?_⟩
  rw [quiet.pending] at mem
  exact absurd mem (Multiset.notMem_zero e)

/-- A call that waits for anything but a slot will go on. -/
theorem ending?_of_stage {wait : Wait} (started : wait.stage ≠ .queued) :
    ∃ time action, wait.ending? = some (time, action) := by
  cases wait with
  | slot => exact absurd rfl started
  | _ => exact ⟨_, _, rfl⟩

/-- A run that waits for some calls does not come to rest before they have all come back. -/
theorem directs_eq_zero {n : Nat} (ok : f.view.Consistent)
    (rest : f.AtRest (fun f => f.landings.length == n) none)
    (count : f.view.landings.length + f.view.directs = n) : f.view.directs = 0 := by
  obtain ⟨idle, stops | stuck | ⟨_, _, _, late, _⟩⟩ := rest
  · have all : f.view.landings.length = n := (List.length_map _).trans (eq_of_beq stops)
    omega
  · apply Multiset.countP_eq_zero.2
    intro e mem direct
    have parked : e ∈ f.parked.map fun e => (e.1, e.2.stage) := by
      have listed : e ∈ (f.ready.map fun e => (e.1, e.2.stage)) ++
        f.parked.map fun e => (e.1, e.2.stage) := mem
      rw [idle] at listed
      exact listed
    obtain ⟨⟨flight, wait⟩, waits, rfl⟩ := List.mem_map.1 parked
    obtain ⟨others, eq⟩ := Multiset.exists_cons_of_mem mem
    have started : wait.stage ≠ .queued := by
      cases caller : flight.caller with
      | direct index => exact (ok flight wait.stage others eq).direct index caller
      | task i => exact absurd caller (Caller.isDirect_iff.1 direct i)
    obtain ⟨time, action, ending⟩ := ending?_of_stage started
    have none := List.filterMap_eq_nil_iff.1 (List.min?_eq_none_iff.1 stuck) _ waits
    rw [ending] at none
    cases none
  · cases late

/-- Waiting until so many calls have come back as were made leaves none of them under way. -/
theorem directs_run {n : Nat} (ok : f.view.Consistent)
    (count : f.view.landings.length + f.view.directs = n) :
    (f.run (fun f => f.landings.length == n) none).view.landings.length = n ∧
      (f.run (fun f => f.landings.length == n) none).view.directs = 0 := by
  have events := events_run ok (fun f => f.landings.length == n) none
  have after := events.directs.trans count
  have none := directs_eq_zero (events.consistent ok) (run_atRest f _ none) after
  rw [none] at after
  exact ⟨after, none⟩

/-- A fleet with one more call that is awaited by itself and about to start. -/
theorem Serving.consistent_park (serving : f.Serving) (index : Nat) (time : Nat) :
    (({ f with landings := [] } : Fleet).park ⟨.direct index, node, request⟩
      (.start time)).view.Consistent := by
  let planned : List (Flight × Wait) := [(⟨.direct index, node, request⟩, .start time)]
  refine consistent_plan (f := { f with landings := [] }) (serving.consistent.congr rfl rfl)
    fun e (mem : e ∈ planned) => ?_
  cases List.mem_singleton.1 mem
  exact ⟨⟨index, rfl⟩, time, rfl⟩

theorem directs_eq_zero_iff {v : View} :
    v.directs = 0 ↔ ∀ e ∈ v.pending, ∃ i, e.1.caller = .task i := by
  refine Multiset.countP_eq_zero.trans (forall₂_congr fun e _ => ?_)
  rw [Caller.isDirect_iff]
  simp only [ne_eq, not_forall, not_not]

theorem Serving.directs (serving : f.Serving) : f.view.directs = 0 :=
  directs_eq_zero_iff.2 serving.unattended

/-- What is the same after a call that was awaited: nothing but clusters has changed, and one more
call has been begun. -/
structure Continues (f f' : Fleet) (node : NodeId) (request : Request) : Prop where
  serving : f'.Serving
  unlimited : f'.permits = none
  besides : ∀ node, (f'.servers.get? node).map Server.besides =
    (f.servers.get? node).map Server.besides
  tally : ∀ operation other, f'.view.tally operation other = f.view.tally operation other +
    if node = other ∧ request.operation = operation then 1 else 0

/-- A call that is awaited comes back, whatever is under way besides, and has found the record of
its node as it was but for the cluster. -/
theorem Serving.call (serving : f.Serving) (unlimited : f.permits = none) (node : NodeId)
    (request : Request) :
    Continues f (f.call node request).2 node request ∧
      ∃ found, (f.call node request).1 = request.answer node found ∧
        found.map Server.besides = (f.find node).map Server.besides := by
  let flight : Flight := ⟨.direct 0, node, request⟩
  let begun : Fleet := ({ f with landings := [] } : Fleet).park flight (.start f.now)
  have view : begun.view = ({ f with landings := [] } : Fleet).view.add flight .launched :=
    view_park _ _ _
  have ok : begun.view.Consistent := serving.consistent_park 0 f.now
  have count : begun.view.landings.length + begun.view.directs = 1 := by
    rw [view, View.directs_add]
    change 0 + (f.view.directs + 1) = 1
    rw [serving.directs]
  have back := directs_run ok count
  have events := events_run ok (fun f => f.landings.length == 1) none
  generalize ran : begun.run (fun f => f.landings.length == 1) none = g at back events
  obtain ⟨one, none⟩ := back
  have awaits : Awaits f.servers flight g.view := by
    refine events.awaits ?_
    rw [view]
    refine Awaits.add ⟨?_, fun _ => rfl, fun e mem => .inl (serving.unattended e mem), nofun⟩
      (.inr ⟨rfl, .inl rfl⟩)
    exact congrArg Option.isSome unlimited
  obtain ⟨⟨index, time, found⟩, landed⟩ : ∃ l, g.landings = [l] :=
    List.length_eq_one_iff.1 ((List.length_map _).symm.trans one)
  have ⟨caller, alike⟩ := awaits.landings (index, found)
    (List.mem_map.2 ⟨_, landed ▸ List.mem_singleton_self _, rfl⟩)
  cases caller
  have ended := callAll_single ran landed
  have called : f.call node request = (request.answer node found, { g with landings := [] }) := by
    simp only [Fleet.call]
    rw [ended]
    rfl
  rw [called]
  refine ⟨⟨⟨(events.consistent ok).congr rfl rfl, directs_eq_zero_iff.1 none⟩, ?_, awaits.besides,
    fun operation other => ?_⟩, found, rfl, alike⟩
  · exact Option.isNone_iff_eq_none.1 (Option.isSome_eq_false_iff.1 awaits.unlimited)
  · refine (events.tally ok operation other).1.trans ?_
    rw [view]
    simp only [View.tally]
    rw [View.due_add]
    simp only [Stage.isDue, and_true]
    rw [← Nat.add_assoc]
    exact Nat.add_right_comm _ _ _

/-! ### Every fleet that there is -/

/-- No event makes a call that is awaited by itself. -/
theorem unattended_events {v w : View} (events : Events v w)
    (unattended : ∀ e ∈ v.pending, ∃ i, e.1.caller = .task i) :
    ∀ e ∈ w.pending, ∃ i, e.1.caller = .task i := by
  induction events with
  | refl => exact unattended
  | tail _ event ih =>
    intro e mem
    obtain ⟨stage, before, -⟩ := event.mem_pending mem
    exact ih (e.1, stage) before

/-- All calls of a list are under way once they are planned. -/
theorem directs_plan {planned : List (Flight × Wait)}
    (single : ∀ e ∈ planned, ∃ index, e.1.caller = .direct index) :
    ({ f with parked := f.parked ++ planned } : Fleet).view.directs =
      f.view.directs + planned.length := by
  induction planned generalizing f with
  | nil =>
    rw [List.append_nil]
    rfl
  | cons e rest ih =>
    obtain ⟨index, caller⟩ := single e List.mem_cons_self
    have later := ih (f := f.park e.1 e.2) fun e mem => single e (List.mem_cons_of_mem _ mem)
    have eq : f.parked ++ e :: rest = (f.park e.1 e.2).parked ++ rest := List.append_cons ..
    rw [eq]
    refine later.trans ?_
    rw [view_park, View.directs_add, caller, List.length_cons]
    exact Nat.add_right_comm _ _ _

theorem Serving.callAll (serving : f.Serving) (calls : List Planned) :
    (f.callAll calls).2.Serving := by
  let planned : List (Flight × Wait) := calls.zipIdx.map fun e =>
    (⟨.direct e.2, e.1.node, e.1.request⟩, .start (f.now + e.1.after))
  let begun : Fleet := { f with landings := [], parked := f.parked ++ planned }
  have single (e : Flight × Wait) (mem : e ∈ planned) :
      (∃ index, e.1.caller = .direct index) ∧ ∃ time, e.2 = .start time := by
    obtain ⟨⟨c, i⟩, -, rfl⟩ := List.mem_map.1 mem
    exact ⟨⟨i, rfl⟩, _, rfl⟩
  have ok : begun.view.Consistent :=
    consistent_plan (f := { f with landings := [] }) (serving.consistent.congr rfl rfl) single
  have all : begun.view.directs = calls.length := by
    refine (directs_plan (f := { f with landings := [] }) fun e mem => (single e mem).1).trans ?_
    rw [List.length_map, List.length_zipIdx]
    exact (congrArg (· + calls.length) serving.directs).trans (Nat.zero_add _)
  have none := (directs_run ok ((Nat.zero_add _).trans all)).2
  exact ⟨consistent_callAll serving.consistent calls, directs_eq_zero_iff.1 none⟩

/-- Whatever was done to a fleet, whoever awaited calls has had their answers. -/
theorem Reachable.serving (reachable : f.Reachable) : f.Serving := by
  refine ⟨reachable.consistent, ?_⟩
  induction reachable with
  | fresh => exact (Quiet.serving ⟨rfl, rfl⟩).unattended
  | adjust _ _ _ ih => exact ih
  | crash _ _ _ ih => exact ih
  | clearCalls _ ih => exact ih
  | sleep before duration ih =>
    exact unattended_events (events_run before.consistent _ _) ih
  | callAll before calls ih => exact (Serving.callAll ⟨before.consistent, ih⟩ calls).unattended
  | callRound before settings request nodes ih =>
    refine unattended_events (events_callRound before.consistent settings request nodes) ?_
    intro e mem
    rcases Multiset.mem_add.1 mem with mem | mem
    · exact ih e mem
    · obtain ⟨flight, inCalls, rfl⟩ := List.mem_map.1 mem
      obtain ⟨node, -, rfl⟩ := View.mem_roundCalls.1 inCalls
      exact ⟨_, rfl⟩

end Fleet

end Resharding
