import Resharding.Proofs.Fleet.Admission

/-!
Fleets go by shifts.

The gate of a fleet is read off its clock, permits and queues (`Fleet.gate`), and shows the view of the
fleet (`Fleet.view_gate`). Whatever a call does under limits changes the gate by shifts only
(`Fleet.shifts_act`). A permit that a call gives back and that goes straight to the first one waiting
is freed by one shift and taken by the next.
-/

namespace Resharding

def Action.place : Action → Place
  | ask => .queued
  | start => .due
  | board deadline => .waiting true deadline
  | depart => .admitted
  | arrive => .admitted
  | giveUp connected => .late connected

def Wait.place : Wait → Place
  | start _ => .due
  | slot => .queued
  | connection deadline => .waiting false deadline
  | thread deadline => .waiting true deadline
  | arrival _ => .admitted

theorem Action.stage_place (action : Action) : action.place.stage = action.stage := by
  cases action <;> rfl

theorem Wait.stage_place (wait : Wait) : wait.place.stage = wait.stage := by
  cases wait <;> rfl

namespace Permits

variable {p q : Permits} {node : NodeId}

theorem freeAt_insert (p : Permits) (node : NodeId) (free : Nat) :
    ({ p with freeConnections := p.freeConnections.insert node free } : Permits).freeAt =
      Function.update p.freeAt node free := by
  funext other
  simp only [freeAt, SortedMap.getD, SortedMap.get?_insert, Function.update_apply]
  split <;> rfl

theorem takeConnection?_eq_some (taken : p.takeConnection? node = some q) :
    ∃ left, p.freeAt node = left + 1 ∧
      q = { p with freeConnections := p.freeConnections.insert node left } := by
  simp only [takeConnection?] at taken
  split at taken
  · cases taken
  · rename_i left free
    exact ⟨left, free, (Option.some.inj taken).symm⟩

theorem takeThread?_eq_some (taken : p.takeThread? = some q) :
    ∃ left, p.freeThreads = left + 1 ∧ q = { p with freeThreads := left } := by
  simp only [takeThread?] at taken
  split at taken
  · cases taken
  · rename_i left free
    exact ⟨left, free, (Option.some.inj taken).symm⟩

end Permits

namespace Fleet

/-- The fleet as its client's limits see it. -/
def gate (f : Fleet) : Gate where
  limits := f.permits.map (·.limits)
  now := f.now
  servers := f.servers
  calls := f.calls
  crashing := f.crashing
  campaigns := f.campaigns
  freeThreads := (f.permits.map (·.freeThreads)).getD 0
  freeAt node := (f.permits.map (·.freeAt node)).getD 0
  landings := f.landings
  places := f.marked Action.place Wait.place

variable {f g : Fleet} {flight : Flight} {node : NodeId}

theorem view_gate (f : Fleet) : f.gate.view = f.view := by
  have pending : (f.marked Action.place Wait.place).map (fun e => (e.1, e.2.stage)) = f.pending := by
    simp only [marked, Fleet.pending, Multiset.map_coe, List.map_append, List.map_map,
      Function.comp_def, Action.stage_place, Wait.stage_place]
  simp only [Gate.view, gate, view, pending, Option.isSome_map]

/-! ### Queues -/

theorem gate_enqueue (f : Fleet) (flight : Flight) (action : Action) :
    (f.enqueue flight action).gate = f.gate.add flight action.place :=
  congrArg (fun places => { f.gate with places }) (marked_enqueue f flight action)

theorem gate_park (f : Fleet) (flight : Flight) (wait : Wait) :
    (f.park flight wait).gate = f.gate.add flight wait.place :=
  congrArg (fun places => { f.gate with places }) (marked_park f flight wait)

theorem gate_of_parked_perm {e : Flight × Wait} {rest : List (Flight × Wait)}
    (perm : f.parked.Perm (e :: rest)) :
    f.gate = ({ f with parked := rest } : Fleet).gate.add e.1 e.2.place :=
  congrArg (fun places => { f.gate with places }) (marked_of_parked_perm perm)

theorem gate_of_ready {i : Nat} {action : Action} (here : f.ready[i]? = some (flight, action)) :
    f.gate = ({ f with ready := f.ready.eraseIdx i } : Fleet).gate.add flight action.place :=
  congrArg (fun places => { f.gate with places }) (marked_of_ready here)

theorem gate_visit (f : Fleet) (flight : Flight) :
    (f.visit flight).gate = f.gate.visit flight := by
  simp only [Gate.visit, visit]
  rw [show Fleet.find { servers := f.gate.servers } flight.node = f.find flight.node from rfl]
  cases f.find flight.node <;> rfl

theorem shifts_handSlot {i : Nat} (ok : f.view.Consistent)
    (room : ∀ c, f.campaigns[i]? = some c → c.round.hasRoom) :
    Shifts f.gate (f.handSlot i).gate := by
  simp only [handSlot]
  split
  · rename_i flight rest found
    obtain ⟨⟨other, wait⟩, picked, perm⟩ := perm_of_extract? found
    cases wait with
    | slot =>
      simp only [Option.ite_none_right_eq_some, Option.some.injEq] at picked
      obtain ⟨caller, rfl⟩ := picked
      rw [view_of_parked_perm perm] at ok
      rw [gate_of_parked_perm perm, gate_enqueue]
      obtain ⟨c, there, -, waits, -⟩ := (View.consistent_add_iff.1 ok).2.backed i caller
      have launches := Round.launch?_eq_some_iff.2 ⟨waits, room c there, rfl⟩
      exact .single ⟨_, .launch (g := ({ f with parked := rest } : Fleet).gate) caller there launches⟩
    | _ => cases picked
  · exact .refl

/-- A call that ends hands over what it has found, and then its slot. -/
theorem shifts_deliver {stage : Stage} (ok : f.view.Consistent) (fits : f.view.Fits flight stage)
    (started : stage ≠ .queued) (found : Except CallError Server) :
    Shifts (f.gate.hand flight found) (f.deliver flight found).gate := by
  have after := View.consistent_hand ok fits started found
  simp only [View.hand] at after
  simp only [Gate.hand, deliver]
  cases caller : flight.caller with
  | direct index => exact .refl
  | task i =>
    rw [caller] at after
    rw [List.append_nil]
    exact shifts_handSlot (f := f.changeRound i (·.finish? flight.node found)) after fun c there =>
      hasRoom_of_end fits caller started
        (fun r runs => Round.finish?_of_running runs found) rfl there

/-! ### Permits -/

theorem gate_of_takeConnection {p : Permits}
    (taken : (f.permits.bind fun p => p.takeConnection? node) = some p) :
    0 < f.gate.freeAt node ∧
      ({ f with permits := some p } : Fleet).gate = f.gate.takeConnection node := by
  obtain ⟨old, eq, takes⟩ := Option.bind_eq_some_iff.1 taken
  obtain ⟨left, free, rfl⟩ := Permits.takeConnection?_eq_some takes
  simp only [gate, Gate.takeConnection, eq, Option.map_some, Option.getD_some, free,
    Permits.freeAt_insert]
  exact ⟨Nat.succ_pos left, rfl⟩

theorem gate_of_takeThread {p : Permits}
    (taken : (f.permits.bind fun p => p.takeThread?) = some p) :
    0 < f.gate.freeThreads ∧ ({ f with permits := some p } : Fleet).gate = f.gate.takeThread := by
  obtain ⟨old, eq, takes⟩ := Option.bind_eq_some_iff.1 taken
  obtain ⟨left, free, rfl⟩ := Permits.takeThread?_eq_some takes
  simp only [gate, Gate.takeThread, eq, Option.map_some, Option.getD_some, free]
  exact ⟨Nat.succ_pos left, rfl⟩

theorem takeConnection_giveConnection (g : Gate) (node : NodeId) :
    (g.giveConnection true node).takeConnection node = g := by
  simp only [Gate.takeConnection, Gate.giveConnection, if_true, Function.update_self,
    Function.update_idem, Nat.add_sub_cancel, Function.update_eq_self]

/-- A connection that is given back is free, or the first call that waits for one has it. -/
theorem gate_handConnection (limited : f.permits.isSome) (node : NodeId) :
    (f.handConnection node).gate = f.gate.giveConnection true node ∨
      ∃ (g : Gate) (flight : Flight) (deadline : Nat), flight.node = node ∧
        f.gate = g.add flight (.waiting false deadline) ∧
        (f.handConnection node).gate = g.add flight (.waiting true deadline) := by
  simp only [handConnection]
  split
  · rename_i flight action rest found
    obtain ⟨⟨other, wait⟩, picked, perm⟩ := perm_of_extract? found
    cases wait with
    | connection deadline =>
      simp only [Option.ite_none_right_eq_some, Option.some.injEq, Prod.mk.injEq] at picked
      obtain ⟨here, rfl, rfl⟩ := picked
      exact .inr ⟨_, _, deadline, here, gate_of_parked_perm perm, gate_enqueue _ _ _⟩
    | _ => cases picked
  · left
    obtain ⟨p, eq⟩ := Option.isSome_iff_exists.1 limited
    simp only [gate, Gate.giveConnection, eq, Option.map_some, Option.getD_some, if_true,
      Permits.giveConnection, Permits.freeAt_insert]
    rfl

/-- A thread that is given back is free, or the first call that waits for one has it. -/
theorem gate_handThread (limited : f.permits.isSome) :
    f.handThread.gate = f.gate.giveThread ∨
      ∃ (g : Gate) (flight : Flight) (deadline : Nat),
        f.gate = g.add flight (.waiting true deadline) ∧
        f.handThread.gate = g.add flight .admitted := by
  simp only [handThread]
  split
  · rename_i flight rest found
    obtain ⟨⟨other, wait⟩, picked, perm⟩ := perm_of_extract? found
    cases wait with
    | thread deadline =>
      cases picked
      exact .inr ⟨_, _, deadline, gate_of_parked_perm perm, gate_enqueue _ _ _⟩
    | _ => cases picked
  · left
    obtain ⟨p, eq⟩ := Option.isSome_iff_exists.1 limited
    simp only [gate, Gate.giveThread, eq, Option.map_some, Option.getD_some, Permits.giveThread]
    rfl

/-- A connection that a call gives back at its end may connect another one. -/
theorem shifts_handConnection (limited : f.permits.isSome) (node : NodeId) (flight : Flight)
    (found : Except CallError Server) :
    Shifts ((f.gate.giveConnection true node).hand flight found)
      ((f.handConnection node).gate.hand flight found) := by
  rcases gate_handConnection limited node with free | ⟨g, next, deadline, rfl, before, after⟩
  · rw [free]
  · rw [before, after]
    have free : 0 < (g.giveConnection true next.node).freeAt next.node := by
      rw [Gate.freeAt_giveConnection, if_pos ⟨rfl, rfl⟩]
      exact Nat.succ_pos _
    have connect : Shift (some next)
        (((g.giveConnection true next.node).hand flight found).add next (.waiting false deadline))
        ((((g.giveConnection true next.node).takeConnection next.node).hand flight found).add next
          (.waiting true deadline)) := .connect free
    rw [takeConnection_giveConnection] at connect
    exact .single ⟨_, connect⟩

/-- What a call gives back at its end may put other calls on their way. -/
theorem shifts_release (limited : f.permits.isSome) (node : NodeId) (flight : Flight)
    (found : Except CallError Server) :
    Shifts ((f.gate.giveThread.giveConnection true node).hand flight found)
      ((f.release node).gate.hand flight found) := by
  have still : f.handThread.permits.isSome := by
    obtain ⟨q, view, -⟩ := view_handThread f
    exact (congrArg View.limited view).trans limited
  simp only [release]
  rw [if_pos limited]
  refine .trans ?_ (shifts_handConnection still node flight found)
  rcases gate_handThread limited with free | ⟨g, next, deadline, before, after⟩
  · rw [free]
  · rw [before, after]
    exact .single ⟨_, .board (g := (g.giveThread.giveConnection true node).hand flight found)
      (Nat.succ_pos _)⟩

/-! ### Going on -/

theorem shifts_arrive (limited : f.permits.isSome)
    (ok : (f.view.add flight .travelling).Consistent) :
    Shifts (f.gate.add flight .admitted) (f.arrive flight).gate := by
  have visited : (f.visit flight).permits.isSome :=
    (congrArg View.limited (view_visit f flight)).trans limited
  have released := shifts_release visited flight.node flight (f.find flight.node)
  rw [gate_visit] at released
  obtain ⟨ok', fits⟩ := View.consistent_add_iff.1 (consistent_release ok)
  exact .head ⟨_, .arrive⟩ (released.trans (shifts_deliver ok' fits (by decide) _))

theorem shifts_giveUp (limited : f.permits.isSome)
    (ok : (f.view.add flight .boarding).Consistent) (connected : Bool) :
    Shifts (f.gate.add flight (.late connected)) (f.giveUp flight connected).gate := by
  obtain ⟨ok', fits⟩ := View.consistent_add_iff.1 ok
  simp only [giveUp]
  refine .head ⟨_, .giveUp⟩ ?_
  cases connected with
  | false => exact shifts_deliver ok' fits (by decide) _
  | true =>
    rw [← view_handConnection f flight.node] at ok' fits
    exact (shifts_handConnection limited flight.node flight _).trans
      (shifts_deliver ok' fits (by decide) _)

theorem shifts_depart (limited : f.permits.isSome)
    (ok : (f.view.add flight .travelling).Consistent) :
    Shifts (f.gate.add flight .admitted) (f.depart flight).gate := by
  simp only [depart]
  split
  · exact shifts_arrive limited ok
  · rw [gate_park]
    exact .refl

theorem shifts_board (limited : f.permits.isSome) (ok : (f.view.add flight .boarding).Consistent)
    (deadline : Nat) :
    Shifts (f.gate.add flight (.waiting true deadline)) (f.board flight deadline).gate := by
  simp only [board]
  split
  · rename_i p taken
    obtain ⟨free, same⟩ := gate_of_takeThread taken
    rw [← view_of_take taken] at ok
    refine .head ⟨_, .board free⟩ ?_
    rw [← same]
    exact shifts_depart rfl (Event.board.consistent ok)
  · split
    · rename_i ended
      exact .head ⟨_, .expire ended⟩ (shifts_giveUp limited ok true)
    · rw [gate_park]
      exact .refl

theorem shifts_connect (limited : f.permits.isSome) (ok : (f.view.add flight .boarding).Consistent)
    (deadline : Nat) :
    Shifts (f.gate.add flight (.waiting false deadline)) (f.connect flight deadline).gate := by
  simp only [connect]
  split
  · rename_i p taken
    obtain ⟨free, same⟩ := gate_of_takeConnection taken
    rw [← view_of_take taken] at ok
    refine .head ⟨_, .connect free⟩ ?_
    rw [← same]
    exact shifts_board rfl ok deadline
  · split
    · rename_i ended
      exact .head ⟨_, .expire ended⟩ (shifts_giveUp limited ok false)
    · rw [gate_park]
      exact .refl

theorem shifts_issue (limited : f.permits.isSome) (ok : (f.view.add flight .launched).Consistent)
    (whole : ∀ i, flight.caller = .task i → flight.node ∉ f.crashing) :
    Shifts (f.gate.add flight .due) (f.issue flight).gate := by
  obtain ⟨p, eq⟩ := Option.isSome_iff_exists.1 limited
  let recorded : Fleet := { f with calls := f.calls ++ [⟨flight.node, flight.request.operation⟩] }
  have issued : f.issue flight = recorded.connect flight (f.now + p.limits.connectTimeout) := by
    simp only [issue]
    split
    · rename_i unlimited
      cases eq.symm.trans unlimited
    · rename_i q here
      cases eq.symm.trans here
      rfl
  have known : f.gate.limits = some p.limits := by
    simp only [gate, eq, Option.map_some]
  have ok' := (Event.issue whole).consistent ok
  rw [if_pos (show f.view.limited from limited)] at ok'
  rw [issued]
  exact .head ⟨_, .issue known whole⟩ (shifts_connect (f := recorded) limited ok' _)

theorem shifts_start (limited : f.permits.isSome) (ok : (f.view.add flight .launched).Consistent) :
    Shifts (f.gate.add flight .due) (f.start flight).gate := by
  simp only [start]
  cases caller : flight.caller with
  | direct index => exact shifts_issue limited ok fun i task => by rw [caller] at task; cases task
  | task i =>
    dsimp only
    split
    · rename_i crashes
      have mem : flight.node ∈ f.crashing := SortedMap.contains_iff.1 crashes
      have crash : Event (f.view.add flight .launched) _ := .crash caller mem
      have fits := (View.consistent_add_iff.1 ok).2
      refine .head ⟨_, .crash (g := f.gate) caller mem⟩ (shifts_handSlot
        (f := f.changeRound i (·.crash? flight.node)) (crash.consistent ok) fun c there => ?_)
      exact hasRoom_of_end fits caller (by decide) (fun r runs => Round.crash?_of_running runs) rfl
        there
    · rename_i survives
      exact shifts_issue limited ok fun _ _ mem => survives (SortedMap.contains_iff.2 mem)

theorem shifts_ask (limited : f.permits.isSome) (ok : (f.view.add flight .queued).Consistent) :
    Shifts (f.gate.add flight .queued) (f.ask flight).gate := by
  simp only [ask]
  cases caller : flight.caller with
  | direct index => exact absurd rfl ((View.consistent_add_iff.1 ok).2.direct index caller)
  | task i =>
    dsimp only
    split
    · rename_i r launched
      obtain ⟨c, found, launches⟩ := Option.bind_eq_some_iff.1 launched
      have launch : Event (f.view.add flight .queued) _ := .launch caller found launches
      exact .head ⟨_, .launch (g := f.gate) caller found launches⟩ (shifts_start
        (f := f.changeRound i (·.launch? flight.node)) limited (launch.consistent ok))
    · rw [gate_park]
      exact .refl

/-- Whatever a call does, it does by shifts. -/
theorem shifts_act (limited : f.permits.isSome) (action : Action)
    (ok : (f.view.add flight action.stage).Consistent) :
    Shifts (f.gate.add flight action.place) (f.act flight action).gate := by
  cases action with
  | ask => exact shifts_ask limited ok
  | start => exact shifts_start limited ok
  | board deadline => exact shifts_board limited ok deadline
  | depart => exact shifts_depart limited ok
  | arrive => exact shifts_arrive limited ok
  | giveUp connected => exact shifts_giveUp limited ok connected

theorem shifts_go {i : Nat} (limited : f.permits.isSome) (ok : f.view.Consistent)
    (goes : f.go? i = some g) : Shifts f.gate g.gate := by
  obtain ⟨⟨flight, action⟩, here, rfl⟩ := Option.map_eq_some_iff.1 goes
  rw [view_of_ready here] at ok
  rw [gate_of_ready here]
  exact shifts_act (f := { f with ready := f.ready.eraseIdx i }) limited action ok

/-- Calls whose deadlines have come miss them one after the other. -/
theorem shifts_expire {α : Type} {g : Gate} {before after : α → Flight × Place} {es : List α}
    (each : ∀ e ∈ es, after e = before e ∨ ∃ flight connected deadline, deadline ≤ g.now ∧
      before e = (flight, .waiting connected deadline) ∧ after e = (flight, .late connected))
    (others : Multiset (Flight × Place)) :
    Shifts { g with places := others + ↑(es.map before) }
      { g with places := others + ↑(es.map after) } := by
  induction es generalizing others with
  | nil => exact .refl
  | cons e es ih =>
    have rest := ih (fun e mem => each e (List.mem_cons_of_mem _ mem)) (before e ::ₘ others)
    rw [Multiset.cons_add, Multiset.cons_add] at rest
    rw [List.map_cons, List.map_cons, ← Multiset.cons_coe, ← Multiset.cons_coe, Multiset.add_cons,
      Multiset.add_cons]
    refine rest.trans ?_
    rcases each e List.mem_cons_self with same | ⟨flight, connected, deadline, ended, was, is⟩
    · rw [same]
    · rw [was, is]
      exact .single ⟨_, .expire (g := { g with places := others + ↑(es.map after) }) ended⟩

/-- Waking a call that has waited for a permit until its deadline is a shift, and waking another one
changes nothing. -/
theorem shifts_wake (f : Fleet) : Shifts f.gate f.wake.gate := by
  change Shifts
    { f.gate with places :=
      ↑(f.ready.map fun e => (e.1, e.2.place)) + ↑(f.parked.map fun e => (e.1, e.2.place)) }
    { f.gate with places := f.wake.marked Action.place Wait.place }
  rw [marked_wake, ← Multiset.coe_add]
  refine shifts_expire (g := f.gate) (fun e _ => ?_) _
  obtain ⟨flight, wait⟩ := e
  cases wait with
  | slot => exact .inl rfl
  | start time | arrival time =>
    simp only [overBy?, Wait.ending?]
    split <;> exact .inl rfl
  | connection deadline | thread deadline =>
    simp only [overBy?, Wait.ending?]
    split
    · rename_i ended
      exact .inr ⟨flight, _, deadline, ended, rfl, rfl⟩
    · exact .inl rfl

end Fleet

end Resharding
