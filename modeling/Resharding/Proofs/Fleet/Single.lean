import Resharding.Fleet.Progress
import Resharding.Proofs.Fleet.Effect

/-!
A call that is alone.

When nothing else is under way and the client has no limits, a call that is awaited sets out at
once, travels for as long as its node's delay says, and finds what was there when it was made
(`Fleet.call_eq`). Nothing is under way afterwards, so calls that are awaited one at a time all go
like that.
-/

namespace Resharding.Fleet

variable {f : Fleet} {stop : Fleet → Bool} {flight : Flight} {fuel : Nat}

/-! ### One step of a run -/

theorem advance_go {limit : Option Nat} {g : Fleet} (goes : f.go? 0 = some g) :
    f.advance stop limit (fuel + 1) = g.advance stop limit fuel := by
  rw [advance, goes]

theorem advance_stop {limit : Option Nat} (idle : f.ready = []) (stops : stop f) :
    f.advance stop limit (fuel + 1) = f := by
  rw [advance, go?_first.2 idle]
  exact if_pos stops

theorem advance_wake {time : Nat} (idle : f.ready = []) (goes : stop f = false)
    (next : f.nextTime? = some time) :
    f.advance stop none (fuel + 1) = (f.waitUntil time).wake.advance stop none fuel := by
  rw [advance, go?_first.2 idle]
  dsimp only
  rw [goes, next]
  rfl

/-- Time passes until the only call under way can go on, which it then does. -/
theorem advance_park (quiet : f.Quiet) {wait : Wait} {time : Nat} {action : Action}
    (ending : wait.ending? = some (time, action)) (goes : stop (f.park flight wait) = false) :
    (f.park flight wait).advance stop none (fuel + 2) =
      ((f.waitUntil time).act flight action).advance stop none fuel := by
  have ends : overBy? (max f.now time) (flight, wait) = some (flight, action) := by
    simp only [overBy?]
    rw [ending]
    exact if_pos (Nat.le_max_right _ _)
  have next : (f.park flight wait).nextTime? = some time := by
    simp only [nextTime?, park]
    rw [quiet.parked, List.nil_append, List.filterMap_cons, ending]
    rfl
  have woken : ((f.park flight wait).waitUntil time).wake =
      (f.waitUntil time).enqueue flight action := by
    simp only [wake, park, waitUntil, enqueue]
    rw [quiet.parked, List.nil_append, List.filterMap_cons, List.filter_cons, ends]
    rfl
  have went : ((f.waitUntil time).enqueue flight action).go? 0 =
      some ((f.waitUntil time).act flight action) := by
    obtain ⟨now, servers, calls, permits, crashing, campaigns, ready, parked, landings⟩ := f
    cases quiet.ready
    rfl
  have idle : (f.park flight wait).ready = [] := quiet.ready
  rw [advance_wake idle goes next, woken]
  exact advance_go went

/-! ### Arriving -/

theorem visit_eq (f : Fleet) (flight : Flight) :
    f.visit flight = { f with servers := (f.visit flight).servers } := by
  simp only [visit]
  cases f.find flight.node <;> rfl

/-- What a call does to the servers depends on nothing else. -/
theorem servers_visit (f : Fleet) (flight : Flight) :
    (f.visit flight).servers = (visit { servers := f.servers } flight).servers :=
  congrArg View.servers (view_visit f flight)

/-- A call that is awaited by itself hands over what it finds. -/
theorem arrive_direct (unlimited : f.permits = none) {index : Nat}
    (caller : flight.caller = .direct index) :
    f.arrive flight = { f with
      servers := (f.visit flight).servers
      landings := f.landings ++ [⟨index, f.now, f.find flight.node⟩] } := by
  simp only [arrive, release, deliver]
  rw [visit_eq, unlimited, caller]
  rfl

/-- A call that is awaited by itself ends the wait for it. -/
theorem advance_arrive (quiet : f.Quiet) (unlimited : f.permits = none) (unheard : f.landings = [])
    {index : Nat} (caller : flight.caller = .direct index) (fuel : Nat) :
    (f.arrive flight).advance (fun f => f.landings.length == 1) none (fuel + 1) = { f with
      servers := (f.visit flight).servers
      landings := [⟨index, f.now, f.find flight.node⟩] } := by
  rw [arrive_direct unlimited caller, unheard]
  exact advance_stop quiet.ready rfl

/-- A call that sets out alone comes back with what is there when it sets out. -/
theorem advance_depart (quiet : f.Quiet) (unlimited : f.permits = none) (unheard : f.landings = [])
    {index : Nat} (caller : flight.caller = .direct index) (fuel : Nat) :
    (f.depart flight).advance (fun f => f.landings.length == 1) none (fuel + 3) = { f with
      now := f.now + f.delayOf flight.node
      servers := (f.visit flight).servers
      landings := [⟨index, f.now + f.delayOf flight.node, f.find flight.node⟩] } := by
  simp only [depart]
  split
  · rename_i atOnce
    rw [advance_arrive quiet unlimited unheard caller, atOnce]
    rfl
  · rw [advance_park quiet rfl (by rw [park, unheard]; rfl)]
    have later := advance_arrive (f := f.waitUntil (f.now + f.delayOf flight.node))
      ⟨quiet.ready, quiet.parked⟩ unlimited unheard caller fuel
    have clock : (f.waitUntil (f.now + f.delayOf flight.node)).now =
        f.now + f.delayOf flight.node := Nat.max_eq_right (Nat.le_add_right _ _)
    rw [servers_visit, clock] at later
    rw [servers_visit]
    refine later.trans ?_
    rw [waitUntil, Nat.max_eq_right (Nat.le_add_right _ _)]
    rfl

/-! ### A single call -/

theorem find_eq_ok_iff {node : NodeId} {s : Server} :
    f.find node = .ok s ↔ f.servers.get? node = some s ∧ s.isDown = false :=
  View.find_eq_ok_iff (v := f.view)

/-- A call that does not find a server fails to reach it. -/
theorem error_of_find {node : NodeId} {e : CallError} (misses : f.find node = .error e) :
    e = .unreachable node := by
  simp only [find] at misses
  split at misses
  · split at misses
    · cases misses
      rfl
    · cases misses
  · cases misses
    rfl

/-- What is under way takes no steps when nothing is. -/
theorem Quiet.stepsLeft (quiet : f.Quiet) : f.stepsLeft = 0 := by
  simp only [Fleet.stepsLeft]
  rw [quiet.ready, quiet.parked]
  rfl

theorem start_direct (unlimited : f.permits = none) {index : Nat}
    (caller : flight.caller = .direct index) :
    f.start flight =
      ({ f with calls := f.calls ++ [⟨flight.node, flight.request.operation⟩] } : Fleet).depart
        flight := by
  obtain ⟨now, servers, calls, permits, crashing, campaigns, ready, parked, landings⟩ := f
  cases unlimited
  simp only [start]
  rw [caller]
  rfl

/-- The fleet once a call has been made and has ended, with nothing else going on. -/
def served (f : Fleet) (flight : Flight) : Fleet :=
  { f with
    now := f.now + f.delayOf flight.node
    calls := f.calls ++ [⟨flight.node, flight.request.operation⟩]
    servers := (f.visit flight).servers }

theorem served_unheard (f : Fleet) (flight : Flight) :
    ({ f with landings := [] } : Fleet).served flight =
      { f.served flight with landings := [] } := by
  simp only [served]
  rw [servers_visit f, servers_visit { f with landings := [] }]
  rfl

theorem run_start (quiet : f.Quiet) (unlimited : f.permits = none) (unheard : f.landings = [])
    {index : Nat} (caller : flight.caller = .direct index) :
    (f.park flight (.start f.now)).run (fun f => f.landings.length == 1) none =
      { f.served flight with
        landings := [⟨index, f.now + f.delayOf flight.node, f.find flight.node⟩] } := by
  have steps : (f.park flight (.start f.now)).stepsLeft = 8 := by
    rw [stepsLeft_park, quiet.stepsLeft]
    rfl
  have waited : f.waitUntil f.now = f := by
    rw [waitUntil, Nat.max_self]
  let called : Fleet :=
    { f with calls := f.calls ++ [⟨flight.node, flight.request.operation⟩] }
  have departed := advance_depart (f := called) ⟨quiet.ready, quiet.parked⟩ unlimited unheard
    caller 3
  rw [run, steps, advance_park quiet rfl (by rw [park, unheard]; rfl), waited]
  change (f.start flight).advance _ _ _ = _
  rw [start_direct unlimited caller]
  simp only [served]
  rw [servers_visit] at departed ⊢
  exact departed

/-- The end of the only call that is awaited is the one that was handed over. -/
theorem callAll_single {g : Fleet} {node : NodeId} {request : Request} {time : Nat}
    {found : Except CallError Server}
    (ran : (({ f with landings := [] } : Fleet).park ⟨.direct 0, node, request⟩ (.start f.now)).run
      (fun f => f.landings.length == 1) none = g) (landed : g.landings = [⟨0, time, found⟩]) :
    f.callAll [⟨0, node, request⟩] = ([(time, found)], { g with landings := [] }) := by
  simp only [callAll, List.zipIdx_singleton, List.map_singleton, List.length_singleton,
    Nat.add_zero]
  change ({ f with landings := [], parked := f.parked ++ _ } : Fleet).run _ none = g at ran
  rw [ran, landed]
  rfl

/-- A call on its own, without limits: what it is answered, and what it leaves. -/
theorem call_eq (quiet : f.Quiet) (unlimited : f.permits = none) (node : NodeId)
    (request : Request) :
    f.call node request = (request.answer node (f.find node),
      { f.served ⟨.direct 0, node, request⟩ with landings := [] }) := by
  have caller : (⟨.direct 0, node, request⟩ : Flight).caller = .direct 0 := rfl
  have ran := run_start (f := { f with landings := [] }) ⟨quiet.ready, quiet.parked⟩ unlimited rfl
    caller
  have ended := callAll_single ran rfl
  simp only [call]
  rw [ended, served_unheard]
  rfl

theorem Quiet.call (quiet : f.Quiet) (unlimited : f.permits = none) (node : NodeId)
    (request : Request) : (f.call node request).2.Quiet := by
  rw [call_eq quiet unlimited]
  exact ⟨quiet.ready, quiet.parked⟩

theorem permits_call (quiet : f.Quiet) (unlimited : f.permits = none) (node : NodeId)
    (request : Request) : (f.call node request).2.permits = none := by
  rw [call_eq quiet unlimited]
  exact unlimited

theorem calls_call (quiet : f.Quiet) (unlimited : f.permits = none) (node : NodeId)
    (request : Request) :
    (f.call node request).2.calls = f.calls ++ [⟨node, request.operation⟩] := by
  rw [call_eq quiet unlimited]
  rfl

theorem answer_call (quiet : f.Quiet) (unlimited : f.permits = none) (node : NodeId)
    (request : Request) : (f.call node request).1 = request.answer node (f.find node) := by
  rw [call_eq quiet unlimited]

/-- A call that finds a server leaves there what its request makes of the record. -/
theorem servers_call_of_ok (quiet : f.Quiet) (unlimited : f.permits = none) {node : NodeId}
    {request : Request} {s : Server} (finds : f.find node = .ok s) :
    (f.call node request).2.servers = f.servers.insert node (request.effect s) := by
  rw [call_eq quiet unlimited]
  change (f.visit _).servers = _
  simp only [visit]
  rw [finds]

theorem servers_call_of_error (quiet : f.Quiet) (unlimited : f.permits = none) {node : NodeId}
    {request : Request} {e : CallError} (misses : f.find node = .error e) :
    (f.call node request).2.servers = f.servers := by
  rw [call_eq quiet unlimited]
  change (f.visit _).servers = _
  simp only [visit]
  rw [misses]

/-- A call that would leave any record it finds as it is leaves all servers as they are. -/
theorem servers_call_of_kept (quiet : f.Quiet) (unlimited : f.permits = none) {node : NodeId}
    {request : Request} (kept : ∀ s, f.find node = .ok s → request.effect s = s) :
    (f.call node request).2.servers = f.servers := by
  cases finds : f.find node with
  | error e => exact servers_call_of_error quiet unlimited finds
  | ok s =>
    rw [servers_call_of_ok quiet unlimited finds, kept s finds]
    apply SortedMap.ext_get?
    intro other
    rw [SortedMap.get?_insert]
    split
    · rename_i same
      rw [same, (find_eq_ok_iff.1 finds).1]
    · rfl

end Resharding.Fleet
