import Resharding.Fleet.Progress
import Resharding.Proofs.Fleet.Gateway
import Resharding.Proofs.Fleet.Reachable

/-!
Clients with limits.

Calls may be made at any time, and those that can go on may do so in any order (`Fleet.Move`); the
rounds and single calls of a client are made of such moves (`Fleet.moves_callRound`,
`Fleet.moves_callAll`). However calls come, no more of them are in progress than the limits say, a
call that does not get in by its deadline ends there with a timeout, and when no call is under way
all permits are free again (`Fleet.limits_kept`).
-/

namespace Resharding

theorem Shift.limits_eq {who : Option Flight} {g h : Gate} (step : Shift who g h) :
    h.limits = g.limits := by
  cases step <;> rfl

namespace Fleet

/-- Something that can happen to a fleet: a call goes on, time passes, a call is made, or the fleet is
changed from outside. -/
inductive Move : Fleet → Fleet → Prop
  | go {f g : Fleet} {i : Nat} (goes : f.go? i = some g) : Move f g
  /-- Time passes while no call can go on, up to the next end of a wait. -/
  | wait {f : Fleet} {time : Nat} (idle : f.ready = [])
      (inTime : ∀ e ∈ f.parked, ∀ t action, e.2.ending? = some (t, action) → time ≤ t) :
      Move f (f.waitUntil time)
  | wake {f : Fleet} : Move f f.wake
  /-- A call is made, or planned for a later time. -/
  | call {f : Fleet} (flight : Flight) {index : Nat} (caller : flight.caller = .direct index)
      (time : Nat) : Move f (f.park flight (.start time))
  | begin {f : Fleet} (request : Request) (parallelism : Nat) (nodes : List NodeId) :
      Move f (f.begin request parallelism nodes)
  /-- Servers and records are changed from outside. -/
  | tend {f : Fleet} (servers : SortedMap NodeId Server) (calls : List CallRecord)
      (crashing : SortedMap NodeId String) : Move f { f with servers, calls, crashing }
  /-- The ends of calls are taken note of. -/
  | collect {f : Fleet} : Move f { f with landings := [] }

abbrev Moves : Fleet → Fleet → Prop := Relation.ReflTransGen Move

variable {f g : Fleet} {limits : ClientLimits}

/-! ### Moves are shifts -/

theorem gate_begin (f : Fleet) (request : Request) (parallelism : Nat) (nodes : List NodeId) :
    (f.begin request parallelism nodes).gate = f.gate.begin request parallelism nodes := by
  have places : (f.begin request parallelism nodes).marked Action.place Wait.place =
      f.marked Action.place Wait.place +
        ((roundCalls f.campaigns.length request nodes).map (·, Place.queued) :
          List (Flight × Place)) := by
    simp only [marked, Fleet.begin]
    rw [Multiset.coe_add, Multiset.coe_eq_coe, List.map_append, List.map_map, List.append_assoc,
      List.append_assoc]
    exact List.perm_append_comm.append_left _
  exact congrArg (fun places => { f.gate.begin request parallelism nodes with places }) places

theorem shifts_move (limited : f.permits.isSome) (ok : f.view.Consistent) (move : Move f g) :
    Shifts f.gate g.gate := by
  cases move with
  | go goes => exact shifts_go limited ok goes
  | @wait time idle inTime =>
    refine .single ⟨none, .pass fun e mem => ?_⟩
    simp only [gate, marked] at mem
    rw [idle, List.map_nil, List.nil_append, Multiset.mem_coe] at mem
    obtain ⟨⟨flight, wait⟩, parked, rfl⟩ := List.mem_map.1 mem
    cases wait with
    | connection deadline | thread deadline => exact inTime _ parked _ _ rfl
    | _ => exact trivial
  | wake => exact shifts_wake f
  | call flight caller time =>
    rw [gate_park]
    exact .single ⟨none, .call caller⟩
  | begin request parallelism nodes =>
    rw [gate_begin]
    exact .single ⟨none, .begin request parallelism nodes⟩
  | tend servers calls crashing => exact .single ⟨none, .tend servers calls crashing⟩
  | collect => exact .single ⟨none, .collect⟩

theorem shifts_moves (limited : f.permits.isSome) (ok : f.view.Consistent) (moves : Moves f g) :
    Shifts f.gate g.gate ∧ g.permits.isSome ∧ g.view.Consistent := by
  induction moves with
  | refl => exact ⟨.refl, limited, ok⟩
  | @tail g h _ move ih =>
    obtain ⟨steps, limited, ok⟩ := ih
    have more := shifts_move limited ok move
    refine ⟨steps.trans more, ?_, ?_⟩
    · have same : h.gate.limits = g.gate.limits :=
        more.keeps (P := fun k => k.limits = g.gate.limits) (fun step => step.limits_eq.trans) rfl
      simp only [gate] at same
      rw [← Option.isSome_map, same, Option.isSome_map]
      exact limited
    · rw [← view_gate] at ok ⊢
      exact more.keeps Shift.consistent ok

/-! ### Operations are moves -/

theorem mem_endings {e : Flight × Wait} {time : Nat} {action : Action} (mem : e ∈ f.parked)
    (ends : e.2.ending? = some (time, action)) :
    time ∈ f.parked.filterMap fun e => e.2.ending?.map Prod.fst :=
  List.mem_filterMap.2 ⟨e, mem, by rw [ends]; rfl⟩

/-- No wait ends before the next end of a wait. -/
theorem le_of_nextTime? {next : Nat} (found : f.nextTime? = some next) :
    ∀ e ∈ f.parked, ∀ time action, e.2.ending? = some (time, action) → next ≤ time :=
  fun _ mem _ _ ends => (List.min?_eq_some_iff.1 found).2 _ (mem_endings mem ends)

/-- At rest, no wait ends before the limit. -/
theorem AtRest.inTime {stop : Fleet → Bool} {last : Nat} (rest : f.AtRest stop (some last))
    (goesOn : stop f = false) :
    ∀ e ∈ f.parked, ∀ time action, e.2.ending? = some (time, action) → last ≤ time := by
  intro e mem time action ends
  rcases rest.2 with stops | none | ⟨next, found, limit, isLast, before⟩
  · rw [goesOn] at stops
    cases stops
  · have some := mem_endings mem ends
    rw [List.min?_eq_none_iff.1 none] at some
    cases some
  · cases isLast
    exact Nat.le_trans (Nat.le_of_lt before) (le_of_nextTime? found e mem time action ends)

theorem moves_advance {stop : Fleet → Bool} {limit : Option Nat} {fuel : Nat} :
    Moves f (f.advance stop limit fuel) := by
  induction fuel generalizing f with
  | zero => exact .refl
  | succ fuel ih =>
    simp only [advance]
    split
    · rename_i g goes
      exact .head (.go goes) ih
    · rename_i idle
      split
      · exact .refl
      · split
        · exact .refl
        · rename_i time next
          split
          · exact .refl
          · exact .head (.wait (go?_first.1 idle) (le_of_nextTime? next)) (.head .wake ih)

theorem moves_run (f : Fleet) (stop : Fleet → Bool) (limit : Option Nat) :
    Moves f (f.run stop limit) := moves_advance

theorem moves_sleep (f : Fleet) (duration : Nat) : Moves f (f.sleep duration) := by
  have rest := run_atRest f (fun _ => false) (some (f.now + duration))
  exact (moves_run f _ _).tail (.wait rest.1 (rest.inTime rfl))

theorem moves_plan (f : Fleet) {planned : List (Flight × Wait)}
    (single : ∀ e ∈ planned, (∃ index, e.1.caller = .direct index) ∧ ∃ time, e.2 = .start time) :
    Moves f { f with parked := f.parked ++ planned } := by
  induction planned generalizing f with
  | nil =>
    rw [List.append_nil]
  | cons e rest ih =>
    obtain ⟨flight, wait⟩ := e
    obtain ⟨⟨index, caller⟩, time, waits⟩ := single _ List.mem_cons_self
    cases (waits : wait = .start time)
    have more := ih (f.park flight (.start time)) fun e mem => single e (List.mem_cons_of_mem _ mem)
    simp only [park, List.append_assoc, List.singleton_append] at more
    exact .head (.call flight caller time) more

theorem moves_callAll (f : Fleet) (calls : List Planned) : Moves f (f.callAll calls).2 := by
  simp only [callAll]
  refine .head .collect ((moves_plan { f with landings := [] } ?_).trans
    ((moves_run _ _ _).tail .collect))
  intro e mem
  obtain ⟨⟨c, i⟩, -, rfl⟩ := List.mem_map.1 mem
  exact ⟨⟨i, rfl⟩, _, rfl⟩

theorem moves_callRound (f : Fleet) (settings : Settings) (request : Request)
    (nodes : List NodeId) : Moves f (f.callRound settings request nodes).2 := by
  have ran := (moves_run (f.begin request settings.parallelism nodes)
    (·.isRoundOver f.campaigns.length) (some (f.now + settings.shutdownTimeout))).head
      (.begin request settings.parallelism nodes)
  have rest := run_atRest (f.begin request settings.parallelism nodes)
    (·.isRoundOver f.campaigns.length) (some (f.now + settings.shutdownTimeout))
  rw [begin_eq] at ran rest
  simp only [callRound]
  split
  · exact ran
  · rename_i goesOn
    exact ran.tail (.wait rest.1 (rest.inTime (Bool.eq_false_iff.2 goesOn)))

/-! ### Limits -/

theorem Quiet.sound (quiet : f.Quiet) (full : f.permits = some (.full limits)) :
    f.gate.Sound limits := by
  apply Gate.sound_of_none
  · simp only [gate, marked]
    rw [quiet.ready, quiet.parked]
    rfl
  · simp only [gate, full]
    rfl
  · simp only [gate, full]
    rfl
  · intro node
    simp only [gate, full]
    rfl

/-- When a fleet has run for as long as it can, no call is on its way and none waits for a permit. -/
theorem places_run (f : Fleet) :
    ∀ e ∈ (f.run (fun _ => false) none).gate.places, e.2 = .queued := by
  obtain ⟨idle, stops | none | ⟨_, _, _, ⟨⟩, _⟩⟩ := run_atRest f (fun _ => false) none
  · cases stops
  · intro e mem
    simp only [gate, marked] at mem
    rw [idle, List.map_nil, List.nil_append, Multiset.mem_coe] at mem
    obtain ⟨⟨flight, wait⟩, parked, rfl⟩ := List.mem_map.1 mem
    have endless := List.filterMap_eq_nil_iff.1 (List.min?_eq_none_iff.1 none) _ parked
    cases wait with
    | slot => rfl
    | _ => cases endless

/-- Limits are kept from a time on at which no call is under way.

Whatever moves are made, the fleet goes through a course of shifts, and every such course keeps the
limits. The operations of the client are made of moves. Where the fleet runs for as long as it can,
it is decided for all calls whether they are admitted or end with a timeout. -/
theorem limits_kept (quiet : f.Quiet) (full : f.permits = some (.full limits)) :
    (∀ g h, Moves f g → Moves g h → ∃ whose moments m n, Course whose moments ∧
      moments 0 = f.gate ∧ m ≤ n ∧ moments m = g.gate ∧ moments n = h.gate) ∧
    (∀ whose moments, Course whose moments → moments 0 = f.gate →
      Course.KeepsLimits limits whose moments) ∧
    (∀ g : Fleet, (∀ calls, Moves g (g.callAll calls).2) ∧
      (∀ settings request nodes, Moves g (g.callRound settings request nodes).2) ∧
      (∀ duration, Moves g (g.sleep duration)) ∧ Moves g (g.run (fun _ => false) none)) ∧
    ∀ (g : Fleet) whose moments m n, Course whose moments → moments 0 = f.gate → m ≤ n →
      moments n = (g.run (fun _ => false) none).gate →
      ∀ flight connected deadline, (flight, .waiting connected deadline) ∈ (moments m).places →
        ∃ k, m ≤ k ∧ k < n ∧ whose k = some flight ∧
          Decides flight deadline (moments k) (moments (k + 1)) := by
  have sound := quiet.sound full
  have limited : f.permits.isSome := by
    rw [full]
    rfl
  have keeps : ∀ whose moments, Course whose moments → moments 0 = f.gate →
      Course.KeepsLimits limits whose moments :=
    fun whose moments course start =>
      course.keepsLimits (start ▸ sound) (start ▸ f.view_gate ▸ quiet.consistent)
  refine ⟨fun g h before after => ?_, keeps,
    fun g => ⟨g.moves_callAll, g.moves_callRound, g.moves_sleep, moves_run g _ _⟩, ?_⟩
  · obtain ⟨first, limited, ok⟩ := shifts_moves limited quiet.consistent before
    exact Course.exists_of_shifts first (shifts_moves limited ok after).1
  · intro g whose moments m n course start later final flight connected deadline waits
    refine ((keeps whose moments course start).answered m n flight connected deadline later
      waits).resolve_left ?_
    rintro ⟨-, connected', still | ⟨late, -⟩⟩
    · rw [final] at still
      cases g.places_run _ still
    · rw [final] at late
      cases g.places_run _ late

/-- A node that takes long, called by a client that may have one call in progress. -/
def busy : Fleet :=
  { servers := .ofList [(0, { delay := 200 })], permits := some (.full { connectTimeout := 20 }) }

/-- Two calls to the node, the second while the first is in progress. -/
def crowded : List (Nat × Except CallError Server) × Fleet :=
  busy.callAll [⟨0, 0, .state⟩, ⟨10, 0, .state⟩]

/-- The second call waits for its connection until its deadline; in the end the connection and the
thread are free. -/
theorem limits_kept_busy :
    crowded.1 = [(200, .ok { delay := 200 }), (30, .error (.timeout 0))] ∧
      crowded.2.gate.freeThreads = 1 ∧ ∀ node, crowded.2.gate.freeAt node = 1 := by
  have quiet : busy.Quiet := ⟨rfl, rfl⟩
  have full : busy.permits = some (.full { connectTimeout := 20 }) := rfl
  obtain ⟨passes, keeps, operations, -⟩ := limits_kept quiet full
  obtain ⟨whose, moments, m, n, course, start, -, -, final⟩ :=
    passes busy _ .refl ((operations busy).1 [⟨0, 0, .state⟩, ⟨10, 0, .state⟩])
  have ready : crowded.2.ready = [] := by decide +kernel
  have parked : crowded.2.parked = [] := by decide +kernel
  have none : (moments n).places = 0 := by
    rw [final]
    change crowded.2.gate.places = 0
    simp only [gate, marked]
    rw [ready, parked]
    rfl
  have free := (keeps whose moments course start).returned n none
  rw [final] at free
  exact ⟨by decide +kernel, free⟩

end Fleet

end Resharding
