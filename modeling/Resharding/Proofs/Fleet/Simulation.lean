import Resharding.Proofs.Fleet.View

/-!
Fleets go by events.

Whatever a call does, the view of the fleet changes by events only (`Fleet.events_act`), and so it
does in a whole run (`Fleet.events_run`). Each lemma on a function below takes the call that goes on
as already taken out of the fleet's queues, and puts it back into the view at its stage.
-/

namespace Resharding

theorem perm_of_extract? {α β : Type} {pick : α → Option β} {as rest : List α} {b : β}
    (found : extract? pick as = some (b, rest)) : ∃ a, pick a = some b ∧ as.Perm (a :: rest) := by
  induction as generalizing rest with
  | nil => cases found
  | cons c cs ih =>
    simp only [extract?] at found
    split at found
    · rename_i picked
      cases found
      exact ⟨c, picked, .refl _⟩
    · obtain ⟨⟨d, left⟩, inner, eq⟩ := Option.map_eq_some_iff.1 found
      cases eq
      obtain ⟨a, picked, perm⟩ := ih inner
      exact ⟨a, picked, (perm.cons c).trans (.swap a c left)⟩

namespace Fleet

/-- The calls under way, marked by what they do next or wait for. -/
def marked {μ : Type} (ofAction : Action → μ) (ofWait : Wait → μ) (f : Fleet) :
    Multiset (Flight × μ) :=
  ↑((f.ready.map fun e => (e.1, ofAction e.2)) ++ f.parked.map fun e => (e.1, ofWait e.2))

/-- The calls under way with their stages. -/
def pending (f : Fleet) : Multiset (Flight × Stage) :=
  ↑((f.ready.map fun e => (e.1, e.2.stage)) ++ f.parked.map fun e => (e.1, e.2.stage))

def view (f : Fleet) : View where
  servers := f.servers
  calls := f.calls
  crashing := f.crashing
  limited := f.permits.isSome
  campaigns := f.campaigns
  landings := f.landings.map fun l => (l.index, l.found)
  pending := f.pending

variable {f g : Fleet} {flight : Flight}

/-! ### Queues -/

section Marks

variable {μ : Type} {ofAction : Action → μ} {ofWait : Wait → μ}

theorem marked_enqueue (f : Fleet) (flight : Flight) (action : Action) :
    (f.enqueue flight action).marked ofAction ofWait =
      (flight, ofAction action) ::ₘ f.marked ofAction ofWait := by
  simp only [marked, enqueue]
  rw [Multiset.cons_coe, Multiset.coe_eq_coe, List.map_append, List.append_assoc]
  exact List.perm_middle

theorem marked_park (f : Fleet) (flight : Flight) (wait : Wait) :
    (f.park flight wait).marked ofAction ofWait =
      (flight, ofWait wait) ::ₘ f.marked ofAction ofWait := by
  simp only [marked, park]
  rw [Multiset.cons_coe, Multiset.coe_eq_coe, List.map_append, ← List.append_assoc]
  exact (List.perm_append_singleton _ _)

theorem marked_of_parked_perm {e : Flight × Wait} {rest : List (Flight × Wait)}
    (perm : f.parked.Perm (e :: rest)) :
    f.marked ofAction ofWait =
      (e.1, ofWait e.2) ::ₘ ({ f with parked := rest } : Fleet).marked ofAction ofWait := by
  simp only [marked]
  rw [Multiset.cons_coe, Multiset.coe_eq_coe]
  exact ((perm.map _).append_left _).trans List.perm_middle

theorem marked_of_ready {i : Nat} {action : Action} (here : f.ready[i]? = some (flight, action)) :
    f.marked ofAction ofWait = (flight, ofAction action) ::ₘ
      ({ f with ready := f.ready.eraseIdx i } : Fleet).marked ofAction ofWait := by
  obtain ⟨less, atI⟩ := List.getElem?_eq_some_iff.1 here
  have perm : f.ready.Perm ((flight, action) :: f.ready.eraseIdx i) :=
    atI ▸ (List.getElem_cons_eraseIdx_perm less).symm
  simp only [marked]
  rw [Multiset.cons_coe, Multiset.coe_eq_coe]
  exact (perm.map _).append_right _

/-- Waking marks the calls whose wait is over by what they do next. -/
theorem marked_wake (ofAction : Action → μ) (ofWait : Wait → μ) (f : Fleet) :
    f.wake.marked ofAction ofWait =
      ↑((f.ready.map fun e => (e.1, ofAction e.2)) ++ f.parked.map fun e =>
        ((overBy? f.now e).map fun r => (r.1, ofAction r.2)).getD (e.1, ofWait e.2)) := by
  have split (es : List (Flight × Wait)) :
      ((es.filterMap (overBy? f.now)).map (fun e => (e.1, ofAction e.2)) ++
        (es.filter fun e => (overBy? f.now e).isNone).map fun e => (e.1, ofWait e.2)).Perm
      (es.map fun e =>
        ((overBy? f.now e).map fun r => (r.1, ofAction r.2)).getD (e.1, ofWait e.2)) := by
    induction es with
    | nil => exact .refl _
    | cons e es ih =>
      cases isOver : overBy? f.now e with
      | none =>
        rw [List.filterMap_cons_none isOver, List.filter_cons_of_pos (by rw [isOver]; rfl),
          List.map_cons, List.map_cons, isOver]
        exact List.perm_middle.trans (ih.cons _)
      | some r =>
        have left : ¬ (overBy? f.now e).isNone := by
          rw [isOver]
          exact Bool.false_ne_true
        rw [List.filterMap_cons_some isOver,
          @List.filter_cons_of_neg _ (fun e => (overBy? f.now e).isNone) _ _ left,
          List.map_cons, List.map_cons, isOver]
        exact ih.cons _
  simp only [marked, wake]
  rw [Multiset.coe_eq_coe, List.map_append, List.append_assoc]
  exact (split f.parked).append_left _

end Marks

theorem view_enqueue (f : Fleet) (flight : Flight) (action : Action) :
    (f.enqueue flight action).view = f.view.add flight action.stage :=
  congrArg (fun p => { f.view with pending := p }) (marked_enqueue f flight action)

theorem view_park (f : Fleet) (flight : Flight) (wait : Wait) :
    (f.park flight wait).view = f.view.add flight wait.stage :=
  congrArg (fun p => { f.view with pending := p }) (marked_park f flight wait)

theorem view_of_parked_perm {e : Flight × Wait} {rest : List (Flight × Wait)}
    (perm : f.parked.Perm (e :: rest)) :
    f.view = ({ f with parked := rest } : Fleet).view.add e.1 e.2.stage :=
  congrArg (fun p => { f.view with pending := p }) (marked_of_parked_perm perm)

theorem view_changeRound (f : Fleet) (i : Nat) (change : Round Server → Option (Round Server)) :
    (f.changeRound i change).view = f.view.changeRound i change := rfl

theorem find_eq (f : Fleet) (node : NodeId) : f.find node = f.view.find node := rfl

theorem view_visit (f : Fleet) (flight : Flight) :
    (f.visit flight).view = f.view.visit flight := by
  simp only [View.visit, visit]
  rw [find_eq, show Fleet.find { servers := f.view.servers } flight.node =
    f.view.find flight.node from rfl]
  cases f.view.find flight.node <;> rfl

/-! ### Giving back -/

/-- A slot is handed over by an event: its round has room, so a queued call can have it. -/
theorem events_handSlot {i : Nat} (ok : f.view.Consistent)
    (room : ∀ c, f.campaigns[i]? = some c → c.round.hasRoom) :
    Events f.view (f.handSlot i).view := by
  simp only [handSlot]
  split
  · rename_i flight rest found
    obtain ⟨⟨other, wait⟩, picked, perm⟩ := perm_of_extract? found
    cases wait with
    | slot =>
      simp only [Option.ite_none_right_eq_some, Option.some.injEq] at picked
      obtain ⟨caller, rfl⟩ := picked
      rw [view_of_parked_perm perm] at ok ⊢
      rw [view_enqueue, view_changeRound]
      obtain ⟨c, there, -, waits, -⟩ := (View.consistent_add_iff.1 ok).2.backed i caller
      have launches := Round.launch?_eq_some_iff.2 ⟨waits, room c there, rfl⟩
      exact .single (.launch caller there launches)
    | _ => cases picked
  · exact .refl

theorem view_handConnection (f : Fleet) (node : NodeId) :
    (f.handConnection node).view = f.view := by
  simp only [handConnection]
  split
  · rename_i flight action rest found
    obtain ⟨⟨other, wait⟩, picked, perm⟩ := perm_of_extract? found
    cases wait with
    | connection deadline =>
      simp only [Option.ite_none_right_eq_some, Option.some.injEq, Prod.mk.injEq] at picked
      obtain ⟨-, rfl, rfl⟩ := picked
      rw [view_enqueue, view_of_parked_perm perm]
      rfl
    | _ => cases picked
  · simp only [view]
    rw [Option.isSome_map]
    rfl

/-- At most one of the calls under way gets its thread. -/
def Promoted (p q : Multiset (Flight × Stage)) : Prop :=
  q = p ∨ ∃ flight rest, p = (flight, .boarding) ::ₘ rest ∧ q = (flight, .travelling) ::ₘ rest

theorem Promoted.cons {p q : Multiset (Flight × Stage)} (promoted : Promoted p q)
    (e : Flight × Stage) : Promoted (e ::ₘ p) (e ::ₘ q) := by
  rcases promoted with rfl | ⟨flight, rest, rfl, rfl⟩
  · exact .inl rfl
  · exact .inr ⟨flight, e ::ₘ rest, Multiset.cons_swap _ _ _, Multiset.cons_swap _ _ _⟩

theorem events_of_promoted {v : View} {q : Multiset (Flight × Stage)}
    (promoted : Promoted v.pending q) : Events v { v with pending := q } := by
  rcases promoted with rfl | ⟨flight, rest, before, rfl⟩
  · exact .refl
  · have eq : v = ({ v with pending := rest } : View).add flight .boarding :=
      congrArg (fun p => { v with pending := p }) before
    rw [eq]
    exact .single .board

theorem view_handThread (f : Fleet) :
    ∃ q, f.handThread.view = { f.view with pending := q } ∧ Promoted f.pending q := by
  simp only [handThread]
  split
  · rename_i flight rest found
    obtain ⟨⟨other, wait⟩, picked, perm⟩ := perm_of_extract? found
    cases wait with
    | thread deadline =>
      cases picked
      refine ⟨_, view_enqueue _ _ _, .inr ⟨flight, _, marked_of_parked_perm perm, rfl⟩⟩
    | _ => cases picked
  · refine ⟨f.pending, ?_, .inl rfl⟩
    simp only [view]
    rw [Option.isSome_map]
    rfl

theorem view_release (f : Fleet) (node : NodeId) :
    ∃ q, (f.release node).view = { f.view with pending := q } ∧ Promoted f.pending q := by
  simp only [release]
  split
  · rw [view_handConnection]
    exact view_handThread f
  · exact ⟨f.pending, rfl, .inl rfl⟩

/-! ### Going on -/

/-- A task that ends leaves its round with room. -/
theorem hasRoom_of_end {v : View} {i : Nat} {stage : Stage} {ended : Task Server}
    {change : Round Server → Option (Round Server)} (fits : v.Fits flight stage)
    (caller : flight.caller = .task i) (started : stage ≠ .queued)
    (changes : ∀ r : Round Server, r.tasks.get? flight.node = some .running →
      change r = some { r with tasks := r.tasks.insert flight.node ended })
    (stopped : ended.isRunning = false) {c : Campaign}
    (there : (v.changeRound i change).campaigns[i]? = some c) : c.round.hasRoom := by
  obtain ⟨c', found, -, runs, room⟩ := fits.running caller started
  rw [View.getElem?_changeRound_self found (changes _ runs)] at there
  cases there
  have fewer := Round.runningCount_end ended runs stopped
  exact decide_eq_true (Nat.lt_of_lt_of_le (Nat.lt_of_succ_le (Nat.le_of_eq fewer)) room)

theorem events_deliver {stage : Stage} (ok : f.view.Consistent) (fits : f.view.Fits flight stage)
    (started : stage ≠ .queued) (found : Except CallError Server) :
    Events (f.view.hand flight found) (f.deliver flight found).view := by
  have after := View.consistent_hand ok fits started found
  simp only [View.hand] at after ⊢
  simp only [deliver]
  cases caller : flight.caller with
  | direct index =>
    simp only [view]
    simp only [List.map_append, List.map_cons, List.map_nil]
    exact .refl
  | task i =>
    rw [caller] at after
    exact events_handSlot (f := f.changeRound i (·.finish? flight.node found)) after fun c there =>
      hasRoom_of_end fits caller started
        (fun r runs => Round.finish?_of_running runs found) rfl there

/-- What a call gives back may put another call on its way before the call ends. -/
theorem events_release (f : Fleet) (flight : Flight) :
    ∃ q, ((f.visit flight).release flight.node).view = { f.view.visit flight with pending := q } ∧
      Events (f.view.add flight .travelling)
        (({ f.view with pending := q } : View).add flight .travelling) := by
  obtain ⟨q, released, promoted⟩ := view_release (f.visit flight) flight.node
  have kept : (f.visit flight).pending = f.pending := congrArg View.pending (view_visit f flight)
  rw [kept] at promoted
  rw [view_visit] at released
  exact ⟨q, released, events_of_promoted (v := f.view.add flight .travelling)
    (promoted.cons (flight, .travelling))⟩

theorem consistent_release (ok : (f.view.add flight .travelling).Consistent) :
    (((f.visit flight).release flight.node).view.add flight .travelling).Consistent := by
  obtain ⟨q, released, before⟩ := events_release f flight
  rw [released]
  exact (before.consistent ok).congr rfl rfl

theorem events_arrive (ok : (f.view.add flight .travelling).Consistent) :
    Events (f.view.add flight .travelling) (f.arrive flight).view := by
  obtain ⟨ok', fits⟩ := View.consistent_add_iff.1 (consistent_release ok)
  have rest := events_deliver ok' fits (by decide) (f.find flight.node)
  obtain ⟨q, released, before⟩ := events_release f flight
  have landing : Event (({ f.view with pending := q } : View).add flight .travelling) _ := .land
  rw [released] at rest
  exact (before.tail landing).trans rest

theorem events_giveUp (ok : (f.view.add flight .boarding).Consistent) (connected : Bool) :
    Events (f.view.add flight .boarding) (f.giveUp flight connected).view := by
  simp only [giveUp]
  have same : (if connected then f.handConnection flight.node else f).view = f.view := by
    split
    · exact view_handConnection f flight.node
    · rfl
  obtain ⟨ok', fits⟩ := View.consistent_add_iff.1 ok
  rw [← same] at ok' fits ⊢
  exact .head .expire (events_deliver ok' fits (by decide) _)

theorem events_depart (ok : (f.view.add flight .travelling).Consistent) :
    Events (f.view.add flight .travelling) (f.depart flight).view := by
  simp only [depart]
  split
  · exact events_arrive ok
  · rw [view_park]
    exact .refl

/-- Taking a permit leaves the view, as it takes limits to have permits. -/
theorem view_of_take {take : Permits → Option Permits} {p : Permits}
    (taken : (f.permits.bind take) = some p) :
    ({ f with permits := some p } : Fleet).view = f.view := by
  obtain ⟨old, eq, -⟩ := Option.bind_eq_some_iff.1 taken
  simp only [view]
  rw [eq]
  rfl

theorem events_board (ok : (f.view.add flight .boarding).Consistent) (deadline : Nat) :
    Events (f.view.add flight .boarding) (f.board flight deadline).view := by
  simp only [board]
  split
  · rename_i p taken
    have same := view_of_take taken
    have boarded : Event (f.view.add flight .boarding) (f.view.add flight .travelling) := .board
    have ok' := boarded.consistent ok
    rw [← same] at ok' boarded ⊢
    exact .head boarded (events_depart ok')
  · split
    · exact events_giveUp ok true
    · rw [view_park]
      exact .refl

theorem events_connect (ok : (f.view.add flight .boarding).Consistent) (deadline : Nat) :
    Events (f.view.add flight .boarding) (f.connect flight deadline).view := by
  simp only [connect]
  split
  · rename_i p taken
    rw [← view_of_take taken] at ok ⊢
    exact events_board ok deadline
  · split
    · exact events_giveUp ok false
    · rw [view_park]
      exact .refl

/-- A call is recorded and sets out, or asks for its connection if the client has limits. -/
theorem issue_cases (f : Fleet) (flight : Flight) :
    let recorded : Fleet := { f with calls := f.calls ++ [⟨flight.node, flight.request.operation⟩] }
    f.permits.isSome = false ∧ f.issue flight = recorded.depart flight ∨
      f.permits.isSome ∧ ∃ deadline, f.issue flight = recorded.connect flight deadline := by
  simp only [issue]
  split
  · rename_i unlimited
    rw [unlimited]
    exact .inl ⟨rfl, rfl⟩
  · rename_i p limited
    rw [limited]
    exact .inr ⟨rfl, _, rfl⟩

theorem events_issue (ok : (f.view.add flight .launched).Consistent)
    (sound : ∀ i, flight.caller = .task i → flight.node ∉ f.crashing) :
    Events (f.view.add flight .launched) (f.issue flight).view := by
  let recorded : Fleet := { f with calls := f.calls ++ [⟨flight.node, flight.request.operation⟩] }
  have issued : Event (f.view.add flight .launched) (recorded.view.add flight
      (if f.permits.isSome then .boarding else .travelling)) := .issue sound
  have ok' := issued.consistent ok
  refine .head issued ?_
  rcases issue_cases f flight with ⟨unlimited, same⟩ | ⟨limited, deadline, same⟩
  · rw [unlimited] at ok' ⊢
    rw [same]
    exact events_depart (f := recorded) ok'
  · rw [limited] at ok' ⊢
    rw [same]
    exact events_connect (f := recorded) ok' deadline

theorem events_start (ok : (f.view.add flight .launched).Consistent) :
    Events (f.view.add flight .launched) (f.start flight).view := by
  simp only [start]
  cases caller : flight.caller with
  | direct index => exact events_issue ok fun i task => by rw [caller] at task; cases task
  | task i =>
    dsimp only
    split
    · rename_i crashes
      have crash : Event (f.view.add flight .launched) _ :=
        .crash caller (SortedMap.contains_iff.1 crashes)
      have fits := (View.consistent_add_iff.1 ok).2
      refine .head crash (events_handSlot (f := f.changeRound i (·.crash? flight.node))
        (crash.consistent ok) fun c there => ?_)
      exact hasRoom_of_end fits caller (by decide) (fun r runs => Round.crash?_of_running runs) rfl
        there
    · rename_i survives
      refine events_issue ok fun _ _ mem => survives (SortedMap.contains_iff.2 mem)

theorem events_ask (ok : (f.view.add flight .queued).Consistent) :
    Events (f.view.add flight .queued) (f.ask flight).view := by
  simp only [ask]
  cases caller : flight.caller with
  | direct index => exact absurd rfl ((View.consistent_add_iff.1 ok).2.direct index caller)
  | task i =>
    dsimp only
    split
    · rename_i r launched
      obtain ⟨c, found, launches⟩ := Option.bind_eq_some_iff.1 launched
      have launch : Event (f.view.add flight .queued) _ := .launch caller found launches
      exact .head launch (events_start (f := f.changeRound i (·.launch? flight.node))
        (launch.consistent ok))
    · rw [view_park]
      exact .refl

/-- Whatever a call does, it does by events. -/
theorem events_act (action : Action) (ok : (f.view.add flight action.stage).Consistent) :
    Events (f.view.add flight action.stage) (f.act flight action).view := by
  cases action with
  | ask => exact events_ask ok
  | start => exact events_start ok
  | board deadline => exact events_board ok deadline
  | depart => exact events_depart ok
  | arrive => exact events_arrive ok
  | giveUp connected => exact events_giveUp ok connected

/-! ### Runs -/

/-- A call that can go on is one of those under way. -/
theorem view_of_ready {i : Nat} {action : Action} (here : f.ready[i]? = some (flight, action)) :
    f.view = ({ f with ready := f.ready.eraseIdx i } : Fleet).view.add flight action.stage :=
  congrArg (fun p => { f.view with pending := p }) (marked_of_ready here)

theorem events_go {i : Nat} (ok : f.view.Consistent) (goes : f.go? i = some g) :
    Events f.view g.view := by
  obtain ⟨⟨flight, action⟩, here, rfl⟩ := Option.map_eq_some_iff.1 goes
  rw [view_of_ready here] at ok ⊢
  exact events_act action ok

theorem stage_of_overBy {now : Nat} {e : Flight × Wait} {r : Flight × Action}
    (ended : overBy? now e = some r) : (r.1, r.2.stage) = (e.1, e.2.stage) := by
  obtain ⟨flight, wait⟩ := e
  cases wait <;> simp only [overBy?, Wait.ending?, Option.ite_none_right_eq_some,
    Option.some.injEq, reduceCtorEq] at ended <;>
    (obtain ⟨_, rfl⟩ := ended; rfl)

/-- A call whose wait is over is as far as before. -/
theorem view_wake (f : Fleet) : f.wake.view = f.view := by
  have pending : f.wake.pending = f.pending := by
    have woken : ∀ e ∈ f.parked,
        ((overBy? f.now e).map fun r => (r.1, r.2.stage)).getD (e.1, e.2.stage) =
          (e.1, e.2.stage) := by
      intro e _
      cases isOver : overBy? f.now e with
      | none => rfl
      | some r => exact stage_of_overBy isOver
    have marked := marked_wake Action.stage Wait.stage f
    rw [List.map_congr_left woken] at marked
    exact marked
  exact congrArg (fun p => { f.view with pending := p }) pending

theorem events_advance {stop : Fleet → Bool} {limit : Option Nat} {fuel : Nat}
    (ok : f.view.Consistent) : Events f.view (f.advance stop limit fuel).view := by
  induction fuel generalizing f with
  | zero => exact .refl
  | succ fuel ih =>
    simp only [advance]
    split
    · rename_i g goes
      have step := events_go ok goes
      exact step.trans (ih (step.consistent ok))
    · split
      · exact .refl
      · split
        · exact .refl
        · rename_i time next
          split
          · exact .refl
          · have same : (f.waitUntil time).wake.view = f.view := view_wake (f.waitUntil time)
            rw [← same] at ok ⊢
            exact ih ok

/-- A run goes by events. -/
theorem events_run (ok : f.view.Consistent) (stop : Fleet → Bool) (limit : Option Nat) :
    Events f.view (f.run stop limit).view := events_advance ok

end Fleet

end Resharding
