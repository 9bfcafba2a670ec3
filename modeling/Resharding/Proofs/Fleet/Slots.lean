import Resharding.Fleet.Progress
import Resharding.Proofs.Fleet.Effect

/-!
No slot is left free while a call waits for one.

A slot that is given back goes straight to the first call of the round that waits for it, so calls wait
for slots only while the round has no room (`Fleet.Slotted`). Whatever calls do keeps that
(`Fleet.slotted_act`), and so does a whole run (`Fleet.slotted_run`).
-/

namespace Resharding

theorem eq_none_of_extract? {α β : Type} {pick : α → Option β} {as : List α}
    (absent : extract? pick as = none) : ∀ a ∈ as, pick a = none := by
  induction as with
  | nil => exact nofun
  | cons a rest ih =>
    simp only [extract?] at absent
    split at absent
    · cases absent
    · rename_i refused
      exact List.forall_mem_cons.2 ⟨refused, ih (Option.map_eq_none_iff.1 absent)⟩

/-- A full round of which a task ends has room for another one, and is full with it. -/
theorem Round.exists_launch_of_end {α : Type} {r : Round α} {node other : NodeId} {ended : Task α}
    (full : ¬ r.hasRoom) (within : r.runningCount ≤ r.width)
    (runs : r.tasks.get? node = some .running) (stopped : ended.isRunning = false)
    (waits : (r.tasks.insert node ended).get? other = some .waiting) :
    ∃ r', (⟨r.width, r.tasks.insert node ended⟩ : Round α).launch? other = some r' ∧
      ¬ r'.hasRoom := by
  have fewer := runningCount_end ended runs stopped
  have more := runningCount_launch (r := ⟨r.width, r.tasks.insert node ended⟩) waits
  simp only [hasRoom, decide_eq_true_eq] at full
  have room : (⟨r.width, r.tasks.insert node ended⟩ : Round α).hasRoom :=
    decide_eq_true (Nat.lt_of_lt_of_le (Nat.lt_of_succ_le (Nat.le_of_eq fewer)) within)
  refine ⟨_, launch?_eq_some_iff.2 ⟨waits, room, rfl⟩, ?_⟩
  simp only [hasRoom, decide_eq_true_eq]
  rw [more, fewer]
  exact full

namespace Fleet

/-- The `i`-th round has no room. -/
def Full (f : Fleet) (i : Nat) : Prop := ∀ c, f.campaigns[i]? = some c → ¬ c.round.hasRoom

/-- Calls of the `i`-th round wait before they start only for slots, and only while it has no room. -/
def Slotted (f : Fleet) (i : Nat) : Prop :=
  ∀ e ∈ f.parked, e.1.caller = .task i →
    e.2.stage ≠ .launched ∧ (e.2.stage = .queued → f.Full i)

variable {f g : Fleet} {flight : Flight} {i j : Nat} {c : Campaign}

theorem Slotted.of_subset (slotted : f.Slotted i) (parked : g.parked ⊆ f.parked)
    (campaigns : g.campaigns = f.campaigns) : g.Slotted i := by
  intro e mem caller
  obtain ⟨started, full⟩ := slotted e (parked mem) caller
  constructor
  · exact started
  · intro queued c there
    rw [campaigns] at there
    exact full queued c there

theorem Slotted.of_full (slotted : f.Slotted i) (parked : g.parked ⊆ f.parked) (full : g.Full i) :
    g.Slotted i :=
  fun e mem caller => ⟨(slotted e (parked mem) caller).1, fun _ => full⟩

/-- A call that has started may wait for anything. -/
theorem slotted_park {wait : Wait} (slotted : f.Slotted i)
    (started : wait.stage = .boarding ∨ wait.stage = .travelling) :
    (f.park flight wait).Slotted i := by
  intro e mem caller
  rcases List.mem_append.1 mem with mem | mem
  · exact slotted e mem caller
  · cases List.mem_singleton.1 mem
    rcases started with same | same <;> dsimp only <;> rw [same]
    · exact ⟨by decide, fun queued => by cases queued⟩
    · exact ⟨by decide, fun queued => by cases queued⟩

/-! ### Changing rounds -/

theorem slotted_changeRound_of_ne (change : Round Server → Option (Round Server)) (ne : j ≠ i)
    (slotted : f.Slotted i) : (f.changeRound j change).Slotted i := by
  intro e mem caller
  obtain ⟨started, full⟩ := slotted e mem caller
  constructor
  · exact started
  · intro queued c there
    have same : (f.changeRound j change).campaigns[i]? = f.campaigns[i]? :=
      View.getElem?_changeRound_of_ne (v := f.view) ne
    exact full queued c (same.symm.trans there)

/-- As long as slots are free no call of the round waits for one. -/
theorem slotted_launch (slotted : f.Slotted i) {node : NodeId} {r : Round Server}
    (there : f.campaigns[j]? = some c) (launches : c.round.launch? node = some r) :
    (f.changeRound j (·.launch? node)).Slotted i := by
  by_cases same : j = i
  · subst same
    intro e mem caller
    obtain ⟨started, full⟩ := slotted e mem caller
    have room := (Round.launch?_eq_some_iff.1 launches).2.1
    exact ⟨started, fun queued => absurd room (full queued c there)⟩
  · exact slotted_changeRound_of_ne _ same slotted

section

variable {stage : Stage} {ended : Task Server} {change : Round Server → Option (Round Server)}
  (fits : f.view.Fits flight stage) (caller : flight.caller = .task j) (started : stage ≠ .queued)
  (changes : ∀ r : Round Server, r.tasks.get? flight.node = some .running →
    change r = some { r with tasks := r.tasks.insert flight.node ended })
  (stopped : ended.isRunning = false) (after : (f.changeRound j change).view.Consistent)

include fits caller started changes stopped after

/-- A round stays full if a queued call takes over the slot of a task that ends. -/
theorem full_of_takeover {other : Flight} {rest : List (Flight × Wait)} (slotted : f.Slotted j)
    (perm : f.parked.Perm ((other, .slot) :: rest)) (queued : other.caller = .task j) :
    (({ f.changeRound j change with parked := rest } : Fleet).changeRound j
      (·.launch? other.node)).Full j := by
  obtain ⟨c, there, -, runs, within⟩ := fits.running caller started
  have there' := View.getElem?_changeRound_self (v := f.view) there (changes _ runs)
  have full := (slotted _ (perm.mem_iff.2 List.mem_cons_self) queued).2 rfl c there
  have perm' : (f.changeRound j change).parked.Perm ((other, .slot) :: rest) := perm
  rw [view_of_parked_perm perm'] at after
  obtain ⟨c', found, -, waits, -⟩ := (View.consistent_add_iff.1 after).2.backed j queued
  cases there'.symm.trans found
  obtain ⟨r', launches, full'⟩ := Round.exists_launch_of_end full within runs stopped waits
  let left : Fleet := { f.changeRound j change with parked := rest }
  have now : (left.view.changeRound j (·.launch? other.node)).campaigns[j]? = _ :=
    View.getElem?_changeRound_self there' launches
  intro d thereD
  cases now.symm.trans thereD
  exact full'

/-- The slot of a task that ends is passed on, or no call of the round waits for it. -/
theorem slotted_handSlot (slotted : f.Slotted i) :
    ((f.changeRound j change).handSlot j).Slotted i := by
  simp only [handSlot]
  split
  · rename_i next rest found
    obtain ⟨⟨other, wait⟩, picked, perm⟩ := perm_of_extract? found
    have before : rest ⊆ f.parked := fun e mem => perm.mem_iff.2 (List.mem_cons_of_mem _ mem)
    by_cases same : j = i
    · subst same
      cases wait with
      | slot =>
        simp only [Option.ite_none_right_eq_some, Option.some.injEq] at picked
        obtain ⟨queued, rfl⟩ := picked
        exact slotted.of_full before
          (full_of_takeover fits caller started changes stopped after slotted perm queued)
      | _ => cases picked
    · have changed := slotted_changeRound_of_ne change same slotted
      have fewer : ({ f.changeRound j change with parked := rest } : Fleet).Slotted i :=
        changed.of_subset before rfl
      have launched := slotted_changeRound_of_ne (·.launch? next.node) same fewer
      exact launched.of_subset (List.Subset.refl _) rfl
  · rename_i absent
    by_cases same : j = i
    · subst same
      intro e mem callerE
      obtain ⟨launched, -⟩ := slotted e mem callerE
      constructor
      · exact launched
      · intro queued
        have refused := eq_none_of_extract? absent e mem
        obtain ⟨other, wait⟩ := e
        cases wait with
        | slot =>
          dsimp only at refused
          rw [if_pos callerE] at refused
          cases refused
        | _ => cases queued
    · exact slotted_changeRound_of_ne change same slotted

end

/-! ### Giving back -/

theorem slotted_handConnection (slotted : f.Slotted i) (node : NodeId) :
    (f.handConnection node).Slotted i := by
  simp only [handConnection]
  split
  · rename_i next action rest found
    obtain ⟨e, -, perm⟩ := perm_of_extract? found
    exact slotted.of_subset (fun e mem => perm.mem_iff.2 (List.mem_cons_of_mem _ mem)) rfl
  · exact slotted.of_subset (List.Subset.refl _) rfl

theorem slotted_handThread (slotted : f.Slotted i) : f.handThread.Slotted i := by
  simp only [handThread]
  split
  · rename_i next rest found
    obtain ⟨e, -, perm⟩ := perm_of_extract? found
    exact slotted.of_subset (fun e mem => perm.mem_iff.2 (List.mem_cons_of_mem _ mem)) rfl
  · exact slotted.of_subset (List.Subset.refl _) rfl

theorem slotted_release (slotted : f.Slotted i) (node : NodeId) : (f.release node).Slotted i := by
  simp only [release]
  split
  · exact slotted_handConnection (slotted_handThread slotted) node
  · exact slotted

theorem slotted_visit (slotted : f.Slotted i) : (f.visit flight).Slotted i := by
  simp only [visit]
  split
  · exact slotted.of_subset (List.Subset.refl _) rfl
  · exact slotted

/-! ### Going on -/

theorem slotted_deliver {stage : Stage} (slotted : f.Slotted i) (ok : f.view.Consistent)
    (fits : f.view.Fits flight stage) (started : stage ≠ .queued)
    (found : Except CallError Server) : (f.deliver flight found).Slotted i := by
  have after := View.consistent_hand ok fits started found
  simp only [View.hand] at after
  simp only [deliver]
  cases caller : flight.caller with
  | direct index => exact slotted.of_subset (List.Subset.refl _) rfl
  | task j =>
    rw [caller] at after
    exact slotted_handSlot fits caller started
      (fun r runs => Round.finish?_of_running runs found) rfl after slotted

theorem slotted_arrive (slotted : f.Slotted i)
    (ok : (f.view.add flight .travelling).Consistent) : (f.arrive flight).Slotted i := by
  obtain ⟨ok', fits⟩ := View.consistent_add_iff.1 (consistent_release ok)
  have released : ((f.visit flight).release flight.node).Slotted i :=
    slotted_release (slotted_visit slotted) flight.node
  exact slotted_deliver released ok' fits (by decide) _

theorem slotted_depart (slotted : f.Slotted i)
    (ok : (f.view.add flight .travelling).Consistent) : (f.depart flight).Slotted i := by
  simp only [depart]
  split
  · exact slotted_arrive slotted ok
  · exact slotted_park slotted (.inr rfl)

theorem slotted_giveUp (slotted : f.Slotted i)
    (ok : (f.view.add flight .boarding).Consistent) (connected : Bool) :
    (f.giveUp flight connected).Slotted i := by
  obtain ⟨ok', fits⟩ := View.consistent_add_iff.1 ok
  simp only [giveUp]
  split
  · rw [← view_handConnection f flight.node] at ok' fits
    exact slotted_deliver (slotted_handConnection slotted _) ok' fits (by decide) _
  · exact slotted_deliver slotted ok' fits (by decide) _

theorem slotted_board (slotted : f.Slotted i)
    (ok : (f.view.add flight .boarding).Consistent) (deadline : Nat) :
    (f.board flight deadline).Slotted i := by
  simp only [board]
  split
  · rename_i p taken
    have boarded : Event (f.view.add flight .boarding) (f.view.add flight .travelling) := .board
    have ok' := boarded.consistent ok
    rw [← view_of_take taken] at ok'
    have kept : ({ f with permits := some p } : Fleet).Slotted i :=
      slotted.of_subset (List.Subset.refl _) rfl
    exact slotted_depart kept ok'
  · split
    · exact slotted_giveUp slotted ok true
    · exact slotted_park slotted (.inl rfl)

theorem slotted_connect (slotted : f.Slotted i)
    (ok : (f.view.add flight .boarding).Consistent) (deadline : Nat) :
    (f.connect flight deadline).Slotted i := by
  simp only [connect]
  split
  · rename_i p taken
    rw [← view_of_take taken] at ok
    have kept : ({ f with permits := some p } : Fleet).Slotted i :=
      slotted.of_subset (List.Subset.refl _) rfl
    exact slotted_board kept ok deadline
  · split
    · exact slotted_giveUp slotted ok false
    · exact slotted_park slotted (.inl rfl)

theorem slotted_issue (slotted : f.Slotted i)
    (ok : (f.view.add flight .launched).Consistent)
    (sound : ∀ j, flight.caller = .task j → flight.node ∉ f.crashing) :
    (f.issue flight).Slotted i := by
  let recorded : Fleet := { f with calls := f.calls ++ [⟨flight.node, flight.request.operation⟩] }
  have issued : Event (f.view.add flight .launched) (recorded.view.add flight
      (if f.permits.isSome then .boarding else .travelling)) := .issue sound
  have ok' := issued.consistent ok
  have kept : recorded.Slotted i := slotted.of_subset (List.Subset.refl _) rfl
  rcases issue_cases f flight with ⟨unlimited, same⟩ | ⟨limited, deadline, same⟩
  · rw [unlimited] at ok'
    rw [same]
    exact slotted_depart kept ok'
  · rw [limited] at ok'
    rw [same]
    exact slotted_connect kept ok' deadline

theorem slotted_start (slotted : f.Slotted i)
    (ok : (f.view.add flight .launched).Consistent) : (f.start flight).Slotted i := by
  simp only [start]
  cases caller : flight.caller with
  | direct index =>
    exact slotted_issue slotted ok fun j task => by rw [caller] at task; cases task
  | task j =>
    dsimp only
    split
    · rename_i crashes
      have crash : Event (f.view.add flight .launched) _ :=
        .crash caller (SortedMap.contains_iff.1 crashes)
      have fits := (View.consistent_add_iff.1 ok).2
      exact slotted_handSlot fits caller (by decide)
        (fun r runs => Round.crash?_of_running runs) rfl (crash.consistent ok) slotted
    · rename_i survives
      exact slotted_issue slotted ok fun _ _ mem => survives (SortedMap.contains_iff.2 mem)

/-- A call that is refused a slot finds its round full. -/
theorem full_of_refused (fits : f.view.Fits flight .queued) (caller : flight.caller = .task j)
    (refused : ((f.campaigns[j]?).bind fun c => c.round.launch? flight.node) = none) :
    f.Full j := by
  intro c there room
  obtain ⟨c', there', -, waits, -⟩ := fits.backed j caller
  cases (show f.campaigns[j]? = some c' from there').symm.trans there
  rw [there, Option.bind_some, Round.launch?_eq_some_iff.2 ⟨waits, room, rfl⟩] at refused
  cases refused

theorem slotted_ask (slotted : f.Slotted i)
    (ok : (f.view.add flight .queued).Consistent) : (f.ask flight).Slotted i := by
  have fits := (View.consistent_add_iff.1 ok).2
  simp only [ask]
  cases caller : flight.caller with
  | direct index => exact absurd rfl (fits.direct index caller)
  | task j =>
    dsimp only
    split
    · rename_i r launched
      obtain ⟨c, there, launches⟩ := Option.bind_eq_some_iff.1 launched
      have launch : Event (f.view.add flight .queued) _ := .launch caller there launches
      exact slotted_start (slotted_launch slotted there launches) (launch.consistent ok)
    · rename_i refused
      intro e mem callerE
      rcases List.mem_append.1 mem with mem | mem
      · exact slotted e mem callerE
      · cases List.mem_singleton.1 mem
        cases caller.symm.trans callerE
        constructor
        · intro same
          cases same
        · exact fun _ => full_of_refused (f := f) fits caller refused

/-- Whatever a call does, no slot is left free while a call waits for one. -/
theorem slotted_act (slotted : f.Slotted i) (action : Action)
    (ok : (f.view.add flight action.stage).Consistent) : (f.act flight action).Slotted i := by
  cases action with
  | ask => exact slotted_ask slotted ok
  | start => exact slotted_start slotted ok
  | board deadline => exact slotted_board slotted ok deadline
  | depart => exact slotted_depart slotted ok
  | arrive => exact slotted_arrive slotted ok
  | giveUp connected => exact slotted_giveUp slotted ok connected

/-! ### Runs -/

theorem slotted_go {n : Nat} (slotted : f.Slotted i) (ok : f.view.Consistent)
    (goes : f.go? n = some g) : g.Slotted i := by
  obtain ⟨⟨flight, action⟩, here, rfl⟩ := Option.map_eq_some_iff.1 goes
  rw [view_of_ready here] at ok
  have kept : ({ f with ready := f.ready.eraseIdx n } : Fleet).Slotted i :=
    slotted.of_subset (List.Subset.refl _) rfl
  exact slotted_act kept action ok

theorem slotted_wake (slotted : f.Slotted i) : f.wake.Slotted i :=
  slotted.of_subset (List.filter_subset_self _) rfl

theorem slotted_advance {stop : Fleet → Bool} {limit : Option Nat} {fuel : Nat}
    (slotted : f.Slotted i) (ok : f.view.Consistent) :
    (f.advance stop limit fuel).Slotted i := by
  induction fuel generalizing f with
  | zero => exact slotted
  | succ fuel ih =>
    simp only [advance]
    split
    · rename_i g goes
      exact ih (slotted_go slotted ok goes) ((events_go ok goes).consistent ok)
    · split
      · exact slotted
      · split
        · exact slotted
        · rename_i time next
          split
          · exact slotted
          · have later : (f.waitUntil time).Slotted i :=
              slotted.of_subset (List.Subset.refl _) rfl
            have same : (f.waitUntil time).wake.view = f.view := view_wake (f.waitUntil time)
            exact ih (slotted_wake later) (same ▸ ok)

/-- A run leaves no slot free while a call waits for one. -/
theorem slotted_run (slotted : f.Slotted i) (ok : f.view.Consistent) (stop : Fleet → Bool)
    (limit : Option Nat) : (f.run stop limit).Slotted i := slotted_advance slotted ok

end Fleet

end Resharding
