import Resharding.Fleet.Schedule

/-!
Running a fleet comes to rest.

Whatever a call does, it leaves fewer steps to make (`Fleet.stepsLeft_act`), and so does waking the
calls whose wait is over (`Fleet.stepsLeft_wake`). Hence the bound that `Fleet.run` puts on itself
is never what ends it (`Fleet.run_atRest`).
-/

namespace Resharding

/-- What is picked weighs as much as the list has lost. -/
theorem sum_extract? {α β : Type} {pick : α → Option β} {as rest : List α} {b : β}
    (found : extract? pick as = some (b, rest)) :
    ∃ a, pick a = some b ∧ ∀ weight : α → Nat,
      total (as.map weight) = weight a + total (rest.map weight) := by
  induction as generalizing rest with
  | nil => simp [extract?] at found
  | cons c cs ih =>
    unfold extract? at found
    split at found
    · rename_i d picked
      obtain ⟨rfl, rfl⟩ := Prod.mk.inj (Option.some.inj found)
      exact ⟨c, picked, fun weight => by simp⟩
    · obtain ⟨⟨d, left⟩, inner, eq⟩ := Option.map_eq_some_iff.1 found
      obtain ⟨rfl, rfl⟩ := Prod.mk.inj eq
      obtain ⟨a, picked, weigh⟩ := ih inner
      exact ⟨a, picked, fun weight => by simp [weigh weight]; omega⟩

/-- An element weighs as much as a list loses without it. -/
theorem sum_eraseIdx {α : Type} (weight : α → Nat) {as : List α} {i : Nat} {a : α}
    (here : as[i]? = some a) :
    total (as.map weight) = weight a + total ((as.eraseIdx i).map weight) := by
  induction as generalizing i with
  | nil => simp at here
  | cons b bs ih =>
    cases i with
    | zero => simp_all
    | succ i =>
      have := ih (by simpa using here)
      simp only [List.eraseIdx_cons_succ, List.map_cons, total_cons]
      omega

namespace Fleet

/-! ### Giving back -/

theorem stepsLeft_enqueue (f : Fleet) (flight : Flight) (action : Action) :
    (f.enqueue flight action).stepsLeft = f.stepsLeft + action.stepsLeft := by
  simp [stepsLeft, enqueue]; omega

theorem stepsLeft_park (f : Fleet) (flight : Flight) (wait : Wait) :
    (f.park flight wait).stepsLeft = f.stepsLeft + wait.stepsLeft := by
  simp [stepsLeft, park]; omega

@[simp] theorem stepsLeft_changeRound (f : Fleet) (i : Nat)
    (change : Round Server → Option (Round Server)) :
    (f.changeRound i change).stepsLeft = f.stepsLeft := rfl

theorem stepsLeft_handSlot (f : Fleet) (i : Nat) : (f.handSlot i).stepsLeft ≤ f.stepsLeft := by
  unfold handSlot
  dsimp only
  split
  · rename_i flight rest found
    obtain ⟨⟨other, wait⟩, picked, weigh⟩ := sum_extract? found
    rw [stepsLeft_enqueue, stepsLeft_changeRound]
    have waits : wait = .slot := by
      cases wait <;> simp_all
    have lost := weigh fun e => e.2.stepsLeft
    have before : (other, wait).2.stepsLeft = 8 := waits ▸ rfl
    have after : Action.start.stepsLeft = 7 := rfl
    simp only [stepsLeft]
    omega
  · exact Nat.le_refl _

theorem stepsLeft_handConnection (f : Fleet) (node : NodeId) :
    (f.handConnection node).stepsLeft ≤ f.stepsLeft := by
  unfold handConnection
  dsimp only
  split
  · rename_i flight action rest found
    obtain ⟨⟨other, wait⟩, picked, weigh⟩ := sum_extract? found
    rw [stepsLeft_enqueue]
    have lost := weigh fun e => e.2.stepsLeft
    cases wait with
    | connection deadline =>
      simp only [Option.ite_none_right_eq_some, Option.some.injEq, Prod.mk.injEq] at picked
      have before : (other, Wait.connection deadline).2.stepsLeft = 6 := rfl
      have after : action.stepsLeft = 5 := picked.2.2 ▸ rfl
      simp only [stepsLeft]
      omega
    | _ => simp at picked
  · exact Nat.le_refl _

theorem stepsLeft_handThread (f : Fleet) : f.handThread.stepsLeft ≤ f.stepsLeft := by
  unfold handThread
  dsimp only
  split
  · rename_i flight rest found
    obtain ⟨⟨other, wait⟩, picked, weigh⟩ := sum_extract? found
    rw [stepsLeft_enqueue]
    have lost := weigh fun e => e.2.stepsLeft
    cases wait with
    | thread deadline =>
      have before : (other, Wait.thread deadline).2.stepsLeft = 4 := rfl
      have after : Action.depart.stepsLeft = 3 := rfl
      simp only [stepsLeft]
      omega
    | _ => simp at picked
  · exact Nat.le_refl _

/-! ### Going on -/

theorem stepsLeft_deliver (f : Fleet) (flight : Flight) (found : Except CallError Server) :
    (f.deliver flight found).stepsLeft ≤ f.stepsLeft := by
  unfold deliver
  split
  · exact Nat.le_refl _
  · exact stepsLeft_handSlot _ _

theorem stepsLeft_visit (f : Fleet) (flight : Flight) :
    (f.visit flight).stepsLeft = f.stepsLeft := by
  unfold visit; split <;> rfl

theorem stepsLeft_release (f : Fleet) (node : NodeId) :
    (f.release node).stepsLeft ≤ f.stepsLeft := by
  unfold release
  split
  · exact Nat.le_trans (stepsLeft_handConnection _ _) (stepsLeft_handThread _)
  · exact Nat.le_refl _

theorem stepsLeft_arrive (f : Fleet) (flight : Flight) :
    (f.arrive flight).stepsLeft ≤ f.stepsLeft :=
  Nat.le_trans (stepsLeft_deliver _ _ _) <|
    Nat.le_trans (stepsLeft_release _ _) (Nat.le_of_eq (stepsLeft_visit f flight))

theorem stepsLeft_depart (f : Fleet) (flight : Flight) :
    (f.depart flight).stepsLeft ≤ f.stepsLeft + 2 := by
  unfold depart
  split
  · exact Nat.le_add_right_of_le (stepsLeft_arrive f flight)
  · exact Nat.le_of_eq (stepsLeft_park ..)

theorem stepsLeft_giveUp (f : Fleet) (flight : Flight) (connected : Bool) :
    (f.giveUp flight connected).stepsLeft ≤ f.stepsLeft := by
  unfold giveUp
  refine Nat.le_trans (stepsLeft_deliver _ _ _) ?_
  split
  · exact stepsLeft_handConnection _ _
  · exact Nat.le_refl _

theorem stepsLeft_board (f : Fleet) (flight : Flight) (deadline : Nat) :
    (f.board flight deadline).stepsLeft ≤ f.stepsLeft + 4 := by
  unfold board
  split
  · rename_i permits _
    exact Nat.le_trans (stepsLeft_depart { f with permits := some permits } flight)
      (Nat.add_le_add_left (by decide) _)
  · split
    · exact Nat.le_add_right_of_le (stepsLeft_giveUp ..)
    · exact Nat.le_of_eq (stepsLeft_park ..)

theorem stepsLeft_connect (f : Fleet) (flight : Flight) (deadline : Nat) :
    (f.connect flight deadline).stepsLeft ≤ f.stepsLeft + 6 := by
  unfold connect
  split
  · rename_i permits _
    exact Nat.le_trans (stepsLeft_board { f with permits := some permits } flight deadline)
      (Nat.add_le_add_left (by decide) _)
  · split
    · exact Nat.le_add_right_of_le (stepsLeft_giveUp ..)
    · exact Nat.le_of_eq (stepsLeft_park ..)

theorem stepsLeft_issue (f : Fleet) (flight : Flight) :
    (f.issue flight).stepsLeft ≤ f.stepsLeft + 6 := by
  unfold issue
  dsimp only
  split
  · exact Nat.le_trans (stepsLeft_depart _ flight) (Nat.add_le_add_left (by decide) _)
  · exact stepsLeft_connect _ flight _

theorem stepsLeft_start (f : Fleet) (flight : Flight) :
    (f.start flight).stepsLeft ≤ f.stepsLeft + 6 := by
  unfold start
  split
  · exact stepsLeft_issue f flight
  · split
    · exact Nat.le_add_right_of_le (stepsLeft_handSlot _ _)
    · exact stepsLeft_issue f flight

theorem stepsLeft_ask (f : Fleet) (flight : Flight) :
    (f.ask flight).stepsLeft ≤ f.stepsLeft + 8 := by
  unfold ask
  split
  · exact Nat.le_trans (stepsLeft_start f flight) (Nat.add_le_add_left (by decide) _)
  · split
    · exact Nat.le_trans (stepsLeft_start _ flight) (Nat.add_le_add_left (by decide) _)
    · exact Nat.le_of_eq (stepsLeft_park ..)

/-- Whatever a call does, it leaves fewer steps to make than there were. -/
theorem stepsLeft_act (f : Fleet) (flight : Flight) (action : Action) :
    (f.act flight action).stepsLeft < f.stepsLeft + action.stepsLeft := by
  cases action with
  | ask => exact Nat.lt_succ_of_le (stepsLeft_ask f flight)
  | start => exact Nat.lt_succ_of_le (stepsLeft_start f flight)
  | board deadline => exact Nat.lt_succ_of_le (stepsLeft_board f flight deadline)
  | depart => exact Nat.lt_succ_of_le (stepsLeft_depart f flight)
  | arrive => exact Nat.lt_succ_of_le (stepsLeft_arrive f flight)
  | giveUp connected => exact Nat.lt_succ_of_le (stepsLeft_giveUp f flight connected)

/-- A call that goes on leaves fewer steps to make. -/
theorem stepsLeft_go {f g : Fleet} {i : Nat} (goes : f.go? i = some g) :
    g.stepsLeft < f.stepsLeft := by
  obtain ⟨⟨flight, action⟩, here, rfl⟩ := Option.map_eq_some_iff.1 goes
  have less := stepsLeft_act { f with ready := f.ready.eraseIdx i } flight action
  have weigh := sum_eraseIdx (fun e : Flight × Action => e.2.stepsLeft) here
  simp only [stepsLeft] at less weigh ⊢
  omega

theorem go?_first {f : Fleet} : f.go? 0 = none ↔ f.ready = [] := by
  simp [go?, List.head?_eq_getElem?.symm]

/-! ### Waking -/

/-- A call whose wait is over has fewer steps left than with the wait. -/
theorem stepsLeft_overBy {now : Nat} {e : Flight × Wait} {r : Flight × Action}
    (ended : overBy? now e = some r) : r.2.stepsLeft < e.2.stepsLeft := by
  obtain ⟨flight, wait⟩ := e
  cases wait <;> simp only [overBy?, Wait.ending?, Option.ite_none_right_eq_some,
    Option.some.injEq, reduceCtorEq] at ended <;>
    (obtain ⟨_, rfl⟩ := ended; simp [Action.stepsLeft, Wait.stepsLeft])

/-- Waking leaves no more steps, and fewer if a wait is over. -/
theorem stepsLeft_wake (f : Fleet) :
    f.wake.stepsLeft ≤ f.stepsLeft ∧
      (f.parked.filterMap (overBy? f.now) ≠ [] → f.wake.stepsLeft < f.stepsLeft) := by
  let ended (es : List (Flight × Wait)) : Nat :=
    total ((es.filterMap (overBy? f.now)).map fun e => e.2.stepsLeft)
  let left (es : List (Flight × Wait)) : Nat :=
    total ((es.filter fun e => (overBy? f.now e).isNone).map fun e => e.2.stepsLeft)
  have weigh (es : List (Flight × Wait)) :
      ended es + left es ≤ total (es.map fun e => e.2.stepsLeft) ∧
      (es.filterMap (overBy? f.now) ≠ [] →
        ended es + left es < total (es.map fun e => e.2.stepsLeft)) := by
    induction es with
    | nil => simp [ended, left]
    | cons e es ih =>
      cases isOver : overBy? f.now e with
      | none =>
        have endedEq : ended (e :: es) = ended es := by simp [ended, isOver]
        have leftEq : left (e :: es) = e.2.stepsLeft + left es := by simp [left, isOver]
        have none : (e :: es).filterMap (overBy? f.now) = es.filterMap (overBy? f.now) := by
          simp [isOver]
        rw [endedEq, leftEq, none, List.map_cons, total_cons]
        exact ⟨by omega, fun some => by have := ih.2 some; omega⟩
      | some r =>
        have less := stepsLeft_overBy isOver
        have endedEq : ended (e :: es) = r.2.stepsLeft + ended es := by simp [ended, isOver]
        have leftEq : left (e :: es) = left es := by simp [left, isOver]
        rw [endedEq, leftEq, List.map_cons, total_cons]
        exact ⟨by omega, fun _ => by omega⟩
  have after : f.wake.stepsLeft =
      total (f.ready.map fun e => e.2.stepsLeft) + ended f.parked + left f.parked := by
    simp only [stepsLeft, wake, List.map_append, total_append]
    rfl
  have before : f.stepsLeft = total (f.ready.map fun e => e.2.stepsLeft) +
      total (f.parked.map fun e => e.2.stepsLeft) := rfl
  have := weigh f.parked
  exact ⟨by omega, fun some => by have := this.2 some; omega⟩

/-- At the time of the next end of a wait, a wait is over. -/
theorem overBy_nextTime {f : Fleet} {time : Nat} (next : f.nextTime? = some time) :
    f.parked.filterMap (overBy? (max f.now time)) ≠ [] := by
  have mem := List.min?_mem next
  obtain ⟨⟨flight, wait⟩, parked, ends⟩ := List.mem_filterMap.1 mem
  obtain ⟨⟨t, action⟩, ending, rfl⟩ := Option.map_eq_some_iff.1 ends
  have ended : overBy? (max f.now t) (flight, wait) = some (flight, action) := by
    simp only [overBy?, ending]
    exact if_pos (Nat.le_max_right _ _)
  exact List.ne_nil_of_mem (List.mem_filterMap.2 ⟨_, parked, ended⟩)

/-! ### Rest -/

/-- Nothing can go on, and `stop` holds, or no wait has an end, or the next end is after `limit`. -/
def AtRest (stop : Fleet → Bool) (limit : Option Nat) (f : Fleet) : Prop :=
  f.ready = [] ∧
    (stop f ∨ f.nextTime? = none ∨ ∃ time ∈ f.nextTime?, ∃ last ∈ limit, last < time)

theorem advance_atRest (stop : Fleet → Bool) (limit : Option Nat) {fuel : Nat} {f : Fleet}
    (enough : f.stepsLeft ≤ fuel) : (f.advance stop limit fuel).AtRest stop limit := by
  induction fuel generalizing f with
  | zero =>
    have idle : f.ready = [] := by
      cases ready : f.ready with
      | nil => rfl
      | cons e rest =>
        have : 0 < e.2.stepsLeft := by cases e.2 <;> simp [Action.stepsLeft]
        simp [stepsLeft, ready] at enough
        omega
    have alone : f.parked = [] := by
      cases parked : f.parked with
      | nil => rfl
      | cons e rest =>
        have : 0 < e.2.stepsLeft := by cases e.2 <;> simp [Wait.stepsLeft]
        simp [stepsLeft, parked] at enough
        omega
    exact ⟨idle, .inr (.inl (by simp [advance, nextTime?, alone]))⟩
  | succ fuel ih =>
    unfold advance
    split
    · rename_i g goes
      exact ih (Nat.le_of_lt_succ (Nat.lt_of_lt_of_le (stepsLeft_go goes) enough))
    · rename_i none
      have idle := go?_first.1 none
      split
      · rename_i stops
        exact ⟨idle, .inl stops⟩
      · split
        · rename_i next
          exact ⟨idle, .inr (.inl next)⟩
        · rename_i time next
          split
          · rename_i late
            obtain ⟨last, isLast, before⟩ := (Option.any_eq_true ..).1 late
            exact ⟨idle, .inr (.inr ⟨time, next, last, isLast, by simpa using before⟩)⟩
          · refine ih ?_
            have := (stepsLeft_wake (f.waitUntil time)).2 (overBy_nextTime next)
            have same : (f.waitUntil time).stepsLeft = f.stepsLeft := rfl
            omega

/-- A run ends at rest. -/
theorem run_atRest (f : Fleet) (stop : Fleet → Bool) (limit : Option Nat) :
    (f.run stop limit).AtRest stop limit := advance_atRest stop limit (Nat.le_refl _)

end Fleet

end Resharding
