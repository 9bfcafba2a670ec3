import Mathlib.Data.Multiset.ZeroCons
import Mathlib.Logic.Relation
import Resharding.Fleet.Schedule
import Resharding.Proofs.Fleet.Round

/-!
What a step of a fleet can do.

A `View` keeps of a fleet what does not depend on the clock, on the order of waiting or on how many
permits are free: the calls under way are a multiset, each with its `Stage`. An `Event` is one small
change of a view, and says all that such a change does. Later modules derive every invariant from
`Event` alone.

A view is `Consistent` if every call of a round is at one with its task: the task waits exactly
while the call is queued. Every event keeps that (`Event.consistent`).
-/

namespace Resharding

/-- How far a call under way is. -/
inductive Stage where
  /-- It waits for a slot of its round. -/
  | queued
  /-- It is about to start, with its slot. -/
  | launched
  /-- It is recorded, and waits for a connection or a thread. -/
  | boarding
  /-- It has all it needs and is on its way. -/
  | travelling
deriving DecidableEq

/-- Whether a call at that stage is still to start. -/
def Stage.isDue : Stage → Bool
  | queued => true
  | launched => true
  | _ => false

def Action.stage : Action → Stage
  | ask => .queued
  | start => .launched
  | board _ => .boarding
  | giveUp _ => .boarding
  | depart => .travelling
  | arrive => .travelling

def Wait.stage : Wait → Stage
  | slot => .queued
  | start _ => .launched
  | connection _ => .boarding
  | thread _ => .boarding
  | arrival _ => .travelling

/-- The task of a call of a round at that stage. -/
def Stage.task : Stage → Task Server
  | queued => .waiting
  | _ => .running

/-- A fleet without its clock and queues. -/
structure View where
  servers : SortedMap NodeId Server
  calls : List CallRecord
  crashing : SortedMap NodeId String
  /-- Whether the client has limits. -/
  limited : Bool
  campaigns : List Campaign
  /-- The ends of the calls that are awaited by themselves. -/
  landings : List (Nat × Except CallError Server)
  /-- The calls under way. -/
  pending : Multiset (Flight × Stage)

namespace View

/-- The view with a call under way too. -/
def add (v : View) (flight : Flight) (stage : Stage) : View :=
  { v with pending := (flight, stage) ::ₘ v.pending }

/-- What a call that arrives at a node finds. -/
def find (v : View) (node : NodeId) : Except CallError Server :=
  Fleet.find { servers := v.servers } node

/-- The reason that is told if a task of a call to the node breaks down. -/
def reason (v : View) (node : NodeId) : String := v.crashing.getD node ""

/-- What a call asks is done to the record that it finds. -/
def visit (v : View) (flight : Flight) : View :=
  { v with servers := (Fleet.visit { servers := v.servers } flight).servers }

/-- The call is recorded. -/
def record (v : View) (flight : Flight) : View :=
  { v with calls := v.calls ++ [⟨flight.node, flight.request.operation⟩] }

def changeRound (v : View) (i : Nat) (change : Round Server → Option (Round Server)) : View :=
  { v with
    campaigns := v.campaigns.modify i fun c => { c with round := (change c.round).getD c.round } }

/-- The end of a call is handed to the one who waits for it. -/
def hand (v : View) (flight : Flight) (found : Except CallError Server) : View :=
  match flight.caller with
  | .direct index => { v with landings := v.landings ++ [(index, found)] }
  | .task i => v.changeRound i (·.finish? flight.node found)

/-- The task of a node in the `i`-th round. -/
def task? (v : View) (i : Nat) (node : NodeId) : Option (Task Server) :=
  (v.campaigns[i]?).bind fun c => c.round.tasks.get? node

end View

/-- One small change of a view. -/
inductive Event : View → View → Prop
  /-- A queued call gets a slot. -/
  | launch {v : View} {flight : Flight} {i : Nat} {c : Campaign} {r : Round Server}
      (caller : flight.caller = .task i) (found : v.campaigns[i]? = some c)
      (launches : c.round.launch? flight.node = some r) :
      Event (v.add flight .queued)
        ((v.changeRound i (·.launch? flight.node)).add flight .launched)
  /-- The task of a call breaks down before the call starts. -/
  | crash {v : View} {flight : Flight} {i : Nat} (caller : flight.caller = .task i)
      (crashes : flight.node ∈ v.crashing) :
      Event (v.add flight .launched) (v.changeRound i (·.crash? flight.node))
  /-- A call starts and is recorded. -/
  | issue {v : View} {flight : Flight}
      (sound : ∀ i, flight.caller = .task i → flight.node ∉ v.crashing) :
      Event (v.add flight .launched)
        ((v.record flight).add flight (if v.limited then .boarding else .travelling))
  /-- A call has its connection and its thread. -/
  | board {v : View} {flight : Flight} :
      Event (v.add flight .boarding) (v.add flight .travelling)
  /-- A call reaches its server and ends. -/
  | land {v : View} {flight : Flight} :
      Event (v.add flight .travelling) ((v.visit flight).hand flight (v.find flight.node))
  /-- A call has waited too long and ends. -/
  | expire {v : View} {flight : Flight} :
      Event (v.add flight .boarding) (v.hand flight (.error (.timeout flight.node)))

abbrev Events : View → View → Prop := Relation.ReflTransGen Event

/-! ### Changing a round -/

namespace View

variable {v w : View} {flight : Flight} {stage : Stage} {i j : Nat} {c : Campaign}

theorem getElem?_changeRound {change : Round Server → Option (Round Server)} :
    (v.changeRound i change).campaigns[j]? =
      if i = j then
        (v.campaigns[j]?).map fun c => { c with round := (change c.round).getD c.round }
      else v.campaigns[j]? := by
  change (v.campaigns.modify i _)[j]? = _
  rw [List.getElem?_modify]
  split <;> cases v.campaigns[j]? <;> rfl

theorem getElem?_changeRound_self {change : Round Server → Option (Round Server)}
    {r : Round Server} (found : v.campaigns[i]? = some c) (changes : change c.round = some r) :
    (v.changeRound i change).campaigns[i]? = some { c with round := r } := by
  rw [getElem?_changeRound, if_pos rfl, found, Option.map_some, changes]
  rfl

theorem getElem?_changeRound_of_ne {change : Round Server → Option (Round Server)} (ne : i ≠ j) :
    (v.changeRound i change).campaigns[j]? = v.campaigns[j]? := by
  rw [getElem?_changeRound, if_neg ne]

/-! ### Consistency -/

/-- The round of a call is there, asks what the call asks, has no more tasks running than it may,
and has the task of the call at the call's stage. -/
def Backs (v : View) (i : Nat) (flight : Flight) (stage : Stage) : Prop :=
  ∃ c, v.campaigns[i]? = some c ∧ flight.request = c.request ∧
    c.round.tasks.get? flight.node = some stage.task ∧ c.round.runningCount ≤ c.round.width

/-- A call fits in with a view that does not have it yet. -/
structure Fits (v : View) (flight : Flight) (stage : Stage) : Prop where
  backed : ∀ i, flight.caller = .task i → v.Backs i flight stage
  /-- No other call is that of the same task. -/
  alone : ∀ e ∈ v.pending, ∀ i, flight.caller = .task i → e.1.caller = .task i →
    e.1.node ≠ flight.node
  /-- A call that is awaited by itself needs no slot. -/
  direct : ∀ i, flight.caller = .direct i → stage ≠ .queued

/-- Every call under way fits in with the others. -/
def Consistent (v : View) : Prop :=
  ∀ flight stage others, v.pending = (flight, stage) ::ₘ others →
    Fits { v with pending := others } flight stage

theorem consistent_add_iff :
    Consistent (v.add flight stage) ↔ Consistent v ∧ Fits v flight stage := by
  constructor
  · intro ok
    refine ⟨?_, ok flight stage v.pending rfl⟩
    intro other s rest eq
    have both := ok other s ((flight, stage) ::ₘ rest) (by
      change (flight, stage) ::ₘ v.pending = _
      rw [eq, Multiset.cons_swap])
    exact ⟨both.backed, fun e mem => both.alone e (Multiset.mem_cons_of_mem mem), both.direct⟩
  · rintro ⟨ok, fits⟩ other s rest eq
    rcases Multiset.cons_eq_cons.1 (show (flight, stage) ::ₘ v.pending = _ from eq) with
      ⟨same, pending⟩ | ⟨-, rest', pending, rfl⟩
    · cases same
      exact pending ▸ fits
    · have inner := ok other s rest' pending
      refine ⟨inner.backed, ?_, inner.direct⟩
      intro e mem i caller callerE
      rcases Multiset.mem_cons.1 mem with rfl | mem
      · have here : (other, s) ∈ v.pending := pending ▸ Multiset.mem_cons_self _ _
        exact (fits.alone _ here i callerE caller).symm
      · exact inner.alone e mem i caller callerE

theorem Fits.congr (fits : Fits v flight stage) (pending : w.pending = v.pending)
    (campaigns : w.campaigns = v.campaigns) : Fits w flight stage := by
  refine ⟨?_, fun e mem => fits.alone e (pending ▸ mem), fits.direct⟩
  intro i caller
  obtain ⟨c, found, backed⟩ := fits.backed i caller
  exact ⟨c, (congrArg (·[i]?) campaigns).trans found, backed⟩

theorem Consistent.congr (ok : Consistent v) (pending : w.pending = v.pending)
    (campaigns : w.campaigns = v.campaigns) : Consistent w :=
  fun flight stage others eq => (ok flight stage others (pending.symm.trans eq)).congr rfl campaigns

/-- Only the stage's task matters for fitting in. -/
theorem Fits.restage {stage' : Stage} (fits : Fits v flight stage) (same : stage'.task = stage.task)
    (started : stage' ≠ .queued) : Fits v flight stage' := by
  refine ⟨?_, fits.alone, fun _ _ => started⟩
  intro i caller
  obtain ⟨c, found, request, task, room⟩ := fits.backed i caller
  exact ⟨c, found, request, same ▸ task, room⟩

/-! ### Events keep consistency -/

section Change

variable {change : Round Server → Option (Round Server)} {task : Task Server}

/-- A call's own task may change: no other call is that of the same task. -/
theorem Consistent.changeRound (ok : Consistent v) (fits : Fits v flight stage)
    (caller : flight.caller = .task i) (found : v.campaigns[i]? = some c)
    (changes : change c.round =
      some { c.round with tasks := c.round.tasks.insert flight.node task })
    (room : ({ c.round with tasks := c.round.tasks.insert flight.node task } :
      Round Server).runningCount ≤ c.round.width) :
    Consistent (v.changeRound i change) := by
  intro other s others eq
  have old := ok other s others eq
  refine ⟨?_, old.alone, old.direct⟩
  intro j callerOther
  obtain ⟨c', found', request, itsTask, room'⟩ := old.backed j callerOther
  by_cases same : i = j
  · subst same
    have here : (other, s) ∈ v.pending := eq ▸ Multiset.mem_cons_self _ _
    have apart : other.node ≠ flight.node := fits.alone _ here i caller callerOther
    cases found.symm.trans found'
    refine ⟨_, getElem?_changeRound_self found changes, request, ?_, room⟩
    exact (SortedMap.get?_insert _ _ _ _).trans ((if_neg apart).trans itsTask)
  · exact ⟨c', (getElem?_changeRound_of_ne same).trans found', request, itsTask, room'⟩

/-- A call whose task has changed with it fits in. -/
theorem Fits.changeRound {stage' : Stage} (fits : Fits v flight stage)
    (caller : flight.caller = .task i) (found : v.campaigns[i]? = some c)
    (changes : change c.round =
      some { c.round with tasks := c.round.tasks.insert flight.node task })
    (room : ({ c.round with tasks := c.round.tasks.insert flight.node task } :
      Round Server).runningCount ≤ c.round.width)
    (becomes : stage'.task = task) : Fits (v.changeRound i change) flight stage' := by
  refine ⟨?_, fits.alone, ?_⟩
  · intro j callerJ
    cases caller.symm.trans callerJ
    obtain ⟨c', found', request, -, -⟩ := fits.backed i caller
    cases found.symm.trans found'
    refine ⟨_, getElem?_changeRound_self found changes, request, ?_, room⟩
    exact (SortedMap.get?_insert _ _ _ _).trans ((if_pos rfl).trans (congrArg some becomes.symm))
  · intro j callerJ
    cases caller.symm.trans callerJ

end Change

/-- A running task has its call, so that what it ends with is taken down. -/
theorem Fits.running (fits : Fits v flight stage) (caller : flight.caller = .task i)
    (started : stage ≠ .queued) :
    ∃ c, v.campaigns[i]? = some c ∧ flight.request = c.request ∧
      c.round.tasks.get? flight.node = some .running ∧ c.round.runningCount ≤ c.round.width := by
  obtain ⟨c, found, request, task, room⟩ := fits.backed i caller
  have runs : stage.task = .running := by
    cases stage with
    | queued => exact absurd rfl started
    | _ => rfl
  exact ⟨c, found, request, runs ▸ task, room⟩

theorem consistent_hand (ok : Consistent v) (fits : Fits v flight stage)
    (started : stage ≠ .queued) (found : Except CallError Server) :
    Consistent (v.hand flight found) := by
  simp only [hand]
  cases caller : flight.caller with
  | direct index => exact ok.congr rfl rfl
  | task i =>
    obtain ⟨c, there, -, runs, room⟩ := fits.running caller started
    have fewer := Round.runningCount_end (.finished found) runs rfl
    exact ok.changeRound fits caller there (Round.finish?_of_running runs found)
      (Nat.le_trans (Nat.le_of_lt (Nat.lt_of_succ_le (Nat.le_of_eq fewer))) room)

end View

open View in
/-- Every event keeps the calls at one with their tasks. -/
theorem Event.consistent {v w : View} (event : Event v w) (ok : Consistent v) : Consistent w := by
  cases event with
  | @launch v flight i c r caller found launches =>
    obtain ⟨ok, fits⟩ := consistent_add_iff.1 ok
    obtain ⟨waits, room, rfl⟩ := Round.launch?_eq_some_iff.1 launches
    have more := Round.runningCount_launch waits
    have bound : _ ≤ c.round.width := Nat.le_trans (Nat.le_of_eq more) (of_decide_eq_true room)
    exact consistent_add_iff.2 ⟨ok.changeRound fits caller found launches bound,
      fits.changeRound caller found launches bound rfl⟩
  | @crash v flight i caller crashes =>
    obtain ⟨ok, fits⟩ := consistent_add_iff.1 ok
    obtain ⟨c, found, -, runs, room⟩ := fits.running caller (by decide)
    have fewer := Round.runningCount_end .crashed runs rfl
    exact ok.changeRound fits caller found (Round.crash?_of_running runs)
      (Nat.le_trans (Nat.le_of_lt (Nat.lt_of_succ_le (Nat.le_of_eq fewer))) room)
  | @issue v flight sound =>
    obtain ⟨ok, fits⟩ := consistent_add_iff.1 ok
    have recorded : Fits (v.record flight) flight .launched := fits.congr rfl rfl
    refine consistent_add_iff.2 ⟨ok.congr rfl rfl, recorded.restage ?_ ?_⟩ <;> split <;>
      simp [Stage.task]
  | board =>
    obtain ⟨ok, fits⟩ := consistent_add_iff.1 ok
    exact consistent_add_iff.2 ⟨ok, fits.restage rfl (by decide)⟩
  | @land v flight =>
    obtain ⟨ok, fits⟩ := consistent_add_iff.1 ok
    have visited : Fits (v.visit flight) flight .travelling := fits.congr rfl rfl
    have kept : Consistent (v.visit flight) := ok.congr rfl rfl
    exact consistent_hand kept visited (by decide) _
  | expire =>
    obtain ⟨ok, fits⟩ := consistent_add_iff.1 ok
    exact consistent_hand ok fits (by decide) _

theorem Events.consistent {v w : View} (events : Events v w) (ok : v.Consistent) :
    w.Consistent := by
  induction events with
  | refl => exact ok
  | tail _ event ih => exact event.consistent ih

end Resharding
