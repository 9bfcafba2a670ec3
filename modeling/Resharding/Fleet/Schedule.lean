import Resharding.Fleet.Step

/-!
Running a fleet.

Time stands still while a call can go on, and the one that became able to first goes first. Then
time jumps to the next end of a wait.
-/

namespace Resharding.Fleet

/-- The time at which the next wait is over. -/
def nextTime? (f : Fleet) : Option Nat :=
  (f.parked.filterMap fun e => e.2.ending?.map Prod.fst).min?

/-- Let calls go on for up to `fuel` steps, until `stop` holds and time would have to move, or until
it would have to move beyond `limit`. -/
def advance (stop : Fleet → Bool) (limit : Option Nat) : Nat → Fleet → Fleet
  | 0, f => f
  | fuel + 1, f =>
    match f.go? 0 with
    | some f => advance stop limit fuel f
    | none =>
      if stop f then f
      else
        match f.nextTime? with
        | none => f
        | some time =>
          if limit.any (· < time) then f
          else advance stop limit fuel (f.waitUntil time).wake

/-- Let calls go on as `advance` does, for as long as there are any. -/
def run (f : Fleet) (stop : Fleet → Bool) (limit : Option Nat) : Fleet :=
  f.advance stop limit f.stepsLeft

/-- Let time pass. -/
def sleep (f : Fleet) (duration : Nat) : Fleet :=
  let wake := f.now + duration
  (f.run (fun _ => false) (some wake)).waitUntil wake

/-! ### Single calls -/

/-- A call to be made on its own, some time after the present. -/
structure Planned where
  after : Nat
  node : NodeId
  request : Request

/-- Make calls at their times and wait for all of them; their ends come in the order of the calls,
each with the time when it came. -/
def callAll (f : Fleet) (calls : List Planned) :
    List (Nat × Except CallError Server) × Fleet :=
  let planned := calls.zipIdx.map fun (c, i) =>
    ((⟨.direct i, c.node, c.request⟩ : Flight), Wait.start (f.now + c.after))
  let start : Fleet := { f with parked := f.parked ++ planned, landings := [] }
  let f := start.run (fun f => f.landings.length == calls.length) none
  let ends := calls.zipIdx.map fun (c, i) =>
    match f.landings.find? fun l => l.index == i with
    | some l => (l.time, l.found)
    | none => (f.now, .error (.unreachable c.node))
  (ends, { f with landings := [] })

/-- Make one call and wait for its answer. -/
def call (f : Fleet) (node : NodeId) (request : Request) :
    Except CallError request.Reply × Fleet :=
  let (ends, f) := f.callAll [⟨0, node, request⟩]
  let found := (ends.head?.map Prod.snd).getD (.error (.unreachable node))
  (request.answer node found, f)

/-! ### Rounds -/

/-- Whether every task of the `i`-th round has ended. -/
def isRoundOver (f : Fleet) (i : Nat) : Bool := f.campaigns[i]?.all (·.round.isOver)

/-- The same call to every distinct node of a list, waited for until all have ended or the shutdown
timeout has passed. Calls that have not ended by then go on. -/
def callRound (f : Fleet) (settings : Settings) (request : Request) (nodes : List NodeId) :
    RoundOutcome request.Reply × Fleet :=
  let index := f.campaigns.length
  let reason := f.reason
  let round := Round.start settings.parallelism nodes
  let calls := round.tasks.keys.map fun node =>
    ((⟨.task index, node, request⟩ : Flight), Action.ask)
  let deadline := f.now + settings.shutdownTimeout
  let f : Fleet :=
    { f with campaigns := f.campaigns ++ [⟨request, round⟩], ready := f.ready ++ calls }
  let f := f.run (·.isRoundOver index) (some deadline)
  let f := if f.isRoundOver index then f else f.waitUntil deadline
  let outcome := match f.campaigns[index]? with
    | some c => c.round.outcome reason c.round.awaited
    | none => round.outcome reason []
  (outcome.map request.answer, f)

end Resharding.Fleet
