import Resharding.Fleet.Basic

/-!
How calls make their way.

A call that goes on does as much as it can at once: it stops where it has to wait, or at its end.
What a call gives back goes straight to the first call that waits for it, and is free only if none
does.
-/

namespace Resharding

/-- The first element that `pick` accepts, as it is picked, and the list without it. -/
def extract? {α β : Type} (pick : α → Option β) : List α → Option (β × List α)
  | [] => none
  | a :: rest =>
    match pick a with
    | some b => some (b, rest)
    | none => (extract? pick rest).map fun (b, rest) => (b, a :: rest)

namespace Fleet

/-- Let a call go on when its turn comes. -/
def enqueue (f : Fleet) (flight : Flight) (action : Action) : Fleet :=
  { f with ready := f.ready ++ [(flight, action)] }

/-- Let a call wait. -/
def park (f : Fleet) (flight : Flight) (wait : Wait) : Fleet :=
  { f with parked := f.parked ++ [(flight, wait)] }

/-- The `i`-th round changed, if `change` allows. -/
def changeRound (f : Fleet) (i : Nat) (change : Round Server → Option (Round Server)) : Fleet :=
  { f with
    campaigns := f.campaigns.modify i fun c => { c with round := (change c.round).getD c.round } }

/-! ### Giving back -/

/-- A slot of the `i`-th round goes to the first of its calls that waits for one. -/
def handSlot (f : Fleet) (i : Nat) : Fleet :=
  let pick : Flight × Wait → Option Flight
    | (flight, .slot) => if flight.caller = .task i then some flight else none
    | _ => none
  match extract? pick f.parked with
  | some (flight, rest) =>
    ({ f with parked := rest }.changeRound i (·.launch? flight.node)).enqueue flight .start
  | none => f

/-- A connection to a node goes to the first call that waits for one, or is free. -/
def handConnection (f : Fleet) (node : NodeId) : Fleet :=
  let pick : Flight × Wait → Option (Flight × Action)
    | (flight, .connection deadline) =>
      if flight.node = node then some (flight, .board deadline) else none
    | _ => none
  match extract? pick f.parked with
  | some ((flight, action), rest) => { f with parked := rest }.enqueue flight action
  | none => { f with permits := f.permits.map fun p => p.giveConnection node }

/-- A thread goes to the first call that waits for one, or is free. -/
def handThread (f : Fleet) : Fleet :=
  let pick : Flight × Wait → Option Flight
    | (flight, .thread _) => some flight
    | _ => none
  match extract? pick f.parked with
  | some (flight, rest) => { f with parked := rest }.enqueue flight .depart
  | none => { f with permits := f.permits.map fun p => p.giveThread }

/-! ### Going on -/

/-- The end of a call is handed to the one who waits for it. -/
def deliver (f : Fleet) (flight : Flight) (found : Except CallError Server) : Fleet :=
  match flight.caller with
  | .direct index => { f with landings := f.landings ++ [⟨index, f.now, found⟩] }
  | .task i => (f.changeRound i (·.finish? flight.node found)).handSlot i

/-- What a call asks is done to the record that it finds. -/
def visit (f : Fleet) (flight : Flight) : Fleet :=
  match f.find flight.node with
  | .ok s => { f with servers := f.servers.insert flight.node (flight.request.effect s) }
  | .error _ => f

/-- What a call to a node holds at its end is given back. -/
def release (f : Fleet) (node : NodeId) : Fleet :=
  if f.permits.isSome then f.handThread.handConnection node else f

/-- A call reaches the server: it finds the record, acts on it, and gives back what it held. -/
def arrive (f : Fleet) (flight : Flight) : Fleet :=
  ((f.visit flight).release flight.node).deliver flight (f.find flight.node)

/-- A call that holds all it needs sets out. -/
def depart (f : Fleet) (flight : Flight) : Fleet :=
  match f.delayOf flight.node with
  | 0 => f.arrive flight
  | delay => f.park flight (.arrival (f.now + delay))

/-- A call that has waited too long gives back the connection, if it holds one, and ends. -/
def giveUp (f : Fleet) (flight : Flight) (connected : Bool) : Fleet :=
  let f := if connected then f.handConnection flight.node else f
  f.deliver flight (.error (.timeout flight.node))

/-- A call that holds a connection takes a thread, or waits for one until the deadline. -/
def board (f : Fleet) (flight : Flight) (deadline : Nat) : Fleet :=
  match f.permits.bind fun p => p.takeThread? with
  | some permits => { f with permits := some permits }.depart flight
  | none =>
    if deadline ≤ f.now then f.giveUp flight true else f.park flight (.thread deadline)

/-- A call takes a connection, or waits for one until the deadline. -/
def connect (f : Fleet) (flight : Flight) (deadline : Nat) : Fleet :=
  match f.permits.bind fun p => p.takeConnection? flight.node with
  | some permits => { f with permits := some permits }.board flight deadline
  | none =>
    if deadline ≤ f.now then f.giveUp flight false else f.park flight (.connection deadline)

/-- A call is recorded, and takes what it needs if the client has limits. -/
def issue (f : Fleet) (flight : Flight) : Fleet :=
  let f : Fleet := { f with calls := f.calls ++ [⟨flight.node, flight.request.operation⟩] }
  match f.permits with
  | none => f.depart flight
  | some p => f.connect flight (f.now + p.limits.connectTimeout)

/-- A call starts; in a round it may break down instead. -/
def start (f : Fleet) (flight : Flight) : Fleet :=
  match flight.caller with
  | .direct _ => f.issue flight
  | .task i =>
    if f.crashing.contains flight.node then
      (f.changeRound i (·.crash? flight.node)).handSlot i
    else f.issue flight

/-- A call of a round takes a slot and starts, or waits for a slot. -/
def ask (f : Fleet) (flight : Flight) : Fleet :=
  match flight.caller with
  | .direct _ => f.start flight
  | .task i =>
    match (f.campaigns[i]?).bind fun c => c.round.launch? flight.node with
    | some _ => (f.changeRound i (·.launch? flight.node)).start flight
    | none => f.park flight .slot

/-- A call does what it is about to do. -/
def act (f : Fleet) (flight : Flight) : Action → Fleet
  | .ask => f.ask flight
  | .start => f.start flight
  | .board deadline => f.board flight deadline
  | .depart => f.depart flight
  | .arrive => f.arrive flight
  | .giveUp connected => f.giveUp flight connected

/-! ### Steps -/

/-- The `i`-th call that can go on does so. -/
def go? (f : Fleet) (i : Nat) : Option Fleet :=
  (f.ready[i]?).map fun (flight, action) =>
    { f with ready := f.ready.eraseIdx i }.act flight action

/-- What a call does whose wait is over by a time. -/
def overBy? (now : Nat) : Flight × Wait → Option (Flight × Action)
  | (flight, wait) =>
    match wait.ending? with
    | some (time, action) => if time ≤ now then some (flight, action) else none
    | none => none

/-- Every call whose wait is over by now can go on. -/
def wake (f : Fleet) : Fleet :=
  { f with
    ready := f.ready ++ f.parked.filterMap (overBy? f.now)
    parked := f.parked.filter fun e => (overBy? f.now e).isNone }

end Fleet

end Resharding
