import Mathlib.Data.Multiset.Count
import Mathlib.Data.Multiset.Filter
import Mathlib.Logic.Function.Basic
import Resharding.Proofs.Fleet.Landing

/-!
Admission of calls under limits.

A `Gate` shows of a fleet what its client's limits are about: the permits that are free, and of every
call under way whether it holds a connection and a thread, and until when it waits for them (`Place`).
It is a view with a clock and permits. A `Shift` is one small change of a gate. It takes a permit only
if one is free, gives back none but those of a call that ends, and keeps the calls of rounds at one
with their tasks (`Shift.consistent`).

At every moment each permit is free or is held by a call under way (`Gate.Sound`), and no call waits
beyond its deadline, because time does not pass a deadline while its call waits. Over a course of
shifts, a call that waits is admitted by its deadline or ends at the deadline with a timeout
(`Course.awaits_or_decided`).
-/

namespace Resharding

/-- What a call under way holds of its client's permits, and how long it waits for the others. -/
inductive Place where
  /-- It waits for a slot of its round. -/
  | queued
  /-- It has not started, and holds nothing. -/
  | due
  /-- It waits until the deadline for its thread, or first for its connection. -/
  | waiting (connected : Bool) (deadline : Nat)
  /-- It has waited too long, and still has its connection if it got one. -/
  | late (connected : Bool)
  /-- It has its connection and its thread. -/
  | admitted
deriving DecidableEq

namespace Place

/-- Whether a call there holds a connection. -/
def connected : Place → Bool
  | queued => false
  | due => false
  | waiting connected _ => connected
  | late connected => connected
  | admitted => true

/-- Time can pass up to the deadline of a call that waits, and not at all while one is about to give
up. -/
def Allows (time : Nat) : Place → Prop
  | waiting _ deadline => time ≤ deadline
  | late _ => False
  | _ => True

def stage : Place → Stage
  | queued => .queued
  | due => .launched
  | waiting _ _ => .boarding
  | late _ => .boarding
  | admitted => .travelling

end Place

/-- A fleet as its client's limits see it. -/
structure Gate where
  limits : Option ClientLimits
  now : Nat
  servers : SortedMap NodeId Server
  calls : List CallRecord
  crashing : SortedMap NodeId String
  campaigns : List Campaign
  freeThreads : Nat
  /-- The free connections to each node. -/
  freeAt : NodeId → Nat
  /-- The ends of the calls that are awaited by themselves. -/
  landings : List Landing
  /-- The calls under way. -/
  places : Multiset (Flight × Place)

namespace Gate

/-- The gate without its clock and its permits. -/
def view (g : Gate) : View where
  servers := g.servers
  calls := g.calls
  crashing := g.crashing
  limited := g.limits.isSome
  campaigns := g.campaigns
  landings := g.landings.map fun l => (l.index, l.found)
  pending := g.places.map fun e => (e.1, e.2.stage)

/-- The gate with a call under way too. -/
def add (g : Gate) (flight : Flight) (place : Place) : Gate :=
  { g with places := (flight, place) ::ₘ g.places }

def takeConnection (g : Gate) (node : NodeId) : Gate :=
  { g with freeAt := Function.update g.freeAt node (g.freeAt node - 1) }

def takeThread (g : Gate) : Gate := { g with freeThreads := g.freeThreads - 1 }

def giveThread (g : Gate) : Gate := { g with freeThreads := g.freeThreads + 1 }

/-- A connection to a node is given back, if one was held. -/
def giveConnection (g : Gate) (held : Bool) (node : NodeId) : Gate :=
  { g with
    freeAt := if held then Function.update g.freeAt node (g.freeAt node + 1) else g.freeAt }

/-- What a call that arrives at a node finds. -/
def find (g : Gate) (node : NodeId) : Except CallError Server :=
  Fleet.find { servers := g.servers } node

/-- What a call asks is done to the record that it finds. -/
def visit (g : Gate) (flight : Flight) : Gate :=
  { g with servers := (Fleet.visit { servers := g.servers } flight).servers }

/-- The call is recorded. -/
def record (g : Gate) (flight : Flight) : Gate :=
  { g with calls := g.calls ++ [⟨flight.node, flight.request.operation⟩] }

def changeRound (g : Gate) (i : Nat) (change : Round Server → Option (Round Server)) : Gate :=
  { g with campaigns := (g.view.changeRound i change).campaigns }

/-- The end of a call is handed to the one who waits for it. -/
def hand (g : Gate) (flight : Flight) (found : Except CallError Server) : Gate :=
  { g with
    campaigns :=
      match flight.caller with
      | .direct _ => g.campaigns
      | .task i => (g.changeRound i (·.finish? flight.node found)).campaigns
    landings := g.landings ++
      match flight.caller with
      | .direct index => [⟨index, g.now, found⟩]
      | .task _ => [] }

/-- The gate with one more round, whose calls are queued. -/
def begin (g : Gate) (request : Request) (parallelism : Nat) (nodes : List NodeId) : Gate :=
  { g with
    campaigns := g.campaigns ++ [⟨request, .start parallelism nodes⟩]
    places := g.places + ((roundCalls g.campaigns.length request nodes).map (·, Place.queued) :
      List (Flight × Place)) }

/-- The calls that hold a connection and a thread. -/
def admitted (g : Gate) : Nat := g.places.countP fun e => e.2 = .admitted

/-- The calls to a node that hold a connection and a thread. -/
def admittedTo (g : Gate) (node : NodeId) : Nat :=
  g.places.countP fun e => e.1.node = node ∧ e.2 = .admitted

/-- The calls to a node that hold a connection. -/
def connectedTo (g : Gate) (node : NodeId) : Nat :=
  g.places.countP fun e => e.1.node = node ∧ e.2.connected

end Gate

/-- One small change of a gate: a step of a call, or something that no call does. -/
inductive Shift : Option Flight → Gate → Gate → Prop
  /-- A queued call gets a slot. -/
  | launch {g : Gate} {flight : Flight} {i : Nat} {c : Campaign} {r : Round Server}
      (caller : flight.caller = .task i) (found : g.campaigns[i]? = some c)
      (launches : c.round.launch? flight.node = some r) :
      Shift (some flight) (g.add flight .queued)
        ((g.changeRound i (·.launch? flight.node)).add flight .due)
  /-- The task of a call breaks down before the call starts. -/
  | crash {g : Gate} {flight : Flight} {i : Nat} (caller : flight.caller = .task i)
      (crashes : flight.node ∈ g.crashing) :
      Shift (some flight) (g.add flight .due) (g.changeRound i (·.crash? flight.node))
  /-- A call starts, and its time for getting what it needs begins. -/
  | issue {g : Gate} {flight : Flight} {limits : ClientLimits} (limited : g.limits = some limits)
      (whole : ∀ i, flight.caller = .task i → flight.node ∉ g.crashing) :
      Shift (some flight) (g.add flight .due)
        ((g.record flight).add flight (.waiting false (g.now + limits.connectTimeout)))
  | connect {g : Gate} {flight : Flight} {deadline : Nat} (free : 0 < g.freeAt flight.node) :
      Shift (some flight) (g.add flight (.waiting false deadline))
        ((g.takeConnection flight.node).add flight (.waiting true deadline))
  | board {g : Gate} {flight : Flight} {deadline : Nat} (free : 0 < g.freeThreads) :
      Shift (some flight) (g.add flight (.waiting true deadline)) (g.takeThread.add flight .admitted)
  /-- The deadline of a call has come. -/
  | expire {g : Gate} {flight : Flight} {connected : Bool} {deadline : Nat}
      (ended : deadline ≤ g.now) :
      Shift (some flight) (g.add flight (.waiting connected deadline))
        (g.add flight (.late connected))
  /-- A call that has waited too long gives back its connection, if it got one, and ends. -/
  | giveUp {g : Gate} {flight : Flight} {connected : Bool} :
      Shift (some flight) (g.add flight (.late connected))
        ((g.giveConnection connected flight.node).hand flight (.error (.timeout flight.node)))
  /-- A call reaches its server, gives back what it holds and ends. -/
  | arrive {g : Gate} {flight : Flight} :
      Shift (some flight) (g.add flight .admitted)
        (((g.visit flight).giveThread.giveConnection true flight.node).hand flight
          (g.find flight.node))
  /-- Time passes. -/
  | pass {g : Gate} {time : Nat} (allowed : ∀ e ∈ g.places, e.2.Allows time) :
      Shift none g { g with now := max g.now time }
  /-- There is one more call, which is awaited by itself. -/
  | call {g : Gate} {flight : Flight} {index : Nat} (caller : flight.caller = .direct index) :
      Shift none g (g.add flight .due)
  /-- There is one more round. -/
  | begin {g : Gate} (request : Request) (parallelism : Nat) (nodes : List NodeId) :
      Shift none g (g.begin request parallelism nodes)
  /-- Servers and records are changed from outside. -/
  | tend {g : Gate} (servers : SortedMap NodeId Server) (calls : List CallRecord)
      (crashing : SortedMap NodeId String) : Shift none g { g with servers, calls, crashing }
  /-- The ends of calls are taken note of. -/
  | collect {g : Gate} : Shift none g { g with landings := [] }

abbrev Shifts : Gate → Gate → Prop := Relation.ReflTransGen fun g h => ∃ who, Shift who g h

variable {g h : Gate} {who : Option Flight} {flight : Flight} {place : Place} {node : NodeId}
  {limits : ClientLimits}

/-! ### Calls and their tasks -/

namespace Gate

theorem view_add : (g.add flight place).view = g.view.add flight place.stage :=
  congrArg (fun pending => { g.view with pending }) (Multiset.map_cons _ _ _)

theorem view_hand (g : Gate) (flight : Flight) (found : Except CallError Server) :
    (g.hand flight found).view = g.view.hand flight found := by
  simp only [hand, View.hand]
  cases flight.caller with
  | direct index =>
    simp only [view, List.map_append]
    rfl
  | task i =>
    simp only [List.append_nil]
    rfl

theorem view_begin (g : Gate) (request : Request) (parallelism : Nat) (nodes : List NodeId) :
    (g.begin request parallelism nodes).view = g.view.begin request parallelism nodes := by
  simp only [begin, view, View.begin]
  rw [Multiset.map_add, Multiset.map_coe, List.map_map]
  rfl

end Gate

open Gate in
/-- Every shift keeps the calls at one with their tasks. -/
theorem Shift.consistent (step : Shift who g h) (ok : g.view.Consistent) : h.view.Consistent := by
  cases step with
  | launch caller found launches =>
    rw [view_add] at ok ⊢
    exact (Event.launch caller found launches).consistent ok
  | crash caller crashes =>
    rw [view_add] at ok
    exact (Event.crash caller crashes).consistent ok
  | @issue g flight limits limited whole =>
    rw [view_add] at ok ⊢
    have issued := (Event.issue whole).consistent ok
    rw [if_pos (show g.view.limited from congrArg Option.isSome limited)] at issued
    exact issued
  | connect =>
    rw [view_add] at ok ⊢
    exact ok
  | board =>
    rw [view_add] at ok ⊢
    exact Event.board.consistent ok
  | expire =>
    rw [view_add] at ok ⊢
    exact ok
  | giveUp =>
    rw [view_add] at ok
    rw [view_hand]
    exact Event.expire.consistent ok
  | arrive =>
    rw [view_add] at ok
    rw [view_hand]
    exact Event.land.consistent ok
  | call caller =>
    rw [view_add]
    refine View.consistent_add_iff.2 ⟨ok, fun i task => ?_, fun _ _ i task => ?_, fun _ _ => nofun⟩
    · cases caller.symm.trans task
    · cases caller.symm.trans task
  | begin request parallelism nodes =>
    rw [view_begin]
    exact ok.begin
  | pass | tend | collect => exact ok.congr rfl rfl

/-- What every shift keeps is kept. -/
theorem Shifts.keeps {P : Gate → Prop} (steps : Shifts g h)
    (each : ∀ {who g h}, Shift who g h → P g → P h) (start : P g) : P h := by
  induction steps with
  | refl => exact start
  | tail _ step ih =>
    obtain ⟨who, step⟩ := step
    exact each step ih

/-! ### Counting permits -/

namespace Gate

theorem admitted_add :
    (g.add flight place).admitted = g.admitted + if place = .admitted then 1 else 0 :=
  Multiset.countP_cons _ _ _

theorem connectedTo_add :
    (g.add flight place).connectedTo node =
      g.connectedTo node + if flight.node = node ∧ place.connected then 1 else 0 :=
  Multiset.countP_cons _ _ _

/-- The calls of a new round hold nothing. -/
theorem countP_begin {p : Flight × Place → Prop} [DecidablePred p]
    (none : ∀ flight, ¬ p (flight, .queued)) {request : Request} {parallelism : Nat}
    {nodes : List NodeId} :
    (g.begin request parallelism nodes).places.countP p = g.places.countP p := by
  simp only [begin, Multiset.countP_add]
  refine Nat.add_eq_left.2 (Multiset.countP_eq_zero.2 fun e mem => ?_)
  obtain ⟨flight, -, rfl⟩ := List.mem_map.1 mem
  exact none flight

theorem admittedTo_le_connectedTo (g : Gate) (node : NodeId) :
    g.admittedTo node ≤ g.connectedTo node := by
  simp only [admittedTo, connectedTo, Multiset.countP_eq_card_filter]
  refine Multiset.card_le_card (Multiset.monotone_filter_right _ fun e => ?_)
  rintro ⟨same, admitted⟩
  rw [admitted]
  exact ⟨same, rfl⟩

theorem freeAt_giveConnection {held : Bool} {other : NodeId} :
    (g.giveConnection held node).freeAt other =
      g.freeAt other + if node = other ∧ held then 1 else 0 := by
  cases held with
  | false => simp only [giveConnection, Bool.false_eq_true, if_false, and_false, Nat.add_zero]
  | true =>
    simp only [giveConnection, if_true, and_true]
    by_cases same : node = other
    · rw [← same, if_pos rfl]
      exact Function.update_self ..
    · rw [if_neg same]
      exact Function.update_of_ne (Ne.symm same) ..

theorem freeAt_takeConnection {other : NodeId} (free : 0 < g.freeAt node) :
    ((g.takeConnection node).freeAt other + if node = other then 1 else 0) = g.freeAt other := by
  by_cases same : node = other
  · rw [← same, if_pos rfl]
    exact (congrArg (· + 1) (Function.update_self ..)).trans (Nat.sub_add_cancel free)
  · rw [if_neg same]
    exact Function.update_of_ne (Ne.symm same) ..

/-- No call that waits has missed its deadline. -/
def Timely (g : Gate) : Prop :=
  ∀ e ∈ g.places, ∀ connected deadline, e.2 = .waiting connected deadline → g.now ≤ deadline

/-- Each permit is free or held by a call under way, and no call that waits has missed its
deadline. -/
structure Sound (limits : ClientLimits) (g : Gate) : Prop where
  limited : g.limits = some limits
  threads : g.freeThreads + g.admitted = max limits.threads 1
  connections : ∀ node, g.freeAt node + g.connectedTo node = max limits.connectionsPerNode 1
  timely : g.Timely

/-- While no call is under way, all permits are to be free. -/
theorem sound_of_none (none : g.places = 0) (limited : g.limits = some limits)
    (threads : g.freeThreads = max limits.threads 1)
    (connections : ∀ node, g.freeAt node = max limits.connectionsPerNode 1) : g.Sound limits := by
  refine ⟨limited, ?_, fun node => ?_, fun e mem => ?_⟩
  · simp only [admitted, none, threads, Multiset.countP_zero, Nat.add_zero]
  · simp only [connectedTo, none, connections, Multiset.countP_zero, Nat.add_zero]
  · rw [none] at mem
    exact absurd mem (Multiset.notMem_zero e)

theorem sound_add_iff :
    (g.add flight place).Sound limits ↔
      g.limits = some limits ∧
      (g.freeThreads + g.admitted + if place = .admitted then 1 else 0) = max limits.threads 1 ∧
      (∀ node, (g.freeAt node + g.connectedTo node +
        if flight.node = node ∧ place.connected then 1 else 0) =
          max limits.connectionsPerNode 1) ∧
      (∀ connected deadline, place = .waiting connected deadline → g.now ≤ deadline) ∧
      g.Timely := by
  constructor
  · rintro ⟨limited, threads, connections, timely⟩
    refine ⟨limited, ?_, fun node => ?_, Multiset.forall_mem_cons.1 timely⟩
    · rw [← threads, admitted_add]
      exact Nat.add_assoc ..
    · rw [← connections node, connectedTo_add]
      exact Nat.add_assoc ..
  · rintro ⟨limited, threads, connections, timely⟩
    refine ⟨limited, ?_, fun node => ?_, Multiset.forall_mem_cons.2 timely⟩
    · rw [← threads, admitted_add]
      exact (Nat.add_assoc ..).symm
    · rw [← connections node, connectedTo_add]
      exact (Nat.add_assoc ..).symm

end Gate

open Gate in
/-- Every shift keeps the permits accounted for. -/
theorem Shift.sound (step : Shift who g h) (sound : g.Sound limits) : h.Sound limits := by
  cases step with
  | launch =>
    obtain ⟨limited, threads, connections, -, timely⟩ := sound_add_iff.1 sound
    exact sound_add_iff.2 ⟨limited, threads, connections, nofun, timely⟩
  | issue =>
    obtain ⟨limited, threads, connections, -, timely⟩ := sound_add_iff.1 sound
    refine sound_add_iff.2 ⟨limited, threads, connections, ?_, timely⟩
    rintro connected deadline ⟨⟩
    exact Nat.le_add_right _ _
  | crash =>
    obtain ⟨limited, threads, connections, -, timely⟩ := sound_add_iff.1 sound
    simp only [Place.connected, Bool.false_eq_true, and_false, if_false] at connections
    exact ⟨limited, threads, connections, timely⟩
  | @connect g flight deadline free =>
    obtain ⟨limited, threads, connections, inTime, timely⟩ := sound_add_iff.1 sound
    refine sound_add_iff.2 ⟨limited, threads, fun node => ?_, ?_, timely⟩
    · have all := connections node
      have taken : _ = g.freeAt node := freeAt_takeConnection free
      simp only [Place.connected, Bool.false_eq_true, and_false, and_true, if_false] at all ⊢
      change _ + g.connectedTo node + _ = _
      omega
    · rintro connected deadline ⟨⟩
      exact inTime _ _ rfl
  | @board g flight deadline free =>
    obtain ⟨limited, threads, connections, -, timely⟩ := sound_add_iff.1 sound
    refine sound_add_iff.2 ⟨limited, ?_, connections, nofun, timely⟩
    simp only [reduceCtorEq, if_false, if_true] at threads ⊢
    change g.freeThreads - 1 + g.admitted + 1 = _
    omega
  | expire =>
    obtain ⟨limited, threads, connections, -, timely⟩ := sound_add_iff.1 sound
    exact sound_add_iff.2 ⟨limited, threads, connections, nofun, timely⟩
  | @giveUp g flight connected =>
    obtain ⟨limited, threads, connections, -, timely⟩ := sound_add_iff.1 sound
    refine ⟨limited, threads, fun node => ?_, timely⟩
    have all : _ + (if flight.node = node ∧ connected then 1 else 0) = _ := connections node
    have given : (g.giveConnection connected flight.node).freeAt node = _ := freeAt_giveConnection
    change (g.giveConnection connected flight.node).freeAt node + g.connectedTo node = _
    omega
  | @arrive g flight =>
    obtain ⟨limited, threads, connections, -, timely⟩ := sound_add_iff.1 sound
    refine ⟨limited, ?_, fun node => ?_, timely⟩
    · change g.freeThreads + 1 + g.admitted = _
      rw [if_pos rfl] at threads
      omega
    · have all : _ + (if flight.node = node ∧ true then 1 else 0) = _ := connections node
      have given : (g.giveConnection true flight.node).freeAt node = _ := freeAt_giveConnection
      change (g.giveConnection true flight.node).freeAt node + g.connectedTo node = _
      omega
  | @pass g time allowed =>
    refine ⟨sound.limited, sound.threads, sound.connections, fun e mem connected deadline waits => ?_⟩
    refine Nat.max_le.2 ⟨sound.timely e mem connected deadline waits, ?_⟩
    have allows := allowed e mem
    rw [waits] at allows
    exact allows
  | call =>
    refine sound_add_iff.2 ⟨sound.limited, sound.threads, fun node => ?_, nofun, sound.timely⟩
    simp only [Place.connected, Bool.false_eq_true, and_false, if_false]
    exact sound.connections node
  | begin request parallelism nodes =>
    refine ⟨sound.limited, ?_, fun node => ?_, fun e mem connected deadline waits => ?_⟩
    · rw [← sound.threads]
      exact congrArg (g.freeThreads + ·) (countP_begin nofun)
    · rw [← sound.connections node]
      exact congrArg (g.freeAt node + ·) (countP_begin nofun)
    · rcases Multiset.mem_add.1 mem with mem | mem
      · exact sound.timely e mem connected deadline waits
      · obtain ⟨flight, -, rfl⟩ := List.mem_map.1 mem
        cases waits
  | tend | collect => exact ⟨sound.limited, sound.threads, sound.connections, sound.timely⟩

/-! ### Waiting for admission -/

/-- A call waits for what it lacks, or is about to give up because its deadline has come. -/
def Gate.Awaits (g : Gate) (flight : Flight) (deadline : Nat) : Prop :=
  g.now ≤ deadline ∧ ∃ connected, (flight, .waiting connected deadline) ∈ g.places ∨
    (flight, .late connected) ∈ g.places ∧ g.now = deadline

/-- A call ends now: its end is noted, or its task has it for a result. -/
def EndsWith (g h : Gate) (flight : Flight) (found : Except CallError Server) : Prop :=
  (∀ index, flight.caller = .direct index →
    h.landings = g.landings ++ [⟨index, g.now, found⟩]) ∧
  ∀ i, flight.caller = .task i → h.view.task? i flight.node = some (.finished found)

/-- What a call comes to that goes on from its place. One that waits gets its connection, is admitted
or misses its deadline; one that has missed it ends with a timeout. -/
def GoesOn (g h : Gate) (flight : Flight) : Place → Prop
  | .waiting connected deadline =>
    h.now = g.now ∧
      ((flight, .waiting true deadline) ∈ h.places ∨ (flight, .admitted) ∈ h.places ∨
        deadline ≤ g.now ∧ (flight, .late connected) ∈ h.places)
  | .late _ => h.servers = g.servers ∧ EndsWith g h flight (.error (.timeout flight.node))
  | _ => True

/-- What a call has found is noted, or is what its task has found, as the task is running. -/
theorem Gate.endsWith_hand {stage : Stage} (fits : g.view.Fits flight stage)
    (started : stage ≠ .queued) (found : Except CallError Server) :
    EndsWith g (g.hand flight found) flight found := by
  refine ⟨fun index caller => ?_, fun i caller => ?_⟩
  · simp only [hand, caller]
  · rw [view_hand]
    exact fits.task?_hand started caller

/-- In a shift at most one call goes on, and the others stay where they are. -/
theorem Shift.exists_rest (step : Shift who g h) (ok : g.view.Consistent) :
    g.places ⊆ h.places ∨ ∃ flight place rest, who = some flight ∧
      g.places = (flight, place) ::ₘ rest ∧ rest ⊆ h.places ∧ GoesOn g h flight place := by
  cases step with
  | launch | issue => exact .inr ⟨_, _, _, rfl, rfl, Multiset.subset_cons _ _, trivial⟩
  | crash | arrive => exact .inr ⟨_, _, _, rfl, rfl, Multiset.Subset.refl _, trivial⟩
  | connect =>
    exact .inr ⟨_, _, _, rfl, rfl, Multiset.subset_cons _ _, rfl, .inl (Multiset.mem_cons_self _ _)⟩
  | board =>
    exact .inr ⟨_, _, _, rfl, rfl, Multiset.subset_cons _ _, rfl,
      .inr (.inl (Multiset.mem_cons_self _ _))⟩
  | expire ended =>
    exact .inr ⟨_, _, _, rfl, rfl, Multiset.subset_cons _ _, rfl,
      .inr (.inr ⟨ended, Multiset.mem_cons_self _ _⟩)⟩
  | @giveUp g flight connected =>
    rw [Gate.view_add] at ok
    have fits : (g.giveConnection connected flight.node).view.Fits flight .boarding :=
      (View.consistent_add_iff.1 ok).2
    exact .inr ⟨_, _, _, rfl, rfl, Multiset.Subset.refl _, rfl, Gate.endsWith_hand fits nofun _⟩
  | call => exact .inl (Multiset.subset_cons _ _)
  | begin => exact .inl (Multiset.subset_of_le (Multiset.le_add_right _ _))
  | pass | tend | collect => exact .inl (Multiset.Subset.refl _)

theorem Shift.of_mem (step : Shift who g h) (ok : g.view.Consistent)
    (mem : (flight, place) ∈ g.places) :
    (flight, place) ∈ h.places ∨ who = some flight ∧ GoesOn g h flight place := by
  rcases step.exists_rest ok with kept | ⟨other, its, rest, whose, before, kept, goes⟩
  · exact .inl (kept mem)
  · rw [before] at mem
    rcases Multiset.mem_cons.1 mem with same | mem
    · cases same
      exact .inr ⟨whose, goes⟩
    · exact .inl (kept mem)

/-- While a call is about to give up, time does not pass. -/
theorem Shift.now_eq_of_late {connected : Bool} (step : Shift who g h)
    (mem : (flight, .late connected) ∈ g.places) : h.now = g.now := by
  cases step with
  | pass allowed => exact absurd (allowed _ mem) id
  | _ => rfl

/-- With this step a call is done with waiting: it is admitted by its deadline, or it ends at its
deadline with a timeout and leaves the servers as they were. -/
def Decides (flight : Flight) (deadline : Nat) (g h : Gate) : Prop :=
  h.now ≤ deadline ∧ (flight, .admitted) ∈ h.places ∨
    g.now = deadline ∧ h.servers = g.servers ∧ EndsWith g h flight (.error (.timeout flight.node))

theorem Shift.awaits {deadline : Nat} (step : Shift who g h) (sound : g.Sound limits)
    (ok : g.view.Consistent) (awaits : g.Awaits flight deadline) :
    h.Awaits flight deadline ∨ who = some flight ∧ Decides flight deadline g h := by
  obtain ⟨inTime, connected, waits | ⟨late, now⟩⟩ := awaits
  · rcases step.of_mem ok waits with stays | ⟨whose, now, waits' | admitted | ⟨ended, late⟩⟩
    · exact .inl ⟨(step.sound sound).timely _ stays _ _ rfl, connected, .inl stays⟩
    · exact .inl ⟨now ▸ inTime, true, .inl waits'⟩
    · exact .inr ⟨whose, .inl ⟨now ▸ inTime, admitted⟩⟩
    · exact .inl ⟨now ▸ inTime, connected, .inr ⟨late, now ▸ Nat.le_antisymm inTime ended⟩⟩
  · rcases step.of_mem ok late with stays | ⟨whose, ends⟩
    · have same := (step.now_eq_of_late late).trans now
      exact .inl ⟨Nat.le_of_eq same, connected, .inr ⟨stays, same⟩⟩
    · exact .inr ⟨whose, .inr ⟨now, ends⟩⟩

/-- A deadline is set when its call starts, by the connection timeout. -/
theorem Shift.of_waiting {connected : Bool} {deadline : Nat} (step : Shift who g h)
    (sound : g.Sound limits) (waits : (flight, .waiting connected deadline) ∈ h.places) :
    (∃ connected', (flight, .waiting connected' deadline) ∈ g.places) ∨
      who = some flight ∧ deadline = g.now + limits.connectTimeout := by
  cases step with
  | @issue g other limits' limited whole =>
    rcases Multiset.mem_cons.1 waits with same | waits
    · cases same
      cases limited.symm.trans sound.limited
      exact .inr ⟨rfl, rfl⟩
    · exact .inl ⟨_, Multiset.mem_cons_of_mem waits⟩
  | connect =>
    rcases Multiset.mem_cons.1 waits with same | waits
    · cases same
      exact .inl ⟨_, Multiset.mem_cons_self _ _⟩
    · exact .inl ⟨_, Multiset.mem_cons_of_mem waits⟩
  | launch | board | expire =>
    rcases Multiset.mem_cons.1 waits with same | waits
    · cases same
    · exact .inl ⟨_, Multiset.mem_cons_of_mem waits⟩
  | call =>
    rcases Multiset.mem_cons.1 waits with same | waits
    · cases same
    · exact .inl ⟨_, waits⟩
  | begin =>
    rcases Multiset.mem_add.1 waits with waits | new
    · exact .inl ⟨_, waits⟩
    · obtain ⟨other, -, same⟩ := List.mem_map.1 new
      cases same
  | crash | giveUp | arrive => exact .inl ⟨_, Multiset.mem_cons_of_mem waits⟩
  | pass | tend | collect => exact .inl ⟨_, waits⟩

/-- A step of a call leaves the servers as they are, unless the call is admitted. -/
theorem Shift.servers_eq (step : Shift (some flight) g h)
    (unadmitted : (flight, .admitted) ∉ g.places) : h.servers = g.servers := by
  cases step with
  | arrive => exact absurd (Multiset.mem_cons_self _ _) unadmitted
  | _ => rfl

/-! ### Courses -/

/-- What happens from moment to moment, each time one shift. -/
def Course (who : Nat → Option Flight) (moments : Nat → Gate) : Prop :=
  ∀ i, Shift (who i) (moments i) (moments (i + 1))

namespace Course

variable {whose : Nat → Option Flight} {moments : Nat → Gate} {i j : Nat} {deadline : Nat}

/-- What limits promise of the calls that are made under them. -/
structure KeepsLimits (limits : ClientLimits) (whose : Nat → Option Flight)
    (moments : Nat → Gate) : Prop where
  threads : ∀ i, (moments i).admitted ≤ max limits.threads 1
  connections : ∀ i node, (moments i).admittedTo node ≤ max limits.connectionsPerNode 1
  /-- A call has the connection timeout to get its connection and its thread, from when it starts. -/
  deadline : ∀ i flight connected deadline,
    (flight, .waiting connected deadline) ∈ (moments (i + 1)).places →
      (∃ connected', (flight, .waiting connected' deadline) ∈ (moments i).places) ∨
        whose i = some flight ∧ deadline = (moments i).now + limits.connectTimeout
  /-- A call that does not get both in time ends with a timeout. -/
  answered : ∀ i j flight connected deadline, i ≤ j →
    (flight, .waiting connected deadline) ∈ (moments i).places →
      (moments j).Awaits flight deadline ∨ ∃ k, i ≤ k ∧ k < j ∧ whose k = some flight ∧
        Decides flight deadline (moments k) (moments (k + 1))
  /-- Nothing is done on a server by a call that does not have both. -/
  unchanged : ∀ i flight, whose i = some flight → (flight, .admitted) ∉ (moments i).places →
    (moments (i + 1)).servers = (moments i).servers
  /-- What a call has got is given back when it ends: each permit is free or held by a call that is
  under way. -/
  accounted : ∀ i, (moments i).freeThreads + (moments i).admitted = max limits.threads 1 ∧
    ∀ node, (moments i).freeAt node + (moments i).connectedTo node =
      max limits.connectionsPerNode 1
  returned : ∀ i, (moments i).places = 0 → (moments i).freeThreads = max limits.threads 1 ∧
    ∀ node, (moments i).freeAt node = max limits.connectionsPerNode 1

theorem shifts (course : Course whose moments) (i : Nat) : Shifts (moments 0) (moments i) := by
  induction i with
  | zero => exact .refl
  | succ i ih => exact ih.tail ⟨_, course i⟩

theorem sound (course : Course whose moments) (start : (moments 0).Sound limits) (i : Nat) :
    (moments i).Sound limits := (course.shifts i).keeps Shift.sound start

/-- A call that waits for admission still does so, or it has been admitted by its deadline or has
ended at its deadline with a timeout. -/
theorem awaits_or_decided (course : Course whose moments) (start : (moments 0).Sound limits)
    (ok : (moments 0).view.Consistent) (awaits : (moments i).Awaits flight deadline) (later : i ≤ j) :
    (moments j).Awaits flight deadline ∨ ∃ k, i ≤ k ∧ k < j ∧ whose k = some flight ∧
      Decides flight deadline (moments k) (moments (k + 1)) := by
  induction j, later using Nat.le_induction with
  | base => exact .inl awaits
  | succ j later ih =>
    rcases ih with still | ⟨k, after, before, decides⟩
    · have ok' := (course.shifts j).keeps Shift.consistent ok
      rcases (course j).awaits (course.sound start j) ok' still with still | decides
      · exact .inl still
      · exact .inr ⟨j, later, Nat.lt_succ_self j, decides⟩
    · exact .inr ⟨k, after, Nat.lt_succ_of_lt before, decides⟩

theorem keepsLimits (course : Course whose moments) (start : (moments 0).Sound limits)
    (ok : (moments 0).view.Consistent) : KeepsLimits limits whose moments := by
  have sound := course.sound start
  refine ⟨fun i => ?_, fun i node => ?_, fun i flight connected deadline => ?_, ?_,
    fun i flight its => ?_, fun i => ⟨(sound i).threads, (sound i).connections⟩, ?_⟩
  · exact Nat.le_of_add_left_le (Nat.le_of_eq (sound i).threads)
  · exact Nat.le_trans ((moments i).admittedTo_le_connectedTo node)
      (Nat.le_of_add_left_le (Nat.le_of_eq ((sound i).connections node)))
  · exact (course i).of_waiting (sound i)
  · intro i j flight connected deadline later waits
    have inTime := (sound i).timely _ waits _ _ rfl
    exact course.awaits_or_decided start ok ⟨inTime, connected, .inl waits⟩ later
  · exact Shift.servers_eq (its ▸ course i)
  · intro i none
    have ⟨_, threads, connections, _⟩ := sound i
    simp only [Gate.admitted, Gate.connectedTo, none, Multiset.countP_zero] at threads connections
    exact ⟨threads, connections⟩

/-- A course with one more moment before it. -/
theorem prepend (step : Shift who g (moments 0)) (course : Course whose moments) :
    Course (fun | 0 => who | i + 1 => whose i) (fun | 0 => g | i + 1 => moments i)
  | 0 => step
  | i + 1 => course i

/-- Shifts make up a course. -/
theorem exists_of_shifts {g' : Gate} (first : Shifts g g') (second : Shifts g' h) :
    ∃ whose moments m n, Course whose moments ∧ moments 0 = g ∧ m ≤ n ∧ moments m = g' ∧
      moments n = h := by
  induction first using Relation.ReflTransGen.head_induction_on with
  | refl =>
    induction second using Relation.ReflTransGen.head_induction_on with
    | refl => exact ⟨fun _ => none, fun _ => h, 0, 0, fun _ => .tend _ _ _, rfl, le_rfl, rfl, rfl⟩
    | head step _ ih =>
      obtain ⟨who, step⟩ := step
      obtain ⟨whose, moments, m, n, course, start, -, -, final⟩ := ih
      subst start
      exact ⟨_, _, 0, n + 1, prepend step course, rfl, Nat.zero_le _, rfl, final⟩
  | head step _ ih =>
    obtain ⟨who, step⟩ := step
    obtain ⟨whose, moments, m, n, course, start, later, middle, final⟩ := ih
    subst start
    exact ⟨_, _, m + 1, n + 1, prepend step course, rfl, Nat.succ_le_succ later, middle, final⟩

end Course

end Resharding
