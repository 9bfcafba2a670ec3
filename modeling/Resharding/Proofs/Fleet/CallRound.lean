import Mathlib.Data.Multiset.AddSub
import Resharding.Proofs.Fleet.Simulation

/-!
What a round of calls comes to.

A round goes by events from the moment its calls were queued to the moment it is looked at
(`Fleet.callRound_spec`): every node asked has one result, that of its task, or is abandoned. A
fleet stays consistent all the while, also if calls of earlier rounds are still under way.
-/

namespace Resharding

/-! ### What no event changes -/

namespace View

/-- `w` is what `v` may have become: the rounds are the same, and what has ended stays as it is. -/
structure Follows (v w : View) : Prop where
  crashing : w.crashing = v.crashing
  limited : w.limited = v.limited
  length : w.campaigns.length = v.campaigns.length
  campaigns : ∀ (i : Nat) c, v.campaigns[i]? = some c →
    ∃ d, w.campaigns[i]? = some d ∧ d.request = c.request ∧ c.round.Follows d.round

theorem Follows.refl (v : View) : v.Follows v :=
  ⟨rfl, rfl, rfl, fun _ c found => ⟨c, found, rfl, .refl _⟩⟩

theorem Follows.trans {v₁ v₂ v₃ : View} (first : v₁.Follows v₂) (second : v₂.Follows v₃) :
    v₁.Follows v₃ := by
  refine ⟨second.crashing.trans first.crashing, second.limited.trans first.limited,
    second.length.trans first.length, ?_⟩
  intro i c found
  obtain ⟨d, found', request, follows⟩ := first.campaigns i c found
  obtain ⟨e, found'', request', follows'⟩ := second.campaigns i d found'
  exact ⟨e, found'', request'.trans request, follows.trans follows'⟩

theorem Follows.reason {v w : View} (follows : v.Follows w) : w.reason = v.reason := by
  funext node
  simp only [View.reason]
  rw [follows.crashing]

theorem follows_changeRound (v : View) (i : Nat)
    (change : Round Server → Option (Round Server))
    (follows : ∀ r r', change r = some r' → r.Follows r') : v.Follows (v.changeRound i change) := by
  refine ⟨rfl, rfl, List.length_modify _ _ _, ?_⟩
  intro j c found
  rw [getElem?_changeRound]
  split
  · rw [found]
    refine ⟨_, rfl, rfl, ?_⟩
    change c.round.Follows ((change c.round).getD c.round)
    cases changed : change c.round with
    | none => exact .refl _
    | some r => exact follows _ _ changed
  · exact ⟨c, found, rfl, .refl _⟩

theorem follows_hand (v : View) (flight : Flight) (found : Except CallError Server) :
    v.Follows (v.hand flight found) := by
  simp only [hand]
  cases flight.caller with
  | direct index => exact ⟨rfl, rfl, rfl, fun _ c there => ⟨c, there, rfl, .refl _⟩⟩
  | task i => exact v.follows_changeRound i _ fun _ _ => Round.follows_finish

end View

theorem Event.follows {v w : View} (event : Event v w) : v.Follows w := by
  cases event with
  | @launch v flight i c r caller found launches =>
    have changed := v.follows_changeRound i (·.launch? flight.node)
      fun _ _ => Round.follows_launch
    exact ⟨changed.crashing, changed.limited, changed.length, changed.campaigns⟩
  | @crash v flight i caller crashes =>
    have changed := v.follows_changeRound i (·.crash? flight.node)
      fun _ _ => Round.follows_crash
    exact ⟨changed.crashing, changed.limited, changed.length, changed.campaigns⟩
  | issue => exact ⟨rfl, rfl, rfl, fun _ c there => ⟨c, there, rfl, .refl _⟩⟩
  | board => exact ⟨rfl, rfl, rfl, fun _ c there => ⟨c, there, rfl, .refl _⟩⟩
  | @land v flight =>
    have changed := (v.visit flight).follows_hand flight (v.find flight.node)
    exact ⟨changed.crashing, changed.limited, changed.length, changed.campaigns⟩
  | @expire v flight =>
    have changed := v.follows_hand flight (.error (.timeout flight.node))
    exact ⟨changed.crashing, changed.limited, changed.length, changed.campaigns⟩

theorem Events.follows {v w : View} (events : Events v w) : v.Follows w := by
  induction events with
  | refl => exact .refl _
  | tail _ event ih => exact ih.trans event.follows

/-! ### Starting a round -/

/-- The calls of the `i`-th round. -/
def roundCalls (i : Nat) (request : Request) (nodes : List NodeId) : List Flight :=
  (Round.start (α := Server) 1 nodes).tasks.keys.map fun node => ⟨.task i, node, request⟩

/-- The view with one more round, whose calls are queued. -/
def View.begin (v : View) (request : Request) (parallelism : Nat) (nodes : List NodeId) : View :=
  { v with
    campaigns := v.campaigns ++ [⟨request, .start parallelism nodes⟩]
    pending := v.pending + ((roundCalls v.campaigns.length request nodes).map (·, Stage.queued) :
      List (Flight × Stage)) }

/-- The fleet with one more round, whose calls can go on. -/
def Fleet.begin (f : Fleet) (request : Request) (parallelism : Nat) (nodes : List NodeId) : Fleet :=
  { f with
    campaigns := f.campaigns ++ [⟨request, .start parallelism nodes⟩]
    ready := f.ready ++ (roundCalls f.campaigns.length request nodes).map (·, Action.ask) }

theorem Fleet.begin_eq (f : Fleet) (request : Request) (parallelism : Nat) (nodes : List NodeId) :
    f.begin request parallelism nodes =
      { f with
        campaigns := f.campaigns ++ [⟨request, .start parallelism nodes⟩]
        ready := f.ready ++ (Round.start (α := Server) parallelism nodes).tasks.keys.map
          fun node => (⟨.task f.campaigns.length, node, request⟩, Action.ask) } := by
  simp only [Fleet.begin, roundCalls]
  rw [List.map_map]
  rfl

theorem Fleet.view_begin (f : Fleet) (request : Request) (parallelism : Nat)
    (nodes : List NodeId) :
    (f.begin request parallelism nodes).view = f.view.begin request parallelism nodes := by
  have pending : (f.begin request parallelism nodes).pending =
      f.pending + ((roundCalls f.campaigns.length request nodes).map (·, Stage.queued) :
        List (Flight × Stage)) := by
    simp only [Fleet.pending, Fleet.begin]
    rw [Multiset.coe_add, Multiset.coe_eq_coe, List.map_append, List.map_map, List.append_assoc,
      List.append_assoc]
    exact List.perm_append_comm.append_left _
  exact congrArg (fun p => { f.view.begin request parallelism nodes with pending := p }) pending

namespace View

variable {v : View} {request : Request} {parallelism : Nat} {nodes : List NodeId}

theorem getElem?_begin_self :
    (v.begin request parallelism nodes).campaigns[v.campaigns.length]? =
      some ⟨request, .start parallelism nodes⟩ := by
  change (v.campaigns ++ [_])[v.campaigns.length]? = _
  exact List.getElem?_concat_length ..

theorem getElem?_begin_of_lt {i : Nat} (less : i < v.campaigns.length) :
    (v.begin request parallelism nodes).campaigns[i]? = v.campaigns[i]? := by
  change (v.campaigns ++ [_])[i]? = _
  exact List.getElem?_append_left less

theorem mem_roundCalls {i : Nat} {flight : Flight} :
    flight ∈ roundCalls i request nodes ↔ ∃ node ∈ nodes, flight = ⟨.task i, node, request⟩ := by
  simp only [roundCalls]
  rw [List.mem_map]
  exact exists_congr fun node => and_congr Round.mem_keys_start eq_comm

/-- The call of a task belongs to a round that has been started. -/
theorem Consistent.lt_length (ok : v.Consistent) {e : Flight × Stage} (mem : e ∈ v.pending)
    {i : Nat} (caller : e.1.caller = .task i) : i < v.campaigns.length := by
  obtain ⟨others, eq⟩ := Multiset.exists_cons_of_mem mem
  obtain ⟨c, found, -⟩ := (ok e.1 e.2 others eq).backed i caller
  exact (List.getElem?_eq_some_iff.1 found).1

theorem Consistent.begin (ok : v.Consistent) :
    (v.begin request parallelism nodes).Consistent := by
  let started (calls : List Flight) : View :=
    { v.begin request parallelism nodes with
      pending := v.pending + (calls.map (·, Stage.queued) : List (Flight × Stage)) }
  have old : (started []).Consistent := by
    intro flight stage others eq
    have mem : v.pending = (flight, stage) ::ₘ others := (Multiset.add_zero _).symm.trans eq
    have fits := ok flight stage others mem
    refine ⟨?_, fits.alone, fits.direct⟩
    intro i caller
    obtain ⟨c, found, backed⟩ := fits.backed i caller
    exact ⟨c, (getElem?_begin_of_lt (List.getElem?_eq_some_iff.1 found).1).trans found, backed⟩
  -- The calls of the round come in one by one, each of a node that has none yet.
  have grow (calls : List Flight) (distinct : calls.Pairwise fun a b => a.node ≠ b.node)
      (within : ∀ flight ∈ calls, flight ∈ roundCalls v.campaigns.length request nodes) :
      (started calls).Consistent := by
    induction calls with
    | nil => exact old
    | cons flight calls ih =>
      have ⟨apart, tail⟩ := List.pairwise_cons.1 distinct
      have rest := ih tail fun other mem => within other (List.mem_cons_of_mem _ mem)
      have eq : started (flight :: calls) = (started calls).add flight .queued :=
        congrArg (fun p => { v.begin request parallelism nodes with pending := p })
          (Multiset.add_cons (flight, Stage.queued) v.pending ↑(calls.map (·, Stage.queued)))
      obtain ⟨node, inNodes, rfl⟩ := mem_roundCalls.1 (within flight List.mem_cons_self)
      rw [eq]
      refine consistent_add_iff.2 ⟨rest, ?_, ?_, ?_⟩
      · intro i caller
        cases caller
        refine ⟨_, getElem?_begin_self, rfl, ?_, ?_⟩
        · exact (Round.get?_start _ _ _).trans (if_pos inNodes)
        · exact Nat.le_trans (Nat.le_of_eq (Round.runningCount_start _ _)) (Nat.zero_le _)
      · intro e mem i caller callerE
        cases caller
        rcases Multiset.mem_add.1 mem with mem | mem
        · exact absurd (ok.lt_length mem callerE) (Nat.lt_irrefl _)
        · obtain ⟨other, inCalls, rfl⟩ := List.mem_map.1 mem
          exact (apart other inCalls).symm
      · intro i caller
        cases caller
  have distinct : (roundCalls v.campaigns.length request nodes).Pairwise fun a b =>
      a.node ≠ b.node := List.pairwise_map.2 (SortedMap.nodup_keys _)
  exact grow _ distinct fun _ mem => mem

end View

/-! ### A round from start to end -/

namespace Fleet

variable {f : Fleet}

theorem events_callRound (ok : f.view.Consistent) (settings : Settings) (request : Request)
    (nodes : List NodeId) :
    Events (f.view.begin request settings.parallelism nodes)
      (f.callRound settings request nodes).2.view := by
  rw [← view_begin]
  have start : (f.begin request settings.parallelism nodes).view.Consistent := by
    rw [view_begin]
    exact ok.begin
  have ran := events_run start (·.isRoundOver f.campaigns.length)
    (some (f.now + settings.shutdownTimeout))
  rw [begin_eq] at ran ⊢
  simp only [callRound]
  split
  · exact ran
  · exact ran

/-- The campaign of a round at the moment at which the round is looked at, and what is made of it. -/
theorem callRound_spec (ok : f.view.Consistent) (settings : Settings) (request : Request)
    (nodes : List NodeId) :
    ∃ c, (f.callRound settings request nodes).2.campaigns[f.campaigns.length]? = some c ∧
      c.request = request ∧ (Round.start settings.parallelism nodes).Follows c.round ∧
      (f.callRound settings request nodes).1 =
        (c.round.outcome f.reason c.round.awaited).map request.answer := by
  have follows := (events_callRound ok settings request nodes).follows
  obtain ⟨c, found, request', stays⟩ := follows.campaigns _ _ View.getElem?_begin_self
  have found' : (f.callRound settings request nodes).2.campaigns[f.campaigns.length]? = some c :=
    found
  refine ⟨c, found', request', stays, ?_⟩
  simp only [callRound] at found' ⊢
  rw [found']

end Fleet

end Resharding
