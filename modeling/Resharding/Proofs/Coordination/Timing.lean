import Resharding.Coordination.Agreement
import Resharding.Proofs.Coordination.Propagation
import Resharding.Proofs.Coordination.Resolution
import Resharding.Proofs.Fleet.Fate
import Resharding.Topology.Uniform

/-!
Time has no part in results.

Two fleets are `Alike` if their servers differ only in how long they take to answer. A round of calls
of which none is abandoned then comes back from both with the same answers, makes the same calls in
some order, and leaves them alike (`Alike.callRound`), however many calls go on at once in either. So
the operations made of rounds have the same results (`Alike.operations_untimed`).
-/

namespace Resharding

/-- The record without how long the server takes to answer. -/
def Server.untimed (s : Server) : Server := { s with delay := 0 }

namespace Request

theorem reply_untimed (request : Request) (node : NodeId) (s : Server) :
    request.reply node s.untimed = request.reply node s := by
  cases request <;> rfl

theorem effect_untimed (request : Request) (s : Server) :
    request.effect s.untimed = (request.effect s).untimed := by
  cases request with
  | update held =>
    simp only [effect]
    rw [apply_ite Server.untimed]
    rfl
  | _ => rfl

end Request

namespace Fleet

open Propagation Resolution

variable {f g : Fleet} {s t : Settings} {request : Request} {nodes : List NodeId}

/-- Fleets without limits, with the same servers but for their delays, and with no call under way. -/
structure Alike (f g : Fleet) : Prop where
  quiet : f.Quiet
  quiet' : g.Quiet
  unlimited : f.permits = none
  unlimited' : g.permits = none
  crashing : f.crashing = g.crashing
  servers : ∀ node,
    (f.servers.get? node).map Server.untimed = (g.servers.get? node).map Server.untimed

/-- The same calls have been added to both lists, in some order. -/
def CalledAlike (before after before' after' : List CallRecord) : Prop :=
  ∃ more more', after = before ++ more ∧ after' = before' ++ more' ∧ more.Perm more'

theorem CalledAlike.trans {first second third first' second' third' : List CallRecord}
    (early : CalledAlike first second first' second')
    (late : CalledAlike second third second' third') : CalledAlike first third first' third' := by
  obtain ⟨more, more', rfl, rfl, perm⟩ := early
  obtain ⟨rest, rest', rfl, rfl, perm'⟩ := late
  exact ⟨more ++ rest, more' ++ rest', List.append_assoc .., List.append_assoc ..,
    perm.append perm'⟩

namespace Alike

/-! ### Single calls -/

theorem find (alike : Alike f g) (node : NodeId) :
    (f.find node).map Server.untimed = (g.find node).map Server.untimed := by
  have same := alike.servers node
  simp only [Fleet.find]
  cases ofF : f.servers.get? node with
  | none =>
    rw [ofF] at same
    rw [Option.map_eq_none_iff.1 same.symm]
  | some a =>
    rw [ofF] at same
    obtain ⟨b, ofG, eq⟩ := Option.map_eq_some_iff.1 same.symm
    rw [ofG]
    have down : a.isDown = b.isDown := (congrArg Server.isDown eq).symm
    dsimp only
    rw [down]
    split
    · rfl
    · exact congrArg Except.ok eq.symm

theorem foretold (alike : Alike f g) (request : Request) (node : NodeId) :
    f.foretold request node = g.foretold request node := by
  have answer (found : Except CallError Server) :
      request.answer node (found.map Server.untimed) = request.answer node found := by
    cases found with
    | error e => rfl
    | ok s => exact request.reply_untimed node s
  simp only [Fleet.foretold, Fleet.reason]
  rw [alike.crashing, ← answer (f.find node), alike.find, answer]

theorem touched (alike : Alike f g) (request : Request) (node : NodeId) :
    (f.touched request node).map Server.untimed = (g.touched request node).map Server.untimed := by
  let leave (crashes : Bool) (s : Server) : Server :=
    if crashes || s.isDown then s else request.effect s
  have untimed (crashes : Bool) (o : Option Server) : (o.map (leave crashes)).map Server.untimed =
      (o.map Server.untimed).map (leave crashes) := by
    rw [Option.map_map, Option.map_map]
    apply congrFun
    apply congrArg
    funext s
    have same : (leave crashes s).untimed = leave crashes s.untimed := by
      simp only [leave]
      rw [request.effect_untimed, apply_ite Server.untimed]
      rfl
    exact same
  have eq := untimed (g.crashing.contains node) (f.servers.get? node)
  rw [alike.servers node, ← untimed] at eq
  rw [← alike.crashing] at eq
  simp only [Fleet.touched]
  rw [← alike.crashing]
  exact eq

theorem reaching (alike : Alike f g) (request : Request) (nodes : List NodeId) :
    f.reaching request nodes = g.reaching request nodes := by
  simp only [Fleet.reaching]
  rw [alike.crashing]

/-! ### Rounds -/

section

variable {v w : View} (alike : Alike f g) (done : f.Conducted request nodes v)
  (done' : g.Conducted request nodes w)

include alike done done'

/-- In whatever order the calls of two rounds go on, the nodes give the same answers. -/
theorem outcome : v.outcome f.campaigns.length request = w.outcome g.campaigns.length request := by
  have completed : (v.outcome f.campaigns.length request).completed =
      (w.outcome g.campaigns.length request).completed := by
    apply SortedMap.ext_get?
    intro node
    rw [done.get?_outcome alike.quiet alike.unlimited,
      done'.get?_outcome alike.quiet' alike.unlimited', alike.foretold]
  have abandoned : (v.outcome f.campaigns.length request).abandoned =
      (w.outcome g.campaigns.length request).abandoned := by
    rw [done.abandoned alike.quiet alike.unlimited, done'.abandoned alike.quiet' alike.unlimited']
  calc v.outcome f.campaigns.length request
    _ = ⟨(v.outcome f.campaigns.length request).completed,
        (v.outcome f.campaigns.length request).abandoned⟩ := rfl
    _ = ⟨(w.outcome g.campaigns.length request).completed,
        (w.outcome g.campaigns.length request).abandoned⟩ := by rw [completed, abandoned]
    _ = w.outcome g.campaigns.length request := rfl

theorem calls : CalledAlike f.calls v.calls g.calls w.calls := by
  obtain ⟨more, here, perm⟩ := done.calls alike.quiet alike.unlimited
  obtain ⟨more', here', perm'⟩ := done'.calls alike.quiet' alike.unlimited'
  rw [← alike.reaching] at perm'
  exact ⟨more, more', here, here', perm.trans perm'.symm⟩

theorem servers_of_conducted (node : NodeId) : (v.servers.get? node).map Server.untimed =
    (w.servers.get? node).map Server.untimed := by
  rw [done.get?_servers alike.quiet alike.unlimited,
    done'.get?_servers alike.quiet' alike.unlimited']
  split
  · exact alike.touched request node
  · exact alike.servers node

end

section

variable (alike : Alike f g) (inTime : f.InTime s request nodes) (inTime' : g.InTime t request nodes)

include alike inTime inTime'

theorem fst_callRound : (f.callRound s request nodes).1 = (g.callRound t request nodes).1 := by
  rw [outcome_callRound alike.quiet.consistent, outcome_callRound alike.quiet'.consistent]
  exact alike.outcome (alike.quiet.conducted inTime) (alike.quiet'.conducted inTime')

theorem calls_callRound : CalledAlike f.calls (f.callRound s request nodes).2.calls g.calls
    (g.callRound t request nodes).2.calls :=
  alike.calls (alike.quiet.conducted inTime) (alike.quiet'.conducted inTime')

/-- Rounds of which no call is abandoned leave fleets alike. -/
theorem callRound : Alike (f.callRound s request nodes).2 (g.callRound t request nodes).2 := by
  have done := alike.quiet.conducted inTime
  have done' := alike.quiet'.conducted inTime'
  have follows : (f.view.begin request s.parallelism nodes).Follows
    (f.callRound s request nodes).2.view := follows_callRound alike.quiet.consistent
  have follows' : (g.view.begin request t.parallelism nodes).Follows
    (g.callRound t request nodes).2.view := follows_callRound alike.quiet'.consistent
  constructor
  · exact quiet_of_pending (done.pending alike.quiet)
  · exact quiet_of_pending (done'.pending alike.quiet')
  · exact unlimited_iff.2 (follows.limited.trans (unlimited_iff.1 alike.unlimited))
  · exact unlimited_iff.2 (follows'.limited.trans (unlimited_iff.1 alike.unlimited'))
  · exact follows.crashing.trans (alike.crashing.trans follows'.crashing.symm)
  · exact alike.servers_of_conducted done done'

end

end Alike

/-! ### Operations -/

/-- No call of either round of a propagation is abandoned. -/
def PropagatesInTime (f : Fleet) (settings : Settings) (held : Versioned Cluster)
    (attempt required : List NodeId) : Prop :=
  f.InTime settings (.update held) (bestEffort attempt (.ofList required)) ∧
    (f.attempted settings held attempt required).InTime settings (.update held)
      (members held.value (.ofList required))

section

variable (alike : Alike f g) {held : Versioned Cluster} {attempt required : List NodeId}
  (inTime : f.PropagatesInTime s held attempt required)
  (inTime' : g.PropagatesInTime t held attempt required)

include alike inTime inTime'

theorem Alike.fst_propagate : (f.propagate s held attempt required).1 =
    (g.propagate t held attempt required).1 := by
  have between : Alike (f.attempted s held attempt required) (g.attempted t held attempt required) :=
    alike.callRound inTime.1 inTime'.1
  rw [Fleet.fst_propagate, Fleet.fst_propagate, alike.fst_callRound inTime.1 inTime'.1,
    between.fst_callRound inTime.2 inTime'.2]

theorem Alike.propagate : Alike (f.propagate s held attempt required).2
    (g.propagate t held attempt required).2 := by
  have between : Alike (f.attempted s held attempt required) (g.attempted t held attempt required) :=
    alike.callRound inTime.1 inTime'.1
  exact between.callRound inTime.2 inTime'.2

theorem Alike.calls_propagate :
    CalledAlike f.calls (f.propagate s held attempt required).2.calls g.calls
      (g.propagate t held attempt required).2.calls := by
  have between : Alike (f.attempted s held attempt required) (g.attempted t held attempt required) :=
    alike.callRound inTime.1 inTime'.1
  exact (alike.calls_callRound inTime.1 inTime'.1).trans
    (between.calls_callRound inTime.2 inTime'.2)

end

theorem Alike.stored? (alike : Alike f g) (node : NodeId) : f.stored? node = g.stored? node := by
  have cluster (o : Option Server) : (o.map Server.untimed).bind (·.cluster) = o.bind (·.cluster) := by
    cases o <;> rfl
  simp only [Fleet.stored?]
  rw [← cluster (f.servers.get? node), alike.servers node, cluster]

/-- Where no call is abandoned, neither the settings nor the delays of the servers nor the order in
which calls go on have a part in what comes back, in which calls reach the client, or in what is left
on the servers. -/
theorem Alike.operations_untimed (alike : Alike f g) :
    (∀ request nodes v w, f.Conducted request nodes v → g.Conducted request nodes w →
      v.outcome f.campaigns.length request = w.outcome g.campaigns.length request ∧
        CalledAlike f.calls v.calls g.calls w.calls ∧
        ∀ node, (v.servers.get? node).map Server.untimed =
          (w.servers.get? node).map Server.untimed) ∧
    ∀ s t,
      (∀ bootstrap required, f.InTime s .cluster (asked bootstrap required) →
        g.InTime t .cluster (asked bootstrap required) →
        (f.latestCluster s bootstrap required).1 = (g.latestCluster t bootstrap required).1 ∧
          CalledAlike f.calls (f.latestCluster s bootstrap required).2.calls g.calls
            (g.latestCluster t bootstrap required).2.calls) ∧
      (∀ c : Cluster, f.InTime s .stores c.nodeIds → g.InTime t .stores c.nodeIds →
        (f.agreedStores s c).1 = (g.agreedStores t c).1 ∧
          CalledAlike f.calls (f.agreedStores s c).2.calls g.calls
            (g.agreedStores t c).2.calls) ∧
      ∀ held attempt required, f.PropagatesInTime s held attempt required →
        g.PropagatesInTime t held attempt required →
        (f.propagate s held attempt required).1 = (g.propagate t held attempt required).1 ∧
          CalledAlike f.calls (f.propagate s held attempt required).2.calls g.calls
            (g.propagate t held attempt required).2.calls ∧
          ∀ node, (f.propagate s held attempt required).2.stored? node =
            (g.propagate t held attempt required).2.stored? node := by
  constructor
  · intro request nodes v w done done'
    exact ⟨alike.outcome done done', alike.calls done done', alike.servers_of_conducted done done'⟩
  intro s t
  refine ⟨?_, ?_, ?_⟩
  · intro bootstrap required inTime inTime'
    have result := congrArg (fun outcome => resolve bootstrap (.ofList required)
      (outcome.takeAll (asked bootstrap required))) (alike.fst_callRound inTime inTime')
    exact ⟨result, alike.calls_callRound inTime inTime'⟩
  · intro c inTime inTime'
    have result := congrArg (fun outcome => agree none (outcome.takeAll c.nodeIds))
      (alike.fst_callRound inTime inTime')
    exact ⟨result, alike.calls_callRound inTime inTime'⟩
  · intro held attempt required inTime inTime'
    exact ⟨alike.fst_propagate inTime inTime', alike.calls_propagate inTime inTime',
      (alike.propagate inTime inTime').stored?⟩

/-- Three servers, of which the second refuses updates, that take a while to answer. -/
def taking (first second third : Nat) : Fleet :=
  ((((holding (.uniform 3 1)).refuseUpdates 1).setDelay 0 first).setDelay 1 second).setDelay 2 third

/-- One call at a time to slow servers, and many at a time to others, with one result. -/
theorem Alike.operations_untimed_slow :
    let held : Versioned Cluster := ⟨.uniform 3 1, .increment .empty 0 1⟩
    ((taking 30 20 0).propagate { parallelism := 0 } held [0, 1] [2]).1 =
        ((taking 0 5 7).propagate {} held [0, 1] [2]).1 ∧
      CalledAlike (taking 30 20 0).calls
        ((taking 30 20 0).propagate { parallelism := 0 } held [0, 1] [2]).2.calls
        (taking 0 5 7).calls ((taking 0 5 7).propagate {} held [0, 1] [2]).2.calls := by
  intro held
  have alike : Alike (taking 30 20 0) (taking 0 5 7) := by
    have same : (taking 30 20 0).servers.map (fun _ => Server.untimed) =
        (taking 0 5 7).servers.map fun _ => Server.untimed := rfl
    refine ⟨⟨rfl, rfl⟩, ⟨rfl, rfl⟩, rfl, rfl, rfl, fun node => ?_⟩
    rw [← SortedMap.get?_map fun _ => Server.untimed, same, SortedMap.get?_map]
  have operations := alike.operations_untimed.2 { parallelism := 0 } {}
  have result := operations.2.2 held [0, 1] [2] ⟨by decide, by decide⟩ ⟨by decide, by decide⟩
  exact ⟨result.1, result.2.1⟩

end Fleet

end Resharding
