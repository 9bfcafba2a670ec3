import Resharding.Proofs.Coordination.Propagation
import Resharding.Proofs.Fleet.Backlog
import Resharding.Topology.Uniform

/-!
When the update calls of a propagation start.

The required nodes are called after the others, but the round of the others is left behind when the
shutdown timeout has passed. If more of its calls are late than may run at once, those beyond start
later, when slots become free: after the first required node has been called, or even after the
propagation has come back (`propagate_leaves_calls`). That is the only way in which a call comes out of
turn (`updates_issued`).
-/

namespace Resharding.Fleet

open Propagation

variable {f : Fleet} {settings : Settings} {held : Versioned Cluster}
  {attempt required : List NodeId}

theorem reaching_congr {g : Fleet} (same : g.crashing = f.crashing) (request : Request)
    (nodes : List NodeId) : g.reaching request nodes = f.reaching request nodes := by
  simp only [reaching]
  rw [same]

/-- When the required nodes come to be called, as many of the other calls are still to start as are late
beyond those that may run at once, and likewise for the calls to the required nodes when the
propagation comes back; fewer may be if calls break down. If every call under way has started before,
and no more calls of a round are late than may run at once, then the calls of the first round start
before any of the second, those of the second before the propagation comes back, and none after. -/
theorem updates_issued (reachable : f.Reachable) (settings : Settings) (held : Versioned Cluster)
    (attempt required : List NodeId) :
    let optional := bestEffort attempt (.ofList required)
    let obliged := members held.value (.ofList required)
    let first := f.attempted settings held attempt required
    let last := (f.propagate settings held attempt required).2
    let slots := max settings.parallelism 1
    (first.view.unissued f.campaigns.length ≤ f.late settings (.update held) optional - slots ∧
      ((∀ node ∈ optional, node ∉ f.crashing) →
        first.view.unissued f.campaigns.length = f.late settings (.update held) optional - slots)) ∧
    (last.view.unissued first.campaigns.length ≤
        first.late settings (.update held) obliged - slots ∧
      ((∀ node ∈ obliged, node ∉ f.crashing) →
        last.view.unissued first.campaigns.length =
          first.late settings (.update held) obliged - slots)) ∧
    (f.view.Issued → f.late settings (.update held) optional ≤ slots →
      first.view.Issued ∧ ∃ one, first.calls = f.calls ++ one ∧
        one.Perm (f.reaching (.update held) optional)) ∧
    (first.view.Issued → first.late settings (.update held) obliged ≤ slots →
      (∃ two, last.calls = first.calls ++ two ∧ two.Perm (f.reaching (.update held) obliged)) ∧
        ∀ w, Events last.view w → w.calls = last.calls) := by
  intro optional obliged first last slots
  have ok := reachable.consistent
  have ok' : first.view.Consistent := consistent_attempted ok
  have crashing : first.crashing = f.crashing :=
    (events_callRound ok settings (.update held) optional).follows.crashing
  have distinct : optional.Nodup := nodup_bestEffort
  have distinct' : obliged.Nodup := nodup_members
  have one := unissued_callRound ok settings (.update held) distinct
  have two := unissued_callRound ok' settings (.update held) distinct'
  rw [crashing] at two
  refine ⟨one, two, ?_, ?_⟩
  · intro issued few
    exact issued_callRound ok distinct issued few
  · intro issued few
    obtain ⟨after, more, split, perm⟩ := issued_callRound ok' distinct' issued few
    rw [reaching_congr crashing] at perm
    constructor
    · exact ⟨more, split, perm⟩
    · intro w events
      exact (events.issued after).2

/-- Three servers of which the first is slow. -/
def tardy : Fleet := (holding (.uniform 3 1)).setDelay 0 300

def spread : Versioned Cluster := ⟨.uniform 3 1, .ofEntries [(0, 1)] 0⟩

/-- So many calls at once, and no patience with the slow server. -/
def hasty (parallelism : Nat) : Settings := { parallelism, shutdownTimeout := 50 }

/-- With one call at a time the slow server holds up another call; with two it does not. -/
theorem updates_issued_hasty :
    (tardy.attempted (hasty 1) spread [0, 1] [2]).view.unissued 0 = 1 ∧
      ∃ one two, (tardy.propagate (hasty 2) spread [0, 1] [2]).2.calls = one ++ two ∧
        one.Perm [⟨0, .updateCluster⟩, ⟨1, .updateCluster⟩] ∧
        two.Perm [⟨2, .updateCluster⟩] := by
  have reachable : tardy.Reachable := .adjust (.fresh 0 _ none .empty) 0 _
  have narrow := updates_issued reachable (hasty 1) spread [0, 1] [2]
  have wide := updates_issued reachable (hasty 2) spread [0, 1] [2]
  have late : tardy.late (hasty 1) (.update spread) (bestEffort [0, 1] (.ofList [2])) = 2 := by
    decide +kernel
  have sound : ∀ node ∈ bestEffort [0, 1] (.ofList [2]), node ∉ tardy.crashing :=
    fun node _ => SortedMap.not_mem_empty node
  have issued : tardy.view.Issued := by
    intro e mem
    rw [Quiet.pending ⟨rfl, rfl⟩] at mem
    exact absurd mem (Multiset.notMem_zero e)
  have unissued := narrow.1.2 sound
  rw [late] at unissued
  obtain ⟨issued', one, first, perm⟩ := wide.2.2.1 issued (by decide +kernel)
  obtain ⟨⟨two, last, perm'⟩, -⟩ := wide.2.2.2 issued' (by decide +kernel)
  refine ⟨unissued, one, two, ?_, perm, perm'⟩
  rw [last, first]
  rfl

/-- The call to the second server starts only when the propagation has long come back. -/
theorem propagate_leaves_calls :
    (tardy.propagate (hasty 1) spread [0, 1] [2]).1 = .ok ⟨[2], [0, 1]⟩ ∧
      (tardy.propagate (hasty 1) spread [0, 1] [2]).2.calls =
        [⟨0, .updateCluster⟩, ⟨2, .updateCluster⟩] ∧
      ((tardy.propagate (hasty 1) spread [0, 1] [2]).2.sleep 400).calls =
        [⟨0, .updateCluster⟩, ⟨2, .updateCluster⟩, ⟨1, .updateCluster⟩] := by
  decide +kernel

end Resharding.Fleet
