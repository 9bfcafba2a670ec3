import Resharding.Proofs.Coordination.Resolution
import Resharding.Proofs.Coordination.Uptake
import Resharding.Topology.Uniform

/-!
Rounds of resolving and propagating.

One client works on a fleet: it resolves the newest cluster of all bootstrap nodes, gives a cluster at
a version incremented from that one to some nodes, and starts again. Between its steps nodes fail,
recover and begin to refuse updates. A propagation may reach any part of the nodes.

What carries over from step to step is `Session.Sound`: the versions that the bootstrap nodes store
are a chain, nothing stored is newer than what was resolved, and the last cluster that some bootstrap
node took is stored somewhere and is the newest by far. So no resolution finds a conflict, and one
that succeeds finds that cluster (`Session.succession`).
-/

namespace Resharding

open Resolution Propagation

/-- A client at work. -/
structure Session where
  fleet : Fleet
  /-- The cluster that has been resolved, until it is used. -/
  resolved : Option (Versioned Cluster)
  /-- What the last propagation gave of those that some bootstrap node took. -/
  taken : Option (Versioned Cluster)

namespace Session

/-- Whether some of the nodes took an update. -/
def someTook (ends : Propagation.Ends) (nodes : List NodeId) : Bool :=
  nodes.any fun node => (ends node).any Except.isOk

/-- One step, in which no call is abandoned. -/
inductive Step (bootstrap : Cluster) : Session → Session → Prop where
  | fail (s : Session) (node : NodeId) : Step bootstrap s { s with fleet := s.fleet.fail node }
  | recover (s : Session) (node : NodeId) :
      Step bootstrap s { s with fleet := s.fleet.recover node }
  | refuseUpdates (s : Session) (node : NodeId) :
      Step bootstrap s { s with fleet := s.fleet.refuseUpdates node }
  | resolve (s : Session) (settings : Settings)
      (inTime : ∀ node ∈ asked bootstrap bootstrap.nodeIds,
        s.fleet.ends settings .cluster (asked bootstrap bootstrap.nodeIds) node ≠ none) :
      Step bootstrap s
        { s with
          fleet := (s.fleet.latestCluster settings bootstrap bootstrap.nodeIds).2
          resolved := (s.fleet.latestCluster settings bootstrap bootstrap.nodeIds).1.toOption }
  | propagate (s : Session) {latest held : Versioned Cluster} (settings : Settings)
      (attempt required : List NodeId) {node : NodeId} {timestamp : UInt64}
      (resolved : s.resolved = some latest)
      (incremented : held.version = latest.version.increment node timestamp)
      (fits : (latest.version.counter node).toNat + 1 < UInt64.size)
      (inTime : ∀ node, node ∈ bestEffort attempt (.ofList required) ∨
          node ∈ members held.value (.ofList required) →
        s.fleet.updateEnds settings held attempt required node ≠ none) :
      Step bootstrap s
        { fleet := (s.fleet.propagate settings held attempt required).2
          resolved := none
          taken :=
            if someTook (s.fleet.updateEnds settings held attempt required) bootstrap.nodeIds then
              some held
            else s.taken }

abbrev Run (bootstrap : Cluster) : Session → Session → Prop :=
  Relation.ReflTransGen (Step bootstrap)

/-- A bootstrap node stores a cluster. -/
def Stores (bootstrap : Cluster) (f : Fleet) (node : NodeId) (held : Versioned Cluster) : Prop :=
  node ∈ bootstrap.nodeIds ∧ f.stored? node = some held

/-- Every bootstrap node stores a cluster, and no two of them were written independently. -/
structure Ready (bootstrap : Cluster) (f : Fleet) : Prop where
  quiet : f.Quiet
  stored : ∀ node ∈ bootstrap.nodeIds, ∃ held, Stores bootstrap f node held
  agreed : ∀ i j a b, Stores bootstrap f i a → Stores bootstrap f j b →
    a.version.relation b.version ≠ .concurrent

/-- What every step keeps. -/
structure Sound (bootstrap : Cluster) (s : Session) : Prop where
  ready : Ready bootstrap s.fleet
  /-- Nothing stored is newer than what was resolved. -/
  resolved : ∀ latest ∈ s.resolved, ∀ node v, Stores bootstrap s.fleet node v →
    v.version ≤ latest.version
  /-- What was taken last is stored, and all else that is stored is older. -/
  taken : ∀ held ∈ s.taken, .empty < held.version ∧
    (∃ node, Stores bootstrap s.fleet node held) ∧
    ∀ node v, Stores bootstrap s.fleet node v → v = held ∨ v.version < held.version

variable {bootstrap : Cluster} {s t : Session} {f : Fleet} {settings : Settings}

/-! ### Changes that leave what is stored -/

theorem stores_congr {g : Fleet} (same : ∀ node, g.stored? node = f.stored? node) :
    Stores bootstrap g = Stores bootstrap f := by
  funext node held
  simp only [Stores]
  rw [same]

theorem Ready.congr {g : Fleet} (ready : Ready bootstrap f) (quiet : g.Quiet)
    (same : ∀ node, g.stored? node = f.stored? node) : Ready bootstrap g := by
  refine ⟨quiet, ?_, ?_⟩
  · rw [stores_congr same]
    exact ready.stored
  · rw [stores_congr same]
    exact ready.agreed

theorem Sound.congr {g : Fleet} (sound : Sound bootstrap s) (quiet : g.Quiet)
    (same : ∀ node, g.stored? node = s.fleet.stored? node) :
    Sound bootstrap { s with fleet := g } := by
  refine ⟨sound.ready.congr quiet same, ?_, ?_⟩
  · dsimp only
    rw [stores_congr same]
    exact sound.resolved
  · dsimp only
    rw [stores_congr same]
    exact sound.taken

theorem stored?_adjust {change : Server → Server} {node : NodeId} (other : NodeId)
    (keeps : ∀ s, (change s).cluster = s.cluster) :
    (f.adjust node change).stored? other = f.stored? other := by
  simp only [Fleet.stored?, Fleet.adjust]
  rw [SortedMap.get?_adjust]
  split
  · rename_i same
    rw [same, Option.bind_some, keeps]
    simp only [SortedMap.getD]
    cases f.servers.get? node <;> rfl
  · rfl

/-- A change of a record that keeps its cluster. -/
theorem Sound.adjust (sound : Sound bootstrap s) {change : Server → Server} (node : NodeId)
    (keeps : ∀ s, (change s).cluster = s.cluster) :
    Sound bootstrap { s with fleet := s.fleet.adjust node change } :=
  sound.congr ⟨sound.ready.quiet.ready, sound.ready.quiet.parked⟩
    fun other => stored?_adjust other keeps

/-! ### Resolving -/

/-- How the calls of a resolution end that needs the answers of all bootstrap nodes. -/
def heard (bootstrap : Cluster) (f : Fleet) (settings : Settings) : Resolution.Ends :=
  f.ends settings .cluster (asked bootstrap bootstrap.nodeIds)

theorem settles_latestCluster (quiet : f.Quiet) (bootstrap : Cluster) (settings : Settings) :
    Settles bootstrap bootstrap.nodeIds (heard bootstrap f settings)
      (f.latestCluster settings bootstrap bootstrap.nodeIds).1 :=
  latest_eq_iff.1 (Fleet.latestCluster_eq quiet.consistent).symm

theorem snd_latestCluster : (f.latestCluster settings bootstrap bootstrap.nodeIds).2 =
    (f.callRound settings .cluster (asked bootstrap bootstrap.nodeIds)).2 := by
  simp only [Fleet.latestCluster, asked]

/-- A node answers what it stores. -/
theorem stores_of_answers (quiet : f.Quiet) {node : NodeId} {held : Versioned Cluster}
    (answers : Answers bootstrap bootstrap.nodeIds (heard bootstrap f settings) node held) :
    Stores bootstrap f node held := by
  obtain ⟨s, here, reply⟩ := quiet.exists_server_of_ends answers.2
  refine ⟨answers.1.elim id id, ?_⟩
  simp only [Fleet.stored?]
  rw [here, Option.bind_some]
  simp only [Request.reply] at reply
  split at reply
  · rename_i held' stored
    cases reply
    exact stored
  · cases reply

theorem answers_of_stores (quiet : f.Quiet) {node : NodeId} {held : Versioned Cluster}
    (answered : ∀ node, ¬ Missing bootstrap.nodeIds (heard bootstrap f settings) node)
    (stores : Stores bootstrap f node held) :
    Answers bootstrap bootstrap.nodeIds (heard bootstrap f settings) node held := by
  have answers : ∃ v, heard bootstrap f settings node = some (.ok v) := by
    by_contra none
    rw [not_exists] at none
    exact answered node ⟨stores.1, none⟩
  obtain ⟨v, ended⟩ := answers
  have same := stores_of_answers quiet ⟨.inl stores.1, ended⟩
  cases stores.2.symm.trans same.2
  exact ⟨.inl stores.1, ended⟩

theorem Ready.not_conflict (ready : Ready bootstrap f) (i j : NodeId) :
    ¬ Conflict bootstrap bootstrap.nodeIds (heard bootstrap f settings) i j := by
  rintro ⟨-, a, b, ofI, ofJ, concurrent⟩
  exact ready.agreed i j a b (stores_of_answers ready.quiet ofI) (stores_of_answers ready.quiet ofJ)
    concurrent

/-- What is resolved is at least as new as all that is stored, and is stored if it was written. -/
theorem Ready.resolved (ready : Ready bootstrap f) {latest : Versioned Cluster}
    (ok : (f.latestCluster settings bootstrap bootstrap.nodeIds).1 = .ok latest) :
    (∀ node v, Stores bootstrap f node v → v.version ≤ latest.version) ∧
      (latest.version ≤ .empty ∨ ∃ node, Stores bootstrap f node latest) := by
  have settles := settles_latestCluster ready.quiet bootstrap settings
  rw [ok] at settles
  cases settles with
  | newest answered _ first ofNode _ =>
    refine ⟨?_, .inr ⟨_, stores_of_answers ready.quiet ofNode⟩⟩
    intro node v stores
    exact first.1.le ofNode (answers_of_stores ready.quiet answered stores)
  | unwritten answered _ equal =>
    refine ⟨?_, .inl (Clock.le_refl _)⟩
    intro node v stores
    have same := equal node v (answers_of_stores ready.quiet answered stores)
    exact (Clock.relation_eq_equal_iff.1 same).1

theorem Sound.resolve (sound : Sound bootstrap s)
    (inTime : ∀ node ∈ asked bootstrap bootstrap.nodeIds,
      s.fleet.ends settings .cluster (asked bootstrap bootstrap.nodeIds) node ≠ none) :
    Sound bootstrap
      { s with
        fleet := (s.fleet.latestCluster settings bootstrap bootstrap.nodeIds).2
        resolved := (s.fleet.latestCluster settings bootstrap bootstrap.nodeIds).1.toOption } := by
  have quiet := sound.ready.quiet
  have same (node : NodeId) : (s.fleet.latestCluster settings bootstrap bootstrap.nodeIds).2.stored?
      node = s.fleet.stored? node := by
    simp only [Fleet.stored?]
    rw [snd_latestCluster, quiet.get?_callRound fun _ => rfl]
  have after : (s.fleet.latestCluster settings bootstrap bootstrap.nodeIds).2.Quiet := by
    rw [snd_latestCluster]
    exact quiet.tracked_callRound.quiet ((Fleet.over_self _).callRound quiet.consistent inTime)
  have kept := sound.congr after same
  refine ⟨kept.ready, ?_, kept.taken⟩
  intro latest mem node v stores
  have stores' : Stores bootstrap s.fleet node v := ⟨stores.1, (same node).symm.trans stores.2⟩
  cases result : (s.fleet.latestCluster settings bootstrap bootstrap.nodeIds).1 with
  | error e =>
    dsimp only at mem
    rw [result] at mem
    cases mem
  | ok latest' =>
    dsimp only at mem
    rw [result] at mem
    cases mem
    exact (sound.ready.resolved result).1 node v stores'

/-! ### Propagating -/

section Propagate

variable {held : Versioned Cluster} {attempt required : List NodeId}
  (inTime : ∀ node, node ∈ bestEffort attempt (.ofList required) ∨
      node ∈ members held.value (.ofList required) →
    f.updateEnds settings held attempt required node ≠ none)

include inTime

/-- A node takes the cluster or keeps what it stored. -/
theorem stored?_propagate (quiet : f.Quiet) (node : NodeId) :
    Took (f.updateEnds settings held attempt required) node ∧
        (f.propagate settings held attempt required).2.stored? node = some held ∨
      ¬ Took (f.updateEnds settings held attempt required) node ∧
        (f.propagate settings held attempt required).2.stored? node = f.stored? node := by
  rcases ended : f.updateEnds settings held attempt required node with _ | e | _
  · refine .inr ⟨fun took => (nomatch ended.symm.trans took), ?_⟩
    unfold Fleet.stored?
    rw [Fleet.get?_of_not_called quiet (fun mem => inTime node (.inl mem) ended)
      fun mem => inTime node (.inr mem) ended]
  · refine .inr ⟨fun took => (nomatch ended.symm.trans took), ?_⟩
    unfold Fleet.stored?
    rw [Fleet.get?_of_refused quiet ended]
  · exact .inl ⟨ended, Fleet.stored?_of_took quiet ended⟩

theorem stores_propagate (quiet : f.Quiet) {node : NodeId} {v : Versioned Cluster}
    (stores : Stores bootstrap (f.propagate settings held attempt required).2 node v) :
    v = held ∨ Stores bootstrap f node v := by
  rcases stored?_propagate inTime quiet node with ⟨-, now⟩ | ⟨-, now⟩
  · exact .inl (Option.some.inj (stores.2.symm.trans now))
  · exact .inr ⟨stores.1, now.symm.trans stores.2⟩

/-- Giving a cluster that is newer than all that is stored. -/
theorem Ready.propagate (ready : Ready bootstrap f)
    (newer : ∀ node v, Stores bootstrap f node v → v.version < held.version) :
    Ready bootstrap (f.propagate settings held attempt required).2 := by
  refine ⟨ready.quiet.propagate (fun node mem => inTime node (.inl mem))
    fun node mem => inTime node (.inr mem), fun node mem => ?_, ?_⟩
  · rcases stored?_propagate inTime ready.quiet node with ⟨-, now⟩ | ⟨-, now⟩
    · exact ⟨held, mem, now⟩
    · obtain ⟨v, stores⟩ := ready.stored node mem
      exact ⟨v, mem, now.trans stores.2⟩
  · intro i j a b ofI ofJ
    rw [Clock.relation_ne_concurrent_iff]
    rcases stores_propagate inTime ready.quiet ofI with rfl | old <;>
      rcases stores_propagate inTime ready.quiet ofJ with rfl | old'
    · exact .inl (Clock.le_refl _)
    · exact .inr (newer j b old').1
    · exact .inl (newer i a old).1
    · exact Clock.relation_ne_concurrent_iff.1 (ready.agreed i j a b old old')

end Propagate

theorem someTook_iff {ends : Propagation.Ends} {nodes : List NodeId} :
    someTook ends nodes ↔ ∃ node ∈ nodes, Took ends node := by
  unfold someTook Took
  rw [List.any_eq_true]
  apply exists_congr
  intro node
  apply and_congr_right
  intro _
  rcases ends node with _ | e | ⟨⟩
  · exact iff_of_false nofun nofun
  · exact iff_of_false nofun nofun
  · exact iff_of_true rfl rfl

theorem Sound.propagate (sound : Sound bootstrap s) {latest held : Versioned Cluster}
    {attempt required : List NodeId} {node : NodeId} {timestamp : UInt64}
    (resolved : s.resolved = some latest)
    (incremented : held.version = latest.version.increment node timestamp)
    (fits : (latest.version.counter node).toNat + 1 < UInt64.size)
    (inTime : ∀ node, node ∈ bestEffort attempt (.ofList required) ∨
        node ∈ members held.value (.ofList required) →
      s.fleet.updateEnds settings held attempt required node ≠ none) :
    Sound bootstrap
      { fleet := (s.fleet.propagate settings held attempt required).2
        resolved := none
        taken :=
          if someTook (s.fleet.updateEnds settings held attempt required) bootstrap.nodeIds then
            some held
          else s.taken } := by
  have quiet := sound.ready.quiet
  have above : latest.version < held.version := incremented ▸ Clock.lt_increment timestamp fits
  have newer (m : NodeId) (v : Versioned Cluster) (stores : Stores bootstrap s.fleet m v) :
      v.version < held.version :=
    Clock.lt_of_le_of_lt (sound.resolved latest resolved m v stores) above
  refine ⟨sound.ready.propagate inTime newer, nofun, ?_⟩
  intro last mem
  dsimp only at mem ⊢
  split at mem
  · rename_i took
    cases mem
    obtain ⟨taker, inBootstrap, took⟩ := someTook_iff.1 took
    refine ⟨Clock.lt_of_le_of_lt (Clock.empty_le _) above,
      ⟨taker, inBootstrap, Fleet.stored?_of_took quiet took⟩, fun m v stores => ?_⟩
    exact (stores_propagate inTime quiet stores).imp_right (newer m v)
  · rename_i untaken
    have same (m : NodeId) (inBootstrap : m ∈ bootstrap.nodeIds) :
        (s.fleet.propagate settings held attempt required).2.stored? m = s.fleet.stored? m := by
      rcases stored?_propagate inTime quiet m with ⟨took, -⟩ | ⟨-, now⟩
      · exact absurd (someTook_iff.2 ⟨m, inBootstrap, took⟩) untaken
      · exact now
    obtain ⟨written, ⟨holder, holds⟩, rest⟩ := sound.taken last mem
    refine ⟨written, ⟨holder, holds.1, (same holder holds.1).trans holds.2⟩, ?_⟩
    intro m v stores
    exact rest m v ⟨stores.1, (same m stores.1).symm.trans stores.2⟩

/-! ### Runs -/

theorem Step.sound (step : Step bootstrap s t) (sound : Sound bootstrap s) : Sound bootstrap t := by
  cases step with
  | fail node => exact sound.adjust node fun _ => rfl
  | recover node => exact sound.adjust node fun _ => rfl
  | refuseUpdates node => exact sound.adjust node fun _ => rfl
  | resolve settings inTime => exact sound.resolve inTime
  | propagate settings attempt required resolved incremented fits inTime =>
    exact sound.propagate resolved incremented fits inTime

theorem Run.sound (run : Run bootstrap s t) (sound : Sound bootstrap s) : Sound bootstrap t := by
  induction run with
  | refl => exact sound
  | tail _ step ih => exact step.sound ih

theorem Ready.sound (ready : Ready bootstrap f) : Sound bootstrap ⟨f, none, none⟩ :=
  ⟨ready, nofun, nofun⟩

/-- After any run of a client, the bootstrap nodes agree on the order of what they store, resolving
finds no conflict, and resolving finds what was taken last if it succeeds. -/
theorem succession (ready : Ready bootstrap f) (run : Run bootstrap ⟨f, none, none⟩ s) :
    (∀ node ∈ bootstrap.nodeIds, ∃ held, Stores bootstrap s.fleet node held) ∧
      (∀ i j a b, Stores bootstrap s.fleet i a → Stores bootstrap s.fleet j b →
        a.version.relation b.version ≠ .concurrent) ∧
      (∀ settings i a j b, (s.fleet.latestCluster settings bootstrap bootstrap.nodeIds).1 ≠
        .error (.versionConflict i a j b)) ∧
      ∀ held ∈ s.taken, ∀ settings latest,
        (s.fleet.latestCluster settings bootstrap bootstrap.nodeIds).1 = .ok latest →
          latest = held := by
  have sound := Run.sound run ready.sound
  refine ⟨sound.ready.stored, sound.ready.agreed, ?_, ?_⟩
  · intro settings i a j b conflicts
    have settles := settles_latestCluster sound.ready.quiet bootstrap settings
    rw [conflicts] at settles
    cases settles with
    | conflict _ _ second _ _ => exact sound.ready.not_conflict _ _ second.1
  · intro held mem settings latest ok
    obtain ⟨written, ⟨holder, holds⟩, rest⟩ := sound.taken held mem
    obtain ⟨top, unwritten | ⟨node, stores⟩⟩ := sound.ready.resolved ok
    · exact absurd (Clock.le_trans (top holder held holds) unwritten) written.2
    · rcases rest node latest stores with same | older
      · exact same
      · exact absurd (top holder held holds) older.2

/-! ### A run -/

theorem stored?_holding (c : Cluster) (node : NodeId) :
    (Fleet.holding c).stored? node = if node ∈ c.nodeIds then some (.initial c) else none := by
  simp only [Fleet.stored?, Fleet.holding]
  rw [SortedMap.get?_ofList_const, apply_ite (Option.bind · _)]
  rfl

/-- A fleet that holds a cluster is ready for a client of it. -/
theorem Ready.holding (c : Cluster) : Ready c (.holding c) := by
  have first {node : NodeId} {held : Versioned Cluster}
      (stores : Stores c (.holding c) node held) : held = .initial c := by
    have stored := stores.2
    rw [stored?_holding, if_pos stores.1] at stored
    exact (Option.some.inj stored).symm
  refine ⟨⟨rfl, rfl⟩, ?_, ?_⟩
  · intro node mem
    exact ⟨.initial c, mem, (stored?_holding c node).trans (if_pos mem)⟩
  · intro i j a b ofI ofJ
    rw [first ofI, first ofJ]
    exact Clock.relation_ne_concurrent_iff.2 (.inl (Clock.le_refl _))

/-- Three nodes whose cluster has been resolved. After that the second has failed, and the third has
begun to refuse updates. -/
def wavering : Session where
  fleet := (((Fleet.holding (.uniform 3 1)).latestCluster {} (.uniform 3 1)
    (Cluster.uniform 3 1).nodeIds).2.fail 1).refuseUpdates 2
  resolved := some (.initial (.uniform 3 1))
  taken := none

/-- A propagation has reached the first of them only, and the second has recovered. -/
def halfway : Session where
  fleet := (wavering.fleet.propagate {} Fleet.doubled [1] [2, 0]).2.recover 1
  resolved := none
  taken := some Fleet.doubled

theorem run_halfway : Run (.uniform 3 1) ⟨.holding (.uniform 3 1), none, none⟩ halfway := by
  have answered : (asked (.uniform 3 1) (Cluster.uniform 3 1).nodeIds).all fun node =>
      ((Fleet.holding (.uniform 3 1)).ends {} .cluster
        (asked (.uniform 3 1) (Cluster.uniform 3 1).nodeIds) node).isSome := by decide +kernel
  have resolve := Step.resolve ⟨.holding (.uniform 3 1), none, none⟩ {} fun node mem =>
    Option.isSome_iff_ne_none.1 (List.all_eq_true.1 answered node mem)
  have wavers : Run (.uniform 3 1) ⟨.holding (.uniform 3 1), none, none⟩ wavering :=
    ((Relation.ReflTransGen.single resolve).tail (.fail _ 1)).tail (.refuseUpdates _ 2)
  have told : (bestEffort [1] (.ofList [2, 0]) ++
      members Fleet.doubled.value (.ofList [2, 0])).all fun node =>
        (wavering.fleet.updateEnds {} Fleet.doubled [1] [2, 0] node).isSome := by decide +kernel
  have propagate := @Step.propagate (.uniform 3 1) wavering (.initial (.uniform 3 1))
    Fleet.doubled {} [1] [2, 0] 0 7 rfl rfl (by decide) fun node called =>
      Option.isSome_iff_ne_none.1 (List.all_eq_true.1 told node (List.mem_append.2 called))
  exact (wavers.tail propagate).tail (.recover _ 1)

/-- The propagation fails, but what the first node took is found from then on. -/
theorem succession_halfway :
    (wavering.fleet.propagate {} Fleet.doubled [1] [2, 0]).1 =
        .error (.notTaken Fleet.doubled.value.text Fleet.doubled.version [2]) ∧
      (halfway.fleet.latestCluster {} (.uniform 3 1) (Cluster.uniform 3 1).nodeIds).1 =
        .ok Fleet.doubled ∧
      ∀ settings latest,
        (halfway.fleet.latestCluster settings (.uniform 3 1) (Cluster.uniform 3 1).nodeIds).1 =
          .ok latest → latest = Fleet.doubled :=
  ⟨rfl, rfl, (succession (.holding _) run_halfway).2.2.2 Fleet.doubled rfl⟩

end Session

end Resharding
