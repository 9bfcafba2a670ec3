import Resharding.Proofs.Coordination.Succession
import Resharding.Proofs.Fleet.Landing
import Resharding.Proofs.Version.Order
import Resharding.Topology.Uniform

/-!
Propagations one after the other, whose calls go on after them.

A propagation that has abandoned a call does not take it back, and a server takes whatever it is given.
So the version that a node stores moves back if the call of an older propagation lands after that of a
newer one (`propagate_overtaken`). Nothing else makes it move back (`never_back`): a call that
lands replaces a version by one that is no older, unless a newer propagation had called the node while
the call was under way, and has overtaken it.
-/

namespace Resharding

/-- A fleet's view, and the newest version that has been given to nodes. -/
structure Ledger where
  view : View
  newest : Clock

/-- The newest version once a round asks something. -/
def Request.newest (newest : Clock) : Request → Clock
  | update held => held.version
  | _ => newest

/-- One small change while propagations are made, each with a version that is no older than those
before. Other rounds may be made between them, servers may change in anything but their clusters, and
calls may begin to crash. -/
inductive Turn : Ledger → Ledger → Prop where
  | event {v w : View} (newest : Clock) (event : Event v w) : Turn ⟨v, newest⟩ ⟨w, newest⟩
  | begin (v : View) {newest : Clock} {request : Request}
      (newer : ∀ held, request = .update held → newest ≤ held.version) (parallelism : Nat)
      (nodes : List NodeId) :
      Turn ⟨v, newest⟩ ⟨v.begin request parallelism nodes, request.newest newest⟩
  | adjust (v : View) (newest : Clock) (node : NodeId) {change : Server → Server}
      (keeps : ∀ s, (change s).cluster = s.cluster) :
      Turn ⟨v, newest⟩ ⟨{ v with servers := v.servers.adjust node {} change }, newest⟩
  | crash (v : View) (newest : Clock) (crashing : SortedMap NodeId String) :
      Turn ⟨v, newest⟩ ⟨{ v with crashing }, newest⟩

abbrev Turns : Ledger → Ledger → Prop := Relation.ReflTransGen Turn

theorem Request.newest_le {newest : Clock} {request : Request}
    (newer : ∀ held, request = .update held → newest ≤ held.version) :
    newest ≤ request.newest newest := by
  cases request with
  | update held => exact newer held rfl
  | _ => exact Clock.le_refl _

namespace View

variable {v : View} {node : NodeId}

theorem stored?_adjust {at' : NodeId} {change : Server → Server}
    (keeps : ∀ s, (change s).cluster = s.cluster) :
    ({ v with servers := v.servers.adjust at' {} change } : View).stored? node = v.stored? node :=
  Session.stored?_adjust (f := { servers := v.servers }) node keeps

end View

/-! ### Where stored versions come from -/

/-- What is so after turns from a view `v₀` in which no call was under way, nothing stored was newer
than `first`, and nothing newer than `first` had been given. -/
structure Sourced (v₀ : View) (first : Clock) (l : Ledger) : Prop where
  consistent : l.view.Consistent
  young : v₀.Young l.view
  old : v₀.campaigns.length ≤ l.view.campaigns.length
  atLeast : first ≤ l.newest
  given : ∀ {i held}, v₀.campaigns.length ≤ i → l.view.request? i = some (.update held) →
    first ≤ held.version ∧ held.version ≤ l.newest
  /-- A later round gives a version that is no older. -/
  ascending : ∀ {i j a b}, v₀.campaigns.length ≤ i → i ≤ j →
    l.view.request? i = some (.update a) → l.view.request? j = some (.update b) →
    a.version ≤ b.version
  /-- What a node stores was there at first, or is from a call that has landed. -/
  source : ∀ {node held}, l.view.stored? node = some held → held.version ≤ first ∨
    ∃ i s, v₀.campaigns.length ≤ i ∧ l.view.request? i = some (.update held) ∧
      l.view.task? i node = some (.finished (.ok s))

namespace Sourced

variable {v₀ v w : View} {first newest : Clock} {l m : Ledger}

theorem congr (sourced : Sourced v₀ first ⟨v, newest⟩) (consistent : w.Consistent)
    (young : v₀.Young w) (length : w.campaigns.length = v.campaigns.length)
    (requests : ∀ i, w.request? i = v.request? i)
    (source : ∀ {node held}, w.stored? node = some held → held.version ≤ first ∨
      ∃ i s, v₀.campaigns.length ≤ i ∧ v.request? i = some (.update held) ∧
        w.task? i node = some (.finished (.ok s))) : Sourced v₀ first ⟨w, newest⟩ := by
  constructor
  · exact consistent
  · exact young
  · exact Nat.le_trans sourced.old (Nat.le_of_eq length.symm)
  · exact sourced.atLeast
  · intro i held later asked
    exact sourced.given later ((requests i).symm.trans asked)
  · intro i j a b later before askedA askedB
    exact sourced.ascending later before ((requests i).symm.trans askedA)
      ((requests j).symm.trans askedB)
  · intro node held stored
    rcases source stored with below | ⟨i, s, later, asked, ended⟩
    · exact .inl below
    · exact .inr ⟨i, s, later, (requests i).trans asked, ended⟩

theorem event (sourced : Sourced v₀ first ⟨v, newest⟩) (event : Event v w) :
    Sourced v₀ first ⟨w, newest⟩ := by
  have follows := event.follows
  -- What has been stored so far and stays is from where it was from.
  have kept {node : NodeId} {held : Versioned Cluster} (stored : v.stored? node = some held) :
      held.version ≤ first ∨ ∃ i s, v₀.campaigns.length ≤ i ∧
        v.request? i = some (.update held) ∧ w.task? i node = some (.finished (.ok s)) := by
    rcases sourced.source stored with below | ⟨i, s, later, asked, ended⟩
    · exact .inl below
    · exact .inr ⟨i, s, later, asked, follows.task? ended rfl⟩
  apply sourced.congr (event.consistent sourced.consistent) (event.young sourced.young)
    follows.length follows.request?_eq
  intro node held stored
  rcases event.landing sourced.consistent with ⟨servers, -⟩ | ⟨flight, s, lands⟩
  · have same : w.stored? node = v.stored? node := by
      simp only [View.stored?]
      rw [servers]
    exact kept (same.symm.trans stored)
  · rcases lands.stored? node with same | ⟨rfl, given, asks, -, now⟩
    · exact kept (same.symm.trans stored)
    · cases now.symm.trans stored
      obtain ⟨i, caller, later⟩ := sourced.young _ lands.travelling
      have asked := sourced.consistent.request? lands.travelling caller
      rw [show flight.request = .update held from asks] at asked
      exact .inr ⟨i, s, later, asked, lands.ended caller⟩

theorem begin (sourced : Sourced v₀ first ⟨v, newest⟩) {request : Request}
    (newer : ∀ held, request = .update held → newest ≤ held.version) {parallelism : Nat}
    {nodes : List NodeId} :
    Sourced v₀ first ⟨v.begin request parallelism nodes, request.newest newest⟩ := by
  have grows : newest ≤ request.newest newest := Request.newest_le newer
  have earlier {i : Nat} {held : Versioned Cluster}
      (asked : v.request? i = some (.update held)) : i < v.campaigns.length := by
    obtain ⟨c, there, -⟩ := Option.map_eq_some_iff.1 asked
    exact (List.getElem?_eq_some_iff.1 there).1
  constructor
  · exact sourced.consistent.begin
  · exact sourced.young.begin sourced.old
  · have length : (v.begin request parallelism nodes).campaigns.length = v.campaigns.length + 1 :=
      List.length_append ..
    exact Nat.le_trans sourced.old (Nat.le_trans (Nat.le_succ _) (Nat.le_of_eq length.symm))
  · exact Clock.le_trans sourced.atLeast grows
  · intro i held later asked
    dsimp only at asked
    rw [View.request?_begin] at asked
    split at asked
    · cases asked
      exact ⟨Clock.le_trans sourced.atLeast (newer held rfl), Clock.le_refl _⟩
    · obtain ⟨above, below⟩ := sourced.given later asked
      exact ⟨above, Clock.le_trans below grows⟩
  · intro i j a b later before askedA askedB
    dsimp only at askedA askedB
    rw [View.request?_begin] at askedA askedB
    split at askedB
    · cases askedB
      split at askedA
      · cases askedA
        exact Clock.le_refl _
      · exact Clock.le_trans (sourced.given later askedA).2 (newer b rfl)
    · rw [if_neg (Nat.ne_of_lt (Nat.lt_of_le_of_lt before (earlier askedB)))] at askedA
      exact sourced.ascending later before askedA askedB
  · intro node held stored
    rcases sourced.source stored with below | ⟨i, s, later, asked, ended⟩
    · exact .inl below
    · have apart : i ≠ v.campaigns.length := Nat.ne_of_lt (earlier asked)
      refine .inr ⟨i, s, later, ?_, ?_⟩
      · dsimp only
        rw [View.request?_begin, if_neg apart]
        exact asked
      · dsimp only
        rw [View.task?_begin, if_neg apart]
        exact ended

theorem turn (sourced : Sourced v₀ first l) (turn : Turn l m) : Sourced v₀ first m := by
  cases turn with
  | event newest event => exact sourced.event event
  | begin v newer parallelism nodes => exact sourced.begin newer
  | @adjust v newest node change keeps =>
    have consistent : View.Consistent { v with servers := v.servers.adjust node {} change } :=
      sourced.consistent.congr rfl rfl
    apply sourced.congr consistent sourced.young rfl fun _ => rfl
    intro other held stored
    rw [View.stored?_adjust keeps] at stored
    exact sourced.source stored
  | crash v newest crashing =>
    exact sourced.congr (sourced.consistent.congr rfl rfl) sourced.young rfl (fun _ => rfl)
      sourced.source

theorem turns (sourced : Sourced v₀ first l) (turns : Turns l m) : Sourced v₀ first m := by
  induction turns with
  | refl => exact sourced
  | tail _ turn ih => exact ih.turn turn

end Sourced

/-- An update call that lands now was begun before the call from which the node has what it stores,
which is newer. -/
def Overtaken (v : View) (node : NodeId) (old new : Versioned Cluster) : Prop :=
  ∃ i j s, i < j ∧ (⟨.task i, node, .update new⟩, .travelling) ∈ v.pending ∧
    v.request? j = some (.update old) ∧ v.task? j node = some (.finished (.ok s)) ∧
    new.version < old.version

/-- A call that lands replaces a version by one that is no older, if it has not been overtaken. -/
theorem Sourced.not_back {v₀ v w : View} {first newest : Clock}
    (sourced : Sourced v₀ first ⟨v, newest⟩) (event : Event v w) {node : NodeId}
    {old : Versioned Cluster} (stored : v.stored? node = some old) :
    ∃ new, w.stored? node = some new ∧
      (old.version ≤ new.version ∨ Overtaken v node old new) := by
  have stays (same : w.stored? node = v.stored? node) : ∃ new, w.stored? node = some new ∧
      (old.version ≤ new.version ∨ Overtaken v node old new) :=
    ⟨old, same.trans stored, .inl (Clock.le_refl _)⟩
  rcases event.landing sourced.consistent with ⟨servers, -⟩ | ⟨flight, s, lands⟩
  · apply stays
    simp only [View.stored?]
    rw [servers]
  rcases lands.stored? node with same | ⟨rfl, new, asks, -, now⟩
  · exact stays same
  refine ⟨new, now, ?_⟩
  obtain ⟨i, caller, later⟩ := sourced.young _ lands.travelling
  have asked := sourced.consistent.request? lands.travelling caller
  rw [show flight.request = .update new from asks] at asked
  rcases sourced.source stored with below | ⟨j, s', later', asked', ended⟩
  · exact .inl (Clock.le_trans below (sourced.given later asked).1)
  by_cases before : j ≤ i
  · exact .inl (sourced.ascending later' before asked' asked)
  by_cases newer : old.version ≤ new.version
  · exact .inl newer
  have less : i < j := Nat.lt_of_not_le before
  have flight_eq : flight = ⟨.task i, flight.node, .update new⟩ := by
    rw [← caller, ← show flight.request = .update new from asks]
  refine .inr ⟨i, j, s', less, ?_, asked', ended, ?_⟩
  · rw [← flight_eq]
    exact lands.travelling
  · exact ⟨sourced.ascending later (Nat.le_of_lt less) asked asked', newer⟩

/-! ### What a node keeps -/

section

variable (v : View) (node : NodeId) (low : Clock)

/-- All update calls to the node that are under way give at least the version `low`. -/
def View.Guarded : Prop :=
  ∀ e ∈ v.pending, e.1.node = node → ∀ given, e.1.request = .update given → low ≤ given.version

/-- The node stores at least the version `low`. -/
def View.Holds : Prop := ∃ held, v.stored? node = some held ∧ low ≤ held.version

/-- A node that took an update in a round since the `n`-th stores at least the version `low`. -/
def View.Retains (n : Nat) : Prop :=
  ∀ {i s given}, n ≤ i → v.request? i = some (.update given) →
    v.task? i node = some (.finished (.ok s)) → s.refusesUpdates = false → v.Holds node low

end

section

variable {v w : View} {node : NodeId} {low : Clock} {n : Nat}

theorem Event.guarded (event : Event v w) (guarded : v.Guarded node low) : w.Guarded node low := by
  intro e mem
  obtain ⟨stage, before, -⟩ := event.mem_pending mem
  exact guarded (e.1, stage) before

theorem Event.holds (event : Event v w) (ok : v.Consistent) (guarded : v.Guarded node low)
    (holds : v.Holds node low) : w.Holds node low := by
  obtain ⟨held, stored, above⟩ := holds
  rcases event.landing ok with ⟨servers, -⟩ | ⟨flight, s, lands⟩
  · refine ⟨held, ?_, above⟩
    simp only [View.stored?]
    rw [servers]
    exact stored
  · rcases lands.stored? node with same | ⟨here, given, asks, -, now⟩
    · exact ⟨held, same.trans stored, above⟩
    · exact ⟨given, now, guarded _ lands.travelling here given asks⟩

theorem Event.retains (event : Event v w) (ok : v.Consistent) (guarded : v.Guarded node low)
    (retains : v.Retains node low n) : w.Retains node low n := by
  intro i s given later asked ended takes
  rw [event.follows.request?_eq] at asked
  rcases event.landing ok with ⟨-, finished⟩ | ⟨flight, s', lands⟩
  · exact event.holds ok guarded (retains later asked (finished ended) takes)
  · rcases lands.finished ended with before | ⟨caller, rfl, rfl⟩
    · exact event.holds ok guarded (retains later asked before takes)
    · have asks : flight.request = .update given :=
        Option.some.inj ((ok.request? lands.travelling caller).symm.trans asked)
      exact ⟨given, lands.stored?_of_takes asks takes,
        guarded _ lands.travelling rfl given asks⟩

theorem Events.retains (events : Events v w) (ok : v.Consistent) (guarded : v.Guarded node low)
    (retains : v.Retains node low n) : w.Guarded node low ∧ w.Retains node low n := by
  induction events with
  | refl => exact ⟨guarded, retains⟩
  | tail events event ih =>
    exact ⟨event.guarded ih.1, event.retains (Events.consistent events ok) ih.1 ih.2⟩

theorem View.Guarded.begin (guarded : v.Guarded node low) {request : Request}
    (newer : ∀ held, request = .update held → low ≤ held.version) {parallelism : Nat}
    {nodes : List NodeId} : (v.begin request parallelism nodes).Guarded node low := by
  intro e mem here given asks
  rcases Multiset.mem_add.1 mem with mem | mem
  · exact guarded e mem here given asks
  · obtain ⟨flight, inCalls, rfl⟩ := List.mem_map.1 mem
    obtain ⟨other, -, rfl⟩ := View.mem_roundCalls.1 inCalls
    exact newer given asks

theorem View.Retains.begin (retains : v.Retains node low n) {request : Request} {parallelism : Nat}
    {nodes : List NodeId} : (v.begin request parallelism nodes).Retains node low n := by
  intro i s given later asked ended takes
  rw [View.task?_begin] at ended
  split at ended
  · split at ended <;> cases ended
  · rename_i apart
    rw [View.request?_begin, if_neg apart] at asked
    exact retains later asked ended takes

/-- A node stores at least `low`, and all that is under way or to come gives at least that. -/
structure Secured (node : NodeId) (low : Clock) (l : Ledger) : Prop where
  consistent : l.view.Consistent
  guarded : l.view.Guarded node low
  holds : l.view.Holds node low
  newest : low ≤ l.newest

theorem Secured.turn {l m : Ledger} (secured : Secured node low l) (turn : Turn l m) :
    Secured node low m := by
  cases turn with
  | event newest event =>
    exact ⟨event.consistent secured.consistent, event.guarded secured.guarded,
      event.holds secured.consistent secured.guarded secured.holds, secured.newest⟩
  | @begin v newest request newer parallelism nodes =>
    have above (held : Versioned Cluster) (asks : request = .update held) : low ≤ held.version :=
      Clock.le_trans secured.newest (newer held asks)
    exact ⟨secured.consistent.begin, secured.guarded.begin above, secured.holds,
      Clock.le_trans secured.newest (Request.newest_le newer)⟩
  | @adjust v newest at' change keeps =>
    have holds : View.Holds { v with servers := v.servers.adjust at' {} change } node low := by
      obtain ⟨held, stored, above⟩ := secured.holds
      exact ⟨held, (View.stored?_adjust keeps).trans stored, above⟩
    exact ⟨secured.consistent.congr rfl rfl, secured.guarded, holds, secured.newest⟩
  | crash v newest crashing =>
    exact ⟨secured.consistent.congr rfl rfl, secured.guarded, secured.holds, secured.newest⟩

theorem Secured.turns {l m : Ledger} (secured : Secured node low l) (turns : Turns l m) :
    Secured node low m := by
  induction turns with
  | refl => exact secured
  | tail _ turn ih => exact ih.turn turn

end

/-! ### Propagations -/

theorem Events.turns {v w : View} (events : Events v w) (newest : Clock) :
    Turns ⟨v, newest⟩ ⟨w, newest⟩ := by
  induction events with
  | refl => exact .refl
  | tail _ event ih => exact ih.tail (.event newest event)

namespace Fleet

open Propagation

variable {f : Fleet} {newest : Clock} {settings : Settings} {held : Versioned Cluster}
  {attempt required nodes : List NodeId} {node : NodeId}

theorem turns_callRound (ok : f.view.Consistent) {request : Request}
    (newer : ∀ held, request = .update held → newest ≤ held.version) :
    Turns ⟨f.view, newest⟩
      ⟨(f.callRound settings request nodes).2.view, request.newest newest⟩ :=
  .head (.begin f.view newer settings.parallelism nodes)
    ((events_callRound ok settings request nodes).turns _)

/-- A propagation goes by turns. -/
theorem turns_propagate (ok : f.view.Consistent) (newer : newest ≤ held.version) :
    Turns ⟨f.view, newest⟩
      ⟨(f.propagate settings held attempt required).2.view, held.version⟩ := by
  have first : Turns ⟨f.view, newest⟩
      ⟨(f.attempted settings held attempt required).view, held.version⟩ :=
    turns_callRound ok fun _ same => by
      cases same
      exact newer
  have second : Turns ⟨(f.attempted settings held attempt required).view, held.version⟩
      ⟨(f.propagate settings held attempt required).2.view, held.version⟩ :=
    turns_callRound (consistent_attempted ok) fun _ same => by
      cases same
      exact Clock.le_refl _
  exact first.trans second

theorem turns_sleep (ok : f.view.Consistent) (duration : Nat) :
    Turns ⟨f.view, newest⟩ ⟨(f.sleep duration).view, newest⟩ :=
  (events_run ok (fun _ => false) (some (f.now + duration))).turns newest

/-- No update call to the node is under way. -/
def Clear (f : Fleet) (node : NodeId) : Prop :=
  ∀ e ∈ f.view.pending, e.1.node = node → ∀ given, e.1.request ≠ .update given

theorem Quiet.clear (quiet : f.Quiet) (node : NodeId) : f.Clear node := by
  intro e mem
  rw [quiet.pending] at mem
  exact absurd mem (Multiset.notMem_zero e)

theorem retains_callRound (ok : f.view.Consistent) (guarded : f.view.Guarded node held.version)
    {n : Nat} (retains : f.view.Retains node held.version n) :
    (f.callRound settings (.update held) nodes).2.view.Guarded node held.version ∧
      (f.callRound settings (.update held) nodes).2.view.Retains node held.version n := by
  apply (events_callRound ok settings (.update held) nodes).retains ok.begin _ retains.begin
  apply guarded.begin
  intro given same
  cases same
  exact Clock.le_refl _

/-- A node that takes an update while no other one is under way to it stores it, or what is newer. -/
theorem secured_propagate (ok : f.view.Consistent) (clear : f.Clear node)
    (took : Took (f.updateEnds settings held attempt required) node) :
    Secured node held.version
      ⟨(f.propagate settings held attempt required).2.view, held.version⟩ := by
  have guarded : f.view.Guarded node held.version :=
    fun e mem here given asks => absurd asks (clear e mem here given)
  have retains : f.view.Retains node held.version f.campaigns.length := by
    intro i s given later asked ended
    rw [View.task?_of_length_le later] at ended
    cases ended
  have first : (f.attempted settings held attempt required).view.Guarded node held.version ∧
      (f.attempted settings held attempt required).view.Retains node held.version
        f.campaigns.length := retains_callRound ok guarded retains
  have second : (f.propagate settings held attempt required).2.view.Guarded node held.version ∧
      (f.propagate settings held attempt required).2.view.Retains node held.version
        f.campaigns.length := retains_callRound (consistent_attempted ok) first.1 first.2
  obtain ⟨i, task, later, asked, here, ⟨-, crashed⟩ | ⟨found, rfl, answer⟩⟩ :=
    exists_task_of_updateEnds ok took
  · cases crashed
  obtain ⟨s, rfl, takes⟩ := exists_server_of_answer answer.symm
  exact ⟨consistent_propagate ok, second.1,
    second.2 later asked here takes, Clock.le_refl _⟩

theorem Quiet.sourced (quiet : f.Quiet) {first : Clock}
    (below : ∀ node held, f.stored? node = some held → held.version ≤ first) :
    Sourced f.view first ⟨f.view, first⟩ where
  consistent := quiet.consistent
  young := quiet.tracked.young
  old := Nat.le_refl _
  atLeast := Clock.le_refl _
  given later asked := by
    obtain ⟨c, there, -⟩ := Option.map_eq_some_iff.1 asked
    exact absurd (List.getElem?_eq_some_iff.1 there).1 (Nat.not_lt.2 later)
  ascending later _ asked := by
    obtain ⟨c, there, -⟩ := Option.map_eq_some_iff.1 asked
    exact absurd (List.getElem?_eq_some_iff.1 there).1 (Nat.not_lt.2 later)
  source stored := .inl (below _ _ stored)

/-- Propagations are made one after the other, each with a version that is no older than those before
and than what is stored at first. Whatever happens to their calls, a call that lands on a node replaces
a version by one that is no older, unless the call of a later propagation has overtaken it. So a node
that is reported to have taken an update, while no earlier one was under way to it, keeps it or gets
what is newer. -/
theorem never_back (quiet : f.Quiet) {first : Clock}
    (below : ∀ node held, f.stored? node = some held → held.version ≤ first) :
    (∀ (g : Fleet) newest, Turns ⟨f.view, first⟩ ⟨g.view, newest⟩ →
      (∀ settings held attempt required, newest ≤ held.version →
        Turns ⟨f.view, first⟩
          ⟨(g.propagate settings held attempt required).2.view, held.version⟩) ∧
      (∀ duration, Turns ⟨f.view, first⟩ ⟨(g.sleep duration).view, newest⟩) ∧
      (∀ node reason, Turns ⟨f.view, first⟩ ⟨(g.crash node reason).view, newest⟩) ∧
      ∀ node change, (∀ s, (change s).cluster = s.cluster) →
        Turns ⟨f.view, first⟩ ⟨(g.adjust node change).view, newest⟩) ∧
    (∀ v newest w, Turns ⟨f.view, first⟩ ⟨v, newest⟩ → Event v w →
      ∀ node old, v.stored? node = some old → ∃ new, w.stored? node = some new ∧
        (new.version.relation old.version = .after ∨ new.version.relation old.version = .equal ∨
          Overtaken v node old new)) ∧
    ∀ (g : Fleet) newest settings held attempt required report,
      Turns ⟨f.view, first⟩ ⟨g.view, newest⟩ → newest ≤ held.version →
      (g.propagate settings held attempt required).1 = .ok report →
      ∀ node ∈ report.updated, g.Clear node →
        ∀ l, Turns ⟨(g.propagate settings held attempt required).2.view, held.version⟩ l →
          ∃ kept, l.view.stored? node = some kept ∧
            (kept.version.relation held.version = .after ∨
              kept.version.relation held.version = .equal) := by
  have start := quiet.sourced below
  refine ⟨?_, ?_, ?_⟩
  · intro g newest turns
    have ok := (start.turns turns).consistent
    exact ⟨fun _ _ _ _ newer => turns.trans (turns_propagate ok newer),
      fun duration => turns.trans (turns_sleep ok duration),
      fun node reason => turns.tail (.crash g.view newest (g.crashing.insert node reason)),
      fun node change keeps => turns.tail (.adjust g.view newest node keeps)⟩
  · intro v newest w turns event node old stored
    obtain ⟨new, now, no_older | overtaken⟩ := (start.turns turns).not_back event stored
    · have relation := Clock.relation_after_or_equal_iff.2 no_older
      exact ⟨new, now, relation.imp_right .inl⟩
    · exact ⟨new, now, .inr (.inr overtaken)⟩
  · intro g newest settings held attempt required report turns newer done node updated clear l rest
    have ok : g.view.Consistent := (start.turns turns).consistent
    rw [propagate_eq ok] at done
    have took := took_of_mem_updated done updated
    obtain ⟨kept, stored, no_older⟩ := ((secured_propagate ok clear took).turns rest).holds
    exact ⟨kept, stored, Clock.relation_after_or_equal_iff.2 no_older⟩

/-- The `n`-th version of a cluster of two nodes. -/
def edition (n : UInt64) : Versioned Cluster := ⟨.uniform 2 1, .ofEntries [(0, n)] 0⟩

/-- Two servers that have taken the first edition. -/
def issued : Fleet := ((holding (.uniform 2 1)).propagate {} (edition 1) [0, 1] []).2

/-- The second node has not gone back to the first edition a while after it has taken the second. -/
theorem never_back_edition :
    ∃ kept, ((issued.propagate {} (edition 2) [0] [1]).2.sleep 400).stored? 1 = some kept ∧
      (kept.version.relation (edition 2).version = .after ∨
        kept.version.relation (edition 2).version = .equal) := by
  have quiet : (holding (.uniform 2 1)).Quiet := ⟨rfl, rfl⟩
  have below (node : NodeId) (held : Versioned Cluster)
      (stored : (holding (.uniform 2 1)).stored? node = some held) : held.version ≤ .empty := by
    rw [Session.stored?_holding] at stored
    cases (Option.ite_none_right_eq_some.1 stored).2
    exact Clock.le_refl _
  have back := never_back quiet below
  have run : Turns ⟨(holding (.uniform 2 1)).view, .empty⟩ ⟨issued.view, (edition 1).version⟩ :=
    (back.1 _ .empty .refl).1 {} (edition 1) [0, 1] [] (Clock.empty_le _)
  have newer : (edition 1).version ≤ (edition 2).version :=
    Clock.relation_after_or_equal_iff.1 (.inl rfl)
  have idle : issued.Quiet := ⟨by decide +kernel, by decide +kernel⟩
  have done : (issued.propagate {} (edition 2) [0] [1]).2.view.Consistent :=
    consistent_propagate idle.consistent
  have kept := back.2.2 issued _ {} (edition 2) [0] [1] ⟨[0, 1], []⟩ run newer (by decide +kernel)
    1 (by decide) (idle.clear 1)
  generalize (issued.propagate {} (edition 2) [0] [1]).2 = g at kept done ⊢
  exact kept _ (turns_sleep done 400)

/-- Two servers of which the second is slow: the call of the first edition to it is abandoned. -/
def lagging : Fleet :=
  (((holding (.uniform 2 1)).setDelay 1 300).propagate { shutdownTimeout := 50 } (edition 1) [0, 1]
    []).2

/-- The second edition, given to both servers when neither of them is slow any more. -/
def overtaking : Except Error PropagationReport × Fleet :=
  (lagging.setDelay 1 0).propagate {} (edition 2) [0, 1] [1]

/-- The abandoned call lands on a node that has been reported to have taken the second edition. -/
theorem propagate_overtaken :
    overtaking.1 = .ok ⟨[0, 1], []⟩ ∧ overtaking.2.stored? 1 = some (edition 2) ∧
      (overtaking.2.sleep 400).stored? 1 = some (edition 1) ∧
      (edition 1).version.relation (edition 2).version = .before := by
  decide +kernel

end Fleet

end Resharding
