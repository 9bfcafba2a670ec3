import Resharding.Proofs.Fleet.Effect

/-!
Calls that land.

An event changes what a node stores only if an update call lands on the node and is not refused
(`Event.landing`). It then stores what that call gave (`Event.stored?`), whatever was stored before:
a call does not look at versions, nor does it matter how long ago it was begun.
-/

namespace Resharding

/-- An update puts its cluster in place of the one that is there, if the server takes it. -/
theorem Request.cluster_effect (request : Request) (s : Server) :
    (request.effect s).cluster = s.cluster ∨ ∃ given, request = .update given ∧
      s.refusesUpdates = false ∧ (request.effect s).cluster = some given := by
  cases request with
  | update given =>
    simp only [effect]
    cases s.refusesUpdates with
    | true => exact .inl rfl
    | false => exact .inr ⟨given, rfl, rfl, rfl⟩
  | _ => exact .inl rfl

namespace View

/-- The cluster that a node holds. -/
def stored? (v : View) (node : NodeId) : Option (Versioned Cluster) :=
  (v.servers.get? node).bind (·.cluster)

/-- A call lands on a node that can be reached, and nothing else happens. -/
structure Lands (v w : View) (flight : Flight) (s : Server) : Prop where
  travelling : (flight, .travelling) ∈ v.pending
  found : v.servers.get? flight.node = some s
  servers : w.servers = v.servers.insert flight.node (flight.request.effect s)
  ended : ∀ {i}, flight.caller = .task i → w.task? i flight.node = some (.finished (.ok s))
  /-- Only the task of the call has come to find its node. -/
  finished : ∀ {i node s'}, w.task? i node = some (.finished (.ok s')) →
    v.task? i node = some (.finished (.ok s')) ∨
      flight.caller = .task i ∧ flight.node = node ∧ s' = s

variable {v w : View} {flight : Flight} {s : Server} {node : NodeId}

theorem servers_hand (ended : Except CallError Server) :
    (v.hand flight ended).servers = v.servers := by
  simp only [hand]
  cases flight.caller <;> rfl

theorem Fits.task?_hand {stage : Stage} (fits : Fits v flight stage) (started : stage ≠ .queued)
    {ended : Except CallError Server} {i : Nat} (caller : flight.caller = .task i) :
    (v.hand flight ended).task? i flight.node = some (.finished ended) := by
  obtain ⟨c, there, -, runs, -⟩ := fits.running caller started
  rw [hand_task caller, task?_changeRound there (Round.finish?_of_running runs _), if_pos ⟨rfl, rfl⟩]

end View

open View in
/-- An event leaves the servers and who has found them, or is a call that lands. -/
theorem Event.landing {v w : View} (event : Event v w) (ok : v.Consistent) :
    (w.servers = v.servers ∧ ∀ {i node s}, w.task? i node = some (.finished (.ok s)) →
      v.task? i node = some (.finished (.ok s))) ∨
    ∃ flight s, Lands v w flight s := by
  cases event with
  | @launch v flight i c r caller there launches =>
    obtain ⟨-, -, rfl⟩ := Round.launch?_eq_some_iff.1 launches
    refine .inl ⟨rfl, fun here => ?_⟩
    have changed : (v.changeRound i (·.launch? flight.node)).task? _ _ = _ := here
    rcases of_task?_changeRound (show v.campaigns[i]? = some c from there) launches changed with
      old | ⟨-, -, same⟩
    · exact old
    · cases same
  | @crash v flight i caller crashes =>
    obtain ⟨c, there, -, runs, -⟩ := (consistent_add_iff.1 ok).2.running caller (by decide)
    refine .inl ⟨rfl, fun here => ?_⟩
    rcases of_task?_changeRound there (Round.crash?_of_running runs) here with old | ⟨-, -, same⟩
    · exact old
    · cases same
  | issue => exact .inl ⟨rfl, id⟩
  | board => exact .inl ⟨rfl, id⟩
  | @land v flight =>
    have fits : Fits v flight .travelling := (consistent_add_iff.1 ok).2
    cases finds : v.find flight.node with
    | error e =>
      rw [servers_visit_of_error finds]
      refine .inl ⟨servers_hand _, fun here => ?_⟩
      rcases fits.of_task?_hand (by decide) here with old | ⟨-, -, same⟩
      · exact old
      · cases same
    | ok s =>
      rw [servers_visit_of_ok finds]
      have fits' : Fits { v with servers := v.servers.insert flight.node (flight.request.effect s) }
        flight .travelling := fits.congr rfl rfl
      refine .inr ⟨flight, s, Multiset.mem_cons_self _ _, (find_eq_ok_iff.1 finds).1,
        servers_hand _, fun caller => fits'.task?_hand (by decide) caller, fun here => ?_⟩
      rcases fits'.of_task?_hand (by decide) here with old | ⟨caller, same, ended⟩
      · exact .inl old
      · cases ended
        exact .inr ⟨caller, same, rfl⟩
  | @expire v flight =>
    refine .inl ⟨servers_hand _, fun here => ?_⟩
    rcases (consistent_add_iff.1 ok).2.of_task?_hand (by decide) here with old | ⟨-, -, same⟩
    · exact old
    · cases same

namespace View

variable {v w : View} {flight : Flight} {s : Server} {node : NodeId}

/-- What a node stores once a call has landed. -/
theorem Lands.stored? (lands : Lands v w flight s) (node : NodeId) :
    w.stored? node = v.stored? node ∨ flight.node = node ∧ ∃ given, flight.request = .update given ∧
      s.refusesUpdates = false ∧ w.stored? node = some given := by
  by_cases here : flight.node = node
  · subst here
    have before : v.stored? flight.node = s.cluster := by
      simp only [View.stored?]
      rw [lands.found]
      rfl
    have after : w.stored? flight.node = (flight.request.effect s).cluster := by
      simp only [View.stored?]
      rw [lands.servers, SortedMap.get?_insert, if_pos rfl]
      rfl
    rcases flight.request.cluster_effect s with kept | ⟨given, asks, takes, now⟩
    · exact .inl (after.trans (kept.trans before.symm))
    · exact .inr ⟨rfl, given, asks, takes, after.trans now⟩
  · refine .inl ?_
    simp only [View.stored?]
    rw [lands.servers, SortedMap.get?_insert, if_neg (Ne.symm here)]

theorem Lands.stored?_of_takes (lands : Lands v w flight s) {given : Versioned Cluster}
    (asks : flight.request = .update given) (takes : s.refusesUpdates = false) :
    w.stored? flight.node = some given := by
  have effect : flight.request.effect s = { s with cluster := some given } := by
    rw [asks]
    exact if_neg (Bool.eq_false_iff.1 takes)
  simp only [View.stored?]
  rw [lands.servers, SortedMap.get?_insert, if_pos rfl, effect]
  rfl

end View

end Resharding
