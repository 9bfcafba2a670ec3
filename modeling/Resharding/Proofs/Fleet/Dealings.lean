import Mathlib.Data.List.DropRight
import Mathlib.Data.List.Induction
import Resharding.Proofs.Fleet.Single

/-!
Dealings with servers, one at a time.

Servers are set up, fail and recover, and are called by a client without limits that waits for every
answer. What they hold, whether they answer and what was recorded is then told by the list of what
was done (`Fleet.told_by_deeds`): by the last deed that wrote to a node, by the last outage, by
whether the node was ever named or told to refuse. What one deed does to all of these is
`Fleet.Passes`, and a whole list of deeds follows from it (`Fleet.tells_dealings`).
-/

namespace Resharding

/-- Something that is done to servers or to their client, or a call that is awaited. -/
inductive Deed where
  | setCluster (node : NodeId) (held : Versioned Cluster)
  | setState (node : NodeId) (state : ServerState)
  | setStores (node : NodeId) (stores : List StoreDefinition)
  | setFormat (node : NodeId) (store format : String)
  | setDelay (node : NodeId) (delay : Nat)
  | fail (node : NodeId)
  | recover (node : NodeId)
  | refuseUpdates (node : NodeId)
  | clearCalls
  | call (node : NodeId) (request : Request)

namespace Deed

/-- The node that is set up, if anything is. A call sets up nothing. -/
def setsUp? : Deed → Option NodeId
  | setCluster node _ => some node
  | setState node _ => some node
  | setStores node _ => some node
  | setFormat node _ _ => some node
  | setDelay node _ => some node
  | fail node => some node
  | recover node => some node
  | refuseUpdates node => some node
  | clearCalls => none
  | call _ _ => none

/-- Whether a node is down from now on, if the deed decides that. -/
def outage? (node : NodeId) : Deed → Option Bool
  | fail other => if other = node then some true else none
  | recover other => if other = node then some false else none
  | _ => none

/-- The cluster that is put on a node, given with what the deed failed if it is a call that did. -/
def writes? (node : NodeId) : Deed × Option CallError → Option (Versioned Cluster)
  | (setCluster other held, _) => if other = node then some held else none
  | (call other (.update held), none) => if other = node then some held else none
  | _ => none

/-- What is recorded of a call. -/
def record? : Deed → Option CallRecord
  | call node request => some ⟨node, request.operation⟩
  | _ => none

def isClear : Deed → Bool
  | clearCalls => true
  | _ => false

/-! ### Many deeds -/

/-- Whether a node was ever set up. -/
def IsKnown (deeds : List Deed) (node : NodeId) : Prop := ∃ d ∈ deeds, d.setsUp? = some node

/-- Whether a node failed and has not recovered since. -/
def IsDown (deeds : List Deed) (node : NodeId) : Prop :=
  (deeds.filterMap (outage? node)).getLast? = some true

/-- The records of the calls since the last time the records were cleared. -/
def recorded (deeds : List Deed) : List CallRecord :=
  (deeds.rtakeWhile fun d => !d.isClear).filterMap record?

variable {deeds : List Deed} {d : Deed} {node : NodeId}

theorem isKnown_concat :
    IsKnown (deeds ++ [d]) node ↔ IsKnown deeds node ∨ d.setsUp? = some node := by
  simp only [IsKnown, List.mem_append, List.mem_singleton]
  constructor
  · rintro ⟨e, mem | rfl, sets⟩
    · exact .inl ⟨e, mem, sets⟩
    · exact .inr sets
  · rintro (⟨e, mem, sets⟩ | sets)
    · exact ⟨e, .inl mem, sets⟩
    · exact ⟨d, .inr rfl, sets⟩

/-- The last of what some deeds give is what the last deed gives, if it gives anything. -/
theorem getLast?_filterMap_concat {α β : Type} (gives : α → Option β) (as : List α) (a : α) :
    ((as ++ [a]).filterMap gives).getLast? = (gives a).or (as.filterMap gives).getLast? := by
  rw [List.filterMap_append]
  cases given : gives a with
  | none => rw [List.filterMap_cons_none given, List.filterMap_nil, List.append_nil, Option.none_or]
  | some b =>
    rw [List.filterMap_cons_some given, List.filterMap_nil, List.getLast?_concat, Option.some_or]

theorem recorded_concat (deeds : List Deed) (d : Deed) :
    recorded (deeds ++ [d]) = if d.isClear then [] else recorded deeds ++ d.record?.toList := by
  simp only [recorded]
  rw [List.rtakeWhile_concat]
  cases d.isClear with
  | true => rfl
  | false =>
    rw [Bool.not_false, if_pos rfl, if_neg Bool.false_ne_true, List.filterMap_append]
    cases given : d.record? with
    | none => rw [List.filterMap_cons_none given]; rfl
    | some r => rw [List.filterMap_cons_some given]; rfl

/-! ### One record -/

/-- What a deed makes of the record of a node: it may take the node down or up, tell it to refuse
updates, and put a cluster on it. -/
structure Alters (node : NodeId) (entry : Deed × Option CallError) (s s' : Server) : Prop where
  down : s'.isDown = (entry.1.outage? node).getD s.isDown
  refuses : s'.refusesUpdates ↔ s.refusesUpdates ∨ entry.1 = .refuseUpdates node
  stored : s'.cluster = (writes? node entry).or s.cluster

/-- A deed that says nothing of a node leaves its record alone. -/
theorem alters_self {entry : Deed × Option CallError} (silent : entry.1.outage? node = none)
    (takes : entry.1 ≠ .refuseUpdates node) (unwritten : writes? node entry = none) (s : Server) :
    Alters node entry s s := by
  refine ⟨?_, (or_iff_left takes).symm, ?_⟩
  · rw [silent]
    rfl
  · rw [unwritten]
    rfl

end Deed

namespace Fleet

/-- With what a call that is awaited fails, if it does. -/
def fault? (f : Fleet) (node : NodeId) (request : Request) : Option CallError :=
  match (f.call node request).1 with
  | .ok _ => none
  | .error e => some e

/-- A deed is done. If it is a call that fails, its fault is noted. -/
def perform (f : Fleet) : Deed → Fleet × Option CallError
  | .setCluster node held => (f.setCluster node held, none)
  | .setState node state => (f.setState node state, none)
  | .setStores node stores => (f.setStores node stores, none)
  | .setFormat node store format => (f.setFormat node store format, none)
  | .setDelay node delay => (f.setDelay node delay, none)
  | .fail node => (f.fail node, none)
  | .recover node => (f.recover node, none)
  | .refuseUpdates node => (f.refuseUpdates node, none)
  | .clearCalls => (f.clearCalls, none)
  | .call node request => ((f.call node request).2, f.fault? node request)

/-- Deeds are done one after the other, beginning without any server. Each is noted with the fault
of its call. -/
def dealings (deeds : List Deed) : Fleet × List (Deed × Option CallError) :=
  deeds.foldl (fun (f, log) d => ((f.perform d).1, log ++ [(d, (f.perform d).2)])) ({}, [])

/-- The record of a node, which is a new one if the node has none. -/
def recordOf (f : Fleet) (node : NodeId) : Server := (f.servers.get? node).getD {}

variable {f f' : Fleet} {d : Deed} {deeds : List Deed} {node : NodeId}
  {entry : Deed × Option CallError} {log : List (Deed × Option CallError)}

theorem dealings_concat (deeds : List Deed) (d : Deed) :
    dealings (deeds ++ [d]) = (((dealings deeds).1.perform d).1,
      (dealings deeds).2 ++ [(d, ((dealings deeds).1.perform d).2)]) := List.foldl_concat ..

/-! ### One deed -/

/-- What a deed changes of what can be told of all servers and of the calls. -/
structure Passes (f f' : Fleet) (entry : Deed × Option CallError) : Prop where
  quiet : f'.Quiet
  unlimited : f'.permits = none
  known : ∀ node, (f'.servers.get? node).isSome ↔
    (f.servers.get? node).isSome ∨ entry.1.setsUp? = some node
  records : ∀ node, Deed.Alters node entry (f.recordOf node) (f'.recordOf node)
  calls : f'.calls = if entry.1.isClear then [] else f.calls ++ entry.1.record?.toList

theorem stored?_eq (f : Fleet) (node : NodeId) : f.stored? node = (f.recordOf node).cluster := by
  simp only [stored?, recordOf]
  cases f.servers.get? node <;> rfl

theorem recordOf_adjust (f : Fleet) (node other : NodeId) (change : Server → Server) :
    (f.adjust node change).recordOf other =
      if other = node then change (f.recordOf node) else f.recordOf other := by
  simp only [recordOf, adjust]
  rw [SortedMap.get?_adjust]
  split <;> rfl

/-- To set up a node is to change its record, in what the deed says and in nothing else. -/
theorem exists_change (sets : d.setsUp? = some node) :
    ∃ change : Server → Server, (∀ f : Fleet, f.perform d = (f.adjust node change, none)) ∧
      ∀ s, Deed.Alters node (d, none) s (change s) := by
  cases d with
  | setCluster | fail | recover =>
    cases sets
    refine ⟨_, fun _ => rfl, fun s => ⟨?_, ?_, ?_⟩⟩ <;> simp [Deed.outage?, Deed.writes?]
  | setState | setStores | setFormat | setDelay | refuseUpdates =>
    cases sets
    refine ⟨_, fun _ => rfl, fun s => ⟨rfl, ?_, rfl⟩⟩
    simp
  | clearCalls | call => cases sets

/-- Setting up one node says nothing of the others. -/
theorem alters_of_ne {other : NodeId} (sets : d.setsUp? = some node) (apart : other ≠ node)
    (s : Server) : Deed.Alters other (d, none) s s := by
  have apart' : node ≠ other := apart.symm
  cases d with
  | clearCalls | call => cases sets
  | _ =>
    cases sets
    apply Deed.alters_self <;> simp [Deed.outage?, Deed.writes?, apart']

theorem passes_setUp (quiet : f.Quiet) (unlimited : f.permits = none)
    (sets : d.setsUp? = some node) : Passes f (f.perform d).1 (d, (f.perform d).2) := by
  obtain ⟨change, performs, alters⟩ := exists_change sets
  rw [performs]
  refine ⟨⟨quiet.ready, quiet.parked⟩, unlimited, fun other => ?_, fun other => ?_, ?_⟩
  · simp only [adjust]
    rw [SortedMap.get?_adjust, sets]
    by_cases same : other = node
    · rw [if_pos same, same]
      exact iff_of_true rfl (.inr rfl)
    · rw [if_neg same, or_iff_left fun eq => same (Option.some.inj eq).symm]
  · rw [recordOf_adjust]
    by_cases same : other = node
    · rw [if_pos same, same]
      exact alters _
    · rw [if_neg same]
      exact alters_of_ne sets same _
  · cases d with
    | clearCalls | call => cases sets
    | _ => exact (List.append_nil _).symm

theorem passes_clearCalls (quiet : f.Quiet) (unlimited : f.permits = none) :
    Passes f f.clearCalls (.clearCalls, none) := by
  refine ⟨⟨quiet.ready, quiet.parked⟩, unlimited, fun _ => (or_iff_left nofun).symm,
    fun node => ?_, rfl⟩
  refine Deed.alters_self rfl ?_ rfl _
  exact nofun

theorem fault?_eq (quiet : f.Quiet) (unlimited : f.permits = none) (node : NodeId)
    (request : Request) :
    f.fault? node request = match request.answer node (f.find node) with
      | .ok _ => none
      | .error e => some e := by
  simp only [fault?]
  rw [answer_call quiet unlimited]

/-- A call either leaves all servers as they are, or is an update that puts its cluster on the node.
-/
theorem call_cases (quiet : f.Quiet) (unlimited : f.permits = none) (node : NodeId)
    (request : Request) :
    (f.call node request).2.servers = f.servers ∧
        (∀ other, Deed.writes? other (.call node request, f.fault? node request) = none) ∨
      ∃ s held, f.find node = .ok s ∧ request = .update held ∧ f.fault? node request = none ∧
        (f.call node request).2.servers =
          f.servers.insert node { s with cluster := some held } := by
  cases finds : f.find node with
  | error e =>
    have fails : f.fault? node request = some e := by
      rw [fault?_eq quiet unlimited, finds]
      rfl
    refine .inl ⟨servers_call_of_error quiet unlimited finds, fun other => ?_⟩
    rw [fails]
    cases request <;> rfl
  | ok s =>
    have answered := fault?_eq quiet unlimited node request
    have changed : (f.call node request).2.servers = _ := servers_call_of_ok quiet unlimited finds
    rw [finds] at answered
    cases request with
    | update held =>
      simp only [Request.answer, Request.reply] at answered
      simp only [Request.effect] at changed
      by_cases refuses : s.refusesUpdates
      · rw [if_pos refuses] at answered
        refine .inl ⟨servers_call_of_kept quiet unlimited fun s' finds' => ?_, fun other => ?_⟩
        · cases finds.symm.trans finds'
          exact if_pos refuses
        · rw [answered]
          rfl
      · rw [if_neg refuses] at answered changed
        exact .inr ⟨s, held, rfl, rfl, answered, changed⟩
    | _ => exact .inl ⟨servers_call_of_kept quiet unlimited fun _ _ => rfl, fun _ => rfl⟩

/-- No call brings a server into being. -/
theorem keys_call (quiet : f.Quiet) (unlimited : f.permits = none) (node : NodeId)
    (request : Request) : (f.call node request).2.servers.keys = f.servers.keys := by
  rcases call_cases quiet unlimited node request with ⟨same, -⟩ | ⟨s, held, finds, -, -, changed⟩
  · rw [same]
  · apply SortedMap.keys_ext
    intro other
    have here := (find_eq_ok_iff.1 finds).1
    rw [SortedMap.mem_keys_iff, SortedMap.mem_keys_iff, changed, SortedMap.get?_insert]
    split
    · rename_i same
      rw [same, here]
      exact iff_of_true ⟨_, rfl⟩ ⟨_, rfl⟩
    · rfl

theorem passes_call (quiet : f.Quiet) (unlimited : f.permits = none) (node : NodeId)
    (request : Request) :
    Passes f (f.call node request).2 (.call node request, f.fault? node request) := by
  refine ⟨quiet.call unlimited node request, permits_call quiet unlimited node request,
    fun other => ?_, fun other => ?_, calls_call quiet unlimited node request⟩
  · rw [Option.isSome_iff_exists, Option.isSome_iff_exists, ← SortedMap.mem_keys_iff,
      ← SortedMap.mem_keys_iff, keys_call quiet unlimited, or_iff_left nofun]
  · have takes : Deed.call node request ≠ .refuseUpdates other := nofun
    rcases call_cases quiet unlimited node request with
      ⟨same, writesNone⟩ | ⟨s, held, finds, rfl, succeeds, changed⟩
    · have kept : (f.call node request).2.recordOf other = f.recordOf other := by
        simp only [recordOf]
        rw [same]
      rw [kept]
      exact Deed.alters_self rfl takes (writesNone other) _
    · rw [succeeds]
      simp only [recordOf]
      rw [changed, SortedMap.get?_insert]
      by_cases same : other = node
      · subst same
        rw [if_pos rfl, (find_eq_ok_iff.1 finds).1]
        refine ⟨rfl, (or_iff_left takes).symm, ?_⟩
        simp only [Deed.writes?]
        rw [if_pos True.intro]
        rfl
      · rw [if_neg same]
        refine Deed.alters_self rfl takes ?_ _
        exact if_neg fun eq => same eq.symm

/-- Every deed does what it says, and nothing else. -/
theorem passes_perform (quiet : f.Quiet) (unlimited : f.permits = none) (d : Deed) :
    Passes f (f.perform d).1 (d, (f.perform d).2) := by
  cases d with
  | clearCalls => exact passes_clearCalls quiet unlimited
  | call node request => exact passes_call quiet unlimited node request
  | _ => exact passes_setUp quiet unlimited rfl

/-! ### All deeds -/

/-- What can be told of a fleet from the deeds that led to it, and the faults of the calls among
them. -/
structure Tells (deeds : List Deed) (log : List (Deed × Option CallError)) (f : Fleet) : Prop where
  quiet : f.Quiet
  unlimited : f.permits = none
  done : log.map Prod.fst = deeds
  known : ∀ node, (f.servers.get? node).isSome ↔ Deed.IsKnown deeds node
  down : ∀ node, (f.recordOf node).isDown ↔ Deed.IsDown deeds node
  refuses : ∀ node, (f.recordOf node).refusesUpdates ↔ .refuseUpdates node ∈ deeds
  stored : ∀ node, f.stored? node = (log.filterMap (Deed.writes? node)).getLast?
  calls : f.calls = Deed.recorded deeds

theorem tells_nothing : Tells [] [] {} where
  quiet := ⟨rfl, rfl⟩
  unlimited := rfl
  done := rfl
  known _ := iff_of_false nofun nofun
  down _ := iff_of_false nofun nofun
  refuses _ := iff_of_false nofun nofun
  stored _ := rfl
  calls := rfl

theorem Tells.perform (tells : Tells deeds log f) (d : Deed) :
    Tells (deeds ++ [d]) (log ++ [(d, (f.perform d).2)]) (f.perform d).1 := by
  have passes := passes_perform tells.quiet tells.unlimited d
  refine ⟨passes.quiet, passes.unlimited, ?_, fun node => ?_, fun node => ?_, fun node => ?_,
    fun node => ?_, ?_⟩
  · rw [List.map_append, tells.done]
    rfl
  · rw [passes.known, tells.known, Deed.isKnown_concat]
  · rw [(passes.records node).down, Deed.IsDown, Deed.getLast?_filterMap_concat]
    cases d.outage? node with
    | none => exact tells.down node
    | some down => exact (Option.some_inj).symm
  · rw [(passes.records node).refuses, tells.refuses, List.mem_append, List.mem_singleton,
      eq_comm (a := d)]
  · rw [stored?_eq, (passes.records node).stored, ← stored?_eq, tells.stored,
      Deed.getLast?_filterMap_concat]
  · rw [passes.calls, tells.calls, Deed.recorded_concat]

theorem tells_dealings (deeds : List Deed) :
    Tells deeds (dealings deeds).2 (dealings deeds).1 := by
  induction deeds using List.reverseRecOn with
  | nil => exact tells_nothing
  | append_singleton deeds d ih =>
    rw [dealings_concat]
    exact ih.perform d

/-- A call finds a node that was set up and is not down, and no other. -/
theorem Tells.find (tells : Tells deeds log f) (node : NodeId) :
    (Deed.IsKnown deeds node ∧ ¬ Deed.IsDown deeds node ∧ f.find node = .ok (f.recordOf node)) ∨
      (¬ Deed.IsKnown deeds node ∨ Deed.IsDown deeds node) ∧
        f.find node = .error (.unreachable node) := by
  have known := tells.known node
  have down := tells.down node
  simp only [Fleet.find]
  simp only [recordOf] at down ⊢
  cases here : f.servers.get? node with
  | none =>
    rw [here] at known
    exact .inr ⟨.inl fun isKnown => Bool.false_ne_true (known.2 isKnown), rfl⟩
  | some s =>
    rw [here] at known down
    by_cases isDown : s.isDown
    · exact .inr ⟨.inr (down.1 isDown), if_pos isDown⟩
    · exact .inl ⟨known.1 rfl, fun is => isDown (down.2 is), if_neg isDown⟩

theorem Tells.unreachable (tells : Tells deeds log f)
    (missing : ¬ Deed.IsKnown deeds node ∨ Deed.IsDown deeds node) (request : Request) :
    (f.call node request).1 = .error (.unreachable node) := by
  rw [answer_call tells.quiet tells.unlimited]
  rcases tells.find node with ⟨known, up, -⟩ | ⟨-, misses⟩
  · exact absurd missing (not_or_intro (not_not_intro known) up)
  · rw [misses]
    rfl

theorem Tells.answer_update (tells : Tells deeds log f) (known : Deed.IsKnown deeds node)
    (up : ¬ Deed.IsDown deeds node) (held : Versioned Cluster) :
    (f.call node (.update held)).1 =
      if (f.recordOf node).refusesUpdates then .error (.rejected (.clusterUpdates node))
      else .ok () := by
  rw [answer_call tells.quiet tells.unlimited]
  rcases tells.find node with ⟨-, -, finds⟩ | ⟨missing, -⟩
  · rw [finds]
    rfl
  · exact absurd missing (not_or_intro (not_not_intro known) up)

theorem Tells.update_eq_ok_iff (tells : Tells deeds log f) (held : Versioned Cluster) :
    (f.call node (.update held)).1 = .ok () ↔
      Deed.IsKnown deeds node ∧ ¬ Deed.IsDown deeds node ∧ .refuseUpdates node ∉ deeds := by
  rw [← tells.refuses]
  by_cases missing : ¬ Deed.IsKnown deeds node ∨ Deed.IsDown deeds node
  · rw [tells.unreachable missing]
    exact iff_of_false nofun fun ⟨known, up, _⟩ => not_or_intro (not_not_intro known) up missing
  · obtain ⟨known, up⟩ := not_or.1 missing
    rw [tells.answer_update (not_not.1 known) up]
    split
    · rename_i refuses
      exact iff_of_false nofun fun ⟨_, _, takes⟩ => takes refuses
    · rename_i takes
      exact iff_of_true rfl ⟨not_not.1 known, up, takes⟩

/-- A call that only reads or that fails leaves all servers as they are. -/
theorem servers_call_of_idle (quiet : f.Quiet) (unlimited : f.permits = none) {request : Request}
    (idle : request.operation ≠ .updateCluster ∨ ∃ e, (f.call node request).1 = .error e) :
    (f.call node request).2.servers = f.servers := by
  rcases call_cases quiet unlimited node request with ⟨same, -⟩ | ⟨s, held, -, rfl, succeeds, -⟩
  · exact same
  · rcases idle with reads | ⟨e, fails⟩
    · exact absurd rfl reads
    · simp only [fault?] at succeeds
      rw [fails] at succeeds
      cases succeeds

/-- After any deeds, everything can be told from the list of them. A node holds what the last deed
that wrote to it put there; it takes an update exactly when it was set up, is not down and was not
told to refuse; one that was never set up or is down is beyond the reach of every call, whatever it
was told. Calls other than updates that succeed change no server, no call brings one into being, and
all calls are recorded. -/
theorem told_by_deeds (deeds : List Deed) :
    let f := (dealings deeds).1
    let log := (dealings deeds).2
    log.map Prod.fst = deeds ∧
      (∀ node, f.stored? node = (log.filterMap (Deed.writes? node)).getLast?) ∧
      (∀ node held, (f.call node (.update held)).1 = .ok () ↔
        Deed.IsKnown deeds node ∧ ¬ Deed.IsDown deeds node ∧ .refuseUpdates node ∉ deeds) ∧
      (∀ node, ¬ Deed.IsKnown deeds node ∨ Deed.IsDown deeds node →
        ∀ request, (f.call node request).1 = .error (.unreachable node)) ∧
      (∀ node, Deed.IsKnown deeds node → ¬ Deed.IsDown deeds node → .refuseUpdates node ∈ deeds →
        ∀ held, (f.call node (.update held)).1 = .error (.rejected (.clusterUpdates node))) ∧
      (∀ node request, (request.operation ≠ .updateCluster ∨
        ∃ e, (f.call node request).1 = .error e) → (f.call node request).2.servers = f.servers) ∧
      (∀ node request, (f.call node request).2.servers.keys = f.servers.keys) ∧
      f.calls = Deed.recorded deeds := by
  intro f log
  have tells : Tells deeds log f := tells_dealings deeds
  refine ⟨tells.done, tells.stored, fun _ held => tells.update_eq_ok_iff held,
    fun _ missing => tells.unreachable missing, fun node known up refuses held => ?_,
    fun _ _ idle => servers_call_of_idle tells.quiet tells.unlimited idle,
    fun node request => keys_call tells.quiet tells.unlimited node request, tells.calls⟩
  rw [tells.answer_update known up, if_pos ((tells.refuses node).2 refuses)]

/-- A node that takes one update and refuses the next, and one that fails before it is ever used. -/
theorem told_by_deeds_refusing :
    let held : Versioned Cluster := .initial ⟨"c", [], [.sole]⟩
    let deeds : List Deed := [.call 4 .state, .setDelay 1 5, .clearCalls, .call 1 (.update held),
      .refuseUpdates 1, .call 1 (.update held), .fail 2, .call 2 .state]
    let f := (dealings deeds).1
    f.stored? 1 = some held ∧
      (f.call 1 (.update held)).1 = .error (.rejected (.clusterUpdates 1)) ∧
      (f.call 2 .cluster).1 = .error (.unreachable 2) ∧
      (f.call 2 .cluster).2.servers = f.servers ∧
      f.calls = [⟨1, .updateCluster⟩, ⟨1, .updateCluster⟩, ⟨2, .getServerState⟩] := by
  intro held deeds f
  obtain ⟨-, stored, -, misses, refuses, idle, -, calls⟩ := told_by_deeds deeds
  have missed : (f.call 2 .cluster).1 = .error (.unreachable 2) := misses 2 (.inr rfl) .cluster
  have wrote : ((dealings deeds).2.filterMap (Deed.writes? 1)).getLast? = some held := by
    decide +kernel
  refine ⟨(stored 1).trans wrote, ?_, missed, idle 2 .cluster (.inr ⟨_, missed⟩), calls.trans rfl⟩
  have known : Deed.IsKnown deeds 1 := ⟨.setDelay 1 5, .tail _ (.head _), rfl⟩
  refine refuses 1 known (fun down => nomatch down) ?_ held
  exact .tail _ (.tail _ (.tail _ (.tail _ (.head _))))

end Fleet

end Resharding
