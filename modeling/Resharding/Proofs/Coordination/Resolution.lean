import Resharding.Coordination.Resolution
import Resharding.Proofs.Fleet.Reachable
import Resharding.Proofs.Version.Order
import Resharding.Topology.Uniform

/-!
What a resolution comes to.

The result follows from how the calls ended (`Resolution.latest`), and `Resolution.Settles` says what
follows, in order of priority:

* a required node without an answer, the one with the smallest id;
* two answers that were written independently, the first such pair by ids;
* an answer that is at least as new as all others, the one with the smallest id, provided that it
  was written after all;
* the bootstrap cluster.

`latestCluster_settles` ties both to a fleet. The one pass that looks for the newest answer finds it
because no two of the answers were written independently (`newest_spec`).
-/

namespace Resharding

/-! ### The first of some nodes -/

/-- No node with a smaller id has the property. -/
def IsFirst (p : NodeId → Prop) (node : NodeId) : Prop := p node ∧ ∀ other, p other → node ≤ other

theorem exists_isFirst {p : NodeId → Prop} {node : NodeId} (here : p node) :
    ∃ first, IsFirst p first := by
  induction size : node.toNat using Nat.strongRecOn generalizing node with
  | ind n ih =>
    by_cases least : ∀ other, p other → node ≤ other
    · exact ⟨node, here, least⟩
    · rw [not_forall] at least
      obtain ⟨other, notLeast⟩ := least
      rw [Classical.not_imp, UInt64.not_le] at notLeast
      exact ih other.toNat (size ▸ UInt64.lt_iff_toNat_lt.1 notLeast.2) notLeast.1 rfl

namespace Resolution

open RoundOutcome

/-- How the calls to the nodes ended, as far as they have. -/
abbrev Ends := NodeId → Option (Except CallError (Versioned Cluster))

/-! ### What is to follow from the answers -/

section Spec

variable (bootstrap : Cluster) (required : List NodeId) (ends : Ends)

/-- The nodes that are asked. -/
def asked : List NodeId := ((SortedSet.ofList required).insertAll bootstrap.nodeIds).toList

/-- The result when the calls have ended like that. -/
def latest : Except Error (Versioned Cluster) :=
  resolve bootstrap (.ofList required) (taken ends (asked bootstrap required))

/-- A node that is asked holds a cluster and says so. -/
def Answers (node : NodeId) (held : Versioned Cluster) : Prop :=
  (node ∈ bootstrap.nodeIds ∨ node ∈ required) ∧ ends node = some (.ok held)

/-- A required node gives no answer. -/
def Missing (node : NodeId) : Prop := node ∈ required ∧ ∀ held, ends node ≠ some (.ok held)

/-- Two nodes, in this order, answer with versions that were written independently. -/
def Conflict (i j : NodeId) : Prop :=
  i < j ∧ ∃ a b, Answers bootstrap required ends i a ∧ Answers bootstrap required ends j b ∧
    a.version.relation b.version = .concurrent

/-- The answer of a node is at least as new as every answer. -/
def Newest (node : NodeId) : Prop :=
  ∃ held, Answers bootstrap required ends node held ∧
    ∀ other v, Answers bootstrap required ends other v →
      held.version.relation v.version = .after ∨ held.version.relation v.version = .equal

inductive Settles : Except Error (Versioned Cluster) → Prop where
  | missing {node : NodeId} {e : CallError} (first : IsFirst (Missing required ends) node)
      (ended : orTimeout node (ends node) = .error e) :
      Settles (.error (.noAnswer node e))
  | conflict {i j : NodeId} {a b : Versioned Cluster}
      (answered : ∀ node, ¬ Missing required ends node)
      (first : IsFirst (fun i => ∃ j, Conflict bootstrap required ends i j) i)
      (second : IsFirst (Conflict bootstrap required ends i) j)
      (ofI : Answers bootstrap required ends i a) (ofJ : Answers bootstrap required ends j b) :
      Settles (.error (.versionConflict i a.version j b.version))
  | newest {node : NodeId} {held : Versioned Cluster}
      (answered : ∀ node, ¬ Missing required ends node)
      (agreed : ∀ i j, ¬ Conflict bootstrap required ends i j)
      (first : IsFirst (Newest bootstrap required ends) node)
      (ofNode : Answers bootstrap required ends node held)
      (written : held.version.relation .empty = .after) : Settles (.ok held)
  | unwritten (answered : ∀ node, ¬ Missing required ends node)
      (agreed : ∀ i j, ¬ Conflict bootstrap required ends i j)
      (unwritten : ∀ node held, Answers bootstrap required ends node held →
        held.version.relation .empty = .equal) : Settles (.ok (.initial bootstrap))

end Spec

variable {bootstrap : Cluster} {required : List NodeId} {ends ends' : Ends} {nodes : List NodeId}

theorem mem_asked {node : NodeId} :
    node ∈ asked bootstrap required ↔ node ∈ bootstrap.nodeIds ∨ node ∈ required := by
  simp only [asked]
  rw [SortedSet.mem_toList, SortedSet.mem_insertAll, SortedSet.mem_ofList, or_comm]

/-! ### Gathering -/

/-- The answer of a node. -/
def answer? (ends : Ends) (node : NodeId) : Option (Versioned Cluster) :=
  (ends node).bind Except.toOption

theorem answer?_eq_some_iff {node : NodeId} {held : Versioned Cluster} :
    answer? ends node = some held ↔ ends node = some (.ok held) := by
  simp only [answer?]
  rcases ends node with _ | _ | v
  · exact iff_of_false nofun nofun
  · exact iff_of_false nofun nofun
  · exact ⟨fun eq => by cases eq; rfl, fun eq => by cases eq; rfl⟩

/-- The answers of some nodes. -/
def answers (ends : Ends) (nodes : List NodeId) : List (NodeId × Versioned Cluster) :=
  nodes.filterMap fun node => (answer? ends node).map fun held => (node, held)

theorem mem_answers {node : NodeId} {held : Versioned Cluster} :
    (node, held) ∈ answers ends nodes ↔ node ∈ nodes ∧ ends node = some (.ok held) := by
  simp only [answers]
  rw [List.mem_filterMap, ← answer?_eq_some_iff]
  constructor
  · rintro ⟨other, mem, eq⟩
    obtain ⟨v, answered, same⟩ := Option.map_eq_some_iff.1 eq
    cases same
    exact ⟨mem, answered⟩
  · rintro ⟨mem, answered⟩
    exact ⟨node, mem, by rw [answered]; rfl⟩

theorem mem_answers_asked {node : NodeId} {held : Versioned Cluster} :
    (node, held) ∈ answers ends (asked bootstrap required) ↔
      Answers bootstrap required ends node held :=
  mem_answers.trans (and_congr_left' mem_asked)

theorem ascending_answers (ascending : nodes.Pairwise (· < ·)) :
    (answers ends nodes).Pairwise fun a b => a.1 < b.1 := by
  refine List.Pairwise.filterMap _ ?_ ascending
  intro i j less a eqA b eqB
  obtain ⟨_, -, rfl⟩ := Option.map_eq_some_iff.1 eqA
  obtain ⟨_, -, rfl⟩ := Option.map_eq_some_iff.1 eqB
  exact less

/-- A node without an answer is passed over if it is not required. -/
theorem gather_cons_of_error {set : SortedSet NodeId} {node : NodeId} {e : CallError}
    {rest : List (NodeId × Except CallError (Versioned Cluster))} (optional : node ∉ set) :
    gather set ((node, .error e) :: rest) = gather set rest :=
  if_neg (fun required => optional (SortedSet.contains_iff.1 required))

theorem gather_taken {set : SortedSet NodeId}
    (answered : ∀ node ∈ nodes, node ∈ set → ∃ held, ends node = some (.ok held)) :
    gather set (taken ends nodes) = .ok (answers ends nodes) := by
  induction nodes with
  | nil => rfl
  | cons node rest ih =>
    have later := ih fun m mem => answered m (List.mem_cons_of_mem _ mem)
    simp only [taken, answers] at later ⊢
    rw [List.map_cons]
    cases ended : orTimeout node (ends node) with
    | ok held =>
      have here := answer?_eq_some_iff.2 (orTimeout_eq_ok_iff.1 ended)
      rw [List.filterMap_cons_some (by rw [here]; rfl)]
      simp only [gather]
      rw [later]
      rfl
    | error e =>
      have unanswered : answer? ends node = none := by
        apply Option.eq_none_iff_forall_ne_some.2
        intro held here
        rw [answer?_eq_some_iff, ← orTimeout_eq_ok_iff, ended] at here
        cases here
      rw [List.filterMap_cons_none (by rw [unanswered]; rfl), gather_cons_of_error, later]
      intro required
      obtain ⟨held, here⟩ := answered node List.mem_cons_self required
      rw [← answer?_eq_some_iff, unanswered] at here
      cases here

/-- The first required node without an answer ends the gathering. -/
theorem gather_taken_of_first {set : SortedSet NodeId} {node : NodeId} {e : CallError}
    (ascending : nodes.Pairwise (· < ·)) (mem : node ∈ nodes) (required : node ∈ set)
    (ended : orTimeout node (ends node) = .error e)
    (answered : ∀ m < node, m ∈ set → ∃ held, ends m = some (.ok held)) :
    gather set (taken ends nodes) = .error (.noAnswer node e) := by
  induction nodes with
  | nil => cases mem
  | cons first rest ih =>
    have ⟨before, tail⟩ := List.pairwise_cons.1 ascending
    simp only [taken] at ih ⊢
    rw [List.map_cons]
    rcases List.mem_cons.1 mem with rfl | inRest
    · rw [ended]
      exact if_pos (SortedSet.contains_iff.2 required)
    · have later := ih tail inRest
      cases endedFirst : orTimeout first (ends first) with
      | ok held =>
        simp only [gather]
        rw [later]
        rfl
      | error other =>
        rw [gather_cons_of_error, later]
        intro requiredFirst
        obtain ⟨held, here⟩ := answered first (before node inRest) requiredFirst
        rw [← orTimeout_eq_ok_iff, endedFirst] at here
        cases here

/-! ### Conflicts -/

section Conflicts

variable {as : List (NodeId × Versioned Cluster)} {i j : NodeId} {a b : Versioned Cluster}

theorem conflict?_eq_none
    (agreed : as.Pairwise fun a b => a.2.version.relation b.2.version ≠ .concurrent) :
    conflict? as = none := by
  induction as with
  | nil => rfl
  | cons a rest ih =>
    have ⟨here, tail⟩ := List.pairwise_cons.1 agreed
    have noRival : rival? a.2.version rest = none := by
      refine List.find?_eq_none.2 fun b mem independent => ?_
      exact here b mem (Clock.isIndependentOf_iff.1 independent)
    simp only [conflict?]
    rw [noRival]
    exact ih tail

theorem rival?_eq_some (ascending : as.Pairwise fun a b => a.1 < b.1) (mem : (j, b) ∈ as)
    {version : Clock} (independent : version.relation b.version = .concurrent)
    (first : ∀ e ∈ as, e.1 < j → version.relation e.2.version ≠ .concurrent) :
    rival? version as = some (j, b) := by
  induction as with
  | nil => cases mem
  | cons e rest ih =>
    have ⟨before, tail⟩ := List.pairwise_cons.1 ascending
    simp only [rival?] at ih ⊢
    rcases List.mem_cons.1 mem with rfl | inRest
    · exact List.find?_cons_of_pos (Clock.isIndependentOf_iff.2 independent)
    · have agrees := first e List.mem_cons_self (before (j, b) inRest)
      refine (List.find?_cons_of_neg fun rival => ?_).trans (ih tail inRest ?_)
      · exact agrees (Clock.isIndependentOf_iff.1 rival)
      · exact fun other mem => first other (List.mem_cons_of_mem _ mem)

theorem conflict?_eq_some (ascending : as.Pairwise fun a b => a.1 < b.1) (memI : (i, a) ∈ as)
    (memJ : (j, b) ∈ as) (less : i < j) (independent : a.version.relation b.version = .concurrent)
    (firstI : ∀ e ∈ as, e.1 < i → ∀ e' ∈ as, e.1 < e'.1 →
      e.2.version.relation e'.2.version ≠ .concurrent)
    (firstJ : ∀ e ∈ as, i < e.1 → e.1 < j → a.version.relation e.2.version ≠ .concurrent) :
    conflict? as = some (.versionConflict i a.version j b.version) := by
  induction as with
  | nil => cases memI
  | cons e rest ih =>
    have ⟨before, tail⟩ := List.pairwise_cons.1 ascending
    have inRest : (j, b) ∈ rest := by
      rcases List.mem_cons.1 memJ with same | inRest
      · rcases List.mem_cons.1 memI with rfl | inRestI
        · cases same
          exact absurd less (UInt64.lt_irrefl _)
        · have above := before (i, a) inRestI
          rw [← same] at above
          exact absurd (UInt64.lt_trans less above) (UInt64.lt_irrefl _)
      · exact inRest
    simp only [conflict?]
    rcases List.mem_cons.1 memI with rfl | inRestI
    · rw [rival?_eq_some tail inRest independent fun e mem =>
        firstJ e (List.mem_cons_of_mem _ mem) (before e mem)]
    · have noRival : rival? e.2.version rest = none := by
        refine List.find?_eq_none.2 fun e' mem rival => ?_
        exact firstI e List.mem_cons_self (before (i, a) inRestI) e' (List.mem_cons_of_mem _ mem)
          (before e' mem) (Clock.isIndependentOf_iff.1 rival)
      rw [noRival]
      exact ih tail inRestI inRest
        (fun e mem below e' mem' =>
          firstI e (List.mem_cons_of_mem _ mem) below e' (List.mem_cons_of_mem _ mem'))
        fun e mem => firstJ e (List.mem_cons_of_mem _ mem)

end Conflicts

/-! ### The newest -/

/-- The answer that the pass ends with is the first of those that are at least as new as all, or the
start is. -/
theorem newest_spec {start : Versioned Cluster} {as : List (Versioned Cluster)}
    (comparable : (start :: as).Pairwise fun a b =>
      a.version ≤ b.version ∨ b.version ≤ a.version) :
    (newest start as = start ∧ ∀ a ∈ as, a.version ≤ start.version) ∨
      ∃ before later, as = before ++ newest start as :: later ∧
        start.version < (newest start as).version ∧
        (∀ a ∈ before, a.version < (newest start as).version) ∧
        ∀ a ∈ later, a.version ≤ (newest start as).version := by
  induction as generalizing start with
  | nil => exact .inl ⟨rfl, nofun⟩
  | cons a rest ih =>
    have ⟨withStart, tail⟩ := List.pairwise_cons.1 comparable
    by_cases after : a.relation start = .after
    · have less : start.version < a.version := Clock.relation_eq_after_iff.1 after
      have step : newest start (a :: rest) = newest a rest :=
        congrArg (fun best => newest best rest) (if_pos after)
      rw [step]
      rcases ih tail with ⟨same, below⟩ | ⟨before, later, split, above, first, last⟩
      · refine .inr ⟨[], rest, by rw [same]; rfl, by rw [same]; exact less, nofun, ?_⟩
        rw [same]
        exact below
      · refine .inr ⟨a :: before, later, congrArg (a :: ·) split,
          Clock.lt_of_le_of_lt less.1 above, ?_, last⟩
        intro b mem
        rcases List.mem_cons.1 mem with rfl | mem
        · exact above
        · exact first b mem
    · have below : a.version ≤ start.version := by
        rcases withStart a List.mem_cons_self with above | below
        · by_contra notBelow
          exact after (Clock.relation_eq_after_iff.2 ⟨above, notBelow⟩)
        · exact below
      have step : newest start (a :: rest) = newest start rest :=
        congrArg (fun best => newest best rest) (if_neg after)
      rw [step]
      have shorter := List.pairwise_cons.2
        ⟨fun b mem => withStart b (List.mem_cons_of_mem _ mem), (List.pairwise_cons.1 tail).2⟩
      rcases ih shorter with ⟨same, belowAll⟩ | ⟨before, later, split, above, first, last⟩
      · refine .inl ⟨same, fun b mem => ?_⟩
        rcases List.mem_cons.1 mem with rfl | mem
        · exact below
        · exact belowAll b mem
      · refine .inr ⟨a :: before, later, congrArg (a :: ·) split, above, ?_, last⟩
        intro b mem
        rcases List.mem_cons.1 mem with rfl | mem
        · exact Clock.lt_of_le_of_lt below above
        · exact first b mem

/-- Among answers in the order of their ids, no answer before the result is as new as it. -/
theorem newest_of_ascending {as : List (NodeId × Versioned Cluster)} (bootstrap : Cluster)
    (ascending : as.Pairwise fun a b => a.1 < b.1)
    (agreed : as.Pairwise fun a b => a.2.version.relation b.2.version ≠ .concurrent) :
    (newest (.initial bootstrap) (as.map (·.2)) = .initial bootstrap ∧
        ∀ e ∈ as, e.2.version ≤ .empty) ∨
      ∃ node held, (node, held) ∈ as ∧ newest (.initial bootstrap) (as.map (·.2)) = held ∧
        .empty < held.version ∧ (∀ e ∈ as, e.2.version ≤ held.version) ∧
        ∀ e ∈ as, e.1 < node → e.2.version < held.version := by
  have comparable : (Versioned.initial bootstrap :: as.map (·.2)).Pairwise fun a b =>
      a.version ≤ b.version ∨ b.version ≤ a.version := by
    refine List.pairwise_cons.2 ⟨fun a _ => .inl (Clock.empty_le _), List.pairwise_map.2 ?_⟩
    exact agreed.imp Clock.relation_ne_concurrent_iff.1
  rcases newest_spec comparable with ⟨same, below⟩ | ⟨before, later, split, above, first, last⟩
  · exact .inl ⟨same, fun e mem => below e.2 (List.mem_map_of_mem mem)⟩
  · obtain ⟨front, back, rfl, rfl, eqBack⟩ := List.map_eq_append_iff.1 split
    obtain ⟨⟨node, held⟩, rest, rfl, same, rfl⟩ := List.map_eq_cons_iff.1 eqBack
    have same : newest (.initial bootstrap) ((front ++ (node, held) :: rest).map (·.2)) = held :=
      same.symm
    rw [same] at above first last
    have here : (node, held) ∈ front ++ (node, held) :: rest :=
      List.mem_append_right _ List.mem_cons_self
    have inFront (e : NodeId × Versioned Cluster) (mem : e ∈ front) : e.2.version < held.version :=
      first e.2 (List.mem_map_of_mem mem)
    refine .inr ⟨node, held, here, same, above, fun e mem => ?_, fun e mem less => ?_⟩
    · rcases List.mem_append.1 mem with mem | mem
      · exact (inFront e mem).1
      · rcases List.mem_cons.1 mem with rfl | mem
        · exact Clock.le_refl _
        · exact last e.2 (List.mem_map_of_mem mem)
    · rcases List.mem_append.1 mem with mem | mem
      · exact inFront e mem
      · obtain ⟨-, behind, -⟩ := List.pairwise_append.1 ascending
        rcases List.mem_cons.1 mem with rfl | mem
        · exact absurd less (UInt64.lt_irrefl _)
        · have above := (List.pairwise_cons.1 behind).1 e mem
          exact absurd (UInt64.lt_trans less above) (UInt64.lt_irrefl _)

/-! ### The result -/

theorem ascending_asked : (asked bootstrap required).Pairwise (· < ·) :=
  SortedSet.toList_ascending _

/-- Answers of asked nodes agree in pairs if no two nodes are in conflict. -/
theorem agreed_answers (agreed : ∀ i j, ¬ Conflict bootstrap required ends i j) :
    (answers ends (asked bootstrap required)).Pairwise fun a b =>
      a.2.version.relation b.2.version ≠ .concurrent := by
  apply (ascending_answers ascending_asked).imp_of_mem
  intro a b memA memB less concurrent
  exact agreed a.1 b.1
    ⟨less, a.2, b.2, mem_answers_asked.1 memA, mem_answers_asked.1 memB, concurrent⟩

theorem latest_of_answered (answered : ∀ node, ¬ Missing required ends node) :
    latest bootstrap required ends =
      match conflict? (answers ends (asked bootstrap required)) with
      | some conflict => .error conflict
      | none => .ok (newest (.initial bootstrap)
          ((answers ends (asked bootstrap required)).map (·.2))) := by
  have gathered : gather (.ofList required) (taken ends (asked bootstrap required)) =
      .ok (answers ends (asked bootstrap required)) := by
    apply gather_taken
    intro node _ inSet
    by_contra none
    rw [not_exists] at none
    exact answered node ⟨SortedSet.mem_ofList.1 inSet, none⟩
  simp only [latest, resolve]
  rw [gathered]
  change (match conflict? (answers ends (asked bootstrap required)) with
    | some conflict => throw conflict
    | none => _) = _
  cases conflict? (answers ends (asked bootstrap required)) <;> rfl

theorem latest_of_agreed (answered : ∀ node, ¬ Missing required ends node)
    (agreed : ∀ i j, ¬ Conflict bootstrap required ends i j) :
    latest bootstrap required ends =
      .ok (newest (.initial bootstrap) ((answers ends (asked bootstrap required)).map (·.2))) := by
  rw [latest_of_answered answered, conflict?_eq_none (agreed_answers agreed)]

theorem latest_of_missing {node : NodeId} {e : CallError}
    (first : IsFirst (Missing required ends) node) (ended : orTimeout node (ends node) = .error e) :
    latest bootstrap required ends = .error (.noAnswer node e) := by
  have gathered : gather (.ofList required) (taken ends (asked bootstrap required)) =
      .error (.noAnswer node e) := by
    refine gather_taken_of_first ascending_asked (mem_asked.2 (.inr first.1.1))
      (SortedSet.mem_ofList.2 first.1.1) ended fun m below inSet => ?_
    by_contra none
    rw [not_exists] at none
    exact UInt64.not_le.2 below (first.2 m ⟨SortedSet.mem_ofList.1 inSet, none⟩)
  simp only [latest, resolve]
  rw [gathered]
  rfl

theorem latest_of_conflict {i j : NodeId} {a b : Versioned Cluster}
    (answered : ∀ node, ¬ Missing required ends node)
    (first : IsFirst (fun i => ∃ j, Conflict bootstrap required ends i j) i)
    (second : IsFirst (Conflict bootstrap required ends i) j)
    (ofI : Answers bootstrap required ends i a) (ofJ : Answers bootstrap required ends j b) :
    latest bootstrap required ends = .error (.versionConflict i a.version j b.version) := by
  have independent : a.version.relation b.version = .concurrent := by
    obtain ⟨-, a', b', ofI', ofJ', independent⟩ := second.1
    cases ofI.2.symm.trans ofI'.2
    cases ofJ.2.symm.trans ofJ'.2
    exact independent
  rw [latest_of_answered answered, conflict?_eq_some (ascending_answers ascending_asked)
    (mem_answers_asked.2 ofI) (mem_answers_asked.2 ofJ) second.1.1 independent]
  · intro e mem below e' mem' less concurrent
    exact UInt64.not_le.2 below (first.2 e.1 ⟨e'.1, less, e.2, e'.2, mem_answers_asked.1 mem,
      mem_answers_asked.1 mem', concurrent⟩)
  · intro e mem above below concurrent
    exact UInt64.not_le.2 below (second.2 e.1 ⟨above, a, e.2, ofI, mem_answers_asked.1 mem,
      concurrent⟩)

theorem Newest.le {node other : NodeId} {held v : Versioned Cluster}
    (newest : Newest bootstrap required ends node)
    (ofNode : Answers bootstrap required ends node held)
    (ofOther : Answers bootstrap required ends other v) : v.version ≤ held.version := by
  obtain ⟨held', ofNode', top⟩ := newest
  cases ofNode.2.symm.trans ofNode'.2
  exact Clock.relation_after_or_equal_iff.1 (top other v ofOther)

/-- The one pass ends with the first of the newest answers. -/
theorem latest_of_newest {node : NodeId} {held : Versioned Cluster}
    (answered : ∀ node, ¬ Missing required ends node)
    (agreed : ∀ i j, ¬ Conflict bootstrap required ends i j)
    (first : IsFirst (Newest bootstrap required ends) node)
    (ofNode : Answers bootstrap required ends node held)
    (written : held.version.relation .empty = .after) :
    latest bootstrap required ends = .ok held := by
  rw [latest_of_agreed answered agreed]
  have above : Clock.empty < held.version := Clock.relation_eq_after_iff.1 written
  rcases newest_of_ascending bootstrap (ascending_answers ascending_asked) (agreed_answers agreed)
    with ⟨-, below⟩ | ⟨node', held', mem, same, -, top, strict⟩
  · exact absurd (below _ (mem_answers_asked.2 ofNode)) above.2
  · have newest' : Newest bootstrap required ends node' :=
      ⟨held', mem_answers_asked.1 mem, fun other v ofOther =>
        Clock.relation_after_or_equal_iff.2 (top _ (mem_answers_asked.2 ofOther))⟩
    have notBelow : ¬ node < node' := fun less =>
      (strict _ (mem_answers_asked.2 ofNode) less).2 (first.1.le ofNode (mem_answers_asked.1 mem))
    cases UInt64.le_antisymm (first.2 node' newest') (UInt64.not_lt.1 notBelow)
    cases ofNode.2.symm.trans (mem_answers_asked.1 mem).2
    exact congrArg _ same

theorem latest_of_unwritten (answered : ∀ node, ¬ Missing required ends node)
    (agreed : ∀ i j, ¬ Conflict bootstrap required ends i j)
    (equal : ∀ node held, Answers bootstrap required ends node held →
      held.version.relation .empty = .equal) :
    latest bootstrap required ends = .ok (.initial bootstrap) := by
  rw [latest_of_agreed answered agreed]
  rcases newest_of_ascending bootstrap (ascending_answers ascending_asked) (agreed_answers agreed)
    with ⟨same, -⟩ | ⟨node, held, mem, -, above, -⟩
  · exact congrArg _ same
  · have eq := equal node held (mem_answers_asked.1 mem)
    exact absurd (Clock.relation_eq_equal_iff.1 eq).1 above.2

theorem latest_eq_of_settles {result : Except Error (Versioned Cluster)}
    (settles : Settles bootstrap required ends result) :
    latest bootstrap required ends = result := by
  cases settles with
  | missing first ended => exact latest_of_missing first ended
  | conflict answered first second ofI ofJ =>
    exact latest_of_conflict answered first second ofI ofJ
  | newest answered agreed first ofNode written =>
    exact latest_of_newest answered agreed first ofNode written
  | unwritten answered agreed equal => exact latest_of_unwritten answered agreed equal

theorem exists_settles (bootstrap : Cluster) (required : List NodeId) (ends : Ends) :
    ∃ result, Settles bootstrap required ends result := by
  by_cases answered : ∀ node, ¬ Missing required ends node
  · by_cases agreed : ∀ i j, ¬ Conflict bootstrap required ends i j
    · rcases newest_of_ascending bootstrap (ascending_answers ascending_asked)
        (agreed_answers agreed) with ⟨-, below⟩ | ⟨node, held, mem, -, above, top, -⟩
      · refine ⟨_, .unwritten answered agreed ?_⟩
        intro node held ofNode
        exact Clock.relation_eq_equal_iff.2
          ⟨below _ (mem_answers_asked.2 ofNode), Clock.empty_le _⟩
      · have newest : Newest bootstrap required ends node :=
          ⟨held, mem_answers_asked.1 mem, fun other v ofOther =>
            Clock.relation_after_or_equal_iff.2 (top _ (mem_answers_asked.2 ofOther))⟩
        obtain ⟨first, isFirst⟩ := exists_isFirst newest
        obtain ⟨held', ofFirst, -⟩ := isFirst.1
        refine ⟨_, .newest answered agreed isFirst ofFirst (Clock.relation_eq_after_iff.2 ?_)⟩
        exact Clock.lt_of_lt_of_le above (isFirst.1.le ofFirst (mem_answers_asked.1 mem))
    · simp only [not_forall, not_not] at agreed
      obtain ⟨i, j, conflict⟩ := agreed
      obtain ⟨i, isFirst⟩ :=
        exists_isFirst (p := fun i => ∃ j, Conflict bootstrap required ends i j) ⟨j, conflict⟩
      obtain ⟨j, conflict⟩ := isFirst.1
      obtain ⟨j, isSecond⟩ := exists_isFirst conflict
      obtain ⟨-, a, b, ofI, ofJ, -⟩ := isSecond.1
      exact ⟨_, .conflict answered isFirst isSecond ofI ofJ⟩
  · simp only [not_forall, not_not] at answered
    obtain ⟨node, missing⟩ := answered
    obtain ⟨first, isFirst⟩ := exists_isFirst missing
    obtain ⟨e, ended⟩ := exists_error_of_unanswered isFirst.1.2
    exact ⟨_, .missing isFirst ended⟩

theorem latest_eq_iff {result : Except Error (Versioned Cluster)} :
    latest bootstrap required ends = result ↔ Settles bootstrap required ends result := by
  constructor
  · intro same
    obtain ⟨settled, settles⟩ := exists_settles bootstrap required ends
    rw [← same, latest_eq_of_settles settles]
    exact settles
  · exact latest_eq_of_settles

/-- How a call to a node that is not required failed makes no difference. -/
theorem latest_congr (requiredSame : ∀ node ∈ required, ends node = ends' node)
    (answersSame : ∀ node held, ends node = some (.ok held) ↔ ends' node = some (.ok held)) :
    latest bootstrap required ends = latest bootstrap required ends' := by
  have answers : Answers bootstrap required ends = Answers bootstrap required ends' := by
    funext node held
    exact propext (and_congr_right' (answersSame node held))
  have missing : Missing required ends = Missing required ends' := by
    funext node
    exact propext (and_congr_right fun mem => by rw [requiredSame node mem])
  have conflict : Conflict bootstrap required ends = Conflict bootstrap required ends' := by
    unfold Conflict
    rw [answers]
  have newest : Newest bootstrap required ends = Newest bootstrap required ends' := by
    unfold Newest
    rw [answers]
  obtain ⟨result, settles⟩ := exists_settles bootstrap required ends'
  rw [latest_eq_of_settles settles]
  refine latest_eq_of_settles ?_
  cases settles with
  | missing first ended =>
    refine .missing (missing ▸ first) ?_
    rw [requiredSame _ first.1.1]
    exact ended
  | conflict answered first second ofI ofJ =>
    exact .conflict (missing ▸ answered) (conflict ▸ first) (conflict ▸ second) (answers ▸ ofI)
      (answers ▸ ofJ)
  | newest answered agreed first ofNode written =>
    exact .newest (missing ▸ answered) (conflict ▸ agreed) (newest ▸ first) (answers ▸ ofNode)
      written
  | unwritten answered agreed equal =>
    exact .unwritten (missing ▸ answered) (conflict ▸ agreed) (answers ▸ equal)

end Resolution

namespace Fleet

open Resolution

variable {f : Fleet} {settings : Settings} {bootstrap : Cluster} {required : List NodeId}

theorem latestCluster_eq (ok : f.view.Consistent) :
    (f.latestCluster settings bootstrap required).1 =
      latest bootstrap required (f.ends settings .cluster (asked bootstrap required)) :=
  congrArg (resolve bootstrap (.ofList required))
    (takeAll_callRound ok (SortedSet.nodup_toList _))

/-- Resolving settles as the ends of the calls say, whatever calls of earlier rounds go on. The ends
settle on one result always, and the errors of nodes that are not required have no part in it. -/
theorem latestCluster_settles (reachable : f.Reachable) (settings : Settings) (bootstrap : Cluster)
    (required : List NodeId) :
    (f.latestCluster settings bootstrap required).1 =
        latest bootstrap required (f.ends settings .cluster (asked bootstrap required)) ∧
      (∀ ends result,
        latest bootstrap required ends = result ↔ Settles bootstrap required ends result) ∧
      ∀ ends ends' : Ends, (∀ node ∈ required, ends node = ends' node) →
        (∀ node held, ends node = some (.ok held) ↔ ends' node = some (.ok held)) →
        latest bootstrap required ends = latest bootstrap required ends' :=
  ⟨latestCluster_eq reachable.consistent, fun _ _ => latest_eq_iff, fun _ _ => latest_congr⟩

/-- Three nodes of which the first cannot be reached, and the others were updated without knowing of
each other. -/
def divided : Fleet :=
  (((holding (.uniform 3 1)).setCluster 1 ⟨.uniform 3 2, .increment .empty 1 5⟩).setCluster 2
    ⟨.uniform 3 1, .increment .empty 2 6⟩).fail 0

/-- The conflict is told although a node that is not required does not answer. -/
theorem latestCluster_settles_divided :
    Settles (.uniform 3 1) [2] (divided.ends {} .cluster (asked (.uniform 3 1) [2]))
      (.error (.versionConflict 1 (.increment .empty 1 5) 2 (.increment .empty 2 6))) := by
  have reachable : divided.Reachable :=
    .adjust (.adjust (.adjust (.fresh 0 _ none .empty) 1 _) 2 _) 0 _
  have settles := latestCluster_settles reachable {} (.uniform 3 1) [2]
  refine (settles.2.1 _ _).1 (settles.1.symm.trans ?_)
  rfl

end Fleet

end Resharding
