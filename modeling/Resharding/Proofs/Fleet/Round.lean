import Mathlib.Data.List.TakeWhile
import Resharding.Fleet.Round
import Resharding.Proofs.Ordered.Listing

/-!
Rounds: what a step does to the tasks, and what is read off in the end.

A step changes one task that has not ended (`Round.Follows`), and the number of running tasks moves by
one. When a round is looked at, every node is either completed or abandoned (`mem_abandoned_iff`),
and taking the results of distinct nodes reads each of them off, with a timeout for the abandoned
ones (`takeAll_eq`).
-/

namespace Resharding

namespace Round

variable {α : Type} {r r' : Round α} {node : NodeId} {reason : NodeId → String}

/-! ### Steps -/

theorem launch?_eq_some_iff :
    r.launch? node = some r' ↔
      r.tasks.get? node = some .waiting ∧ r.hasRoom ∧
        r' = { r with tasks := r.tasks.insert node .running } := by
  simp only [launch?]
  split
  · rename_i waits
    rw [waits, Option.ite_none_right_eq_some, Option.some.injEq, eq_comm (a := r')]
    simp only [true_and]
  · rename_i notWaiting
    constructor
    · intro launched
      cases launched
    · rintro ⟨waits, -⟩
      exact absurd waits notWaiting

theorem finish?_eq_some_iff {result : Except CallError α} :
    r.finish? node result = some r' ↔
      r.tasks.get? node = some .running ∧
        r' = { r with tasks := r.tasks.insert node (.finished result) } := by
  simp only [finish?]
  split
  · rename_i runs
    rw [runs, Option.some.injEq, eq_comm (a := r')]
    simp only [true_and]
  · rename_i idle
    exact iff_of_false (Option.some_ne_none _).symm fun both => idle both.1

theorem crash?_eq_some_iff :
    r.crash? node = some r' ↔
      r.tasks.get? node = some .running ∧
        r' = { r with tasks := r.tasks.insert node .crashed } := by
  simp only [crash?]
  split
  · rename_i runs
    rw [runs, Option.some.injEq, eq_comm (a := r')]
    simp only [true_and]
  · rename_i idle
    exact iff_of_false (Option.some_ne_none _).symm fun both => idle both.1

theorem finish?_of_running (runs : r.tasks.get? node = some .running)
    (result : Except CallError α) :
    r.finish? node result = some { r with tasks := r.tasks.insert node (.finished result) } :=
  finish?_eq_some_iff.2 ⟨runs, rfl⟩

theorem crash?_of_running (runs : r.tasks.get? node = some .running) :
    r.crash? node = some { r with tasks := r.tasks.insert node .crashed } :=
  crash?_eq_some_iff.2 ⟨runs, rfl⟩

/-! ### Counting running tasks -/

theorem runningCount_launch (waits : r.tasks.get? node = some .waiting) :
    (⟨r.width, r.tasks.insert node .running⟩ : Round α).runningCount = r.runningCount + 1 :=
  SortedMap.countP_values_insert Task.isRunning .running waits

/-- A task that ends, whatever it ends with, makes room. -/
theorem runningCount_end (ended : Task α) (runs : r.tasks.get? node = some .running)
    (stopped : ended.isRunning = false) :
    (⟨r.width, r.tasks.insert node ended⟩ : Round α).runningCount + 1 = r.runningCount := by
  have counted := SortedMap.countP_values_insert Task.isRunning ended runs
  rw [stopped] at counted
  exact counted

/-! ### Later states -/

/-- `r'` is what `r` may have become: it has the same nodes, and what has ended stays as it is. -/
structure Follows (r r' : Round α) : Prop where
  width : r'.width = r.width
  nodes : ∀ node, r'.tasks.get? node = none ↔ r.tasks.get? node = none
  ended : ∀ node task, r.tasks.get? node = some task → task.hasEnded → r'.tasks.get? node = some task

theorem Follows.refl (r : Round α) : r.Follows r := ⟨rfl, fun _ => .rfl, fun _ _ here _ => here⟩

theorem Follows.trans {r₁ r₂ r₃ : Round α} (first : r₁.Follows r₂) (second : r₂.Follows r₃) :
    r₁.Follows r₃ :=
  ⟨second.width.trans first.width, fun node => (second.nodes node).trans (first.nodes node),
    fun node task here done => second.ended node task (first.ended node task here done) done⟩

theorem Follows.keys (follows : r.Follows r') : r'.tasks.keys = r.tasks.keys := by
  apply SortedMap.keys_ext
  intro node
  rw [SortedMap.mem_keys_iff, SortedMap.mem_keys_iff, ← Option.ne_none_iff_exists',
    ← Option.ne_none_iff_exists', ne_eq, ne_eq, follows.nodes node]

theorem follows_insert {task new : Task α} (here : r.tasks.get? node = some task)
    (going : task.hasEnded = false) : r.Follows { r with tasks := r.tasks.insert node new } := by
  refine ⟨rfl, ?_, ?_⟩
  · intro other
    change (r.tasks.insert node new).get? other = none ↔ _
    rw [SortedMap.get?_insert]
    split
    · rename_i same
      rw [same, here]
      simp
    · exact .rfl
  · intro other old there done
    change (r.tasks.insert node new).get? other = _
    have apart : other ≠ node := by
      rintro rfl
      cases here.symm.trans there
      rw [going] at done
      cases done
    rw [SortedMap.get?_insert, if_neg apart]
    exact there

theorem follows_launch (launched : r.launch? node = some r') : r.Follows r' := by
  obtain ⟨waits, -, rfl⟩ := launch?_eq_some_iff.1 launched
  exact follows_insert waits rfl

theorem follows_finish {result : Except CallError α}
    (finished : r.finish? node result = some r') : r.Follows r' := by
  obtain ⟨runs, rfl⟩ := finish?_eq_some_iff.1 finished
  exact follows_insert runs rfl

theorem follows_crash (crashed : r.crash? node = some r') : r.Follows r' := by
  obtain ⟨runs, rfl⟩ := crash?_eq_some_iff.1 crashed
  exact follows_insert runs rfl

/-! ### Starting -/

theorem get?_start (parallelism : Nat) (nodes : List NodeId) (node : NodeId) :
    (start (α := α) parallelism nodes).tasks.get? node =
      if node ∈ nodes then some .waiting else none :=
  SortedMap.get?_ofList_const nodes (Task.waiting : Task α) node

theorem mem_keys_start {parallelism : Nat} {nodes : List NodeId} :
    node ∈ (start (α := α) parallelism nodes).tasks.keys ↔ node ∈ nodes := by
  rw [SortedMap.mem_keys_iff, get?_start]
  split <;> simp_all

theorem eq_waiting_of_mem_start {parallelism : Nat} {nodes : List NodeId} {task : Task α}
    (mem : task ∈ (start (α := α) parallelism nodes).tasks.values) : task = .waiting := by
  obtain ⟨node, here⟩ := SortedMap.mem_values_iff.1 mem
  rw [get?_start] at here
  exact (Option.some.inj (Option.ite_none_right_eq_some.1 here).2).symm

theorem runningCount_start (parallelism : Nat) (nodes : List NodeId) :
    (start (α := α) parallelism nodes).runningCount = 0 := by
  apply List.countP_eq_zero.2
  intro task mem
  rw [eq_waiting_of_mem_start mem]
  exact Bool.false_ne_true

/-! ### Looking at a round -/

/-- What a task of a node reports, where `awaited` are the nodes whose tasks have been awaited. -/
def reportOf (reason : NodeId → String) (awaited : List NodeId) (node : NodeId) :
    Task α → Option (Except CallError α)
  | .finished result => some result
  | .crashed =>
    if node ∈ awaited then some (.error (.remote (.taskFailed (reason node)))) else none
  | _ => none

theorem report?_eq (awaited : List NodeId) (node : NodeId) (task : Task α) :
    report? reason awaited (node, task) =
      (reportOf reason awaited node task).map fun result => (node, result) := by
  cases task with
  | crashed =>
    change (if node ∈ awaited then _ else _) = Option.map _ (if node ∈ awaited then _ else _)
    split <;> rfl
  | _ => rfl

theorem mem_reports {awaited : List NodeId} {result : Except CallError α} :
    (node, result) ∈ r.tasks.toList.filterMap (report? reason awaited) ↔
      (r.tasks.get? node).bind (reportOf reason awaited node) = some result := by
  rw [List.mem_filterMap, Option.bind_eq_some_iff]
  constructor
  · rintro ⟨⟨other, task⟩, mem, reports⟩
    rw [report?_eq, Option.map_eq_some_iff] at reports
    obtain ⟨found, eq, same⟩ := reports
    cases same
    exact ⟨task, SortedMap.get?_eq_some_iff.2 mem, eq⟩
  · rintro ⟨task, here, eq⟩
    refine ⟨(node, task), SortedMap.get?_eq_some_iff.1 here, ?_⟩
    rw [report?_eq, eq]
    rfl

/-- The result of a node is what its task reports. -/
theorem get?_completed (r : Round α) (awaited : List NodeId) (node : NodeId) :
    (r.outcome reason awaited).completed.get? node =
      (r.tasks.get? node).bind (reportOf reason awaited node) := by
  apply Option.ext
  intro result
  rw [← mem_reports]
  refine SortedMap.get?_ofList fun k v w memV memW => ?_
  rw [mem_reports] at memV memW
  exact Option.some.inj (memV.symm.trans memW)

/-- Every task of a round that is over has been awaited. -/
theorem awaited_of_ended (allEnded : ∀ node task, r.tasks.get? node = some task → task.hasEnded) :
    r.awaited = r.tasks.keys := by
  have all : r.tasks.toList.takeWhile (fun e => e.2.hasEnded) = r.tasks.toList := by
    apply List.takeWhile_eq_self_iff.2
    intro e mem
    exact allEnded e.1 e.2 (SortedMap.get?_eq_some_iff.2 mem)
  simp only [awaited]
  rw [all]
  rfl

/-- A node of the round is abandoned exactly when it has no result. -/
theorem mem_abandoned_iff {awaited : List NodeId} :
    node ∈ (r.outcome reason awaited).abandoned ↔
      node ∈ r.tasks.keys ∧ (r.outcome reason awaited).completed.get? node = none := by
  change node ∈ SortedSet.ofList (r.tasks.keys.filter fun node =>
    !(r.outcome reason awaited).completed.contains node) ↔ _
  rw [SortedSet.mem_ofList, List.mem_filter, SortedMap.contains, Option.not_isSome,
    Option.isNone_iff_eq_none]

end Round

namespace RoundOutcome

variable {α β : Type}

/-! ### Taking results -/

section Take

variable {o : RoundOutcome α} {node other : NodeId}

/-- What is left of an outcome once the results of some nodes have been taken, one after the other. -/
def without (o : RoundOutcome α) (nodes : List NodeId) : RoundOutcome α :=
  nodes.foldl (fun o node => (o.take node).2) o

theorem take_of_abandoned (late : node ∈ o.abandoned) : o.take node = (.error (.timeout node), o) :=
  if_pos (SortedSet.contains_iff.2 late)

theorem take_of_inTime (inTime : node ∉ o.abandoned) :
    o.take node = match o.completed.get? node with
      | some result => (result, { o with completed := o.completed.erase node })
      | none => (.error (.unreachable node), o) :=
  if_neg fun late => inTime (SortedSet.contains_iff.1 late)

theorem abandoned_take (o : RoundOutcome α) (node : NodeId) :
    (o.take node).2.abandoned = o.abandoned := by
  simp only [take]
  split
  · rfl
  · split <;> rfl

theorem abandoned_without (o : RoundOutcome α) (nodes : List NodeId) :
    (o.without nodes).abandoned = o.abandoned := by
  induction nodes generalizing o with
  | nil => rfl
  | cons node rest ih => exact (ih _).trans (abandoned_take o node)

theorem get?_take_of_ne (o : RoundOutcome α) (apart : other ≠ node) :
    (o.take node).2.completed.get? other = o.completed.get? other := by
  by_cases late : node ∈ o.abandoned
  · rw [take_of_abandoned late]
  · rw [take_of_inTime late]
    cases o.completed.get? node with
    | some result => exact (SortedMap.get?_erase _ _ _).trans (if_neg apart)
    | none => rfl

theorem get?_take_self (inTime : node ∉ o.abandoned) :
    (o.take node).2.completed.get? node = none := by
  rw [take_of_inTime inTime]
  cases here : o.completed.get? node with
  | some result => exact (SortedMap.get?_erase _ _ _).trans (if_pos rfl)
  | none => exact here

/-- A result that has been taken is gone, and the others are there. -/
theorem get?_without (nodes : List NodeId) (inTime : node ∉ o.abandoned) :
    (o.without nodes).completed.get? node =
      if node ∈ nodes then none else o.completed.get? node := by
  induction nodes generalizing o with
  | nil => rfl
  | cons first rest ih =>
    change ((o.take first).2.without rest).completed.get? node = _
    rw [ih (by rwa [abandoned_take])]
    by_cases same : node = first
    · subst same
      rw [get?_take_self inTime, ite_self, if_pos List.mem_cons_self]
    · rw [get?_take_of_ne o same]
      exact if_congr (List.mem_cons.trans (or_iff_right same)).symm rfl rfl

end Take

/-! ### Taking all results -/

/-- What a call counts as for the one who asked: one that has not ended has timed out. -/
def orTimeout (node : NodeId) (ended : Option (Except CallError α)) : Except CallError α :=
  ended.getD (.error (.timeout node))

/-- The answers of some nodes if their calls have ended like that. -/
def taken (ends : NodeId → Option (Except CallError α)) (nodes : List NodeId) :
    List (NodeId × Except CallError α) :=
  nodes.map fun node => (node, orTimeout node (ends node))

theorem taken_congr {ends ends' : NodeId → Option (Except CallError α)} {nodes : List NodeId}
    (same : ∀ node ∈ nodes, ends node = ends' node) : taken ends nodes = taken ends' nodes := by
  apply List.map_congr_left
  intro node mem
  rw [same node mem]

theorem orTimeout_eq_ok_iff {node : NodeId} {ended : Option (Except CallError α)} {a : α} :
    orTimeout node ended = .ok a ↔ ended = some (.ok a) := by
  cases ended with
  | none => exact iff_of_false nofun nofun
  | some ended => exact (Option.some_inj).symm

theorem exists_error_of_unanswered {node : NodeId} {ended : Option (Except CallError α)}
    (unanswered : ∀ a, ended ≠ some (.ok a)) : ∃ e, orTimeout node ended = .error e := by
  cases counts : orTimeout node ended with
  | error e => exact ⟨e, rfl⟩
  | ok a => exact absurd (orTimeout_eq_ok_iff.1 counts) (unanswered a)

theorem take_fst {o : RoundOutcome α} {node : NodeId}
    (split : node ∈ o.abandoned ↔ o.completed.get? node = none) :
    (o.take node).1 = orTimeout node (o.completed.get? node) := by
  cases ended : o.completed.get? node with
  | none => rw [take_of_abandoned (split.2 ended)]; rfl
  | some result =>
    have inTime : node ∉ o.abandoned := by
      rw [split, ended]
      exact Option.some_ne_none result
    rw [take_of_inTime inTime, ended]
    rfl

/-- The results of distinct nodes, each of them completed or else abandoned, taken in turn. -/
theorem takeAll_eq {o : RoundOutcome α} {nodes : List NodeId} (distinct : nodes.Nodup)
    (split : ∀ node ∈ nodes, node ∈ o.abandoned ↔ o.completed.get? node = none) :
    o.takeAll nodes = taken o.completed.get? nodes := by
  simp only [taken]
  induction nodes generalizing o with
  | nil => rfl
  | cons node rest ih =>
    have ⟨apart, tail⟩ := List.nodup_cons.1 distinct
    -- Taking this result leaves those of the other nodes.
    have others (m : NodeId) (mem : m ∈ rest) :
        (o.take node).2.completed.get? m = o.completed.get? m :=
      get?_take_of_ne o fun same => apart (same ▸ mem)
    have later : (o.take node).2.takeAll rest =
        rest.map fun m => (m, orTimeout m (o.completed.get? m)) := by
      refine (ih tail fun m mem => ?_).trans (List.map_congr_left fun m mem => ?_)
      · rw [abandoned_take, others m mem]
        exact split m (List.mem_cons_of_mem _ mem)
      · rw [others m mem]
    change (node, (o.take node).1) :: (o.take node).2.takeAll rest = _
    rw [take_fst (split node List.mem_cons_self), later]
    rfl

theorem completed_map (f : NodeId → Except CallError α → Except CallError β) (o : RoundOutcome α)
    (node : NodeId) :
    (o.map f).completed.get? node = (o.completed.get? node).map (f node) :=
  SortedMap.get?_map f o.completed node

end RoundOutcome

end Resharding
