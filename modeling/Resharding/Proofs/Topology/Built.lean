import Resharding.Planning.Move
import Resharding.Proofs.Ordered.Listing
import Resharding.Proofs.Topology.Lookup
import Resharding.Topology.Uniform

/-!
Clusters that were built.

Nodes come from their constructor by edits (`Node.Built`), and clusters from the constructors by
replacing, staging and moving (`Cluster.Built`). Whatever way a cluster was built, its ids ascend,
no node lists a partition twice, and there is a zone (`Cluster.Built.wellFormed`). A well-formed
cluster is given by its name, its zones and the nodes that are found in it (`Cluster.ext_node?`), so
that a change to it is known when it is known what is found afterwards
(`Cluster.node?_replaceNodes`, `Cluster.node?_stage`).
-/

namespace Resharding

/-! ### Lists without repeats -/

section Repeats

variable {α : Type} [DecidableEq α] {seen as : List α} {a : α}

theorem mem_keepUnseen : a ∈ keepUnseen seen as ↔ a ∈ as ∧ a ∉ seen := by
  induction as generalizing seen with
  | nil => simp only [keepUnseen, List.not_mem_nil, false_and]
  | cons b rest ih =>
    simp only [keepUnseen]
    split
    · rename_i inSeen
      rw [ih, List.mem_cons]
      refine and_congr_left fun unseen => (or_iff_right ?_).symm
      rintro rfl
      exact unseen inSeen
    · rename_i unseen
      rw [List.mem_cons, ih, List.mem_cons, List.mem_cons, not_or]
      by_cases same : a = b
      · exact iff_of_true (.inl same) ⟨.inl same, same ▸ unseen⟩
      · simp only [same, false_or, not_false_eq_true, true_and]

theorem nodup_keepUnseen (seen as : List α) : (keepUnseen seen as).Nodup := by
  induction as generalizing seen with
  | nil => exact List.nodup_nil
  | cons b rest ih =>
    simp only [keepUnseen]
    split
    · exact ih seen
    · refine List.nodup_cons.2 ⟨fun again => ?_, ih (b :: seen)⟩
      exact (mem_keepUnseen.1 again).2 List.mem_cons_self

theorem mem_keepFirst : a ∈ keepFirst as ↔ a ∈ as :=
  mem_keepUnseen.trans (and_iff_left List.not_mem_nil)

theorem keepUnseen_eq_self (distinct : as.Nodup) (fresh : ∀ a ∈ as, a ∉ seen) :
    keepUnseen seen as = as := by
  induction as generalizing seen with
  | nil => rfl
  | cons b rest ih =>
    obtain ⟨apart, distinct⟩ := List.nodup_cons.1 distinct
    obtain ⟨unseen, fresh⟩ := List.forall_mem_cons.1 fresh
    simp only [keepUnseen]
    rw [if_neg unseen, ih distinct]
    intro a mem again
    rcases List.mem_cons.1 again with rfl | again
    · exact apart mem
    · exact fresh a mem again

/-- A list without repeats is kept as it is. -/
theorem keepFirst_eq_self (distinct : as.Nodup) : keepFirst as = as :=
  keepUnseen_eq_self distinct fun _ _ => List.not_mem_nil

end Repeats

/-! ### Nodes -/

namespace Node

/-- A node that was made and edited. -/
inductive Built : Node → Prop where
  | create (id : NodeId) (host : String) (partitions : List PartitionId) :
      Built (create id host partitions)
  | edit {n : Node} (built : Built n) (e : Edit) : Built (n.edit e)

theorem nodup_owning (n : Node) (partitions : List PartitionId) :
    (n.owning partitions).partitions.Nodup := nodup_keepUnseen [] partitions

theorem mem_owning {n : Node} {partitions : List PartitionId} {p : PartitionId} :
    p ∈ (n.owning partitions).partitions ↔ p ∈ partitions := mem_keepFirst

theorem owning_of_nodup (n : Node) {partitions : List PartitionId} (distinct : partitions.Nodup) :
    n.owning partitions = { n with partitions := partitions } := by
  simp only [owning, keepFirst_eq_self distinct]

theorem gaining_of_nodup {n : Node} {added : List PartitionId}
    (distinct : (n.partitions ++ added).Nodup) :
    n.gaining added = { n with partitions := n.partitions ++ added } :=
  n.owning_of_nodup distinct

theorem losing_ofList {n : Node} (distinct : n.partitions.Nodup) (removed : List PartitionId) :
    n.losing (.ofList removed) =
      { n with partitions := n.partitions.filter fun p => p ∉ removed } := by
  have missing : ∀ p, (!(SortedSet.ofList removed).contains p) = decide (p ∉ removed) := by
    intro p
    rw [Bool.eq_iff_iff, decide_eq_true_iff, Bool.not_eq_true', ← Bool.not_eq_true,
      SortedSet.contains_iff, SortedSet.mem_ofList]
  simp only [losing, missing]
  exact n.owning_of_nodup (distinct.filter _)

theorem Built.nodup {n : Node} (built : n.Built) : n.partitions.Nodup := by
  induction built with
  | create id host partitions => exact nodup_keepUnseen [] partitions
  | edit _ e ih =>
    cases e with
    | own partitions => exact nodup_owning _ _
    | gain partitions => exact nodup_owning _ _
    | lose partitions => exact nodup_owning _ _
    | zone zone => exact ih
    | ports http socket admin => exact ih

end Node

namespace Cluster

/-- A cluster that was made and changed. -/
inductive Built : Cluster → Prop where
  | ofNodes {name : String} {nodes : List Node} {zones : List Zone} {c : Cluster}
      (built : ∀ n ∈ nodes, n.Built) (made : Cluster.ofNodes name nodes zones = .ok c) : Built c
  | uniform (count perNode : Nat) : Built (.uniform count perNode)
  | replaceNodes {c : Cluster} {updated : List Node} (of : Built c)
      (built : ∀ n ∈ updated, n.Built) : Built (c.replaceNodes updated)
  | stage {c target : Cluster} (of : Built c) (ofTarget : Built target) : Built (c.stage target)
  | move {c : Cluster} {stealer donor : Node} (of : Built c) (built : stealer.Built)
      (builtDonor : donor.Built) (partitions : SortedSet PartitionId) :
      Built (c.move stealer donor partitions)
  | donate {c c' : Cluster} {stealer : Node} {p : PartitionId} (of : Built c)
      (built : stealer.Built) (donated : c.donate stealer p = .ok c') : Built c'

/-- What every way of building keeps. -/
structure WellFormed (c : Cluster) : Prop where
  ascending : c.nodes.Pairwise (·.id < ·.id)
  distinct : ∀ n ∈ c.nodes, n.partitions.Nodup
  zoned : c.zones ≠ []

variable {c d target : Cluster} {name : String} {zones : List Zone} {m : SortedMap NodeId Node}
  {nodes updated : List Node} {id : NodeId} {n : Node}

/-! ### Nodes under their ids -/

/-- Every node is under its id. -/
def Keyed (m : SortedMap NodeId Node) : Prop := ∀ id n, m.get? id = some n → n.id = id

theorem Keyed.insertAll (keyed : Keyed m) (nodes : List Node) :
    Keyed (m.insertAll (nodes.map fun n => (n.id, n))) := by
  intro id n here
  rcases SortedMap.mem_of_get?_insertAll here with mem | before
  · obtain ⟨_, -, same⟩ := List.mem_map.1 mem
    cases same
    rfl
  · exact keyed id n before

theorem keyed_byId (nodes : List Node) : Keyed (byId nodes) :=
  Keyed.insertAll (fun id n here => by rw [SortedMap.get?_empty] at here; cases here) nodes

theorem mem_of_get?_byId (here : (byId nodes).get? id = some n) : n ∈ nodes := by
  rcases SortedMap.mem_of_get?_insertAll here with mem | before
  · obtain ⟨_, mem', same⟩ := List.mem_map.1 mem
    cases same
    exact mem'
  · cases before

theorem Keyed.ascending (keyed : Keyed m) : m.values.Pairwise (·.id < ·.id) := by
  refine List.pairwise_map.2 (m.ascending.imp_of_mem fun {a b} memA memB less => ?_)
  rw [keyed a.1 a.2 (SortedMap.get?_eq_some_iff.2 memA),
    keyed b.1 b.2 (SortedMap.get?_eq_some_iff.2 memB)]
  exact Std.compare_eq_lt.1 less

theorem Keyed.wellFormed_ofMap (keyed : Keyed m)
    (distinct : ∀ id n, m.get? id = some n → n.partitions.Nodup) (name : String)
    (zones : List Zone) : (ofMap name m zones).WellFormed where
  ascending := keyed.ascending
  distinct n mem := by
    obtain ⟨id, here⟩ := SortedMap.mem_values_iff.1 mem
    exact distinct id n here
  zoned := by
    simp only [ofMap]
    split
    · exact List.cons_ne_nil _ _
    · rename_i some
      intro none
      rw [none] at some
      exact some rfl

theorem Keyed.node?_ofMap (keyed : Keyed m) (name : String) (zones : List Zone) (id : NodeId) :
    (ofMap name m zones).node? id = m.get? id := by
  refine Option.ext fun n => ?_
  rw [node?_eq_some_iff keyed.ascending]
  constructor
  · rintro ⟨mem, rfl⟩
    obtain ⟨id, here⟩ := SortedMap.mem_values_iff.1 mem
    rw [keyed id n here]
    exact here
  · intro here
    exact ⟨SortedMap.mem_values_iff.2 ⟨id, here⟩, keyed id n here⟩

/-- Nodes of different ids are all found under them. -/
theorem get?_byId_eq_some_iff (distinct : (nodes.map (·.id)).Nodup) :
    (byId nodes).get? id = some n ↔ n ∈ nodes ∧ n.id = id := by
  have single : ∀ k v w, (k, v) ∈ nodes.map (fun n => (n.id, n)) →
      (k, w) ∈ nodes.map (fun n => (n.id, n)) → v = w := by
    intro k v w memV memW
    obtain ⟨v', listedV, sameV⟩ := List.mem_map.1 memV
    obtain ⟨w', listedW, sameW⟩ := List.mem_map.1 memW
    cases sameV
    obtain ⟨sameId, rfl⟩ := Prod.mk.inj sameW
    exact List.inj_on_of_nodup_map distinct listedV listedW sameId.symm
  refine (SortedMap.get?_ofList single).trans ?_
  simp only [List.mem_map, Prod.mk.injEq]
  constructor
  · rintro ⟨_, mem, rfl, rfl⟩
    exact ⟨mem, rfl⟩
  · rintro ⟨mem, rfl⟩
    exact ⟨n, mem, rfl, rfl⟩

theorem get?_byId (ascending : c.nodes.Pairwise (·.id < ·.id)) (id : NodeId) :
    (byId c.nodes).get? id = c.node? id := by
  refine Option.ext fun n => ?_
  rw [node?_eq_some_iff ascending]
  exact get?_byId_eq_some_iff (nodup_nodeIds ascending)

/-! ### Well-formed clusters -/

theorem WellFormed.replaceNodes (wf : c.WellFormed)
    (distinct : ∀ n ∈ updated, n.partitions.Nodup) : (c.replaceNodes updated).WellFormed := by
  refine ((keyed_byId c.nodes).insertAll updated).wellFormed_ofMap (fun id n here => ?_) _ _
  rcases SortedMap.mem_of_get?_insertAll here with mem | before
  · obtain ⟨_, mem', same⟩ := List.mem_map.1 mem
    cases same
    exact distinct n mem'
  · exact wf.distinct n (mem_of_get?_byId before)

theorem WellFormed.stage (wf : c.WellFormed) : (c.stage target).WellFormed := by
  apply wf.replaceNodes
  intro n mem
  obtain ⟨n, -, rfl⟩ := List.mem_map.1 mem
  exact n.nodup_owning []

theorem WellFormed.move (wf : c.WellFormed) {stealer donor : Node}
    {partitions : SortedSet PartitionId} : (c.move stealer donor partitions).WellFormed := by
  simp only [Cluster.move]
  split
  · apply wf.replaceNodes
    intro n mem
    rw [List.mem_singleton.1 mem]
    exact stealer.nodup_owning _
  · apply wf.replaceNodes
    intro n mem
    rcases List.mem_cons.1 mem with rfl | mem
    · exact stealer.nodup_owning _
    · rw [List.mem_singleton.1 mem]
      exact donor.nodup_owning _

theorem WellFormed.donate (wf : c.WellFormed) {stealer : Node} {p : PartitionId} {c' : Cluster}
    (donated : c.donate stealer p = .ok c') : c'.WellFormed := by
  simp only [Cluster.donate] at donated
  split at donated
  · cases donated
  · rename_i donor _
    split at donated
    · cases donated
      exact wf
    · cases donated
      apply wf.replaceNodes
      intro n mem
      rcases List.mem_cons.1 mem with rfl | mem
      · exact Node.nodup_owning _ _
      · rw [List.mem_singleton.1 mem]
        exact Node.nodup_owning _ _

theorem Built.wellFormed (built : c.Built) : c.WellFormed := by
  induction built with
  | @ofNodes name nodes zones c built made =>
    simp only [Cluster.ofNodes] at made
    split at made
    · cases made
    · cases made
      exact (keyed_byId nodes).wellFormed_ofMap
        (fun id n here => (built n (mem_of_get?_byId here)).nodup) name zones
  | uniform count perNode =>
    refine (keyed_byId _).wellFormed_ofMap (fun id n here => ?_) _ _
    obtain ⟨i, -, rfl⟩ := List.mem_map.1 (mem_of_get?_byId here)
    exact nodup_keepUnseen [] _
  | replaceNodes of built ih => exact ih.replaceNodes fun n mem => (built n mem).nodup
  | stage of ofTarget ih ihTarget => exact ih.stage
  | move of built builtDonor partitions ih => exact ih.move
  | donate of built donated ih => exact ih.donate donated

theorem WellFormed.contains_iff (wf : c.WellFormed) : c.contains id ↔ id ∈ c.nodeIds :=
  Cluster.contains_iff (wf.ascending.imp UInt64.le_of_lt)

/-- Nodes of ascending ids are listed in one order only. -/
theorem nodes_ext {nodes' : List Node} (ascending : nodes.Pairwise (·.id < ·.id))
    (ascending' : nodes'.Pairwise (·.id < ·.id)) (same : ∀ n, n ∈ nodes ↔ n ∈ nodes') :
    nodes = nodes' := by
  have apart : ∀ {nodes : List Node}, nodes.Pairwise (·.id < ·.id) → nodes.Nodup :=
    fun ascending => ascending.imp fun less eq => UInt64.ne_of_lt less (congrArg _ eq)
  refine List.Perm.eq_of_pairwise (fun a b _ _ less more => ?_) ascending ascending'
    ((List.perm_ext_iff_of_nodup (apart ascending) (apart ascending')).2 same)
  exact absurd (UInt64.lt_trans less more) (UInt64.lt_irrefl _)

/-- A well-formed cluster is given by its name, its zones and what is found in it. -/
theorem ext_node? (wfC : c.WellFormed) (wfD : d.WellFormed) (name : c.name = d.name)
    (zones : c.zones = d.zones) (same : ∀ id, c.node? id = d.node? id) : c = d := by
  have nodes : c.nodes = d.nodes := by
    refine nodes_ext wfC.ascending wfD.ascending fun n => ?_
    have found : c.node? n.id = some n ↔ n ∈ c.nodes ∧ n.id = n.id :=
      node?_eq_some_iff wfC.ascending
    rw [same, node?_eq_some_iff wfD.ascending, and_iff_left rfl, and_iff_left rfl] at found
    exact found.symm
  cases c
  cases d
  cases name
  cases zones
  cases nodes
  rfl

/-! ### What is found after a change -/

theorem node?_replaceNodes (c : Cluster) (updated : List Node) (id : NodeId) :
    (c.replaceNodes updated).node? id =
      ((byId c.nodes).insertAll (updated.map fun n => (n.id, n))).get? id :=
  ((keyed_byId c.nodes).insertAll updated).node?_ofMap _ _ id

theorem node?_replaceNodes_of_mem (mem : n ∈ updated)
    (only : ∀ m ∈ updated, m.id = n.id → m = n) :
    (c.replaceNodes updated).node? n.id = some n := by
  have written : (n.id, n) ∈ updated.map fun m => (m.id, m) := List.mem_map.2 ⟨n, mem, rfl⟩
  rw [node?_replaceNodes]
  apply SortedMap.get?_insertAll_of_mem written
  intro m memM
  obtain ⟨m', mem', same⟩ := List.mem_map.1 memM
  obtain ⟨sameId, rfl⟩ := Prod.mk.inj same
  exact only m' mem' sameId

theorem node?_replaceNodes_of_not_mem (wf : c.WellFormed) (absent : ∀ n ∈ updated, n.id ≠ id) :
    (c.replaceNodes updated).node? id = c.node? id := by
  rw [node?_replaceNodes, SortedMap.get?_insertAll_of_not_mem, get?_byId wf.ascending]
  intro n mem
  obtain ⟨n', mem', same⟩ := List.mem_map.1 mem
  exact absent n' mem' (Prod.mk.inj same).1

theorem node?_replaceNodes_single (c : Cluster) (n : Node) :
    (c.replaceNodes [n]).node? n.id = some n :=
  node?_replaceNodes_of_mem (List.mem_singleton_self n) fun _ mem _ => List.mem_singleton.1 mem

theorem node?_replaceNodes_first {m n : Node} (apart : m.id ≠ n.id) (c : Cluster) :
    (c.replaceNodes [m, n]).node? m.id = some m := by
  refine node?_replaceNodes_of_mem List.mem_cons_self fun k mem same => ?_
  rcases List.mem_cons.1 mem with rfl | mem
  · rfl
  · rw [List.mem_singleton.1 mem] at same
    exact absurd same.symm apart

theorem node?_replaceNodes_second {m n : Node} (apart : m.id ≠ n.id) (c : Cluster) :
    (c.replaceNodes [m, n]).node? n.id = some n := by
  refine node?_replaceNodes_of_mem (List.mem_cons_of_mem m (List.mem_singleton_self n)) ?_
  intro k mem same
  rcases List.mem_cons.1 mem with rfl | mem
  · exact absurd same apart
  · exact List.mem_singleton.1 mem

/-- Where two nodes were replaced, they are found under their ids, and all else as before. -/
theorem node?_replaceNodes_pair (wf : c.WellFormed) {m n : Node} (apart : m.id ≠ n.id)
    (id : NodeId) :
    (c.replaceNodes [m, n]).node? id =
      if id = m.id then some m else if id = n.id then some n else c.node? id := by
  split
  · rename_i first
    rw [first, node?_replaceNodes_first apart]
  split
  · rename_i second
    rw [second, node?_replaceNodes_second apart]
  · rename_i notFirst notSecond
    apply node?_replaceNodes_of_not_mem wf
    intro k mem
    rcases List.mem_cons.1 mem with rfl | mem
    · exact Ne.symm notFirst
    · rw [List.mem_singleton.1 mem]
      exact Ne.symm notSecond

theorem zones_replaceNodes (wf : c.WellFormed) : (c.replaceNodes updated).zones = c.zones := by
  simp only [replaceNodes, ofMap]
  rw [if_neg]
  exact fun none => wf.zoned (List.isEmpty_iff.1 none)

/-- The nodes of a target that a cluster lacks, owning nothing. -/
def newcomers (c target : Cluster) : List Node :=
  (target.nodes.filter fun n => !c.contains n.id).map (·.owning [])

theorem mem_newcomers :
    n ∈ c.newcomers target ↔ c.node? n.id = none ∧ ∃ m ∈ target.nodes, m.owning [] = n := by
  simp only [newcomers, List.mem_map, List.mem_filter, contains, Bool.not_eq_true',
    Option.isSome_eq_false_iff, Option.isNone_iff_eq_none]
  constructor
  · rintro ⟨m, ⟨mem, missing⟩, rfl⟩
    exact ⟨missing, m, mem, rfl⟩
  · rintro ⟨missing, m, mem, rfl⟩
    exact ⟨m, ⟨mem, missing⟩, rfl⟩

/-- Staging adds the nodes that were not there, with nothing to own. -/
theorem node?_stage (wf : c.WellFormed) (wfTarget : target.WellFormed) (id : NodeId) :
    (c.stage target).node? id = (c.node? id).or ((target.node? id).map (·.owning [])) := by
  have stage : c.stage target = c.replaceNodes (c.newcomers target) := rfl
  cases here : c.node? id with
  | some n =>
    rw [stage, node?_replaceNodes_of_not_mem wf, here, Option.some_or]
    rintro m mem rfl
    rw [(mem_newcomers.1 mem).1] at here
    cases here
  | none =>
    rw [Option.none_or]
    cases there : target.node? id with
    | some n =>
      obtain ⟨mem, rfl⟩ := mem_of_node? there
      have new : n.owning [] ∈ c.newcomers target := mem_newcomers.2 ⟨here, n, mem, rfl⟩
      refine node?_replaceNodes_of_mem new fun m memM same => ?_
      obtain ⟨-, k, memK, rfl⟩ := mem_newcomers.1 memM
      have found := (node?_eq_some_iff wfTarget.ascending).2 ⟨memK, same⟩
      rw [show target.node? (n.owning []).id = some n from there] at found
      rw [Option.some.inj found]
    | none =>
      rw [stage, node?_replaceNodes_of_not_mem wf, here]
      · rfl
      rintro m mem rfl
      obtain ⟨-, k, memK, rfl⟩ := mem_newcomers.1 mem
      have found := (node?_eq_some_iff wfTarget.ascending).2 ⟨memK, rfl⟩
      exact nomatch there.symm.trans found

theorem contains_stage (wf : c.WellFormed) (wfTarget : target.WellFormed) (id : NodeId) :
    (c.stage target).contains id = (c.contains id || target.contains id) := by
  simp only [contains, node?_stage wf wfTarget, Option.isSome_or, Option.isSome_map]

end Cluster

end Resharding
