import Mathlib.Data.List.Duplicate
import Resharding.Proofs.Topology.Built
import Resharding.Wire.Records

/-!
Built clusters have one form each.

However a cluster was built, its nodes were built too (`Cluster.Built.of_mem`), so that they can go
into further clusters, and they are listed in one order. So searching by halving finds what a search
from the front finds (`Cluster.node?_eq_scanNode?`), and a cluster is told by its name, its zones and
what is found in it (`Cluster.Built.canonical`). Nodes make a cluster exactly if no two of them have
one id (`Cluster.repeatedId?_eq_none_iff`), and then the same one in whatever order they are given
(`Cluster.byId_perm`).
-/

namespace Resharding

namespace Node

/-- A node that owns other partitions is an edited one. -/
theorem Built.owning {n : Node} (built : n.Built) (partitions : List PartitionId) :
    (n.owning partitions).Built := built.edit (.own partitions)

theorem built_uniform (perNode i : Nat) : (Node.uniform perNode i).Built :=
  (Built.create _ _ _).edit (.ports _ _ _)

end Node

namespace Cluster

variable {c c' target : Cluster} {name : String} {zones : List Zone} {seen : List NodeId}
  {nodes nodes' updated : List Node} {id : NodeId} {n stealer donor : Node} {p : PartitionId}

/-! ### Nodes of built clusters -/

theorem mem_of_mem_ofMap (mem : n ∈ (ofMap name (byId nodes) zones).nodes) : n ∈ nodes := by
  obtain ⟨id, here⟩ := SortedMap.mem_values_iff.1 mem
  exact mem_of_get?_byId here

/-- A cluster that was changed has nodes that it was given and nodes that it had. -/
theorem mem_of_mem_replaceNodes (mem : n ∈ (c.replaceNodes updated).nodes) :
    n ∈ updated ∨ n ∈ c.nodes := by
  obtain ⟨id, here⟩ := SortedMap.mem_values_iff.1 mem
  rcases SortedMap.mem_of_get?_insertAll here with given | before
  · obtain ⟨_, listed, same⟩ := List.mem_map.1 given
    cases same
    exact .inl listed
  · exact .inr (mem_of_get?_byId before)

theorem of_mem_replaceNodes {P : Node → Prop} (before : ∀ n ∈ c.nodes, P n)
    (given : ∀ n ∈ updated, P n) : ∀ n ∈ (c.replaceNodes updated).nodes, P n := fun n mem =>
  (mem_of_mem_replaceNodes mem).elim (given n) (before n)

theorem built_of_mem_move (before : ∀ n ∈ c.nodes, n.Built) (builtStealer : stealer.Built)
    (builtDonor : donor.Built) {partitions : SortedSet PartitionId} :
    ∀ n ∈ (c.move stealer donor partitions).nodes, n.Built := by
  simp only [move]
  split
  · refine of_mem_replaceNodes before (List.forall_mem_singleton.2 ?_)
    exact builtStealer.owning _
  · refine of_mem_replaceNodes before (List.forall_mem_cons.2 ⟨?_, List.forall_mem_singleton.2 ?_⟩)
    · exact builtStealer.owning _
    · exact builtDonor.owning _

theorem built_of_mem_donate (before : ∀ n ∈ c.nodes, n.Built) (builtStealer : stealer.Built)
    (donated : c.donate stealer p = .ok c') : ∀ n ∈ c'.nodes, n.Built := by
  simp only [donate] at donated
  split at donated
  · cases donated
  · rename_i donor found
    split at donated
    · cases donated
      exact before
    · cases donated
      refine of_mem_replaceNodes before (List.forall_mem_cons.2 ⟨?_, List.forall_mem_singleton.2 ?_⟩)
      · cases here : c.node? stealer.id with
        | none => exact builtStealer.edit (.gain [p])
        | some own => exact (before own (mem_of_node? here).1).edit (.gain [p])
      · exact (before donor (List.mem_of_find?_eq_some found)).edit (.lose _)

/-- The nodes of a built cluster were built, so that other clusters can be built with them. -/
theorem Built.of_mem (built : c.Built) : ∀ n ∈ c.nodes, n.Built := by
  induction built with
  | @ofNodes name nodes zones c built made =>
    simp only [Cluster.ofNodes] at made
    split at made
    · cases made
    · cases made
      exact fun n mem => built n (mem_of_mem_ofMap mem)
  | uniform count perNode =>
    intro n mem
    obtain ⟨i, -, rfl⟩ := List.mem_map.1 (mem_of_mem_ofMap mem)
    exact Node.built_uniform perNode i
  | replaceNodes of built ih => exact of_mem_replaceNodes ih built
  | stage of ofTarget ih ihTarget =>
    refine of_mem_replaceNodes ih fun n mem => ?_
    obtain ⟨m, listed, rfl⟩ := List.mem_map.1 mem
    exact (ihTarget m (List.mem_of_mem_filter listed)).owning []
  | move of built builtDonor partitions ih => exact built_of_mem_move ih built builtDonor
  | donate of built donated ih => exact built_of_mem_donate ih built donated

/-! ### Two ways of looking up -/

/-- Where ids ascend without repeats, a search from the front finds the one node of an id. -/
theorem scanNode?_eq_some_iff (ascending : c.nodes.Pairwise (·.id < ·.id)) :
    c.scanNode? id = some n ↔ n ∈ c.nodes ∧ n.id = id := by
  simp only [scanNode?]
  constructor
  · intro found
    have fits := List.find?_some found
    exact ⟨List.mem_of_find?_eq_some found, beq_iff_eq.1 fits⟩
  · rintro ⟨mem, rfl⟩
    cases found : c.nodes.find? fun m => m.id == n.id with
    | none => exact absurd (beq_self_eq_true n.id) (List.find?_eq_none.1 found n mem)
    | some m =>
      have fits := List.find?_some found
      rw [List.inj_on_of_nodup_map (nodup_nodeIds ascending) (List.mem_of_find?_eq_some found) mem
        (beq_iff_eq.1 fits)]

theorem node?_eq_scanNode? (ascending : c.nodes.Pairwise (·.id < ·.id)) (id : NodeId) :
    c.node? id = c.scanNode? id :=
  Option.ext fun _ => (node?_eq_some_iff ascending).trans (scanNode?_eq_some_iff ascending).symm

/-! ### Making clusters of nodes -/

theorem repeatedId?_eq_none_iff :
    repeatedId? seen nodes = none ↔
      (nodes.map (·.id)).Nodup ∧ ∀ n ∈ nodes, n.id ∉ seen := by
  induction nodes generalizing seen with
  | nil => exact iff_of_true rfl ⟨List.nodup_nil, nofun⟩
  | cons n rest ih =>
    simp only [repeatedId?, List.map_cons, List.nodup_cons, List.forall_mem_cons]
    split
    · rename_i again
      exact iff_of_false nofun fun fresh => fresh.2.1 again
    · rename_i new
      simp only [ih, List.mem_cons, not_or, List.mem_map, not_exists, not_and]
      constructor
      · rintro ⟨distinct, others⟩
        exact ⟨⟨fun m mem => (others m mem).1, distinct⟩, new, fun m mem => (others m mem).2⟩
      · rintro ⟨⟨apart, distinct⟩, -, unseen⟩
        exact ⟨distinct, fun m mem => ⟨apart m mem, unseen m mem⟩⟩

/-- An id that is refused is that of a node, and was seen before or is that of another node too. -/
theorem of_repeatedId? (found : repeatedId? seen nodes = some id) :
    id ∈ nodes.map (·.id) ∧ (id ∈ seen ∨ List.Duplicate id (nodes.map (·.id))) := by
  induction nodes generalizing seen with
  | nil => cases found
  | cons n rest ih =>
    simp only [repeatedId?] at found
    split at found
    · rename_i again
      cases found
      exact ⟨List.mem_cons_self, .inl again⟩
    · obtain ⟨later, before | twice⟩ := ih found
      · rcases List.mem_cons.1 before with rfl | before
        · exact ⟨List.mem_cons_self, .inr later.duplicate_cons_self⟩
        · exact ⟨List.mem_cons_of_mem _ later, .inl before⟩
      · exact ⟨List.mem_cons_of_mem _ later, .inr (twice.duplicate_cons _)⟩

theorem ofNodes_eq_ok_iff :
    ofNodes name nodes zones = .ok c ↔
      (nodes.map (·.id)).Nodup ∧ ofMap name (byId nodes) zones = c := by
  constructor
  · intro made
    simp only [ofNodes] at made
    split at made
    · cases made
    · rename_i none
      exact ⟨(repeatedId?_eq_none_iff.1 none).1, Except.ok.inj made⟩
  · rintro ⟨distinct, rfl⟩
    have none := repeatedId?_eq_none_iff.2 ⟨distinct, fun n _ => List.not_mem_nil (a := n.id)⟩
    simp only [ofNodes]
    rw [none]

theorem of_ofNodes_eq_error {e : Error} (refused : ofNodes name nodes zones = .error e) :
    ∃ id, e = .config (.duplicateNode id) ∧ List.Duplicate id (nodes.map (·.id)) := by
  simp only [ofNodes] at refused
  split at refused
  · rename_i id repeated
    cases refused
    exact ⟨id, rfl, (of_repeatedId? repeated).2.resolve_left List.not_mem_nil⟩
  · cases refused

/-- Under their ids, nodes are the same in whatever order they are given. -/
theorem byId_perm (perm : nodes'.Perm nodes) (distinct : (nodes.map (·.id)).Nodup) :
    byId nodes' = byId nodes := by
  refine SortedMap.ext_get? fun id => Option.ext fun n => ?_
  rw [get?_byId_eq_some_iff distinct, get?_byId_eq_some_iff ((perm.map _).nodup_iff.2 distinct),
    perm.mem_iff]

/-- A cluster made of nodes of different ids lists them all. -/
theorem nodes_ofMap_perm (distinct : (nodes.map (·.id)).Nodup) :
    (ofMap name (byId nodes) zones).nodes.Perm nodes := by
  have listed : (ofMap name (byId nodes) zones).nodes.Nodup :=
    (keyed_byId nodes).ascending.imp fun less same => UInt64.ne_of_lt less (congrArg _ same)
  refine (List.perm_ext_iff_of_nodup listed (.of_map _ distinct)).2 fun n => ?_
  refine SortedMap.mem_values_iff.trans ?_
  simp only [get?_byId_eq_some_iff distinct]
  exact ⟨fun ⟨_, mem, _⟩ => mem, fun mem => ⟨n.id, mem, rfl⟩⟩

/-! ### One form -/

open Wire in
/-- A built cluster has nodes of ascending ids, which were built themselves and list no partition
twice, and it has a zone. Its nodes are found alike from the front and by halving, and it is the
same, and written the same, as any other built one of its name with its zones and its nodes under
their ids. Nodes are refused as a cluster exactly if two have one id, which is then named, and make
the same cluster in any order. -/
theorem Built.canonical (built : c.Built) :
    c.nodes.Pairwise (·.id < ·.id) ∧ (∀ n ∈ c.nodes, n.Built ∧ n.partitions.Nodup) ∧
      c.zones ≠ [] ∧
      (∀ id, c.node? id = c.scanNode? id ∧
        c.node id = (c.scanNode? id).elim (.error (.unknownNode id)) .ok ∧
        c.contains id = (c.scanNode? id).isSome) ∧
      (∀ d : Cluster, d.Built → c.name = d.name → c.zones = d.zones →
        (∀ id, c.scanNode? id = d.scanNode? id) →
        c = d ∧ Codec.cluster.encode c = Codec.cluster.encode d) ∧
      ∀ name nodes zones,
        ((∃ e, Cluster.ofNodes name nodes zones = .error e) ↔ ¬ (nodes.map (·.id)).Nodup) ∧
        (∀ e, Cluster.ofNodes name nodes zones = .error e →
          ∃ id, e = .config (.duplicateNode id) ∧ List.Duplicate id (nodes.map (·.id))) ∧
        ∀ made, Cluster.ofNodes name nodes zones = .ok made →
          made.nodes.Perm nodes ∧
          ∀ nodes' : List Node, nodes'.Perm nodes → Cluster.ofNodes name nodes' zones = .ok made := by
  have wf := built.wellFormed
  refine ⟨wf.ascending, fun n mem => ⟨built.of_mem n mem, wf.distinct n mem⟩, wf.zoned,
    fun id => ?_, fun d builtD name zones same => ?_, fun name nodes zones => ⟨?_, ?_, ?_⟩⟩
  · have same := node?_eq_scanNode? wf.ascending id
    refine ⟨same, ?_, congrArg Option.isSome same⟩
    rw [← same]
    simp only [node]
    cases c.node? id <;> rfl
  · have wfD := builtD.wellFormed
    have eq : c = d := by
      apply ext_node? wf wfD name zones
      intro id
      rw [node?_eq_scanNode? wf.ascending, same, node?_eq_scanNode? wfD.ascending]
    exact ⟨eq, congrArg _ eq⟩
  · constructor
    · rintro ⟨e, refused⟩ distinct
      rw [ofNodes_eq_ok_iff.2 ⟨distinct, rfl⟩] at refused
      cases refused
    · intro repeated
      cases made : Cluster.ofNodes name nodes zones with
      | error e => exact ⟨e, rfl⟩
      | ok c => exact absurd (ofNodes_eq_ok_iff.1 made).1 repeated
  · exact fun e refused => of_ofNodes_eq_error refused
  · intro made done
    obtain ⟨distinct, rfl⟩ := ofNodes_eq_ok_iff.1 done
    refine ⟨nodes_ofMap_perm distinct, fun nodes' perm => ?_⟩
    exact ofNodes_eq_ok_iff.2 ⟨(perm.map _).nodup_iff.2 distinct, by rw [byId_perm perm distinct]⟩

/-- A uniform cluster to which a node was added that then took over a partition. -/
def grown : Cluster :=
  ((uniform 2 1).replaceNodes [.create 5 "x" [7, 7]]).move (.create 5 "x" [7]) (.create 0 "y" [])
    (.ofList [0])

/-- The nodes that make the same cluster, in another order. -/
def grownNodes : List Node := [.create 5 "x" [0, 7], .create 0 "y" [], .uniform 1 1]

theorem canonical_grown :
    grown.nodes.Pairwise (·.id < ·.id) ∧ grown.node? 5 = grown.scanNode? 5 ∧
      (∃ e, Cluster.ofNodes "c" (.create 1 "z" [] :: grownNodes) [] = .error e) ∧
      ∃ made, Cluster.ofNodes "test-cluster" grownNodes [] = .ok made ∧ grown = made := by
  have built : grown.Built :=
    .move (.replaceNodes (.uniform 2 1) fun n mem => List.mem_singleton.1 mem ▸ .create ..)
      (.create ..) (.create ..) _
  have builtNodes : ∀ n ∈ grownNodes, n.Built := by
    simp only [grownNodes, List.forall_mem_cons]
    exact ⟨.create .., .create .., Node.built_uniform 1 1, nofun⟩
  obtain ⟨ascending, -, -, found, only, made⟩ := built.canonical
  refine ⟨ascending, (found 5).1, (made "c" _ []).1.2 (by decide), _, rfl, ?_⟩
  have nodes : grown.nodes = (ofMap "test-cluster" (byId grownNodes) []).nodes := by decide +kernel
  refine (only _ (.ofNodes builtNodes rfl) rfl (by decide +kernel) fun id => ?_).1
  exact congrArg (fun nodes : List Node => nodes.find? fun n => n.id == id) nodes

end Cluster

end Resharding
