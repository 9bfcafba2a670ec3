import Resharding.Proofs.Ordered.Listing
import Resharding.Proofs.Topology.Lookup

/-!
Who owns what.

The mapping of partitions to nodes exists exactly if no partition is listed twice
(`Cluster.ownership_eq_ok_iff`); otherwise the first listing that repeats an earlier one is named
(`Cluster.ownership_eq_error_iff`). The mapping says of a partition which node lists it
(`Cluster.get?_ownership`), whichever way the owner is looked for (`Cluster.map_owner?`), and lists
every partition once (`Cluster.keys_ownership`, `Cluster.size_ownership`). This holds of every
cluster, whatever the order of its nodes.
-/

namespace Resharding.Cluster

variable {c : Cluster} {owners : SortedMap PartitionId NodeId} {p : PartitionId} {id : NodeId}

/-- Every partition that is listed, in the order of the lists. -/
def listed (c : Cluster) : List PartitionId := c.nodes.flatMap (·.partitions)

theorem mem_listed : p ∈ c.listed ↔ ∃ n ∈ c.nodes, p ∈ n.partitions := List.mem_flatMap

theorem map_fst_claims : c.claims.map Prod.fst = c.listed := by
  simp only [claims, listed, List.map_flatMap, List.map_map]
  congr 1
  funext n
  exact List.map_id n.partitions

theorem mem_claims : (p, id) ∈ c.claims ↔ ∃ n ∈ c.nodes, n.id = id ∧ p ∈ n.partitions := by
  simp only [claims, List.mem_flatMap, List.mem_map, Prod.mk.injEq]
  constructor
  · rintro ⟨n, mem, _, lists, rfl, same⟩
    exact ⟨n, mem, same, lists⟩
  · rintro ⟨n, mem, same, lists⟩
    exact ⟨n, mem, p, lists, rfl, same⟩

/-- Claims settle exactly if they are on partitions of their own that nobody has taken. -/
theorem settle_eq_ok_iff {taken : SortedMap PartitionId NodeId}
    {claims : List (PartitionId × NodeId)} :
    settle taken claims = .ok owners ↔
      (claims.map Prod.fst).Nodup ∧ (∀ claim ∈ claims, taken.get? claim.1 = none) ∧
        owners = taken.insertAll claims := by
  induction claims generalizing taken with
  | nil =>
    refine ⟨fun done => ⟨List.nodup_nil, nofun, (Except.ok.inj done).symm⟩, ?_⟩
    rintro ⟨-, -, rfl⟩
    rfl
  | cons claim rest ih =>
    simp only [settle]
    cases here : taken.get? claim.1 with
    | some first =>
      constructor
      · intro done
        cases done
      · rintro ⟨-, free, -⟩
        rw [free claim List.mem_cons_self] at here
        cases here
    | none =>
      simp only [ih, SortedMap.get?_insert]
      constructor
      · rintro ⟨nodup, free, rfl⟩
        refine ⟨List.nodup_cons.2 ⟨?_, nodup⟩, ?_, rfl⟩
        · intro again
          obtain ⟨other, mem, same⟩ := List.mem_map.1 again
          have taken' := free other mem
          rw [if_pos same] at taken'
          cases taken'
        · intro other mem
          rcases List.mem_cons.1 mem with rfl | mem
          · exact here
          · have free' := free other mem
            split at free'
            · cases free'
            · exact free'
      · rintro ⟨nodup, free, rfl⟩
        obtain ⟨apart, nodup⟩ := List.nodup_cons.1 nodup
        refine ⟨nodup, fun other mem => ?_, rfl⟩
        rw [if_neg (fun same => apart (List.mem_map.2 ⟨other, mem, same⟩))]
        exact free other (List.mem_cons_of_mem _ mem)

theorem settle_append (taken : SortedMap PartitionId NodeId)
    (before rest : List (PartitionId × NodeId)) :
    settle taken (before ++ rest) = (settle taken before).bind fun now => settle now rest := by
  induction before generalizing taken with
  | nil => rfl
  | cons claim before ih =>
    simp only [List.cons_append, settle]
    cases taken.get? claim.1 with
    | some first => rfl
    | none => exact ih _

/-- Claims do not settle if some of them do and the next one is on a partition that is taken then. -/
theorem settle_eq_error_iff {taken : SortedMap PartitionId NodeId}
    {claims : List (PartitionId × NodeId)} {e : Error} :
    settle taken claims = .error e ↔ ∃ before p first second after now,
      claims = before ++ (p, second) :: after ∧ settle taken before = .ok now ∧
        now.get? p = some first ∧ e = .listedTwice p first second := by
  constructor
  · -- The front that settles grows by every claim on a partition that is free.
    intro failed
    induction claims generalizing taken with
    | nil => cases failed
    | cons claim rest ih =>
      simp only [settle] at failed
      cases here : taken.get? claim.1 with
      | some first =>
        rw [here] at failed
        cases failed
        exact ⟨[], claim.1, first, claim.2, rest, taken, rfl, rfl, here, rfl⟩
      | none =>
        rw [here] at failed
        obtain ⟨before, p, first, second, after, now, rfl, settled, again, rfl⟩ := ih failed
        refine ⟨claim :: before, p, first, second, after, now, rfl, ?_, again, rfl⟩
        simp only [settle, here]
        exact settled
  · rintro ⟨before, p, first, second, after, now, rfl, settled, again, rfl⟩
    rw [settle_append, settled]
    simp only [Except.bind, settle, again]

theorem ownership_eq_ok_iff :
    c.ownership = .ok owners ↔ c.listed.Nodup ∧ owners = .ofList c.claims := by
  simp only [ownership, settle_eq_ok_iff, map_fst_claims]
  refine and_congr_right fun _ => ⟨fun settled => settled.2, fun same => ⟨fun _ _ => rfl, same⟩⟩

/-- The mapping fails at the first listing that repeats an earlier one. -/
theorem ownership_eq_error_iff {e : Error} :
    c.ownership = .error e ↔ ∃ before p first second after,
      c.claims = before ++ (p, second) :: after ∧ (before.map Prod.fst).Nodup ∧
        (p, first) ∈ before ∧ e = .listedTwice p first second := by
  simp only [ownership, settle_eq_error_iff, settle_eq_ok_iff]
  constructor
  · rintro ⟨before, p, first, second, after, _, split, ⟨distinct, -, rfl⟩, again, rfl⟩
    exact ⟨before, p, first, second, after, split, distinct,
      (SortedMap.get?_ofList_of_nodup distinct).1 again, rfl⟩
  · rintro ⟨before, p, first, second, after, split, distinct, again, rfl⟩
    exact ⟨before, p, first, second, after, _, split, ⟨distinct, fun _ _ => rfl, rfl⟩,
      (SortedMap.get?_ofList_of_nodup distinct).2 again, rfl⟩

/-- The mapping gives a partition to the node that lists it. -/
theorem get?_ownership (owns : c.ownership = .ok owners) :
    owners.get? p = some id ↔ ∃ n ∈ c.nodes, n.id = id ∧ p ∈ n.partitions := by
  obtain ⟨nodup, rfl⟩ := ownership_eq_ok_iff.1 owns
  rw [← map_fst_claims] at nodup
  rw [SortedMap.get?_ofList_of_nodup nodup, mem_claims]

theorem exists_get?_ownership (owns : c.ownership = .ok owners) :
    (∃ id, owners.get? p = some id) ↔ p ∈ c.listed := by
  simp only [get?_ownership owns, mem_listed]
  constructor
  · rintro ⟨id, n, mem, -, lists⟩
    exact ⟨n, mem, lists⟩
  · rintro ⟨n, mem, lists⟩
    exact ⟨n.id, n, mem, rfl, lists⟩

theorem mem_partitionSet_iff_owner (owns : c.ownership = .ok owners) :
    p ∈ c.partitionSet ↔ ∃ id, owners.get? p = some id :=
  SortedSet.mem_ofList.trans (exists_get?_ownership owns).symm

/-- Searching the nodes for the owner of a partition finds the one that the mapping names. -/
theorem map_owner? (owns : c.ownership = .ok owners) (p : PartitionId) :
    (c.owner? p).map (·.id) = owners.get? p := by
  cases found : c.owner? p with
  | some n =>
    have lists := List.find?_some found
    exact ((get?_ownership owns).2
      ⟨n, List.mem_of_find?_eq_some found, rfl, List.contains_iff_mem.1 lists⟩).symm
  | none =>
    refine (Option.eq_none_iff_forall_ne_some.2 fun id here => ?_).symm
    obtain ⟨n, mem, -, lists⟩ := (get?_ownership owns).1 here
    exact List.find?_eq_none.1 found n mem (List.contains_iff_mem.2 lists)

/-- Where ids ascend, it is the node that is found under the id that the mapping names. -/
theorem owner?_eq_bind (ascending : c.nodes.Pairwise (·.id < ·.id)) (owns : c.ownership = .ok owners)
    (p : PartitionId) : c.owner? p = (owners.get? p).bind c.node? := by
  rw [← map_owner? owns]
  cases found : c.owner? p with
  | none => rfl
  | some n =>
    exact ((node?_eq_some_iff ascending).2 ⟨List.mem_of_find?_eq_some found, rfl⟩).symm

/-! ### All that is owned -/

theorem keys_ownership (owns : c.ownership = .ok owners) : owners.keys = c.partitionSet.toList :=
  SortedSet.members_ext (List.pairwise_map.2 owners.ascending) c.partitionSet.ascending fun _ =>
    SortedMap.mem_keys_iff.trans (mem_partitionSet_iff_owner owns).symm

theorem length_listed (c : Cluster) : c.listed.length = c.partitionCount := by
  simp only [listed, partitionCount]
  induction c.nodes with
  | nil => rfl
  | cons n rest ih => rw [List.flatMap_cons, List.length_append, ih, List.map_cons, total_cons]

theorem size_ownership (owns : c.ownership = .ok owners) : owners.size = c.partitionCount := by
  have once : owners.keys.Perm c.listed :=
    (List.perm_ext_iff_of_nodup owners.nodup_keys (ownership_eq_ok_iff.1 owns).1).2 fun _ =>
      SortedMap.mem_keys_iff.trans (exists_get?_ownership owns)
  calc owners.size = owners.keys.length := (List.length_map _).symm
    _ = c.listed.length := once.length_eq
    _ = c.partitionCount := length_listed c

end Resharding.Cluster
