import Resharding.Proofs.Placement.Ring

/-!
Finding the owner of a partition.

Whether there is a mapping of partitions to nodes is decided by the listed partitions alone, and if
there is none, by the first of them that is listed again. If there is one, it is told apart by no way
of asking: a look-up in the mapping, a search through the nodes and a search by halving on the ring
name the same node for every partition (`Cluster.ownership_decided`).
-/

namespace Resharding.Cluster

/-- The mapping exists exactly if no partition is listed twice, whether by one node or by two, and
otherwise names the first listing that repeats an earlier one, with the node of either. Where it
exists, it says of every partition what the nodes and the ring say, and its entries are the
partitions that are listed. -/
theorem ownership_decided (c : Cluster) :
    ((∃ owners, c.ownership = .ok owners) ↔ c.listed.Nodup) ∧
      (∀ e, c.ownership = .error e ↔ ∃ before p first second after,
        c.claims = before ++ (p, second) :: after ∧ (before.map Prod.fst).Nodup ∧
          (p, first) ∈ before ∧ e = .listedTwice p first second) ∧
      ∀ owners, c.ownership = .ok owners →
        (∃ ring, Ring.ofCluster c = .ok ring ∧ ∀ p, ring.owner? p = owners.get? p) ∧
        (∀ p, (c.owner? p).map (·.id) = owners.get? p) ∧
        (c.nodes.Pairwise (·.id < ·.id) → ∀ p, c.owner? p = (owners.get? p).bind c.node?) ∧
        owners.keys = c.partitionSet.toList ∧ owners.size = c.partitionCount := by
  refine ⟨?_, fun e => ownership_eq_error_iff, fun owners owns => ⟨?_, map_owner? owns, ?_,
    keys_ownership owns, size_ownership owns⟩⟩
  · simp only [ownership_eq_ok_iff, exists_and_left, exists_eq, and_true]
  · exact ⟨_, Ring.ofCluster_eq owns, Ring.owner?_of owners c.zoneOf⟩
  · exact fun ascending p => owner?_eq_bind ascending owns p

end Resharding.Cluster
