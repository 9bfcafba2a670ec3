import Resharding.Proofs.Planning.Migrations

/-!
Gains and losses.

What a node gains is told by its two lists alone, and so is what a node gives up, where a node that
is on one side only owns nothing on the other. If the same partitions are owned on both sides, these
differences fit together: a partition is gained by some node exactly if its owner changes, and exactly
if some node gives it up (`exists_gains_iff`, `exists_loses_iff`), and then by one other node only
(`gains_match_losses`).
-/

namespace Resharding

/-- The partitions that a node owns now and does not own in the target. -/
def primariesLost (current target : Cluster) (node : NodeId) : SortedSet PartitionId :=
  lost ((current.node? node).map (·.partitionSet)) ((target.node? node).map (·.partitionSet))

variable {current target : Cluster} {now wanted : SortedMap PartitionId NodeId} {node : NodeId}
  {p : PartitionId}

theorem mem_primariesLost (wf : current.WellFormed) (wfTarget : target.WellFormed)
    (owns : current.ownership = .ok now) (ownsTarget : target.ownership = .ok wanted) :
    p ∈ primariesLost current target node ↔ now.get? p = some node ∧ wanted.get? p ≠ some node :=
  mem_gained.trans <| and_congr (wf.mem_owned_iff_owner owns)
    (not_congr (wfTarget.mem_owned_iff_owner ownsTarget))

/-! ### Changes of owner -/

theorem get?_eq_none_iff_of_keys (same : now.keys = wanted.keys) :
    now.get? p = none ↔ wanted.get? p = none := by
  rw [← not_iff_not, ← Ne, ← Ne, Option.ne_none_iff_exists', Option.ne_none_iff_exists',
    ← SortedMap.mem_keys_iff, ← SortedMap.mem_keys_iff, same]

/-- Where whatever has an owner has one afterwards, a change of owner is seen from the new one. -/
theorem ne_iff_exists_some {a b : Option NodeId} (kept : b = none → a = none) :
    a ≠ b ↔ ∃ node, b = some node ∧ a ≠ some node := by
  cases b with
  | none => exact iff_of_false (fun apart => apart (kept rfl)) nofun
  | some node => simp only [Option.some.injEq, exists_eq_left']

/-- A partition changes its owner exactly if some node of the target gains it. -/
theorem exists_gains_iff (wf : current.WellFormed) (wfTarget : target.WellFormed)
    (owns : current.ownership = .ok now) (ownsTarget : target.ownership = .ok wanted)
    (same : now.keys = wanted.keys) :
    (∃ s ∈ target.nodeIds, p ∈ target.owned s \ current.owned s) ↔ now.get? p ≠ wanted.get? p := by
  rw [ne_iff_exists_some (get?_eq_none_iff_of_keys same).2]
  simp only [mem_owned_diff wf wfTarget owns ownsTarget]
  refine exists_congr fun s => and_iff_right_of_imp fun gains => ?_
  exact wfTarget.contains_iff.1 (wfTarget.contains_owner ownsTarget gains.1)

/-- A partition changes its owner exactly if some node of the current cluster gives it up. -/
theorem exists_loses_iff (wf : current.WellFormed) (wfTarget : target.WellFormed)
    (owns : current.ownership = .ok now) (ownsTarget : target.ownership = .ok wanted)
    (same : now.keys = wanted.keys) :
    (∃ n ∈ current.nodeIds, p ∈ primariesLost current target n) ↔
      now.get? p ≠ wanted.get? p := by
  rw [ne_comm, ne_iff_exists_some (get?_eq_none_iff_of_keys same).1]
  simp only [mem_primariesLost wf wfTarget owns ownsTarget]
  refine exists_congr fun n => and_iff_right_of_imp fun loses => ?_
  exact wf.contains_iff.1 (wf.contains_owner owns loses.1)

/-- What the nodes of the target gain is gained once each: together it is what changes its owner, and
also what the nodes of the current cluster give up, and nobody gains what it owns. -/
theorem gains_match_losses (built : current.Built) (builtTarget : target.Built)
    (owns : current.ownership = .ok now) (ownsTarget : target.ownership = .ok wanted)
    (same : now.keys = wanted.keys) :
    ∃ taken : NodeId → SortedSet PartitionId,
      (∀ s ∈ target.nodeIds, primariesGained current target s = .ok (taken s)) ∧
      (∀ s ∈ target.nodeIds, ∀ t ∈ target.nodeIds, s ≠ t → ∀ p ∈ taken s, p ∉ taken t) ∧
      (∀ p, (∃ s ∈ target.nodeIds, p ∈ taken s) ↔ now.get? p ≠ wanted.get? p) ∧
      (∀ p, (∃ s ∈ target.nodeIds, p ∈ taken s) ↔
        ∃ n ∈ current.nodeIds, p ∈ primariesLost current target n) ∧
      (∀ n ∈ current.nodeIds, ∀ p ∈ primariesLost current target n,
        ∃ s ∈ target.nodeIds, s ≠ n ∧ p ∈ taken s ∧ ∀ t ∈ target.nodeIds, p ∈ taken t → t = s) ∧
      ∀ s ∈ target.nodeIds, ∀ p ∈ taken s, now.get? p ≠ some s := by
  have wf := built.wellFormed
  have wfTarget := builtTarget.wellFormed
  have gains : ∀ {s p}, p ∈ target.owned s \ current.owned s ↔
      wanted.get? p = some s ∧ now.get? p ≠ some s := mem_owned_diff wf wfTarget owns ownsTarget
  have once : ∀ {s t p}, p ∈ target.owned s \ current.owned s →
      p ∈ target.owned t \ current.owned t → t = s := fun inS inT =>
    Option.some.inj ((gains.1 inT).1.symm.trans (gains.1 inS).1)
  refine ⟨fun s => target.owned s \ current.owned s,
    fun s mem => primariesGained_eq current (wfTarget.contains_iff.2 mem),
    fun s _ t _ apart p inS inT => apart (once inS inT).symm,
    fun p => exists_gains_iff wf wfTarget owns ownsTarget same,
    fun p => (exists_gains_iff wf wfTarget owns ownsTarget same).trans
      (exists_loses_iff wf wfTarget owns ownsTarget same).symm, ?_,
    fun s _ p inS => (gains.1 inS).2⟩
  -- What is given up changes its owner, so that some node gains it, and not the one that had it.
  intro n memN p lost
  have changed : now.get? p ≠ wanted.get? p :=
    (exists_loses_iff wf wfTarget owns ownsTarget same).1 ⟨n, memN, lost⟩
  obtain ⟨s, memS, inS⟩ := (exists_gains_iff wf wfTarget owns ownsTarget same).2 changed
  refine ⟨s, memS, ?_, inS, fun t _ inT => once inS inT⟩
  rintro rfl
  exact (gains.1 inS).2 ((mem_primariesLost wf wfTarget owns ownsTarget).1 lost).1

/-- Two nodes with two partitions each after node 0 has left and node 2 has joined: node 1 has
exchanged one of its own. -/
def Cluster.handedOn : Cluster :=
  ofMap "handed-on" (byId [.create 1 "b" [3, 1], .create 2 "c" [0, 2]]) []

theorem gains_match_losses_handedOn :
    ∃ taken : NodeId → SortedSet PartitionId,
      primariesGained (.uniform 2 2) .handedOn 1 = .ok (taken 1) ∧
      primariesGained (.uniform 2 2) .handedOn 2 = .ok (taken 2) ∧
      (∀ p ∈ taken 1, p ∉ taken 2) ∧
      (∃ s ∈ Cluster.handedOn.nodeIds, 1 ∈ taken s) ∧
      (¬ ∃ s ∈ Cluster.handedOn.nodeIds, 3 ∈ taken s) ∧
      ∃ s ∈ Cluster.handedOn.nodeIds, s ≠ 1 ∧ 2 ∈ taken s := by
  have builtNodes : ∀ n ∈ [Node.create 1 "b" [3, 1], Node.create 2 "c" [0, 2]], n.Built := by
    simp only [List.forall_mem_cons]
    exact ⟨.create .., .create .., nofun⟩
  have built : Cluster.handedOn.Built :=
    @Cluster.Built.ofNodes "handed-on" _ [] _ builtNodes rfl
  obtain ⟨now, owns⟩ : ∃ now, (Cluster.uniform 2 2).ownership = .ok now := ⟨_, rfl⟩
  obtain ⟨wanted, ownsTarget⟩ : ∃ wanted, Cluster.handedOn.ownership = .ok wanted := ⟨_, rfl⟩
  have same : now.keys = wanted.keys := by
    cases owns
    cases ownsTarget
    decide +kernel
  have changes : now.get? 1 ≠ wanted.get? 1 := by
    cases owns
    cases ownsTarget
    decide +kernel
  have stays : now.get? 3 = wanted.get? 3 := by
    cases owns
    cases ownsTarget
    decide +kernel
  have first : 1 ∈ Cluster.handedOn.nodeIds := by decide +kernel
  have second : 2 ∈ Cluster.handedOn.nodeIds := by decide +kernel
  have givesUp : 2 ∈ primariesLost (.uniform 2 2) .handedOn 1 := by decide +kernel
  obtain ⟨taken, done, apart, moved, -, given, -⟩ :=
    gains_match_losses (.uniform 2 2) built owns ownsTarget same
  obtain ⟨s, memS, other, inS, -⟩ := given 1 (by decide +kernel) 2 givesUp
  exact ⟨taken, done 1 first, done 2 second, apart 1 first 2 second (by decide),
    (moved 1).2 changes, fun gained => (moved 3).1 gained stays, s, memS, other, inS⟩

end Resharding
