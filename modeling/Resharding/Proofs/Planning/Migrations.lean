import Resharding.Planning.Relocation
import Resharding.Proofs.Planning.Gains

/-!
Which migrations are made.

Between a cluster and a target there is one migration for every pair of nodes of which one owns now
what the other is to own (`relocates_migrations`). What it carries is told by the two mappings of
partitions to nodes alone (`Relocates`).
-/

namespace Resharding

/-! ### Grouping by owner -/

/-- No node is kept without a partition. -/
def Holdings.Occupied (h : Holdings) : Prop :=
  ∀ node group, h.get? node = some group → ∃ p, p ∈ group

namespace Cluster

variable {c : Cluster} {owners : SortedMap PartitionId NodeId} {h : Holdings} {node : NodeId}
  {p q : PartitionId} {partitions group : SortedSet PartitionId}

theorem mem_held_creditOwner :
    q ∈ (c.creditOwner h p).held node ↔
      q ∈ h.held node ∨ q = p ∧ (c.owner? p).map (·.id) = some node := by
  simp only [creditOwner]
  split
  · rename_i owner found
    simp only [Holdings.mem_held_credit, found, Option.map_some, Option.some.injEq, eq_comm]
  · rename_i unowned
    simp only [unowned, Option.map_none, reduceCtorEq, and_false, or_false]

theorem mem_held_foldl_creditOwner (partitions : List PartitionId) (h : Holdings) :
    q ∈ (partitions.foldl c.creditOwner h).held node ↔
      q ∈ h.held node ∨ q ∈ partitions ∧ (c.owner? q).map (·.id) = some node := by
  induction partitions generalizing h with
  | nil => simp only [List.foldl_nil, List.not_mem_nil, false_and, or_false]
  | cons p rest ih =>
    rw [List.foldl_cons, ih, mem_held_creditOwner, or_assoc, List.mem_cons, or_and_right]
    refine or_congr_right (or_congr_left (and_congr_right ?_))
    rintro rfl
    exact Iff.rfl

theorem occupied_creditOwner (occupied : h.Occupied) (p : PartitionId) :
    (c.creditOwner h p).Occupied := by
  simp only [creditOwner]
  split
  · rename_i owner _
    intro node group here
    simp only [Holdings.credit, SortedMap.get?_adjust] at here
    split at here
    · cases here
      exact ⟨p, SortedSet.mem_insert.2 (.inl rfl)⟩
    · exact occupied node group here
  · exact occupied

theorem occupied_foldl_creditOwner (occupied : h.Occupied) (partitions : List PartitionId) :
    (partitions.foldl c.creditOwner h).Occupied := by
  induction partitions generalizing h with
  | nil => exact occupied
  | cons p rest ih => exact ih (occupied_creditOwner occupied p)

/-- The group of a node is what it owns of the partitions, if that is anything. -/
theorem get?_byOwner (owns : c.ownership = .ok owners) :
    (c.byOwner partitions).get? node = some group ↔
      (∃ p, p ∈ group) ∧ ∀ p, p ∈ group ↔ p ∈ partitions ∧ owners.get? p = some node := by
  have mem : ∀ p, p ∈ (c.byOwner partitions).held node ↔
      p ∈ partitions ∧ owners.get? p = some node := by
    intro p
    rw [← map_owner? owns]
    refine (mem_held_foldl_creditOwner partitions.toList .empty).trans (or_iff_right ?_)
    exact SortedSet.not_mem_empty p
  have occupied : (c.byOwner partitions).Occupied := by
    refine occupied_foldl_creditOwner (fun node group here => ?_) _
    rw [SortedMap.get?_empty] at here
    cases here
  simp only [Holdings.held, SortedMap.getD] at mem
  constructor
  · intro here
    rw [here] at mem
    exact ⟨occupied node group here, mem⟩
  · rintro ⟨⟨p, inGroup⟩, same⟩
    cases here : (c.byOwner partitions).get? node with
    | none =>
      rw [here] at mem
      exact absurd ((mem p).2 ((same p).1 inGroup)) (SortedSet.not_mem_empty p)
    | some group' =>
      rw [here] at mem
      have groups : group' = group := SortedSet.ext_mem fun q => (mem q).trans (same q).symm
      rw [groups]

end Cluster

/-! ### Making migrations -/

/-- Migrations that bring partitions from the nodes that own them to those that are to own them. -/
structure Relocates (now wanted : SortedMap PartitionId NodeId) (ms : List Migration) : Prop where
  /-- A migration carries all that its donor owns and its stealer is to own. -/
  carries : ∀ m ∈ ms, ∀ p,
    p ∈ m.partitions ↔ now.get? p = some m.donor ∧ wanted.get? p = some m.stealer
  apart : ∀ m ∈ ms, m.stealer ≠ m.donor
  occupied : ∀ m ∈ ms, ∃ p, p ∈ m.partitions
  complete : ∀ p donor stealer, now.get? p = some donor → wanted.get? p = some stealer →
    stealer ≠ donor → ∃ m ∈ ms, p ∈ m.partitions

/-- The migrations into one node. -/
def migrationsInto (current target : Cluster) (stealer : NodeId) : List Migration :=
  let groups := current.byOwner (target.owned stealer \ current.owned stealer)
  groups.toList.map fun (donor, partitions) => ⟨stealer, donor, partitions, []⟩

variable {current target : Cluster} {now wanted : SortedMap PartitionId NodeId} {stealer : NodeId}
  {m : Migration} {p : PartitionId}

theorem primariesGained_eq (current : Cluster) (member : target.contains stealer) :
    primariesGained current target stealer =
      .ok (target.owned stealer \ current.owned stealer) := by
  obtain ⟨primaries, done, mem⟩ := primariesGained_spec current member
  rw [done, SortedSet.ext_mem fun p => (mem p).trans SortedSet.mem_diff.symm]

theorem migrationsTo_eq (current : Cluster) (member : target.contains stealer) :
    migrationsTo current target stealer = .ok (migrationsInto current target stealer) := by
  simp only [migrationsTo]
  rw [primariesGained_eq current member]
  rfl

theorem migrations_eq (current : Cluster) (wf : target.WellFormed) :
    migrations current target = .ok (target.nodeIds.flatMap (migrationsInto current target)) := by
  have each : ∀ stealer ∈ target.nodeIds,
      migrationsTo current target stealer = .ok (migrationsInto current target stealer) :=
    fun stealer mem => migrationsTo_eq current (wf.contains_iff.2 mem)
  simp only [migrations]
  rw [mapM_eq_ok (List.forall₂_map_right_iff.2 (List.forall₂_same.2 each)), List.flatMap_def]
  rfl

theorem mem_owned_diff (wf : current.WellFormed) (wfTarget : target.WellFormed)
    (owns : current.ownership = .ok now) (ownsTarget : target.ownership = .ok wanted) :
    p ∈ target.owned stealer \ current.owned stealer ↔
      wanted.get? p = some stealer ∧ now.get? p ≠ some stealer := by
  rw [SortedSet.mem_diff, wf.mem_owned_iff_owner owns, wfTarget.mem_owned_iff_owner ownsTarget]

/-- Into a node goes what it is to own and does not own, in one migration for each of the owners. -/
theorem mem_migrationsInto (wf : current.WellFormed) (wfTarget : target.WellFormed)
    (owns : current.ownership = .ok now) (ownsTarget : target.ownership = .ok wanted) :
    m ∈ migrationsInto current target stealer ↔
      m.stealer = stealer ∧ m.stores = [] ∧ (∃ p, p ∈ m.partitions) ∧ ∀ p, p ∈ m.partitions ↔
        (wanted.get? p = some stealer ∧ now.get? p ≠ some stealer) ∧ now.get? p = some m.donor := by
  simp only [migrationsInto, List.mem_map, ← mem_owned_diff wf wfTarget owns ownsTarget,
    ← Cluster.get?_byOwner owns]
  constructor
  · rintro ⟨group, mem, rfl⟩
    exact ⟨rfl, rfl, SortedMap.get?_eq_some_iff.2 mem⟩
  · rintro ⟨rfl, stores, here⟩
    refine ⟨(m.donor, m.partitions), SortedMap.get?_eq_some_iff.1 here, ?_⟩
    rw [← stores]

theorem relocates_migrationsInto (wf : current.WellFormed) (wfTarget : target.WellFormed)
    (owns : current.ownership = .ok now) (ownsTarget : target.ownership = .ok wanted) :
    Relocates now wanted (target.nodeIds.flatMap (migrationsInto current target)) := by
  have each : ∀ m ∈ target.nodeIds.flatMap (migrationsInto current target),
      (∃ p, p ∈ m.partitions) ∧ ∀ p, p ∈ m.partitions ↔
        (wanted.get? p = some m.stealer ∧ now.get? p ≠ some m.stealer) ∧
          now.get? p = some m.donor := by
    intro m mem
    obtain ⟨stealer, -, into⟩ := List.mem_flatMap.1 mem
    obtain ⟨rfl, -, spec⟩ := (mem_migrationsInto wf wfTarget owns ownsTarget).1 into
    exact spec
  have apart : ∀ m ∈ target.nodeIds.flatMap (migrationsInto current target),
      m.stealer ≠ m.donor := by
    intro m mem same
    obtain ⟨⟨q, inM⟩, carried⟩ := each m mem
    obtain ⟨⟨-, notNow⟩, owner⟩ := (carried q).1 inM
    exact notNow (same ▸ owner)
  refine ⟨fun m mem p => ?_, apart, fun m mem => (each m mem).1, ?_⟩
  · rw [(each m mem).2]
    refine ⟨fun carried => ⟨carried.2, carried.1.1⟩, fun both => ⟨⟨both.2, fun same => ?_⟩, both.1⟩⟩
    exact apart m mem (Option.some.inj (same.symm.trans both.1))
  · -- The migration is the one that carries the whole group of its donor.
    intro p donor stealer owner wants differ
    let group := (target.owned stealer \ current.owned stealer).filter fun q =>
      now.get? q == some donor
    have mem : ∀ q, q ∈ group ↔ (wanted.get? q = some stealer ∧ now.get? q ≠ some stealer) ∧
        now.get? q = some donor := fun q => by
      rw [SortedSet.mem_filter, mem_owned_diff wf wfTarget owns ownsTarget, beq_iff_eq]
    have inGroup : p ∈ group :=
      (mem p).2 ⟨⟨wants, fun same => differ (Option.some.inj (same.symm.trans owner))⟩, owner⟩
    obtain ⟨n, memN, rfl, -⟩ := (Cluster.get?_ownership ownsTarget).1 wants
    have into : ⟨n.id, donor, group, []⟩ ∈ migrationsInto current target n.id :=
      (mem_migrationsInto wf wfTarget owns ownsTarget).2 ⟨rfl, rfl, ⟨p, inGroup⟩, mem⟩
    exact ⟨_, List.mem_flatMap.2 ⟨n.id, List.mem_map_of_mem memN, into⟩, inGroup⟩

/-- No two migrations are between the same nodes in the same direction. -/
theorem nodup_migrationsInto (current : Cluster) (wf : target.WellFormed) :
    ((target.nodeIds.flatMap (migrationsInto current target)).map fun m =>
      (m.stealer, m.donor)).Nodup := by
  have pairs : ∀ stealer,
      (migrationsInto current target stealer).map (fun m => (m.stealer, m.donor)) =
        (current.byOwner (target.owned stealer \ current.owned stealer)).keys.map
          fun donor => (stealer, donor) := fun stealer => by
    simp only [migrationsInto, SortedMap.keys, List.map_map]
    rfl
  have ids : target.nodeIds.Nodup := Cluster.nodup_nodeIds wf.ascending
  simp only [List.map_flatMap, pairs]
  refine List.nodup_flatMap.2 ⟨fun stealer _ => ?_, ids.imp fun {a b} apart pair inA inB => ?_⟩
  · exact (SortedMap.nodup_keys _).map fun a b same => (Prod.mk.inj same).2
  · obtain ⟨_, -, rfl⟩ := List.mem_map.1 inA
    obtain ⟨_, -, same⟩ := List.mem_map.1 inB
    exact apart (Prod.mk.inj same).1.symm

theorem relocates_migrations (wf : current.WellFormed) (wfTarget : target.WellFormed)
    (owns : current.ownership = .ok now) (ownsTarget : target.ownership = .ok wanted) :
    ∃ ms, migrations current target = .ok ms ∧ Relocates now wanted ms ∧
      (ms.map fun m => (m.stealer, m.donor)).Nodup :=
  ⟨_, migrations_eq current wfTarget, relocates_migrationsInto wf wfTarget owns ownsTarget,
    nodup_migrationsInto current wfTarget⟩

end Resharding
