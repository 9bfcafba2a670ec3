import Resharding.Proofs.Planning.Migrations
import Resharding.Proofs.Planning.Moves

/-!
Migrations in any order.

What a node owns in the course of a plan depends on the set of migrations that were made and not on
their order (`Node.after`): it has lost what one of them took from it, and has got what one of them
brought it. Every single migration, made between the nodes as they are by then, leads from one such
cluster to the next (`Plan.step`), so that all orders end in one cluster (`Plan.run`). On the way a
partition belongs to the node that owned it until its migration is made, and from then on to the one
that is to own it (`Plan.mem_owned`): never to two of them.
-/

namespace Resharding

/-! ### Nodes in the course of a plan -/

namespace Node

variable {n : Node} {done done' : List Migration} {m : Migration} {p : PartitionId}

/-- Some migration takes a partition from the node. -/
def TakenFrom (done : List Migration) (n : Node) (p : PartitionId) : Prop :=
  ∃ m ∈ done, m.donor = n.id ∧ p ∈ m.partitions

/-- Some migration brings the node a partition. -/
def BroughtTo (done : List Migration) (n : Node) (p : PartitionId) : Prop :=
  ∃ m ∈ done, m.stealer = n.id ∧ p ∈ m.partitions

/-- After some migrations a node owns what they brought it, and what it owned before and was not
taken from it. -/
def OwnsAfter (done : List Migration) (n : Node) (p : PartitionId) : Prop :=
  p ∈ n.partitions ∧ ¬ n.TakenFrom done p ∨ n.BroughtTo done p

instance : Decidable (n.TakenFrom done p) :=
  inferInstanceAs (Decidable (∃ m ∈ done, m.donor = n.id ∧ p ∈ m.partitions))

/-- The partitions of a node after some migrations. -/
def ownedAfter (done : List Migration) (n : Node) : SortedSet PartitionId :=
  (n.partitionSet.filter fun p => ¬ n.TakenFrom done p).insertAll
    ((done.filter fun m => m.stealer = n.id).flatMap (·.partitions.toList))

/-- A node after some migrations; one that none of them is about stays as it is. -/
def after (done : List Migration) (n : Node) : Node :=
  if ∃ m ∈ done, m.stealer = n.id ∨ m.donor = n.id then n.owning (n.ownedAfter done).toList else n

theorem mem_partitionSet : p ∈ n.partitionSet ↔ p ∈ n.partitions := SortedSet.mem_ofList

theorem mem_ownedAfter : p ∈ n.ownedAfter done ↔ n.OwnsAfter done p := by
  simp only [ownedAfter, OwnsAfter, BroughtTo, SortedSet.mem_insertAll, SortedSet.mem_filter,
    mem_partitionSet, decide_eq_true_eq, List.mem_flatMap, List.mem_filter, and_assoc,
    SortedSet.mem_toList]

theorem mem_after : p ∈ (n.after done).partitions ↔ n.OwnsAfter done p := by
  simp only [after]
  split
  · exact mem_owning.trans mem_ownedAfter
  · rename_i spared
    have kept : ¬ n.TakenFrom done p := fun ⟨m, mem, same, _⟩ => spared ⟨m, mem, .inr same⟩
    have missed : ¬ n.BroughtTo done p := fun ⟨m, mem, same, _⟩ => spared ⟨m, mem, .inl same⟩
    simp only [OwnsAfter, kept, missed, not_false_eq_true, and_true, or_false]

/-- Of the migrations only the set matters. -/
theorem after_congr (same : ∀ m, m ∈ done ↔ m ∈ done') (n : Node) :
    n.after done = n.after done' := by
  have owned : n.ownedAfter done = n.ownedAfter done' := SortedSet.ext_mem fun p => by
    simp only [mem_ownedAfter, OwnsAfter, TakenFrom, BroughtTo, same]
  simp only [after, same, owned]

@[simp] theorem after_nil (n : Node) : n.after [] = n := if_neg nofun

@[simp] theorem id_after (done : List Migration) (n : Node) : (n.after done).id = n.id := by
  simp only [after]
  split
  · rfl
  · rfl

theorem owning_after (done : List Migration) (n : Node) (partitions : List PartitionId) :
    (n.after done).owning partitions = n.owning partitions := by
  simp only [after]
  split
  · rfl
  · rfl

/-! One migration more. -/

theorem takenFrom_append :
    n.TakenFrom (done ++ [m]) p ↔ n.TakenFrom done p ∨ m.donor = n.id ∧ p ∈ m.partitions := by
  simp only [TakenFrom, List.mem_append, List.mem_singleton, or_and_right, exists_or,
    exists_eq_left]

theorem broughtTo_append :
    n.BroughtTo (done ++ [m]) p ↔ n.BroughtTo done p ∨ m.stealer = n.id ∧ p ∈ m.partitions := by
  simp only [BroughtTo, List.mem_append, List.mem_singleton, or_and_right, exists_or,
    exists_eq_left]

theorem after_append_of_touched (touches : m.stealer = n.id ∨ m.donor = n.id) :
    n.after (done ++ [m]) = n.owning (n.ownedAfter (done ++ [m])).toList :=
  if_pos ⟨m, List.mem_append_right _ (List.mem_singleton_self m), touches⟩

theorem after_append_of_stealer (stealer : m.stealer = n.id) (donor : m.donor ≠ n.id) :
    n.after (done ++ [m]) = n.owning ((n.after done).partitionSet ∪ m.partitions).toList := by
  rw [after_append_of_touched (.inl stealer)]
  congr 2
  refine SortedSet.ext_mem fun p => ?_
  simp only [mem_ownedAfter, SortedSet.mem_union, mem_partitionSet, mem_after, OwnsAfter,
    takenFrom_append, broughtTo_append, donor, stealer, false_and, or_false, true_and, or_assoc]

/-- What was brought to a donor must not be taken from it: it would depend on the order whether the
donor has it in the end. -/
theorem after_append_of_donor (stealer : m.stealer ≠ n.id) (donor : m.donor = n.id)
    (once : ∀ p, n.BroughtTo done p → p ∉ m.partitions) :
    n.after (done ++ [m]) = n.owning ((n.after done).partitionSet \ m.partitions).toList := by
  rw [after_append_of_touched (.inr donor)]
  congr 2
  refine SortedSet.ext_mem fun p => ?_
  simp only [mem_ownedAfter, SortedSet.mem_diff, mem_partitionSet, mem_after, OwnsAfter,
    takenFrom_append, broughtTo_append, donor, stealer, true_and, false_and, or_false, not_or,
    or_and_right, and_assoc, and_iff_left_of_imp (once p)]

theorem after_append_of_spared (stealer : m.stealer ≠ n.id) (donor : m.donor ≠ n.id) :
    n.after (done ++ [m]) = n.after done := by
  have owned : n.ownedAfter (done ++ [m]) = n.ownedAfter done := SortedSet.ext_mem fun p => by
    simp only [mem_ownedAfter, OwnsAfter, takenFrom_append, broughtTo_append, donor, stealer,
      false_and, or_false]
  simp only [after, owned, List.mem_append, List.mem_singleton, or_and_right, exists_or,
    exists_eq_left, donor, stealer, or_false]

end Node

/-! ### Clusters in the course of a plan -/

/-- A cluster after some migrations. -/
structure Cluster.Moved (c : Cluster) (done : List Migration) (c' : Cluster) : Prop where
  wellFormed : c'.WellFormed
  name : c'.name = c.name
  zones : c'.zones = c.zones
  found : ∀ id, c'.node? id = (c.node? id).map (·.after done)

/-- A cluster with its mapping, and migrations between its nodes that lead to another mapping. -/
structure Plan (c : Cluster) (now wanted : SortedMap PartitionId NodeId)
    (ms : List Migration) : Prop extends Relocates now wanted ms where
  wellFormed : c.WellFormed
  owns : c.ownership = .ok now
  receives : ∀ m ∈ ms, c.contains m.stealer

variable {c c' a b : Cluster} {now wanted : SortedMap PartitionId NodeId}
  {ms done done' order : List Migration} {m : Migration} {p : PartitionId} {node : NodeId}

namespace Cluster.Moved

theorem start (wf : c.WellFormed) : c.Moved [] c where
  wellFormed := wf
  name := rfl
  zones := rfl
  found id := by simp only [Node.after_nil, Option.map_id']

/-- The same migrations lead to the same cluster. -/
theorem unique (movedA : c.Moved done a) (movedB : c.Moved done' b)
    (same : ∀ m, m ∈ done ↔ m ∈ done') : a = b := by
  apply ext_node? movedA.wellFormed movedB.wellFormed
  · rw [movedA.name, movedB.name]
  · rw [movedA.zones, movedB.zones]
  · intro id
    rw [movedA.found, movedB.found]
    simp only [Node.after_congr same]

end Cluster.Moved

namespace Plan

theorem gives (plan : Plan c now wanted ms) (mem : m ∈ ms) : c.contains m.donor := by
  obtain ⟨p, carried⟩ := plan.occupied m mem
  exact plan.wellFormed.contains_owner plan.owns ((plan.carries m mem p).1 carried).1

/-- What a migration brought to a node no migration takes from it. -/
theorem once (plan : Plan c now wanted ms) {d : Migration} (memD : d ∈ ms) (mem : m ∈ ms)
    (brought : p ∈ d.partitions) (same : d.stealer = m.donor) : p ∉ m.partitions := by
  intro taken
  have owner := ((plan.carries d memD p).1 brought).1
  have owner' := ((plan.carries m mem p).1 taken).1
  rw [owner, ← same] at owner'
  exact plan.apart d memD (Option.some.inj owner').symm

/-- Made after others, a migration leads to the cluster after them and it. -/
theorem step (plan : Plan c now wanted ms) (sub : ∀ d ∈ done, d ∈ ms) (mem : m ∈ ms)
    (moved : c.Moved done c') : ∃ c'', c'.migrate m = .ok c'' ∧ c.Moved (done ++ [m]) c'' := by
  obtain ⟨s, foundS⟩ := Option.isSome_iff_exists.1 (plan.receives m mem)
  obtain ⟨d, foundD⟩ := Option.isSome_iff_exists.1 (plan.gives mem)
  have idS : m.stealer = s.id := (Cluster.mem_of_node? foundS).2.symm
  have idD : m.donor = d.id := (Cluster.mem_of_node? foundD).2.symm
  have apart : s.id ≠ d.id := idS ▸ idD ▸ plan.apart m mem
  have hereS : c'.node? s.id = some (s.after done) := by rw [moved.found, ← idS, foundS]; rfl
  have hereD : c'.node? d.id = some (d.after done) := by rw [moved.found, ← idD, foundD]; rfl
  refine ⟨c'.move (s.after done) (d.after done) m.partitions, ?_, ?_⟩
  · simp only [Cluster.migrate, Cluster.node]
    rw [idS, idD, hereS, hereD]
    rfl
  refine ⟨moved.wellFormed.move, ?_, ?_, fun id => ?_⟩
  · rw [Cluster.name_move, moved.name]
  · rw [Cluster.zones_move moved.wellFormed, moved.zones]
  have ids : (s.after done).id ≠ (d.after done).id := by rwa [Node.id_after, Node.id_after]
  rw [Cluster.node?_move moved.wellFormed ids]
  simp only [Cluster.receiving, Cluster.giving, Node.id_after, Node.owning_after, Cluster.owned,
    hereS, hereD, Option.map_some, Option.getD_some]
  -- What is asked for is the stealer, the donor, or a node that the migration is not about.
  split
  · rename_i same
    rw [same, ← idS, foundS, Option.map_some,
      Node.after_append_of_stealer idS (idD ▸ apart.symm), SortedSet.union_self]
  split
  · rename_i same
    rw [same, ← idD, foundD, Option.map_some, Node.after_append_of_donor (idS ▸ apart) idD]
    rintro p ⟨k, memK, same, brought⟩
    exact plan.once (sub k memK) mem brought (same.trans idD.symm)
  · rename_i notS notD
    rw [moved.found]
    cases found : c.node? id with
    | none => rfl
    | some n =>
      obtain ⟨-, rfl⟩ := Cluster.mem_of_node? found
      rw [Option.map_some, Option.map_some,
        Node.after_append_of_spared (idS ▸ Ne.symm notS) (idD ▸ Ne.symm notD)]

/-- Migrations in turn lead to the cluster after all of them. -/
theorem run (plan : Plan c now wanted ms) (sub : ∀ d ∈ done, d ∈ ms)
    (orderSub : ∀ d ∈ order, d ∈ ms) (moved : c.Moved done c') :
    ∃ c'', c'.migrateAll order = .ok c'' ∧ c.Moved (done ++ order) c'' := by
  induction order generalizing done c' with
  | nil => exact ⟨c', rfl, (List.append_nil done).symm ▸ moved⟩
  | cons m rest ih =>
    have mem : m ∈ ms := orderSub m List.mem_cons_self
    obtain ⟨c₁, made, moved₁⟩ := plan.step sub mem moved
    have sub₁ : ∀ d ∈ done ++ [m], d ∈ ms :=
      List.forall_mem_append.2 ⟨sub, List.forall_mem_singleton.2 mem⟩
    obtain ⟨c₂, madeRest, moved₂⟩ :=
      ih sub₁ (fun d memD => orderSub d (List.mem_cons_of_mem _ memD)) moved₁
    refine ⟨c₂, ?_, ?_⟩
    · simp only [Cluster.migrateAll] at madeRest ⊢
      rw [List.foldlM_cons, made]
      exact madeRest
    · rw [List.append_assoc] at moved₂
      exact moved₂

/-- Until its migration is made a partition belongs to the node that owned it, and from then on to
the one that is to own it. -/
theorem mem_owned (plan : Plan c now wanted ms) (sub : ∀ d ∈ done, d ∈ ms)
    (moved : c.Moved done c') :
    p ∈ c'.owned node ↔
      now.get? p = some node ∧ (∀ m ∈ done, p ∉ m.partitions) ∨
        wanted.get? p = some node ∧ ∃ m ∈ done, p ∈ m.partitions := by
  rw [Cluster.mem_owned_iff, moved.found]
  constructor
  · rintro ⟨n', here, owns⟩
    obtain ⟨n, found, rfl⟩ := Option.map_eq_some_iff.1 here
    obtain ⟨-, rfl⟩ := Cluster.mem_of_node? found
    rcases Node.mem_after.1 owns with ⟨lists, kept⟩ | ⟨m, mem, same, brought⟩
    · have owner := Cluster.get?_of_mem_owned plan.owns (Cluster.mem_owned_iff.2 ⟨n, found, lists⟩)
      refine .inl ⟨owner, fun m mem carried => kept ⟨m, mem, ?_, carried⟩⟩
      have owner' := ((plan.carries m (sub m mem) p).1 carried).1
      exact Option.some.inj (owner'.symm.trans owner)
    · exact .inr ⟨same ▸ ((plan.carries m (sub m mem) p).1 brought).2, m, mem, brought⟩
  · rintro (⟨owner, left⟩ | ⟨wants, m, mem, carried⟩)
    · obtain ⟨n, found, lists⟩ := plan.wellFormed.exists_node?_of_owner plan.owns owner
      refine ⟨n.after done, by rw [found, Option.map_some], Node.mem_after.2 (.inl ⟨lists, ?_⟩)⟩
      rintro ⟨m, mem, -, carried⟩
      exact left m mem carried
    · have stealer := ((plan.carries m (sub m mem) p).1 carried).2
      rw [wants] at stealer
      obtain ⟨n, found⟩ := Option.isSome_iff_exists.1 (plan.receives m (sub m mem))
      rw [← Option.some.inj stealer] at found
      have id : m.stealer = n.id :=
        (Option.some.inj stealer).symm.trans (Cluster.mem_of_node? found).2.symm
      exact ⟨n.after done, by rw [found, Option.map_some],
        Node.mem_after.2 (.inr ⟨m, mem, id, carried⟩)⟩

theorem exists_ownership (plan : Plan c now wanted ms) (sub : ∀ d ∈ done, d ∈ ms)
    (moved : c.Moved done c') : ∃ owners, c'.ownership = .ok owners := by
  apply moved.wellFormed.exists_ownership
  intro p a b ownsA ownsB
  rcases (plan.mem_owned sub moved).1 ownsA with ⟨ownerA, leftA⟩ | ⟨wantsA, m, mem, carriedA⟩
  · rcases (plan.mem_owned sub moved).1 ownsB with ⟨ownerB, -⟩ | ⟨-, m, mem, carriedB⟩
    · exact Option.some.inj (ownerA.symm.trans ownerB)
    · exact absurd carriedB (leftA m mem)
  · rcases (plan.mem_owned sub moved).1 ownsB with ⟨-, leftB⟩ | ⟨wantsB, -⟩
    · exact absurd carriedA (leftB m mem)
    · exact Option.some.inj (wantsA.symm.trans wantsB)

/-- What no migration carries is wanted where it is. -/
theorem get?_eq_of_left (plan : Plan c now wanted ms) (keys : now.keys = wanted.keys)
    (left : ∀ m ∈ ms, p ∉ m.partitions) : now.get? p = wanted.get? p := by
  have known : (∃ donor, now.get? p = some donor) ↔ ∃ stealer, wanted.get? p = some stealer := by
    rw [← SortedMap.mem_keys_iff, ← SortedMap.mem_keys_iff, keys]
  cases owner : now.get? p with
  | some donor =>
    obtain ⟨stealer, wants⟩ := known.1 ⟨donor, owner⟩
    rw [wants]
    by_contra differ
    obtain ⟨m, mem, carried⟩ := plan.complete p donor stealer owner wants fun same =>
      differ (congrArg some same.symm)
    exact left m mem carried
  | none =>
    refine (Option.eq_none_iff_forall_ne_some.2 fun stealer wants => ?_).symm
    obtain ⟨donor, owner'⟩ := known.2 ⟨stealer, wants⟩
    rw [owner] at owner'
    cases owner'

/-- After all migrations everything is owned as it is wanted. -/
theorem ownership_eq (plan : Plan c now wanted ms) (keys : now.keys = wanted.keys)
    (moved : c.Moved done c') (all : ∀ m, m ∈ done ↔ m ∈ ms) : c'.ownership = .ok wanted := by
  apply moved.wellFormed.ownership_eq
  intro p node
  rw [plan.mem_owned (fun d => (all d).1) moved]
  by_cases carried : ∃ m ∈ done, p ∈ m.partitions
  · obtain ⟨m, mem, brought⟩ := carried
    rw [or_iff_right fun stays => stays.2 m mem brought, and_iff_left ⟨m, mem, brought⟩]
  · have left : ∀ m ∈ done, p ∉ m.partitions := fun m mem brought => carried ⟨m, mem, brought⟩
    rw [or_iff_left fun moved => carried moved.2, and_iff_left left,
      plan.get?_eq_of_left keys fun m mem => left m ((all m).2 mem)]

end Plan

/-! ### Nothing left to gain -/

variable {current target : Cluster} {owners : SortedMap PartitionId NodeId}
  {stores : List StoreDefinition} {stealer : NodeId}

theorem primariesGained_eq_empty (wf : current.WellFormed) (wfTarget : target.WellFormed)
    (owns : current.ownership = .ok owners) (ownsTarget : target.ownership = .ok owners)
    (member : stealer ∈ target.nodeIds) :
    primariesGained current target stealer = .ok .empty := by
  have empty : target.owned stealer \ current.owned stealer = .empty := by
    refine SortedSet.ext_mem fun p => ?_
    rw [mem_owned_diff wf wfTarget owns ownsTarget]
    exact iff_of_false and_not_self (SortedSet.not_mem_empty p)
  rw [primariesGained_eq current (wfTarget.contains_iff.2 member), empty]

/-- Where everything is owned alike, the nodes hold the same copies for consistent stores, whatever
their zones. -/
theorem replicasGained_eq_empty (owns : current.ownership = .ok owners)
    (ownsTarget : target.ownership = .ok owners) (some : stores ≠ [])
    (consistent : ∀ store ∈ stores, store.spread = .consistent) (stealer : NodeId) :
    replicasGained Strategy.ofStore current target stores stealer = .ok .empty := by
  obtain ⟨store, most⟩ := StoreDefinition.exists_mostReplicated? some
  have spread := consistent store (StoreDefinition.mostReplicated?_spec most).1
  obtain ⟨here, ofCurrent, memHere⟩ := Cluster.holdings_ofStore most
    (Strategy.ofStore_eq_of_consistent spread owns) false
  obtain ⟨there, ofTarget, memThere⟩ := Cluster.holdings_ofStore most
    (Strategy.ofStore_eq_of_consistent spread ownsTarget) false
  obtain ⟨replicas, done, mem⟩ := replicasGained_spec ofCurrent ofTarget stealer
  have empty : replicas = .empty := SortedSet.ext_mem fun p => by
    refine iff_of_false (fun gained => ?_) (SortedSet.not_mem_empty p)
    obtain ⟨⟨held, notHeld⟩, -⟩ := (mem p).1 gained
    exact notHeld ((memHere stealer p).2 (((memThere stealer p).1 held).rezone spread))
  rw [done, empty]

/-! ### Whole plans -/

theorem plan_stage (wf : current.WellFormed) (wfTarget : target.WellFormed)
    (owns : current.ownership = .ok now) (ownsTarget : target.ownership = .ok wanted)
    (relocates : Relocates now wanted ms) : Plan (current.stage target) now wanted ms where
  toRelocates := relocates
  wellFormed := wf.stage
  owns := (Cluster.ownership_stage wf wfTarget).trans owns
  receives m mem := by
    obtain ⟨p, carried⟩ := relocates.occupied m mem
    have wants := ((relocates.carries m mem p).1 carried).2
    rw [Cluster.contains_stage wf wfTarget, Bool.or_eq_true]
    exact .inr (wfTarget.contains_owner ownsTarget wants)

/-- Between two clusters with the same partitions there are migrations, one for each pair of a node
that gains and a node that owns what it gains, that can be made in any order: no partition is ever
listed twice, all orders end in one cluster, everything is owned there as in the target, and no node
has anything left to take over, primaries or copies for consistent stores. -/
theorem relocates_in_any_order (built : current.Built) (builtTarget : target.Built)
    (owns : current.ownership = .ok now) (ownsTarget : target.ownership = .ok wanted)
    (keys : now.keys = wanted.keys) :
    ∃ ms result, migrations (current.stage target) target = .ok ms ∧
      (ms.map fun m => (m.stealer, m.donor)).Nodup ∧
      (∀ order, order.Perm ms →
        (∀ done, done <+: order → ∃ c owners,
          (current.stage target).migrateAll done = .ok c ∧ c.ownership = .ok owners) ∧
        (current.stage target).migrateAll order = .ok result) ∧
      result.ownership = .ok wanted ∧
      (∀ stealer ∈ target.nodeIds, primariesGained result target stealer = .ok .empty) ∧
      ∀ stores, stores ≠ [] → (∀ store ∈ stores, store.spread = .consistent) →
        ∀ stealer ∈ target.nodeIds,
          replicasGained Strategy.ofStore result target stores stealer = .ok .empty := by
  have wf := built.wellFormed
  have wfTarget := builtTarget.wellFormed
  obtain ⟨ms, made, relocates, nodup⟩ :=
    relocates_migrations wf.stage wfTarget ((Cluster.ownership_stage wf wfTarget).trans owns) ownsTarget
  have plan : Plan (current.stage target) now wanted ms :=
    plan_stage wf wfTarget owns ownsTarget relocates
  have runs : ∀ done, (∀ d ∈ done, d ∈ ms) →
      ∃ c, (current.stage target).migrateAll done = .ok c ∧ (current.stage target).Moved done c :=
    fun done sub => plan.run (fun _ mem => absurd mem List.not_mem_nil) sub (.start wf.stage)
  obtain ⟨result, -, moved⟩ := runs ms fun _ => id
  have owned : result.ownership = .ok wanted := plan.ownership_eq keys moved fun _ => Iff.rfl
  refine ⟨ms, result, made, nodup, fun order perm => ⟨fun done first => ?_, ?_⟩, owned, ?_, ?_⟩
  · have sub : ∀ d ∈ done, d ∈ ms := fun d mem => perm.subset (first.subset mem)
    obtain ⟨c, reached, movedC⟩ := runs done sub
    obtain ⟨owners, ownsC⟩ := plan.exists_ownership sub movedC
    exact ⟨c, owners, reached, ownsC⟩
  · obtain ⟨c, reached, movedC⟩ := runs order fun d mem => perm.subset mem
    rw [reached, movedC.unique moved fun _ => perm.mem_iff]
  · exact fun stealer member =>
      primariesGained_eq_empty moved.wellFormed wfTarget owned ownsTarget member
  · exact fun stores some consistent stealer _ =>
      replicasGained_eq_empty owned ownsTarget some consistent stealer

/-- Three nodes with two partitions each, resettled: the first gives both up, to the second and to a
node that joins, and the second gives one to the third. -/
def Cluster.resettled : Cluster :=
  (Cluster.uniform 3 2).replaceNodes
    [.create 0 "localhost" [], .create 1 "localhost" [0, 3], .create 2 "localhost" [4, 5, 2],
      .create 3 "localhost" [1]]

/-- A node may take before it gives or give before it takes: three migrations, made backwards. -/
theorem relocates_resettled :
    ∃ ms result, migrations ((Cluster.uniform 3 2).stage .resettled) .resettled = .ok ms ∧
      ms.map (fun m => (m.stealer, m.donor)) = [(1, 0), (2, 1), (3, 0)] ∧
      ((Cluster.uniform 3 2).stage .resettled).migrateAll ms.reverse = .ok result ∧
      result.ownership = Cluster.resettled.ownership ∧
      replicasGained Strategy.ofStore result .resettled [.plain 2] 3 = .ok .empty := by
  have built : (Cluster.uniform 3 2).Built := .uniform 3 2
  have builtTarget : Cluster.resettled.Built := by
    refine .replaceNodes built fun n mem => ?_
    simp only [List.mem_cons, List.not_mem_nil, or_false] at mem
    rcases mem with rfl | rfl | rfl | rfl
    · exact .create ..
    · exact .create ..
    · exact .create ..
    · exact .create ..
  obtain ⟨wanted, ownsTarget, keys⟩ : ∃ wanted, Cluster.resettled.ownership = .ok wanted ∧
      (SortedMap.ofList (Cluster.uniform 3 2).claims).keys = wanted.keys := ⟨_, rfl, rfl⟩
  obtain ⟨ms, result, made, -, orders, owned, -, replicas⟩ :=
    relocates_in_any_order built builtTarget rfl ownsTarget keys
  have pairs : ms.map (fun m => (m.stealer, m.donor)) = [(1, 0), (2, 1), (3, 0)] := by
    have computed : migrations ((Cluster.uniform 3 2).stage .resettled) .resettled = .ok _ := rfl
    rw [← Except.ok.inj (computed.symm.trans made)]
    rfl
  refine ⟨ms, result, made, pairs, (orders _ ms.reverse_perm).2, owned.trans ownsTarget.symm, ?_⟩
  refine replicas [.plain 2] (List.cons_ne_nil _ _) (fun store mem => ?_) 3 (by decide)
  rw [List.mem_singleton.1 mem]
  rfl

end Resharding
