import Resharding.Planning.Holdings
import Resharding.Proofs.Placement.Strategy
import Resharding.Topology.Uniform

/-!
What the nodes of a cluster hold.

Crediting every listed partition to the owners of its copies comes to what the strategy says of each
node and partition alone (`Cluster.holdings_ofStore`): no node is credited with anything on account
of another partition, and no copy is without an owner. So the nodes that a client is sent to for a
key are those that hold the key's partition (`Cluster.routes_to_holders`).
-/

namespace Resharding

namespace StoreDefinition

/-- A store for trials with so many copies, wherever they are. -/
def plain (copies : UInt64) : StoreDefinition :=
  { name := "s", engine := "bdb", declaredCopies := copies }

variable {stores : List StoreDefinition} {store : StoreDefinition}

theorem foldl_mostReplicated (first : StoreDefinition) (rest : List StoreDefinition) :
    let most := rest.foldl (fun best s =>
      if best.replicationFactor < s.replicationFactor then s else best) first
    most ∈ first :: rest ∧ ∀ s ∈ first :: rest, s.replicationFactor ≤ most.replicationFactor := by
  induction rest generalizing first with
  | nil =>
    refine ⟨List.mem_cons_self, fun s mem => ?_⟩
    rw [List.mem_singleton.1 mem]
    exact Nat.le_refl _
  | cons s rest ih =>
    simp only [List.foldl_cons] at ih ⊢
    split
    · rename_i more
      obtain ⟨mem, le⟩ := ih s
      refine ⟨List.mem_cons_of_mem _ mem, fun t memT => ?_⟩
      rcases List.mem_cons.1 memT with rfl | memT
      · exact Nat.le_trans (Nat.le_of_lt more) (le s List.mem_cons_self)
      · exact le t memT
    · rename_i noMore
      obtain ⟨mem, le⟩ := ih first
      refine ⟨?_, fun t memT => ?_⟩
      · rcases List.mem_cons.1 mem with same | mem
        · rw [same]
          exact List.mem_cons_self
        · exact List.mem_cons_of_mem _ (List.mem_cons_of_mem _ mem)
      · rcases List.mem_cons.1 memT with rfl | memT
        · exact le t List.mem_cons_self
        rcases List.mem_cons.1 memT with rfl | memT
        · exact Nat.le_trans (Nat.le_of_not_lt noMore) (le first List.mem_cons_self)
        · exact le t (List.mem_cons_of_mem _ memT)

/-- The most replicated store is one of the stores, and none asks for more copies. -/
theorem mostReplicated?_spec (most : mostReplicated? stores = some store) :
    store ∈ stores ∧ ∀ s ∈ stores, s.replicationFactor ≤ store.replicationFactor := by
  cases stores with
  | nil => cases most
  | cons first rest =>
    cases most
    exact foldl_mostReplicated first rest

theorem exists_mostReplicated? (some : stores ≠ []) :
    ∃ store, mostReplicated? stores = Option.some store := by
  cases stores with
  | nil => exact absurd rfl some
  | cons first rest => exact ⟨_, rfl⟩

end StoreDefinition

namespace Holdings

/-- What a node holds. A node that is not listed holds nothing. -/
def held (h : Holdings) (node : NodeId) : SortedSet PartitionId := h.getD node .empty

variable {c : Cluster} {h : Holdings} {owners : SortedMap PartitionId NodeId}
  {node : NodeId} {p q : PartitionId} {copies : List PartitionId}

/-! ### Crediting -/

theorem not_mem_held_start : p ∉ (start c).held node := by
  simp only [held, start, SortedMap.getD]
  rw [SortedMap.get?_ofList_const]
  split <;> exact SortedSet.not_mem_empty p

theorem mem_held_credit {holder : NodeId} :
    q ∈ (h.credit holder p).held node ↔ q ∈ h.held node ∨ q = p ∧ node = holder := by
  simp only [held, credit, SortedMap.getD, SortedMap.get?_adjust]
  by_cases same : node = holder
  · rw [if_pos same, Option.getD_some, SortedSet.mem_insert, same]
    exact ⟨fun either => either.symm.imp_right fun eq => ⟨eq, rfl⟩,
      fun either => either.symm.imp_left And.left⟩
  · rw [if_neg same]
    exact ⟨.inl, fun either => either.resolve_right fun both => same both.2⟩

/-- A partition is credited to exactly the owners of its copies. -/
theorem creditCopies_spec (owned : ∀ copy ∈ copies, ∃ holder, owners.get? copy = some holder)
    (h : Holdings) : ∃ h', creditCopies owners p h copies = .ok h' ∧ ∀ node q,
      q ∈ h'.held node ↔
        q ∈ h.held node ∨ q = p ∧ ∃ copy ∈ copies, owners.get? copy = some node := by
  induction copies generalizing h with
  | nil =>
    refine ⟨h, rfl, fun node q => ?_⟩
    simp only [List.not_mem_nil, false_and, exists_false, and_false, or_false]
  | cons copy rest ih =>
    obtain ⟨holder, owner⟩ := owned copy List.mem_cons_self
    obtain ⟨h', done, spec⟩ :=
      ih (fun copy mem => owned copy (List.mem_cons_of_mem _ mem)) (h.credit holder p)
    refine ⟨h', ?_, fun node q => ?_⟩
    · simp only [creditCopies] at done ⊢
      rw [List.foldlM_cons, owner]
      exact done
    · rw [spec, mem_held_credit, or_assoc, ← and_or_left]
      refine or_congr_right (and_congr_right fun _ => ?_)
      constructor
      · rintro (rfl | ⟨other, mem, there⟩)
        · exact ⟨copy, List.mem_cons_self, owner⟩
        · exact ⟨other, List.mem_cons_of_mem _ mem, there⟩
      · rintro ⟨other, mem, there⟩
        rcases List.mem_cons.1 mem with rfl | mem
        · rw [owner] at there
          exact .inl (Option.some.inj there).symm
        · exact .inr ⟨other, mem, there⟩

/-- Crediting many partitions in turn credits each of them to the owners of its copies. -/
theorem foldlM_creditCopies {copiesOf : PartitionId → List PartitionId}
    (owned : ∀ p, ∀ copy ∈ copiesOf p, ∃ holder, owners.get? copy = some holder)
    (partitions : List PartitionId) (h : Holdings) :
    ∃ h', partitions.foldlM (fun h p => creditCopies owners p h (copiesOf p)) h = .ok h' ∧
      ∀ node q, q ∈ h'.held node ↔ q ∈ h.held node ∨
        q ∈ partitions ∧ ∃ copy ∈ copiesOf q, owners.get? copy = some node := by
  induction partitions generalizing h with
  | nil =>
    refine ⟨h, rfl, fun node q => ?_⟩
    simp only [List.not_mem_nil, false_and, or_false]
  | cons p rest ih =>
    obtain ⟨h', first, here⟩ := creditCopies_spec (p := p) (owned p) h
    obtain ⟨h'', later, there⟩ := ih h'
    refine ⟨h'', ?_, fun node q => ?_⟩
    · rw [List.foldlM_cons, first]
      exact later
    · rw [there, here, or_assoc, List.mem_cons, or_and_right]
      refine or_congr_right (or_congr_left (and_congr_right ?_))
      rintro rfl
      exact Iff.rfl

theorem ofStrategy_spec {strategy : Strategy} (includePrimary : Bool)
    (owned : ∀ p, ∀ copy ∈ strategy.replicas p, ∃ holder, owners.get? copy = some holder) :
    ∃ h, ofStrategy c owners strategy includePrimary = .ok h ∧ ∀ node p,
      p ∈ h.held node ↔ p ∈ c.listed ∧ ∃ copy ∈ strategy.replicas p,
        (includePrimary || copy != p) = true ∧ owners.get? copy = some node := by
  obtain ⟨h, done, spec⟩ := foldlM_creditCopies
    (fun p copy mem => owned p copy (List.mem_filter.1 mem).1) c.listed (start c)
  refine ⟨h, done, fun node p => ?_⟩
  rw [spec, or_iff_right not_mem_held_start]
  simp only [List.mem_filter, and_assoc]

end Holdings

namespace Cluster

variable {c : Cluster} {store : StoreDefinition} {stores : List StoreDefinition}
  {strategy : Strategy}

/-- A cluster's nodes hold what the strategy of the most replicated store says. -/
theorem holdings_ofStore (most : StoreDefinition.mostReplicated? stores = some store)
    (accepted : Strategy.ofStore store c = .ok strategy) (includePrimary : Bool) :
    ∃ h, c.holdings Strategy.ofStore stores includePrimary = .ok h ∧
      ∀ node p, p ∈ h.held node ↔ strategy.Holds includePrimary node p := by
  obtain ⟨owners, copies, owns, placed⟩ := Strategy.exists_of_ofStore accepted
  have owned : ∀ p, ∀ copy ∈ strategy.replicas p, ∃ holder, owners.get? copy = some holder :=
    fun p copy mem => Strategy.exists_owner_of_mem_replicas (placed ▸ mem)
  obtain ⟨h, done, spec⟩ := Holdings.ofStrategy_spec (c := c) includePrimary owned
  refine ⟨h, ?_, fun node p => ?_⟩
  · simp only [holdings]
    rw [owns, most]
    change (Strategy.ofStore store c >>= fun strategy =>
      Holdings.ofStrategy c owners strategy includePrimary) = .ok h
    rw [accepted]
    exact done
  · have owner : ∀ copy, strategy.owner? copy = owners.get? copy := by
      intro copy
      rw [placed]
      exact Ring.owner?_of owners c.zoneOf copy
    rw [spec]
    simp only [← owner]
    refine and_iff_right_of_imp fun holds => ?_
    have holds' : strategy.Holds includePrimary node p := holds
    rw [placed] at holds'
    exact (exists_get?_ownership owns).1 (Strategy.exists_owner_of_holds holds')

/-- A key has no partition exactly if nothing is owned. Otherwise it is sent to the nodes that hold
its partition, to each of them once. -/
theorem routes_to_holders (accepted : Strategy.ofStore store c = .ok strategy) (key : List UInt8) :
    ∃ h, c.holdings Strategy.ofStore [store] true = .ok h ∧
      (strategy.partitionOfKey? key = none ↔ ∀ n ∈ c.nodes, n.partitions = []) ∧
      ∀ p, strategy.partitionOfKey? key = some p →
        p ∈ c.partitionSet ∧ (strategy.nodesOfKey key).Nodup ∧
          ∀ node, node ∈ strategy.nodesOfKey key ↔ p ∈ h.held node := by
  have most : StoreDefinition.mostReplicated? [store] = some store := rfl
  obtain ⟨h, done, spec⟩ := holdings_ofStore most accepted true
  obtain ⟨owners, copies, owns, rfl⟩ := Strategy.exists_of_ofStore accepted
  refine ⟨h, done, ?_, fun p primary => ⟨?_, ?_, ?_⟩⟩
  · exact (Ring.partitionOfKey?_eq_none_iff.trans (Ring.slots_of_eq_nil_iff owns)).trans
      List.flatMap_eq_nil_iff
  · obtain ⟨s, onRing, rfl⟩ := Ring.exists_slot_of_partitionOfKey? primary
    exact SortedSet.mem_ofList.2
      ((exists_get?_ownership owns).1 ⟨s.node, (Ring.mem_slots_of.1 onRing).1⟩)
  · exact Strategy.nodup_nodesOfKey primary
  · intro node
    rw [spec]
    exact Strategy.mem_nodesOfKey primary

/-- Two copies by zone, where there is a single zone: a key on the second of three nodes is sent on
to the third. -/
theorem routes_to_holders_uniform :
    ∃ strategy h,
      Strategy.ofStore (.withZones (.plain 0) (.ofList [(0, 2)])) (.uniform 3 2) = .ok strategy ∧
      (Cluster.uniform 3 2).holdings Strategy.ofStore
        [.withZones (.plain 0) (.ofList [(0, 2)])] true = .ok h ∧
      strategy.partitionOfKey? [7] = some 3 ∧ strategy.nodesOfKey [7] = [1, 2] ∧
      ∀ node, 3 ∈ h.held node ↔ node = 1 ∨ node = 2 := by
  obtain ⟨strategy, accepted, primary, nodes⟩ : ∃ strategy,
      Strategy.ofStore (.withZones (.plain 0) (.ofList [(0, 2)])) (.uniform 3 2) = .ok strategy ∧
      strategy.partitionOfKey? [7] = some 3 ∧ strategy.nodesOfKey [7] = [1, 2] :=
    ⟨_, rfl, by decide +kernel, by decide +kernel⟩
  obtain ⟨h, done, -, routed⟩ := routes_to_holders accepted [7]
  refine ⟨strategy, h, accepted, done, primary, nodes, fun node => ?_⟩
  rw [← (routed 3 primary).2.2, nodes]
  simp only [List.mem_cons, List.not_mem_nil, or_false]

end Cluster

end Resharding
