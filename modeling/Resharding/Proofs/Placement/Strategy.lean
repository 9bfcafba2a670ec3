import Resharding.Placement.Strategy
import Resharding.Proofs.Placement.Ring
import Resharding.Proofs.Placement.Walk

/-!
Where the strategies of stores put copies.

A store's strategy on a cluster depends on the owners of the partitions and on the zones of the
nodes alone (`Strategy.exists_of_ofStore`), and on the zones only if the store spreads by zone
(`Strategy.Holds.rezone`). It chooses along a walk among the first slots of the nodes, so that no
node gets two copies of one partition (`StoreDefinition.choose_sublist`), and in particular the
primary's node gets none besides the primary (`Strategy.not_owner_of_holds`).

A store by zone stops at the number of copies that a word counts for all its zones. It gives every
zone what that asks for if the number fits the word (`StoreDefinition.choose_eq_rationed`).
-/

namespace Resharding

namespace Strategy

/-- How many copies each zone is to have. -/
def perZone (quotas : SortedMap ZoneId UInt64) : SortedMap ZoneId Nat :=
  quotas.map fun _ count => count.toNat

/-- The copies of all zones can be counted in a word. -/
def FitsWord (quotas : SortedMap ZoneId UInt64) : Prop :=
  total (perZone quotas).values < UInt64.size

instance (quotas : SortedMap ZoneId UInt64) : Decidable (FitsWord quotas) :=
  inferInstanceAs (Decidable (_ < _))

theorem values_perZone (quotas : SortedMap ZoneId UInt64) :
    (perZone quotas).values = quotas.values.map UInt64.toNat := by
  simp only [perZone, SortedMap.values, SortedMap.map, List.map_map]
  rfl

theorem toNat_wrappedTotal_of_fits {quotas : SortedMap ZoneId UInt64} (fits : FitsWord quotas) :
    (wrappedTotal quotas.values).toNat = total (perZone quotas).values := by
  rw [values_perZone]
  apply toNat_wrappedTotal_of_lt
  rw [← values_perZone]
  exact fits

end Strategy

namespace StoreDefinition

/-- The copies that a store asks for in each zone. -/
def quotas (store : StoreDefinition) : SortedMap ZoneId Nat := Strategy.perZone store.zoneCopies

/-- How a store chooses slots along a walk. -/
def choose (store : StoreDefinition) : List Slot → List Slot :=
  match store.spread with
  | .consistent => consistentWalk (max store.replicationFactor 1) []
  | .zoned => zonedWalk store.replicationFactor store.quotas []

variable {store : StoreDefinition} {slots : List Slot}

theorem choose_eq_take (consistent : store.spread = .consistent) :
    store.choose slots = (firstSlots [] slots).take (max store.replicationFactor 1) := by
  simp only [choose, consistent, consistentWalk_eq_take]

theorem replicationFactor_of_zoned (byZone : store.spread = .zoned) :
    store.replicationFactor = (wrappedTotal store.zoneCopies.values).toNat := by
  simp only [replicationFactor, byZone]

theorem replicationFactor_eq_total (byZone : store.spread = .zoned)
    (fits : Strategy.FitsWord store.zoneCopies) :
    store.replicationFactor = total store.quotas.values :=
  (replicationFactor_of_zoned byZone).trans (Strategy.toNat_wrappedTotal_of_fits fits)

theorem choose_eq_take_rationed (byZone : store.spread = .zoned) (zoned : ZonedByNode slots) :
    store.choose slots =
      (rationed store.quotas (firstSlots [] slots)).take store.replicationFactor := by
  simp only [choose, byZone]
  exact zonedWalk_eq_take zoned _ _

theorem choose_eq_rationed (byZone : store.spread = .zoned) (zoned : ZonedByNode slots)
    (fits : Strategy.FitsWord store.zoneCopies) :
    store.choose slots = rationed store.quotas (firstSlots [] slots) := by
  simp only [choose, byZone]
  exact zonedWalk_eq_rationed zoned (Nat.le_of_eq (replicationFactor_eq_total byZone fits).symm)

theorem mem_rationed_of_mem_choose (byZone : store.spread = .zoned) (zoned : ZonedByNode slots)
    {s : Slot} (mem : s ∈ store.choose slots) :
    s ∈ rationed store.quotas (firstSlots [] slots) := by
  rw [choose_eq_take_rationed byZone zoned] at mem
  exact List.mem_of_mem_take mem

/-- A store chooses at most one slot of a node, the first. -/
theorem choose_sublist (zoned : ZonedByNode slots) :
    (store.choose slots).Sublist (firstSlots [] slots) := by
  cases spread : store.spread with
  | consistent =>
    rw [choose_eq_take spread]
    exact List.take_sublist _ _
  | zoned =>
    simp only [choose, spread]
    exact zonedWalk_sublist zoned

end StoreDefinition

namespace Strategy

/-- A node holds a partition: it owns a partition that holds a copy of it. The copy that is the
partition itself may be left out. -/
def Holds (s : Strategy) (includePrimary : Bool) (node : NodeId) (p : PartitionId) : Prop :=
  ∃ copy ∈ s.replicas p, (includePrimary || copy != p) = true ∧ s.owner? copy = some node

variable {c c' : Cluster} {store : StoreDefinition} {strategy : Strategy} {copies : Nat}
  {owners owners' : SortedMap PartitionId NodeId} {zoneOf : NodeId → ZoneId} {includePrimary : Bool}
  {node : NodeId} {p : PartitionId} {key : List UInt8}

/-! ### What a strategy depends on -/

theorem exists_of_ofRing {build : Ring → Strategy}
    (chosen : (Ring.ofCluster c).map build = .ok strategy) :
    ∃ owners, c.ownership = .ok owners ∧ strategy = build (.of owners c.zoneOf) := by
  cases onRing : Ring.ofCluster c with
  | error e =>
    rw [onRing] at chosen
    cases chosen
  | ok ring =>
    obtain ⟨owners, owns, rfl⟩ := Ring.exists_of_ofCluster onRing
    rw [onRing] at chosen
    exact ⟨owners, owns, (Except.ok.inj chosen).symm⟩

theorem exists_of_zoned {quotas : SortedMap ZoneId UInt64} (built : zoned c quotas = .ok strategy) :
    ∃ owners, c.ownership = .ok owners ∧
      strategy = .ofRing (.of owners c.zoneOf) (wrappedTotal quotas.values).toNat
        (zonedWalk (wrappedTotal quotas.values).toNat (perZone quotas) []) := by
  simp only [zoned] at built
  split at built
  · cases built
  · exact exists_of_ofRing built

theorem exists_of_ofStore (accepted : ofStore store c = .ok strategy) :
    ∃ owners copies, c.ownership = .ok owners ∧
      strategy = .ofRing (.of owners c.zoneOf) copies store.choose := by
  simp only [ofStore] at accepted
  split at accepted
  · rename_i spread
    obtain ⟨owners, owns, rfl⟩ := exists_of_ofRing accepted
    refine ⟨owners, max store.replicationFactor 1, owns, ?_⟩
    simp only [StoreDefinition.choose, spread]
  · rename_i spread
    obtain ⟨owners, owns, rfl⟩ := exists_of_zoned accepted
    refine ⟨owners, store.replicationFactor, owns, ?_⟩
    simp only [StoreDefinition.choose, spread, StoreDefinition.replicationFactor_of_zoned spread]
    rfl

theorem consistent_eq (owns : c.ownership = .ok owners) (copies : Nat) :
    consistent c copies =
      .ok (.ofRing (.of owners c.zoneOf) (max copies 1) (consistentWalk (max copies 1) [])) := by
  simp only [consistent]
  rw [Ring.ofCluster_eq owns]
  rfl

/-- Consistent stores are accepted wherever no partition is listed twice. -/
theorem ofStore_eq_of_consistent (spread : store.spread = .consistent)
    (owns : c.ownership = .ok owners) :
    ofStore store c =
      .ok (.ofRing (.of owners c.zoneOf) (max store.replicationFactor 1) store.choose) := by
  simp only [ofStore, spread, StoreDefinition.choose]
  exact consistent_eq owns store.replicationFactor

theorem missingZone?_congr (zones : c'.zones = c.zones) (quotas : SortedMap ZoneId UInt64) :
    missingZone? c' quotas = missingZone? c quotas := by
  simp only [missingZone?, Cluster.zone?, zones]

/-- On two clusters with the same zones and one name, a store is refused for the same reason or has a
strategy on both. -/
theorem ofStore_both (owns : c.ownership = .ok owners) (owns' : c'.ownership = .ok owners')
    (zones : c'.zones = c.zones) (name : c'.name = c.name) (store : StoreDefinition) :
    (∃ e, ofStore store c = .error e ∧ ofStore store c' = .error e) ∨
      ∃ copies, ofStore store c = .ok (.ofRing (.of owners c.zoneOf) copies store.choose) ∧
        ofStore store c' = .ok (.ofRing (.of owners' c'.zoneOf) copies store.choose) := by
  cases spread : store.spread with
  | consistent =>
    exact .inr ⟨_, ofStore_eq_of_consistent spread owns, ofStore_eq_of_consistent spread owns'⟩
  | zoned =>
    simp only [ofStore, spread, zoned, missingZone?_congr zones, name, Ring.ofCluster_eq owns,
      Ring.ofCluster_eq owns', StoreDefinition.choose,
      StoreDefinition.replicationFactor_of_zoned spread]
    cases missingZone? c store.zoneCopies with
    | some zone => exact .inl ⟨_, rfl, rfl⟩
    | none => exact .inr ⟨(wrappedTotal store.zoneCopies.values).toNat, rfl, rfl⟩

/-! ### Slots chosen on a ring -/

theorem zonedByNode_walkFrom : ZonedByNode ((Ring.of owners zoneOf).walkFrom p) := by
  intro s memS t memT same
  rw [(Ring.mem_slots_of.1 (Ring.mem_of_mem_walkFrom memS)).2,
    (Ring.mem_slots_of.1 (Ring.mem_of_mem_walkFrom memT)).2, same]

theorem mem_firstSlots_of_mem_choose {s : Slot}
    (mem : s ∈ store.choose ((Ring.of owners zoneOf).walkFrom p)) :
    s ∈ firstSlots [] ((Ring.of owners zoneOf).walkFrom p) :=
  (StoreDefinition.choose_sublist zonedByNode_walkFrom).subset mem

theorem get?_of_mem_choose {s : Slot}
    (mem : s ∈ store.choose ((Ring.of owners zoneOf).walkFrom p)) :
    owners.get? s.partition = some s.node :=
  (Ring.mem_slots_of.1 (Ring.mem_of_mem_walkFrom
    ((firstSlots_sublist _ _).subset (mem_firstSlots_of_mem_choose mem)))).1

/-- No two of the chosen slots are of one node. -/
theorem nodup_node_choose :
    ((store.choose ((Ring.of owners zoneOf).walkFrom p)).map (·.node)).Nodup :=
  (nodup_node_firstSlots _ _).sublist
    ((StoreDefinition.choose_sublist zonedByNode_walkFrom).map _)

/-- A node holds a partition if one of its slots is chosen for it. -/
theorem holds_iff :
    (ofRing (.of owners zoneOf) copies store.choose).Holds includePrimary node p ↔
      ∃ s ∈ store.choose ((Ring.of owners zoneOf).walkFrom p),
        (includePrimary || s.partition != p) = true ∧ s.node = node := by
  simp only [Holds, ofRing, Ring.owner?_of, List.mem_map]
  constructor
  · rintro ⟨_, ⟨s, mem, rfl⟩, counts, owner⟩
    rw [get?_of_mem_choose mem] at owner
    exact ⟨s, mem, counts, Option.some.inj owner⟩
  · rintro ⟨s, mem, counts, rfl⟩
    exact ⟨_, ⟨s, mem, rfl⟩, counts, get?_of_mem_choose mem⟩

theorem exists_owner_of_mem_replicas {copy : PartitionId}
    (mem : copy ∈ (ofRing (.of owners zoneOf) copies store.choose).replicas p) :
    ∃ node, owners.get? copy = some node := by
  obtain ⟨s, chosen, rfl⟩ := List.mem_map.1 mem
  exact ⟨s.node, get?_of_mem_choose chosen⟩

/-- Only what somebody owns is held. -/
theorem exists_owner_of_holds
    (holds : (ofRing (.of owners zoneOf) copies store.choose).Holds includePrimary node p) :
    ∃ owner, owners.get? p = some owner := by
  obtain ⟨s, mem, -, -⟩ := holds_iff.1 holds
  by_contra unowned
  have empty : (Ring.of owners zoneOf).walkFrom p = [] := by
    apply Ring.walkFrom_eq_nil
    rintro t memT rfl
    exact unowned ⟨t.node, (Ring.mem_slots_of.1 memT).1⟩
  have first := mem_firstSlots_of_mem_choose mem
  rw [empty] at first
  cases first

/-- The owner of a partition holds no copy of it besides its own: a walk begins at its slot, and
takes no other slot of the node. -/
theorem not_owner_of_holds
    (holds : (ofRing (.of owners zoneOf) copies store.choose).Holds false node p) :
    owners.get? p ≠ some node := by
  intro owner
  obtain ⟨s, mem, counts, rfl⟩ := holds_iff.1 holds
  have onRing : (⟨p, s.node, zoneOf s.node⟩ : Slot) ∈ (Ring.of owners zoneOf).slots :=
    Ring.mem_slots_of.2 ⟨owner, rfl⟩
  obtain ⟨rest, walk⟩ :=
    Ring.exists_walkFrom_eq_cons (Ring.ascending_slots_of owners zoneOf) onRing
  have first := mem_firstSlots_of_mem_choose mem
  rw [show (Ring.of owners zoneOf).walkFrom p = _ from walk] at first
  rcases List.mem_cons.1 first with same | later
  · rw [same] at counts
    simp at counts
  · exact not_mem_taken later List.mem_cons_self

/-- Without its primary, a partition is held by the same nodes less its owner. -/
theorem holds_without_primary_iff :
    (ofRing (.of owners zoneOf) copies store.choose).Holds false node p ↔
      (ofRing (.of owners zoneOf) copies store.choose).Holds true node p ∧
        owners.get? p ≠ some node := by
  constructor
  · intro holds
    refine ⟨?_, not_owner_of_holds holds⟩
    obtain ⟨copy, mem, -, owner⟩ := holds
    exact ⟨copy, mem, rfl, owner⟩
  · rintro ⟨holds, other⟩
    obtain ⟨s, mem, -, rfl⟩ := holds_iff.1 holds
    refine holds_iff.2 ⟨s, mem, bne_iff_ne.2 ?_, rfl⟩
    rintro rfl
    exact other (get?_of_mem_choose mem)

/-- Zones do not matter to consistent stores. -/
theorem Holds.rezone {zoneOf' : NodeId → ZoneId} {copies' : Nat}
    (spread : store.spread = .consistent)
    (holds : (ofRing (.of owners zoneOf) copies store.choose).Holds includePrimary node p) :
    (ofRing (.of owners zoneOf') copies' store.choose).Holds includePrimary node p := by
  obtain ⟨s, mem, counts, rfl⟩ := holds_iff.1 holds
  refine holds_iff.2 ⟨s.rezone zoneOf', ?_, counts, rfl⟩
  have keeps : ∀ t : Slot, (t.rezone zoneOf').node = t.node := fun _ => rfl
  rw [StoreDefinition.choose_eq_take spread] at mem ⊢
  rw [Ring.walkFrom_rezone owners zoneOf zoneOf', firstSlots_map keeps, ← List.map_take]
  exact List.mem_map_of_mem mem

/-! ### Nodes of keys -/

theorem nodesOfKey_eq
    (primary : (ofRing (.of owners zoneOf) copies store.choose).partitionOfKey? key = some p) :
    (ofRing (.of owners zoneOf) copies store.choose).nodesOfKey key =
      (store.choose ((Ring.of owners zoneOf).walkFrom p)).map (·.node) := by
  simp only [nodesOfKey, primary]
  simp only [ofRing, List.filterMap_map]
  rw [← List.filterMap_eq_map]
  refine List.filterMap_congr fun s mem => ?_
  simp only [Function.comp, Ring.owner?_of]
  exact get?_of_mem_choose mem

theorem nodup_nodesOfKey
    (primary : (ofRing (.of owners zoneOf) copies store.choose).partitionOfKey? key = some p) :
    ((ofRing (.of owners zoneOf) copies store.choose).nodesOfKey key).Nodup := by
  rw [nodesOfKey_eq primary]
  exact nodup_node_choose

theorem mem_nodesOfKey
    (primary : (ofRing (.of owners zoneOf) copies store.choose).partitionOfKey? key = some p) :
    node ∈ (ofRing (.of owners zoneOf) copies store.choose).nodesOfKey key ↔
      (ofRing (.of owners zoneOf) copies store.choose).Holds true node p := by
  rw [nodesOfKey_eq primary, holds_iff, List.mem_map]
  simp only [Bool.true_or, true_and]

end Strategy

end Resharding
