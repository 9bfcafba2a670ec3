import Resharding.Proofs.Planning.Holdings

/-!
Whether a partition is the first of its own copies.

It is exactly if the store keeps copies in the zone of the partition's owner
(`StoreDefinition.Serves`), which stores that spread consistently do everywhere. A zone that a store
by zone leaves out is left out with what is owned there: its nodes hold nothing for the store
(`Cluster.primaries_lead`), even where no other node could hold it in their place
(`Cluster.newcomer_unserved`). All zones are left out if their copies, counted in a word, come to none.
-/

namespace Resharding

namespace StoreDefinition

/-- The store keeps copies in a zone. -/
def Serves (store : StoreDefinition) (zone : ZoneId) : Prop :=
  match store.spread with
  | .consistent => True
  | .zoned => 0 < store.replicationFactor ∧ 0 < store.quotas.getD zone 0

variable {store : StoreDefinition} {slots : List Slot} {s : Slot} {zone : ZoneId}

/-- A walk's first slot is chosen if its zone is served. -/
theorem head?_choose_of_serves (zoned : ZonedByNode (s :: slots)) (serves : store.Serves s.zone) :
    (store.choose (s :: slots)).head? = some s := by
  have first : firstSlots [] (s :: slots) = s :: firstSlots [s.node] slots := rfl
  simp only [Serves] at serves
  split at serves
  · rename_i spread
    rw [choose_eq_take spread, first, List.head?_take, if_neg (by omega)]
    rfl
  · rename_i spread
    obtain ⟨some, asked⟩ := serves
    obtain ⟨left, quota⟩ := Nat.exists_eq_succ_of_ne_zero (Nat.ne_of_gt asked)
    rw [choose_eq_take_rationed spread zoned, first, List.head?_take, if_neg (Nat.ne_of_gt some)]
    simp only [rationed, quota]
    rfl

/-- Nothing is chosen in a zone that is not served. -/
theorem serves_of_mem_choose (zoned : ZonedByNode slots) (mem : s ∈ store.choose slots) :
    store.Serves s.zone := by
  simp only [Serves]
  split
  · trivial
  · rename_i spread
    refine ⟨?_, getD_pos_of_mem_rationed (mem_rationed_of_mem_choose spread zoned mem)⟩
    rw [choose_eq_take_rationed spread zoned] at mem
    exact Nat.lt_of_lt_of_le (List.length_pos_of_mem mem) (List.length_take_le _ _)

end StoreDefinition

namespace Strategy

variable {store : StoreDefinition} {copies : Nat} {owners : SortedMap PartitionId NodeId}
  {zoneOf : NodeId → ZoneId} {includePrimary : Bool} {node : NodeId} {p : PartitionId}

theorem replicas_eq_nil_of_unowned (unowned : owners.get? p = none) :
    (ofRing (.of owners zoneOf) copies store.choose).replicas p = [] := by
  refine List.eq_nil_iff_forall_not_mem.2 fun copy mem => ?_
  obtain ⟨s, chosen, -⟩ := List.mem_map.1 mem
  have holds : (ofRing (.of owners zoneOf) copies store.choose).Holds true s.node p :=
    holds_iff.2 ⟨s, chosen, rfl, rfl⟩
  obtain ⟨owner, owned⟩ := exists_owner_of_holds holds
  rw [unowned] at owned
  cases owned

/-- A node of which a slot is chosen is in a zone that is served. -/
theorem serves_of_chosen {s : Slot}
    (chosen : s ∈ store.choose ((Ring.of owners zoneOf).walkFrom p)) :
    store.Serves (zoneOf s.node) := by
  have onWalk := (firstSlots_sublist _ _).subset (mem_firstSlots_of_mem_choose chosen)
  rw [← (Ring.mem_slots_of.1 (Ring.mem_of_mem_walkFrom onWalk)).2]
  exact StoreDefinition.serves_of_mem_choose zonedByNode_walkFrom chosen

theorem serves_of_holds
    (holds : (ofRing (.of owners zoneOf) copies store.choose).Holds includePrimary node p) :
    store.Serves (zoneOf node) := by
  obtain ⟨s, chosen, -, rfl⟩ := holds_iff.1 holds
  exact serves_of_chosen chosen

/-- The copies of an owned partition begin with itself if its owner's zone is served. -/
theorem head?_replicas_of_serves (owner : owners.get? p = some node)
    (serves : store.Serves (zoneOf node)) :
    ((ofRing (.of owners zoneOf) copies store.choose).replicas p).head? = some p := by
  have onRing : (⟨p, node, zoneOf node⟩ : Slot) ∈ (Ring.of owners zoneOf).slots :=
    Ring.mem_slots_of.2 ⟨owner, rfl⟩
  obtain ⟨rest, walk⟩ :=
    Ring.exists_walkFrom_eq_cons (Ring.ascending_slots_of owners zoneOf) onRing
  change (Ring.of owners zoneOf).walkFrom p = _ at walk
  have zoned : ZonedByNode (⟨p, node, zoneOf node⟩ :: rest) := walk ▸ zonedByNode_walkFrom
  simp only [ofRing, walk, List.head?_map, StoreDefinition.head?_choose_of_serves zoned serves]
  rfl

/-- If the owner's zone is not served, the copies do not even contain the partition. -/
theorem serves_of_mem_replicas (owner : owners.get? p = some node)
    (mem : p ∈ (ofRing (.of owners zoneOf) copies store.choose).replicas p) :
    store.Serves (zoneOf node) := by
  obtain ⟨s, chosen, same⟩ := List.mem_map.1 mem
  have here := get?_of_mem_choose chosen
  rw [same, owner] at here
  cases here
  exact serves_of_chosen chosen

end Strategy

namespace Cluster

variable {c : Cluster} {store : StoreDefinition} {strategy : Strategy}

/-- A partition that nobody owns has no copies. The copies of a partition begin with itself, and its
owner holds it, exactly if the store keeps copies in the owner's zone; if it keeps none there, the
owner holds nothing at all. -/
theorem primaries_lead (accepted : Strategy.ofStore store c = .ok strategy) :
    ∃ h, c.holdings Strategy.ofStore [store] true = .ok h ∧
      (∀ p, (∀ n ∈ c.nodes, p ∉ n.partitions) → strategy.replicas p = []) ∧
      ∀ n ∈ c.nodes, ∀ p ∈ n.partitions,
        ((strategy.replicas p).head? = some p ↔ store.Serves (c.zoneOf n.id)) ∧
        (p ∈ h.held n.id ↔ store.Serves (c.zoneOf n.id)) ∧
        (¬ store.Serves (c.zoneOf n.id) → h.held n.id = .empty) := by
  have most : StoreDefinition.mostReplicated? [store] = some store := rfl
  obtain ⟨h, done, holds⟩ := holdings_ofStore most accepted true
  obtain ⟨owners, copies, owns, rfl⟩ := Strategy.exists_of_ofStore accepted
  refine ⟨h, done, fun p unlisted => ?_, fun n mem p lists => ?_⟩
  · apply Strategy.replicas_eq_nil_of_unowned
    refine Option.eq_none_iff_forall_ne_some.2 fun node owner => ?_
    obtain ⟨n, mem, -, lists⟩ := (get?_ownership owns).1 owner
    exact unlisted n mem lists
  have owner : owners.get? p = some n.id := (get?_ownership owns).2 ⟨n, mem, rfl, lists⟩
  have leads : store.Serves (c.zoneOf n.id) →
      ((Strategy.ofRing (.of owners c.zoneOf) copies store.choose).replicas p).head? = some p :=
    Strategy.head?_replicas_of_serves owner
  refine ⟨⟨fun first => ?_, leads⟩, ⟨fun held => ?_, fun serves => ?_⟩, fun unserved => ?_⟩
  · exact Strategy.serves_of_mem_replicas owner (List.mem_of_mem_head? first)
  · exact Strategy.serves_of_holds ((holds _ _).1 held)
  · exact (holds _ _).2 ⟨p, List.mem_of_mem_head? (leads serves), rfl,
      (Ring.owner?_of owners c.zoneOf p).trans owner⟩
  · refine SortedSet.ext_mem fun q => iff_of_false (fun held => ?_) (SortedSet.not_mem_empty q)
    exact unserved (Strategy.serves_of_holds ((holds _ _).1 held))

/-- A node with a partition, and one that has joined in another zone and owns nothing yet. -/
def joined : Cluster where
  name := "joined"
  nodes := [.create 0 "a" [0], (Node.create 1 "b" []).inZone 1]
  zones := [⟨0, [1]⟩, ⟨1, [0]⟩]

/-- A copy in each zone: the only owner holds its partition. -/
theorem primaries_lead_joined :
    ∃ strategy h,
      Strategy.ofStore (.withZones (.plain 0) (.ofList [(0, 1), (1, 1)])) joined = .ok strategy ∧
      joined.holdings Strategy.ofStore
        [.withZones (.plain 0) (.ofList [(0, 1), (1, 1)])] true = .ok h ∧
      (strategy.replicas 0).head? = some 0 ∧ 0 ∈ h.held 0 ∧ strategy.replicas 1 = [] := by
  obtain ⟨strategy, accepted⟩ : ∃ strategy, Strategy.ofStore
      (.withZones (.plain 0) (.ofList [(0, 1), (1, 1)])) joined = .ok strategy := ⟨_, rfl⟩
  obtain ⟨h, done, unowned, owned⟩ := primaries_lead accepted
  have serves : StoreDefinition.Serves (.withZones (.plain 0) (.ofList [(0, 1), (1, 1)]))
      (joined.zoneOf 0) := by
    change 0 < _ ∧ 0 < _
    exact ⟨by decide +kernel, by decide +kernel⟩
  have first := owned (.create 0 "a" [0]) List.mem_cons_self 0 (by decide)
  exact ⟨strategy, h, accepted, done, first.1.2 serves, first.2.1.2 serves,
    unowned 1 (by decide)⟩

/-- A single copy, in the zone where the newcomer owns nothing yet: the partition has no copies, and
its owner does not hold it. -/
theorem newcomer_unserved :
    ∃ strategy h,
      Strategy.ofStore (.withZones (.plain 0) (.ofList [(1, 1)])) joined = .ok strategy ∧
      1 ≤ (StoreDefinition.withZones (.plain 0) (.ofList [(1, 1)])).replicationFactor ∧
      joined.holdings Strategy.ofStore [.withZones (.plain 0) (.ofList [(1, 1)])] true = .ok h ∧
      (joined.owner? 0).map (·.id) = some 0 ∧
      (strategy.replicas 0).head? ≠ some 0 ∧ strategy.replicas 0 = [] ∧ 0 ∉ h.held 0 :=
  ⟨_, _, rfl, by decide +kernel, rfl, by decide +kernel, by decide +kernel, by decide +kernel,
    by decide +kernel⟩

end Cluster

end Resharding
