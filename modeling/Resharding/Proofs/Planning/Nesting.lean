import Resharding.Proofs.Placement.Keepers
import Resharding.Proofs.Planning.Holdings

/-!
When the copies of one store are among those of another.

Planning looks at the store with the most copies only. What another store keeps on a node is then
looked after if the copies of the one nest in those of the other (`Cluster.holdings_nest`): always
where both spread consistently, and where both spread by zone if no zone is given fewer copies and a
word counts the larger copies of all zones. Of stores that spread differently it takes more than a
larger number of copies: a zone far away may be passed over by any number of nearer nodes
(`Cluster.not_nested_apart`).
-/

namespace Resharding

namespace StoreDefinition

/-- The copies of a store nest, for the way in which each spreads, in those of a store that asks for
at least as many. -/
def NestsIn (c : Cluster) (inner outer : StoreDefinition) : Prop :=
  match inner.spread, outer.spread with
  | .consistent, .consistent => True
  | .zoned, .zoned => Strategy.FitsWord outer.zoneCopies ∧
      ∀ zone, inner.quotas.getD zone 0 ≤ outer.quotas.getD zone 0
  | .consistent, .zoned => Strategy.FitsWord outer.zoneCopies ∧
      ∀ n ∈ c.nodes, n.partitions ≠ [] →
        max inner.replicationFactor 1 ≤ outer.quotas.getD (c.zoneOf n.id) 0
  | .zoned, .consistent =>
      (c.nodes.filter fun n => !n.partitions.isEmpty).length ≤ outer.replicationFactor

variable {c : Cluster} {inner outer : StoreDefinition} {owners : SortedMap PartitionId NodeId}
  {slots : List Slot} {s : Slot} {p : PartitionId} {count : Nat} {zone : ZoneId}

/-- Of the first few slots, those in a zone are among the first as many of the zone. -/
theorem slotsIn_take_subset :
    slotsIn zone (slots.take count) ⊆ (slotsIn zone slots).take count := by
  have before : slotsIn zone (slots.take count) <+: slotsIn zone slots := by
    refine ⟨slotsIn zone (slots.drop count), ?_⟩
    simp only [slotsIn]
    rw [← List.filter_append, List.take_append_drop]
  have short : (slotsIn zone (slots.take count)).length ≤ count :=
    Nat.le_trans (List.length_filter_le _ _) (List.length_take_le _ _)
  rw [List.prefix_iff_eq_take.1 before]
  exact List.take_subset_take_left _ short

/-- The first few slots are rationed if as many are to be in their zone. -/
theorem mem_rationed_of_mem_take {quotas : SortedMap ZoneId Nat}
    (enough : count ≤ quotas.getD s.zone 0) (mem : s ∈ slots.take count) :
    s ∈ rationed quotas slots := by
  have here := slotsIn_take_subset (mem_slotsIn.2 ⟨mem, rfl⟩)
  exact mem_rationed_iff.2 (List.take_subset_take_left _ enough here)

theorem length_firstSlots_walkFrom_le (owns : c.ownership = .ok owners) :
    (firstSlots [] ((Ring.of owners c.zoneOf).walkFrom p)).length ≤
      (c.nodes.filter fun n => !n.partitions.isEmpty).length := by
  refine Nat.le_trans (length_firstSlots_le ?_) (Nat.le_of_eq (List.length_map Node.id))
  intro s mem
  obtain ⟨-, n, member, same, some⟩ := Ring.exists_node_of_mem_walkFrom owns mem
  refine List.mem_map.2 ⟨n, List.mem_filter.2 ⟨member, ?_⟩, same⟩
  rw [Bool.not_eq_true', List.isEmpty_eq_false_iff]
  exact some

/-- Along every walk, what a store chooses is among what one chooses in which it nests. -/
theorem choose_subset (owns : c.ownership = .ok owners) (nests : inner.NestsIn c outer)
    (fewer : inner.replicationFactor ≤ outer.replicationFactor) :
    inner.choose ((Ring.of owners c.zoneOf).walkFrom p) ⊆
      outer.choose ((Ring.of owners c.zoneOf).walkFrom p) := by
  have zoned : ZonedByNode ((Ring.of owners c.zoneOf).walkFrom p) :=
    Strategy.zonedByNode_walkFrom
  have within : firstSlots [] ((Ring.of owners c.zoneOf).walkFrom p) ⊆
      (Ring.of owners c.zoneOf).walkFrom p := (firstSlots_sublist _ _).subset
  have length := length_firstSlots_walkFrom_le (p := p) owns
  have onRing := fun s => Ring.exists_node_of_mem_walkFrom (s := s) (p := p) owns
  generalize (Ring.of owners c.zoneOf).walkFrom p = walk at zoned within length onRing
  simp only [NestsIn] at nests
  intro s mem
  split at nests
  · rename_i ofInner ofOuter
    rw [choose_eq_take ofInner] at mem
    rw [choose_eq_take ofOuter]
    have grown : max inner.replicationFactor 1 ≤ max outer.replicationFactor 1 := by omega
    exact List.take_subset_take_left _ grown mem
  · rename_i ofInner ofOuter
    rw [choose_eq_rationed ofOuter zoned nests.1]
    exact mem_rationed_of_le (nests.2 s.zone) (mem_rationed_of_mem_choose ofInner zoned mem)
  · rename_i ofInner ofOuter
    rw [choose_eq_take ofInner] at mem
    obtain ⟨zone, n, member, same, some⟩ := onRing s (within (List.mem_of_mem_take mem))
    have enough := nests.2 n member some
    rw [same, ← zone] at enough
    rw [choose_eq_rationed ofOuter zoned nests.1]
    exact mem_rationed_of_mem_take enough mem
  · rename_i ofInner ofOuter
    rw [choose_eq_take ofOuter, List.take_of_length_le]
    · exact (choose_sublist zoned).subset mem
    · omega

end StoreDefinition

namespace Cluster

variable {c : Cluster} {store most : StoreDefinition} {stores : List StoreDefinition}

/-- What the nodes hold for one of several stores they hold for all of them, if the store nests in
the most replicated one. -/
theorem holdings_nest (mem : store ∈ stores)
    (accepted : ∀ s ∈ stores, ∃ strategy, Strategy.ofStore s c = .ok strategy)
    (largest : StoreDefinition.mostReplicated? stores = some most) (nests : store.NestsIn c most)
    (includePrimary : Bool) :
    ∃ part whole, c.holdings Strategy.ofStore [store] includePrimary = .ok part ∧
      c.holdings Strategy.ofStore stores includePrimary = .ok whole ∧
      ∀ node p, p ∈ part.held node → p ∈ whole.held node := by
  obtain ⟨memMost, fewer⟩ := StoreDefinition.mostReplicated?_spec largest
  obtain ⟨inner, acceptedInner⟩ := accepted store mem
  obtain ⟨outer, acceptedOuter⟩ := accepted most memMost
  have single : StoreDefinition.mostReplicated? [store] = some store := rfl
  obtain ⟨part, ofStore, memPart⟩ := holdings_ofStore single acceptedInner includePrimary
  obtain ⟨whole, ofStores, memWhole⟩ := holdings_ofStore largest acceptedOuter includePrimary
  refine ⟨part, whole, ofStore, ofStores, fun node p held => ?_⟩
  obtain ⟨owners, copies, owns, rfl⟩ := Strategy.exists_of_ofStore acceptedInner
  obtain ⟨owners', copies', owns', rfl⟩ := Strategy.exists_of_ofStore acceptedOuter
  cases Except.ok.inj (owns.symm.trans owns')
  obtain ⟨s, chosen, counts, same⟩ := Strategy.holds_iff.1 ((memPart node p).1 held)
  rw [memWhole, Strategy.holds_iff]
  exact ⟨s, StoreDefinition.choose_subset owns nests (fewer store mem) chosen, counts, same⟩

/-- Four nodes with a partition each, the last of them in a zone of its own. -/
def apart : Cluster where
  name := "apart"
  nodes :=
    [.create 0 "a" [0], .create 1 "b" [1], .create 2 "c" [2], (Node.create 3 "d" [3]).inZone 1]
  zones := [⟨0, [1]⟩, ⟨1, [0]⟩]

/-- A single copy is among those by zone where every zone is given one. -/
theorem holdings_nest_apart :
    ∃ part whole, apart.holdings Strategy.ofStore [.plain 1] true = .ok part ∧
      apart.holdings Strategy.ofStore
        [.plain 1, .withZones (.plain 0) (.ofList [(0, 1), (1, 1)])] true = .ok whole ∧
      ∀ node p, p ∈ part.held node → p ∈ whole.held node := by
  have accepted : ∀ s ∈ [StoreDefinition.plain 1, .withZones (.plain 0) (.ofList [(0, 1), (1, 1)])],
      ∃ strategy, Strategy.ofStore s apart = .ok strategy := by
    intro s mem
    rcases List.mem_cons.1 mem with rfl | mem
    · exact ⟨_, rfl⟩
    · rw [List.mem_singleton.1 mem]
      exact ⟨_, rfl⟩
  have nests : (StoreDefinition.plain 1).NestsIn apart
      (.withZones (.plain 0) (.ofList [(0, 1), (1, 1)])) := by
    change Strategy.FitsWord _ ∧ ∀ n ∈ apart.nodes, n.partitions ≠ [] → _
    exact ⟨by decide +kernel, by decide +kernel⟩
  exact holdings_nest List.mem_cons_self accepted rfl nests true

/-- Three copies on the next nodes leave out a node that has one of two copies by zone. -/
theorem not_nested_apart :
    ∃ part whole,
      apart.holdings Strategy.ofStore [.withZones (.plain 0) (.ofList [(0, 1), (1, 1)])] false =
        .ok part ∧
      apart.holdings Strategy.ofStore
        [.withZones (.plain 0) (.ofList [(0, 1), (1, 1)]), .plain 3] false = .ok whole ∧
      0 ∈ part.held 3 ∧ 0 ∉ whole.held 3 :=
  ⟨_, _, rfl, rfl, by decide +kernel, by decide +kernel⟩

end Cluster

end Resharding
