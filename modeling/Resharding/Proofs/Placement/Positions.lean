import Mathlib.Data.List.Cycle
import Resharding.Proofs.Placement.Zones

/-!
The ring by positions.

On the ring of a cluster each slot is followed by the next higher one and the highest by the lowest
(`Ring.chain_slots`), and a walk keeps that order, whatever slot it begins at. The same look-ups are
made here as a machine makes them, slot by slot: a sum of positions has to fit a word, a remainder
needs a divisor, and a position has to be inside the list. Anything else is a fault
(`PositionFault`). No look-up on the ring of a cluster has one, whatever the partition or key that is
asked for and however many slots there are, and what is read is what the ring answers
(`Cluster.ring_turns`).
-/

namespace Resharding

/-- What can go wrong when a slot is looked up by its position. -/
inductive PositionFault where
  | overflow
  | divisionByZero
  | outside (position : Nat)
deriving DecidableEq, Repr

namespace Ring

variable {r : Ring} {s : Slot} {start : Nat}

/-! ### In turn -/

/-- A slot comes next behind another: it is the lowest above it, or the lowest of all behind the
highest of all. -/
def Follows (r : Ring) (s t : Slot) : Prop :=
  s.partition < t.partition ∧
      (∀ u ∈ r.slots, s.partition < u.partition → t.partition ≤ u.partition) ∨
    (∀ u ∈ r.slots, u.partition ≤ s.partition) ∧ ∀ u ∈ r.slots, t.partition ≤ u.partition

/-- Neighbours on the ring. -/
theorem follows_of_append {t : Slot} {before after : List Slot}
    (ascending : r.slots.Pairwise (·.partition < ·.partition))
    (split : r.slots = before ++ s :: t :: after) : r.Follows s t := by
  rw [split] at ascending
  obtain ⟨-, behind, across⟩ := List.pairwise_append.1 ascending
  obtain ⟨aboveS, behind⟩ := List.pairwise_cons.1 behind
  obtain ⟨aboveT, -⟩ := List.pairwise_cons.1 behind
  refine .inl ⟨aboveS t List.mem_cons_self, fun u mem above => ?_⟩
  rw [split, List.mem_append, List.mem_cons, List.mem_cons] at mem
  rcases mem with mem | rfl | rfl | mem
  · exact absurd above (UInt32.lt_asymm (across u mem s List.mem_cons_self))
  · exact absurd above (UInt32.lt_irrefl _)
  · exact UInt32.le_refl _
  · exact UInt32.le_of_lt (aboveT u mem)

/-- The ends of the ring. -/
theorem last_follows (ascending : r.slots.Pairwise (·.partition < ·.partition))
    (some : r.slots ≠ []) : r.Follows (r.slots.getLast some) (r.slots.head some) := by
  refine .inr ⟨fun u mem => ?_, fun u mem => ?_⟩
  · have split := List.dropLast_append_getLast some
    rw [← split] at mem ascending
    rcases List.mem_append.1 mem with mem | mem
    · exact UInt32.le_of_lt ((List.pairwise_append.1 ascending).2.2 u mem _ List.mem_cons_self)
    · rw [List.mem_singleton.1 mem]
      exact UInt32.le_refl _
  · rw [← List.cons_head_tail some] at mem ascending
    rcases List.mem_cons.1 mem with rfl | mem
    · exact UInt32.le_refl _
    · exact UInt32.le_of_lt ((List.pairwise_cons.1 ascending).1 u mem)

/-- Every slot follows its neighbour, the first one the last. -/
theorem chain_slots (ascending : r.slots.Pairwise (·.partition < ·.partition)) :
    Cycle.Chain r.Follows (r.slots : Cycle Slot) := by
  by_cases none : r.slots = []
  · rw [none]
    exact Cycle.Chain.nil _
  · have neighbours : r.slots.IsChain r.Follows :=
      List.isChain_iff_forall_rel_of_append_cons_cons.2 fun _ _ _ _ split =>
        follows_of_append ascending split
    refine (Cycle.chain_ne_nil _ none).2 (neighbours.cons fun t first => ?_)
    rw [List.head?_eq_some_head none] at first
    cases first
    exact last_follows ascending none

/-- A walk goes on to the next slot each time, and from the last one it would be back at the first. -/
theorem isChain_walkFrom {rest : List Slot}
    (ascending : r.slots.Pairwise (·.partition < ·.partition)) (mem : s ∈ r.slots)
    (walk : r.walkFrom s.partition = s :: rest) : (s :: (rest ++ [s])).IsChain r.Follows := by
  have turn := isRotated_walkFrom ascending mem
  rw [walk] at turn
  rw [← Cycle.chain_coe_cons, Cycle.coe_eq_coe.2 turn]
  exact chain_slots ascending

/-! ### Slot by slot -/

/-- The slot at a position. -/
def slotAt (r : Ring) (position : Nat) : Except PositionFault Slot :=
  match r.slots[position]? with
  | some s => .ok s
  | none => .error (.outside position)

/-- The slot at the position that is left of a number by the size of the ring. -/
def slotAround (r : Ring) (n : Nat) : Except PositionFault Slot :=
  if r.slots.length = 0 then .error .divisionByZero else r.slotAt (n % r.slots.length)

/-- The slot some places on from a position, around the ring. -/
def slotBehind (r : Ring) (start places : Nat) : Except PositionFault Slot :=
  if 2 ^ 64 ≤ start + places then .error .overflow else r.slotAround (start + places)

/-- One full turn from a partition on, slot by slot. -/
def walkByPosition (r : Ring) (p : PartitionId) : Except PositionFault (List Slot) :=
  let places := if (r.index? p).isSome then r.slots.length else 0
  (List.range places).mapM (r.slotBehind ((r.index? p).getD 0))

/-- The owner of a partition, from the slot at its position. -/
def ownerByPosition (r : Ring) (p : PartitionId) : Except PositionFault (Option NodeId) :=
  match r.index? p with
  | some position => (r.slotAt position).map fun s => some s.node
  | none => .ok none

/-- The partition of a key, from the slot at the position that is left of its hash. -/
def partitionByPosition (r : Ring) (key : List UInt8) :
    Except PositionFault (Option PartitionId) :=
  if r.slots.isEmpty then .ok none
  else (r.slotAround (keyHash key).toNat).map fun s => some s.partition

theorem slotAt_eq {position : Nat} (here : r.slots[position]? = some s) :
    r.slotAt position = .ok s := by
  simp only [slotAt]
  rw [here]

theorem slotAround_eq {n : Nat} (here : r.slots[n % r.slots.length]? = some s) :
    r.slotAround n = .ok s := by
  have size : r.slots.length ≠ 0 :=
    fun none => List.ne_nil_of_mem (List.mem_of_getElem? here) (List.length_eq_zero_iff.1 none)
  simp only [slotAround]
  rw [if_neg size]
  exact slotAt_eq here

/-- Partitions have 32 bits, so a ring has no more slots than that. -/
theorem length_slots_le (ascending : r.slots.Pairwise (·.partition < ·.partition)) :
    r.slots.length ≤ 2 ^ 32 := by
  have distinct : (r.slots.map fun s => s.partition.toNat).Nodup :=
    List.pairwise_map.2 (ascending.imp fun less => Nat.ne_of_lt (UInt32.lt_iff_toNat_lt.1 less))
  have within : (r.slots.map fun s => s.partition.toNat) ⊆ List.range (2 ^ 32) := by
    intro n mem
    obtain ⟨s, -, rfl⟩ := List.mem_map.1 mem
    exact List.mem_range.2 s.partition.toNat_lt
  simpa only [List.length_map, List.length_range] using distinct.length_le_of_subset within

/-- From a position inside the ring, a slot less than a turn on is read without a fault. -/
theorem slotBehind_eq (ascending : r.slots.Pairwise (·.partition < ·.partition)) {places : Nat}
    (inside : start < r.slots.length) (within : places < r.slots.length)
    (here : r.slots[(start + places) % r.slots.length]? = some s) :
    r.slotBehind start places = .ok s := by
  have fits : ¬ 2 ^ 64 ≤ start + places := by
    have := length_slots_le ascending
    omega
  simp only [slotBehind]
  rw [if_neg fits]
  exact slotAround_eq here

/-- Slot by slot, a walk is the one full turn that it is. -/
theorem walkByPosition_eq (ascending : r.slots.Pairwise (·.partition < ·.partition))
    (p : PartitionId) : r.walkByPosition p = .ok (r.walkFrom p) := by
  simp only [walkByPosition]
  cases position : r.index? p with
  | none =>
    simp only [walkFrom]
    rw [position]
    rfl
  | some start =>
    obtain ⟨s, atStart, -⟩ := exists_of_index? position
    obtain ⟨inside, -⟩ := List.getElem?_eq_some_iff.1 atStart
    rw [Option.isSome_some, if_pos rfl, Option.getD_some, walkFrom_eq_rotate position]
    refine mapM_eq_ok (List.forall₂_iff_get.2 ⟨?_, fun i less less' => ?_⟩)
    · rw [List.length_range, List.length_rotate]
    · rw [List.length_range] at less
      simp only [List.get_eq_getElem, List.getElem_range]
      apply slotBehind_eq ascending inside less
      rw [Nat.add_comm, ← List.getElem?_rotate less]
      exact List.getElem?_eq_getElem less'

theorem ownerByPosition_eq (r : Ring) (p : PartitionId) :
    r.ownerByPosition p = .ok (r.owner? p) := by
  simp only [ownerByPosition, owner?]
  cases position : r.index? p with
  | none => rfl
  | some i =>
    obtain ⟨s, here, -⟩ := exists_of_index? position
    simp only [Option.bind_some]
    rw [slotAt_eq here, here]
    rfl

/-- The empty ring is asked for no remainder, and any other one has a slot at it. -/
theorem partitionByPosition_eq (r : Ring) (key : List UInt8) :
    r.partitionByPosition key = .ok (r.partitionOfKey? key) := by
  simp only [partitionByPosition]
  split
  · rename_i none
    rw [partitionOfKey?_eq_none_iff.2 (List.isEmpty_iff.1 none)]
  · rename_i some
    have size : 0 < r.slots.length :=
      List.length_pos_iff.2 fun none => some (List.isEmpty_iff.2 none)
    have here := List.getElem?_eq_getElem (Nat.mod_lt (keyHash key).toNat size)
    simp only [partitionOfKey?]
    rw [slotAround_eq here, here]
    rfl

end Ring

/-! ### The ring of a cluster -/

namespace Cluster

variable {c : Cluster} {owners : SortedMap PartitionId NodeId}

/-- A cluster whose partitions are far apart, up to the highest that there is. -/
def scattered : Cluster where
  name := "scattered"
  nodes := [.create 1 "a" [4294967295, 40], (Node.create 3 "b" [7]).inZone 1, .create 8 "c" []]
  zones := [⟨0, [1]⟩, ⟨1, [0]⟩]

/-- The ring of a cluster lists all that is owned, once each and in ascending order, with the owner
and the zone in which the cluster finds the owner; where ids ascend, this is the zone of the node
that lists the partition. A walk from an owned partition is the ring begun there, goes on to the next
slot each time and from the last one would be back at the first; any other walk is empty. Walks,
owners and partitions of keys are read slot by slot without a fault. -/
theorem ring_turns (owns : c.ownership = .ok owners) :
    ∃ r, Ring.ofCluster c = .ok r ∧
      r.slots.Pairwise (·.partition < ·.partition) ∧
      (∀ p, (∃ s ∈ r.slots, s.partition = p) ↔ ∃ n ∈ c.nodes, p ∈ n.partitions) ∧
      (∀ s ∈ r.slots, s.zone = c.zoneOf s.node ∧
        ∃ n ∈ c.nodes, n.id = s.node ∧ s.partition ∈ n.partitions) ∧
      (c.nodes.Pairwise (·.id < ·.id) → ∀ s ∈ r.slots, ∀ n ∈ c.nodes,
        s.partition ∈ n.partitions → s.node = n.id ∧ s.zone = n.zone) ∧
      (∀ s ∈ r.slots, ∃ rest, r.walkFrom s.partition = s :: rest ∧
        (s :: rest).IsRotated r.slots ∧ (s :: rest).Nodup ∧
        (s :: (rest ++ [s])).IsChain r.Follows) ∧
      (∀ p, r.walkFrom p = [] ↔ ∀ n ∈ c.nodes, p ∉ n.partitions) ∧
      (∀ p, r.walkByPosition p = .ok (r.walkFrom p) ∧ r.ownerByPosition p = .ok (r.owner? p)) ∧
      ∀ key, r.partitionByPosition key = .ok (r.partitionOfKey? key) := by
  have ascending := Ring.ascending_slots_of owners c.zoneOf
  have lists : ∀ p, (∃ s ∈ (Ring.of owners c.zoneOf).slots, s.partition = p) ↔
      ∃ n ∈ c.nodes, p ∈ n.partitions :=
    fun p => Ring.exists_slot_of_iff.trans ((exists_get?_ownership owns).trans mem_listed)
  refine ⟨_, Ring.ofCluster_eq owns, ascending, lists, fun s mem => ?_, fun ids s mem n here has => ?_,
    fun s mem => ?_, fun p => (Ring.walkFrom_eq_nil_iff ascending).trans ?_,
    fun p => ⟨Ring.walkByPosition_eq ascending p, Ring.ownerByPosition_eq _ p⟩,
    Ring.partitionByPosition_eq _⟩
  · obtain ⟨owner, zone⟩ := Ring.mem_slots_of.1 mem
    exact ⟨zone, (get?_ownership owns).1 owner⟩
  · obtain ⟨owner, zone⟩ := Ring.mem_slots_of.1 mem
    have same : s.node = n.id :=
      Option.some.inj (owner.symm.trans ((get?_ownership owns).2 ⟨n, here, rfl, has⟩))
    exact ⟨same, by rw [zone, same, zoneOf_of_mem ids here]⟩
  · obtain ⟨rest, walk⟩ := Ring.exists_walkFrom_eq_cons ascending mem
    have turn := Ring.isRotated_walkFrom ascending mem
    rw [walk] at turn
    have distinct : (Ring.of owners c.zoneOf).slots.Nodup :=
      ascending.imp fun less same => UInt32.ne_of_lt less (congrArg _ same)
    exact ⟨rest, walk, turn, turn.nodup_iff.2 distinct, Ring.isChain_walkFrom ascending mem walk⟩
  · simpa only [not_exists, not_and] using not_congr (lists p)

theorem ring_turns_scattered :
    ∃ owners r, scattered.ownership = .ok owners ∧ Ring.ofCluster scattered = .ok r ∧
      r.walkFrom 40 = [⟨40, 1, 0⟩, ⟨4294967295, 1, 0⟩, ⟨7, 3, 1⟩] ∧
      (r.walkFrom 40).IsRotated r.slots ∧ r.walkByPosition 40 = .ok (r.walkFrom 40) ∧
      r.walkFrom 41 = [] := by
  obtain ⟨owners, owns⟩ : ∃ owners, scattered.ownership = .ok owners := ⟨_, rfl⟩
  obtain ⟨r, built, -, lists, -, -, turns, empty, read, -⟩ := ring_turns owns
  obtain ⟨s, mem, here⟩ := (lists 40).2 ⟨_, List.mem_cons_self, by decide⟩
  obtain ⟨rest, walk, turn, -⟩ := turns s mem
  rw [← walk, here] at turn
  refine ⟨owners, r, owns, built, ?_, turn, (read 40).1, (empty 41).2 (by decide)⟩
  cases built
  decide +kernel

/-- An id that is listed in two zones is found in one of them, and the ring shows it there even for a
partition that is listed in the other. -/
theorem ring_shows_found_zone :
    ∃ owners r, doubled.ownership = .ok owners ∧ Ring.ofCluster doubled = .ok r ∧
      owners.get? 0 = some 0 ∧
      (∀ n ∈ doubled.nodes, 0 ∈ n.partitions → n.id = 0 ∧ n.zone = 0) ∧
      r.slots = [⟨0, 0, 1⟩, ⟨1, 0, 1⟩] :=
  ⟨_, _, rfl, rfl, by decide +kernel, by decide, by decide +kernel⟩

end Cluster

end Resharding
