import Resharding.Proofs.Placement.Turn

/-!
How far a walk goes.

Either walk goes from slot to slot in a state of its own until it stops (`Walk`), and what it takes
is decided by the slots that it has visited by then: on other slots that begin with these it takes
the same (`Walk.takenFrom_eq_of_visited`). A turn of another ring of the same partitions begins with
them if they are slots of that ring too (`Ring.prefix_walkFrom`), and so a store chooses alike on
both rings, whatever they show further on (`StoreDefinition.choose_walkFrom_eq`).
-/

namespace Resharding

/-- A walk along slots. In the state in which it comes to a slot it has stopped or not, and goes on
in another state if it takes the slot, and in the same one if it passes it over. -/
structure Walk where
  State : Type
  start : State
  stopped : State → Bool
  take? : State → Slot → Option State

namespace Walk

/-- The slots that are taken. -/
def takenFrom (w : Walk) : w.State → List Slot → List Slot
  | _, [] => []
  | state, s :: rest =>
    if w.stopped state then []
    else
      match w.take? state s with
      | none => w.takenFrom state rest
      | some next => s :: w.takenFrom next rest

/-- The slots that the walk comes to before it stops. -/
def visitedFrom (w : Walk) : w.State → List Slot → List Slot
  | _, [] => []
  | state, s :: rest =>
    if w.stopped state then [] else s :: w.visitedFrom ((w.take? state s).getD state) rest

def taken (w : Walk) (slots : List Slot) : List Slot := w.takenFrom w.start slots

def visited (w : Walk) (slots : List Slot) : List Slot := w.visitedFrom w.start slots

/-- The walk that takes the first slot of every node until it has `count` of them. -/
def consistent (count : Nat) : Walk where
  State := Nat × List NodeId
  start := (count, [])
  stopped state := state.1 == 0
  take? := fun (count, taken) s =>
    if s.node ∈ taken then none else some (count - 1, s.node :: taken)

/-- The walk that takes a slot only while its zone asks for more. -/
def zoned (count : Nat) (quotas : SortedMap ZoneId Nat) : Walk where
  State := Nat × SortedMap ZoneId Nat × List NodeId
  start := (count, quotas, [])
  stopped state := state.1 == 0
  take? := fun (count, quotas, taken) s =>
    if s.node ∈ taken then none
    else
      match quotas.getD s.zone 0 with
      | 0 => none
      | left + 1 => some (count - 1, quotas.insert s.zone left, s.node :: taken)

variable {w : Walk} {slots slots' : List Slot}

theorem visitedFrom_prefix (w : Walk) (state : w.State) (slots : List Slot) :
    w.visitedFrom state slots <+: slots := by
  induction slots generalizing state with
  | nil => exact List.nil_prefix
  | cons s rest ih =>
    simp only [visitedFrom]
    split
    · exact List.nil_prefix
    · exact List.cons_prefix_cons.2 ⟨rfl, ih _⟩

/-- On slots that begin with those that a walk visits it takes what it took. There have to be as many
slots, since a walk that has come to the end goes on where more follow. -/
theorem takenFrom_eq_of_visited {state : w.State} (length : slots'.length = slots.length)
    (ahead : w.visitedFrom state slots <+: slots') :
    w.takenFrom state slots' = w.takenFrom state slots := by
  induction slots generalizing state slots' with
  | nil => rw [List.eq_nil_of_length_eq_zero length]
  | cons s rest ih =>
    simp only [visitedFrom] at ahead
    cases stops : w.stopped state with
    | true =>
      obtain ⟨t, rest', rfl⟩ := List.exists_cons_of_length_eq_add_one length
      simp only [takenFrom, stops, if_true]
    | false =>
      simp only [stops, Bool.false_eq_true, if_false] at ahead
      -- The walks are at the same slot, and go on in the same state.
      obtain ⟨more, rfl⟩ := ahead
      have length' := Nat.succ.inj length
      have ahead' := List.prefix_append (w.visitedFrom ((w.take? state s).getD state) rest) more
      simp only [List.cons_append, takenFrom, stops, Bool.false_eq_true, if_false]
      cases takes : w.take? state s with
      | none =>
        rw [takes] at ahead' length'
        exact ih length' ahead'
      | some next =>
        rw [takes] at ahead' length'
        exact congrArg (s :: ·) (ih length' ahead')

/-! ### The two walks -/

theorem takenFrom_consistent (n count : Nat) (nodes : List NodeId) (slots : List Slot) :
    (consistent n).takenFrom (count, nodes) slots = consistentWalk count nodes slots := by
  induction slots generalizing count nodes with
  | nil => cases count <;> rfl
  | cons s rest ih =>
    cases count with
    | zero => rfl
    | succ count =>
      simp only [takenFrom, consistentWalk]
      by_cases again : s.node ∈ nodes
      · simp only [consistent, again, if_true]
        exact ih (count + 1) nodes
      · simp only [consistent, again, if_false]
        exact congrArg (s :: ·) (ih count (s.node :: nodes))

theorem takenFrom_zoned (n count : Nat) (quotas quotas' : SortedMap ZoneId Nat)
    (nodes : List NodeId) (slots : List Slot) :
    (zoned n quotas').takenFrom (count, quotas, nodes) slots =
      zonedWalk count quotas nodes slots := by
  induction slots generalizing count quotas nodes with
  | nil => cases count <;> rfl
  | cons s rest ih =>
    cases count with
    | zero => rfl
    | succ count =>
      simp only [takenFrom, zonedWalk]
      by_cases again : s.node ∈ nodes
      · simp only [zoned, again, if_true]
        exact ih (count + 1) quotas nodes
      · simp only [zoned, again, if_false]
        cases quotas.getD s.zone 0 with
        | zero => exact ih (count + 1) quotas nodes
        | succ left =>
          exact congrArg (s :: ·) (ih count (quotas.insert s.zone left) (s.node :: nodes))

end Walk

namespace StoreDefinition

variable {store : StoreDefinition} {slots slots' : List Slot}

/-- The walk along which a store chooses. -/
def walk (store : StoreDefinition) : Walk :=
  match store.spread with
  | .consistent => .consistent (max store.replicationFactor 1)
  | .zoned => .zoned store.replicationFactor store.quotas

/-- A store chooses what its walk takes. -/
theorem choose_eq_taken (store : StoreDefinition) (slots : List Slot) :
    store.choose slots = store.walk.taken slots := by
  cases spread : store.spread with
  | consistent =>
    simp only [choose, walk, spread]
    exact (Walk.takenFrom_consistent _ _ _ _).symm
  | zoned =>
    simp only [choose, walk, spread]
    exact (Walk.takenFrom_zoned _ _ _ _ _ _).symm

/-- What a store chooses is decided by the slots that its walk visits. -/
theorem choose_eq_of_visited (length : slots'.length = slots.length)
    (ahead : store.walk.visited slots <+: slots') : store.choose slots' = store.choose slots := by
  rw [choose_eq_taken, choose_eq_taken]
  exact Walk.takenFrom_eq_of_visited length ahead

end StoreDefinition

/-! ### Walks on two rings -/

variable {c c' : Cluster} {owners owners' : SortedMap PartitionId NodeId}
  {zoneOf zoneOf' : NodeId → ZoneId} {p : PartitionId} {slots slots' visited : List Slot}

namespace Ring

/-- Slots of one ring are known by their partitions. -/
theorem eq_of_map_partition_eq (within : ∀ s ∈ slots, s ∈ (of owners zoneOf).slots)
    (within' : ∀ s ∈ slots', s ∈ (of owners zoneOf).slots)
    (same : slots.map (·.partition) = slots'.map (·.partition)) : slots = slots' := by
  induction slots generalizing slots' with
  | nil => exact (List.map_eq_nil_iff.1 same.symm).symm
  | cons s rest ih =>
    obtain ⟨t, rest', rfl, here, there⟩ := List.map_eq_cons_iff.1 same.symm
    have first := eq_of_partition_eq (ascending_slots_of owners zoneOf)
      (within s List.mem_cons_self) (within' t List.mem_cons_self) here.symm
    have others := ih (fun u mem => within u (List.mem_cons_of_mem s mem))
      (fun u mem => within' u (List.mem_cons_of_mem t mem)) there.symm
    rw [first, others]

/-- On a ring of the same partitions a turn begins alike, as far as its slots are on both rings. -/
theorem prefix_walkFrom
    (turn : ((of owners' zoneOf').walkFrom p).map (·.partition) =
      ((of owners zoneOf).walkFrom p).map (·.partition))
    (ahead : visited <+: (of owners zoneOf).walkFrom p)
    (stay : ∀ s ∈ visited, s ∈ (of owners' zoneOf').slots) :
    visited <+: (of owners' zoneOf').walkFrom p := by
  obtain ⟨more, whole⟩ := ahead
  rw [← whole, List.map_append] at turn
  obtain ⟨first, rest, split, same, -⟩ := List.map_eq_append_iff.1 turn
  rw [split, eq_of_map_partition_eq (fun s mem => ?_) stay same]
  · exact List.prefix_append visited rest
  · exact mem_of_mem_walkFrom (split ▸ List.mem_append_left rest mem)

end Ring

/-- A store chooses alike on two rings of the same partitions, if what its walk visits on the one is
on the other too. -/
theorem StoreDefinition.choose_walkFrom_eq (store : StoreDefinition)
    (same : c'.partitionSet = c.partitionSet) (owns : c.ownership = .ok owners)
    (owns' : c'.ownership = .ok owners') (mem : p ∈ c.partitionSet)
    (stay : ∀ s ∈ store.walk.visited ((Ring.of owners zoneOf).walkFrom p),
      s ∈ (Ring.of owners' zoneOf').slots) :
    store.choose ((Ring.of owners' zoneOf').walkFrom p) =
      store.choose ((Ring.of owners zoneOf).walkFrom p) := by
  have turn : ((Ring.of owners' zoneOf').walkFrom p).map (·.partition) =
      ((Ring.of owners zoneOf).walkFrom p).map (·.partition) := by
    rw [Ring.map_partition_walkFrom owns _ mem, Ring.map_partition_walkFrom owns' _ (same ▸ mem)]
    simp only [Cluster.turnFrom, same]
  have length := congrArg List.length turn
  rw [List.length_map, List.length_map] at length
  have visits := Walk.visitedFrom_prefix store.walk store.walk.start
    ((Ring.of owners zoneOf).walkFrom p)
  exact choose_eq_of_visited length (Ring.prefix_walkFrom turn visits stay)

end Resharding
