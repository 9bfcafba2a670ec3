import Mathlib.Data.Multiset.UnionInter
import Resharding.Proofs.Version.Merge

/-!
Lines of updates from a common clock.

Of the updates that a clock has been taken through, its counters keep how many each node made, and
nothing of their order (`counter_updated`). So two lines of updates from one clock relate as the
multisets of nodes that made them (`updated_le_iff`), they conflict exactly if each has an update
that the other has not seen, and their merge counts what either of them counts (`branches_relate`).
-/

namespace Resharding.Clock

/-- An update of a value: the node that makes it, and when. -/
structure Update where
  node : NodeId
  timestamp : UInt64
deriving DecidableEq, Repr

/-- Who made some updates, as often as each node made one. -/
def makers (updates : List Update) : Multiset NodeId := ↑(updates.map Update.node)

/-- The clock after some updates, the first of the list made first. -/
def updated (c : Clock) (updates : List Update) : Clock :=
  updates.foldl (fun c u => c.increment u.node u.timestamp) c

/-- No counter overflows in the course of some updates. -/
def HasRoom (c : Clock) (updates : List Update) : Prop :=
  ∀ node, (c.counter node).toNat + (makers updates).count node < UInt64.size

variable {b : Clock} {xs ys zs : List Update} {node : NodeId}

/-! ### Counting updates -/

theorem count_makers_cons (u : Update) (rest : List Update) (node : NodeId) :
    (makers (u :: rest)).count node =
      (makers rest).count node + if node = u.node then 1 else 0 :=
  Multiset.count_cons node u.node (makers rest)

/-- A counter goes up by the number of updates that its node makes. -/
theorem counter_updated (b : Clock) (xs : List Update) (node : NodeId) :
    (b.updated xs).counter node = b.counter node + .ofNat ((makers xs).count node) := by
  induction xs generalizing b with
  | nil => exact (UInt64.add_zero _).symm
  | cons u rest ih =>
    have one : UInt64.ofNat ((makers rest).count node + 1) =
        1 + .ofNat ((makers rest).count node) := by
      rw [UInt64.ofNat_add, UInt64.add_comm]
      rfl
    change ((b.increment u.node u.timestamp).updated rest).counter node = _
    rw [ih, counter_increment, count_makers_cons]
    split
    · rename_i same
      rw [one, same, UInt64.add_assoc]
    · rfl

theorem toNat_counter_updated (room : b.HasRoom xs) (node : NodeId) :
    ((b.updated xs).counter node).toNat =
      (b.counter node).toNat + (makers xs).count node := by
  have fits := room node
  have count : (UInt64.ofNat ((makers xs).count node)).toNat = (makers xs).count node :=
    UInt64.toNat_ofNat_of_lt' (by omega)
  rw [counter_updated, UInt64.toNat_add, count]
  exact Nat.mod_eq_of_lt fits

/-- Where every entry leaves room for all of some updates, no counter overflows. -/
theorem hasRoom_of_entries (few : xs.length < UInt64.size)
    (entries : ∀ e ∈ b.counters.toList, e.2.toNat + xs.length < UInt64.size) : b.HasRoom xs := by
  intro node
  have atMost : (makers xs).count node ≤ xs.length :=
    (Multiset.count_le_card node _).trans_eq (List.length_map _)
  by_cases pos : 0 < b.counter node
  · have fits := entries _ (mem_of_counter_pos pos)
    dsimp only at fits
    omega
  · have zero : b.counter node = 0 := UInt64.le_zero_iff.1 (UInt64.not_lt.1 pos)
    rw [zero]
    exact (Nat.zero_add _).trans_lt (atMost.trans_lt few)

/-! ### Two lines of updates -/

/-- A line of updates is within another one if the other has all of its updates. -/
theorem updated_le_iff (roomX : b.HasRoom xs) (roomY : b.HasRoom ys) :
    b.updated xs ≤ b.updated ys ↔ makers xs ≤ makers ys := by
  rw [Multiset.le_iff_count]
  refine forall_congr' fun node => ?_
  rw [UInt64.le_iff_toNat_le, toNat_counter_updated roomX, toNat_counter_updated roomY,
    Nat.add_le_add_iff_left]

theorem updated_lt_iff (roomX : b.HasRoom xs) (roomY : b.HasRoom ys) :
    b.updated xs < b.updated ys ↔ makers xs < makers ys := by
  rw [lt_def, updated_le_iff roomX roomY, updated_le_iff roomY roomX, lt_iff_le_not_ge]

/-- There is room for the updates of two lines together where there is room for each line. -/
theorem HasRoom.union (roomX : b.HasRoom xs) (roomY : b.HasRoom ys)
    (joint : makers zs = makers xs ∪ makers ys) : b.HasRoom zs := by
  intro node
  have ofX := roomX node
  have ofY := roomY node
  rw [joint, Multiset.count_union]
  omega

theorem counter_merge_updated (roomX : b.HasRoom xs) (roomY : b.HasRoom ys)
    (joint : makers zs = makers xs ∪ makers ys) (node : NodeId) :
    ((b.updated xs).merge (b.updated ys)).counter node = (b.updated zs).counter node := by
  have ofX := toNat_counter_updated roomX node
  have ofY := toNat_counter_updated roomY node
  have ofBoth := toNat_counter_updated (roomX.union roomY joint) node
  rw [joint, Multiset.count_union] at ofBoth
  rw [counter_merge, ← UInt64.toNat_inj, toNat_max, ofX, ofY, ofBoth, Nat.add_max_add_left]

/-- A line of updates that is not within another one has an update that the other has not. -/
theorem not_makers_le_iff :
    ¬ makers xs ≤ makers ys ↔ ∃ node, (makers ys).count node < (makers xs).count node := by
  rw [Multiset.le_iff_count, not_forall]
  simp only [Nat.not_le]

/-- Two lines of updates from one clock relate as their updates do, counted by the nodes that made
them: order and time stamps make no difference. They conflict exactly if each has an update that the
other has not seen, and merging them is as good as making, from the same clock, the updates that one
or the other has. -/
theorem branches_relate (roomX : b.HasRoom xs) (roomY : b.HasRoom ys) :
    (((b.updated xs).relation (b.updated ys) = .equal ↔
        (ys.map Update.node).Perm (xs.map Update.node)) ∧
      ((b.updated xs).relation (b.updated ys) = .before ↔ makers xs < makers ys) ∧
      ((b.updated xs).relation (b.updated ys) = .after ↔ makers ys < makers xs) ∧
      ((b.updated xs).relation (b.updated ys) = .concurrent ↔
        ¬ makers xs ≤ makers ys ∧ ¬ makers ys ≤ makers xs)) ∧
    (∀ zs, makers zs = makers xs ∪ makers ys →
      ((b.updated xs).merge (b.updated ys)).relation (b.updated zs) = .equal) ∧
    ((b.updated xs).relation (b.updated ys) = .concurrent ↔
      (∃ node, (makers ys).count node < (makers xs).count node) ∧
        ∃ node, (makers xs).count node < (makers ys).count node) := by
  have conflict : (b.updated xs).relation (b.updated ys) = .concurrent ↔
      ¬ makers xs ≤ makers ys ∧ ¬ makers ys ≤ makers xs := by
    rw [relation_eq_concurrent_iff, updated_le_iff roomX roomY, updated_le_iff roomY roomX]
  refine ⟨⟨?equal, ?before, ?after, conflict⟩, ?merged, ?unseen⟩
  case equal =>
    rw [relation_eq_equal_iff, updated_le_iff roomX roomY, updated_le_iff roomY roomX,
      ← le_antisymm_iff, eq_comm]
    exact Multiset.coe_eq_coe
  case before => exact relation_eq_before_iff.trans (updated_lt_iff roomX roomY)
  case after => exact relation_eq_after_iff.trans (updated_lt_iff roomY roomX)
  case merged =>
    intro zs joint
    apply relation_eq_equal_iff.2
    exact le_and_ge_iff.2 (counter_merge_updated roomX roomY joint)
  case unseen => exact conflict.trans (and_congr not_makers_le_iff not_makers_le_iff)

/-- Two nodes go on from a clock that has a zero written down, and both count an update of node 1;
the first line has a second one of it, the second line one of the node with the zero. -/
theorem branches_relate_forked :
    let b : Clock := ⟨.ofList [(1, 3), (2, 0)], 9⟩
    let xs : List Update := [⟨1, 10⟩, ⟨1, 11⟩]
    let ys : List Update := [⟨2, 12⟩, ⟨1, 8⟩]
    let zs : List Update := [⟨1, 0⟩, ⟨2, 0⟩, ⟨1, 0⟩]
    b.HasRoom xs ∧ b.HasRoom ys ∧ makers zs = makers xs ∪ makers ys ∧
      (b.updated xs).relation (b.updated ys) = .concurrent ∧
      ((b.updated xs).merge (b.updated ys)).relation (b.updated zs) = .equal := by
  intro b xs ys zs
  have entries : ∀ e ∈ b.counters.toList, e.2.toNat + 2 < UInt64.size :=
    List.forall_mem_cons.2 ⟨by decide, List.forall_mem_singleton.2 (by decide)⟩
  have roomX : b.HasRoom xs := hasRoom_of_entries (by decide) entries
  have roomY : b.HasRoom ys := hasRoom_of_entries (by decide) entries
  have joint : makers zs = makers xs ∪ makers ys := by decide
  obtain ⟨⟨-, -, -, conflict⟩, merged, -⟩ := branches_relate roomX roomY
  exact ⟨roomX, roomY, joint, conflict.2 (by decide), merged zs joint⟩

end Resharding.Clock
