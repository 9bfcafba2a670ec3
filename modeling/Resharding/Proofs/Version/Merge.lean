import Resharding.Proofs.Version.Order

/-!
Merging clocks.

The merge of two clocks is the least clock that is at least both (`merge_le_iff`), and it is after both
exactly if they were written independently (`merge_after_iff`). As a value, entries with zeros and time
stamp included, it does not depend on the order or the grouping in which clocks are merged
(`merge_comm`, `merge_assoc`, `merge_self`).
-/

namespace Resharding.Clock

/-! ### The larger of two counters -/

instance : Std.LawfulOrderMax UInt64 := by
  have larger (m n : UInt64) : max m n = if m ≤ n then n else m := rfl
  refine .of_le_max ?_ ?_ ?_
  · intro m n
    rw [larger]
    split
    · assumption
    · exact UInt64.le_refl m
  · intro m n
    rw [larger]
    split
    · exact UInt64.le_refl n
    · rename_i less
      exact UInt64.le_of_lt (UInt64.not_le.1 less)
  · intro m n
    rw [larger]
    split
    · exact .inr rfl
    · exact .inl rfl

theorem counter_max_comm (m n : UInt64) : max m n = max n m :=
  UInt64.le_antisymm (Std.max_le_iff.2 ⟨Std.right_le_max, Std.left_le_max⟩)
    (Std.max_le_iff.2 ⟨Std.right_le_max, Std.left_le_max⟩)

theorem toNat_max (m n : UInt64) : (max m n).toNat = max m.toNat n.toNat := by
  change (if m ≤ n then n else m).toNat = _
  split
  · rename_i le
    exact (Nat.max_eq_right (UInt64.le_iff_toNat_le.1 le)).symm
  · rename_i greater
    have less := UInt64.lt_iff_toNat_lt.1 (UInt64.not_le.1 greater)
    exact (Nat.max_eq_left (Nat.le_of_lt less)).symm

variable {a b c : Clock}

/-! ### Merges in the order of clocks -/

theorem merge_le_iff : a.merge b ≤ c ↔ a ≤ c ∧ b ≤ c := by
  constructor
  · intro le
    have split := fun node => Std.max_le_iff.1 (counter_merge a b node ▸ le node)
    exact ⟨fun node => (split node).1, fun node => (split node).2⟩
  · rintro ⟨ofA, ofB⟩ node
    rw [counter_merge]
    exact Std.max_le_iff.2 ⟨ofA node, ofB node⟩

theorem le_merge_left (a b : Clock) : a ≤ a.merge b := (merge_le_iff.1 (Clock.le_refl _)).1

theorem le_merge_right (a b : Clock) : b ≤ a.merge b := (merge_le_iff.1 (Clock.le_refl _)).2

theorem lt_merge_left_iff : a < a.merge b ↔ ¬ b ≤ a := by
  rw [lt_def, merge_le_iff]
  constructor
  · rintro ⟨-, above⟩ le
    exact above ⟨Clock.le_refl a, le⟩
  · intro above
    exact ⟨le_merge_left a b, fun both => above both.2⟩

theorem lt_merge_right_iff : b < a.merge b ↔ ¬ a ≤ b := by
  rw [lt_def, merge_le_iff]
  constructor
  · rintro ⟨-, above⟩ le
    exact above ⟨le, Clock.le_refl b⟩
  · intro above
    exact ⟨le_merge_right a b, fun both => above both.1⟩

/-- A merge is after both clocks only where there is something to merge. -/
theorem merge_after_iff : a < a.merge b ∧ b < a.merge b ↔ a.relation b = .concurrent := by
  rw [relation_eq_concurrent_iff, lt_merge_left_iff, lt_merge_right_iff, and_comm]

/-! ### Merges as values -/

theorem merge_comm (a b : Clock) : a.merge b = b.merge a := by
  simp only [merge]
  rw [SortedMap.mergeWith_comm counter_max_comm, counter_max_comm]

theorem merge_assoc (a b c : Clock) : (a.merge b).merge c = a.merge (b.merge c) := by
  have assoc (l m n : UInt64) : max (max l m) n = max l (max m n) := Std.Associative.assoc l m n
  simp only [merge]
  rw [SortedMap.mergeWith_assoc assoc, assoc]

theorem merge_self (a : Clock) : a.merge a = a := by
  simp only [merge]
  rw [SortedMap.mergeWith_self fun _ => Std.max_self, Std.max_self]

/-- The merge of two clocks is after or equal to both, and whatever is after or equal to both is after or
equal to the merge. It is after both exactly if they were written independently. In which
order and grouping clocks are merged, and how often, makes no difference to the merged value. -/
theorem merge_least_above (a b c : Clock) :
    (((a.merge b).relation a = .after ∨ (a.merge b).relation a = .equal) ∧
      ((a.merge b).relation b = .after ∨ (a.merge b).relation b = .equal)) ∧
    (c.relation a = .after ∨ c.relation a = .equal → c.relation b = .after ∨ c.relation b = .equal →
      c.relation (a.merge b) = .after ∨ c.relation (a.merge b) = .equal) ∧
    ((a.merge b).relation a = .after ∧ (a.merge b).relation b = .after ↔
      a.relation b = .concurrent) ∧
    a.merge b = b.merge a ∧ (a.merge b).merge c = a.merge (b.merge c) ∧ a.merge a = a := by
  simp only [relation_after_or_equal_iff]
  simp only [relation_eq_after_iff]
  exact ⟨⟨le_merge_left a b, le_merge_right a b⟩, fun ofA ofB => merge_le_iff.2 ⟨ofA, ofB⟩,
    merge_after_iff, merge_comm a b, merge_assoc a b c, merge_self a⟩

/-- Updates by two nodes since a common version, with a zero written down, are merged by a third that
goes on from there. -/
theorem merge_least_above_zero :
    let left : Clock := ⟨.ofList [(1, 2), (4, 0)], 6⟩
    let right : Clock := ⟨.ofList [(1, 1), (2, 1)], 7⟩
    let later : Clock := ⟨.ofList [(1, 2), (2, 1), (3, 1)], 0⟩
    left.merge right = ⟨.ofList [(1, 2), (2, 1), (4, 0)], 7⟩ ∧ later.relation left = .after ∧
      later.relation right = .after ∧
      (later.relation (left.merge right) = .after ∨ later.relation (left.merge right) = .equal) := by
  intro left right later
  have above : later.relation left = .after ∧ later.relation right = .after := by decide
  exact ⟨by decide, above.1, above.2,
    (merge_least_above left right later).2.1 (.inl above.1) (.inl above.2)⟩

end Resharding.Clock
