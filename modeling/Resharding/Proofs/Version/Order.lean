import Resharding.Proofs.Ordered.Listing
import Resharding.Version.Versioned

/-!
The order of clocks.

A clock is at most another one if it counts no more for any node. `Clock.relation` decides this
order in both directions: `relation_eq_after_iff`, `relation_eq_equal_iff` and
`relation_eq_concurrent_iff` say what each answer means. It looks at the entries of the two clocks in
different ways, and yet treats both alike (`trails_eq`): only the counters matter, in whichever
entries they are written down (`relation_orders_counters`). An update that does not overflow its
counter leads strictly upwards (`lt_increment`).
-/

namespace Resharding.Clock

/-- `a ≤ b`: no node has more updates in `a` than in `b`. -/
instance : LE Clock := ⟨fun a b => ∀ node, a.counter node ≤ b.counter node⟩

/-- `a < b`: at most `b`, and `b` counts an update that `a` does not. -/
instance : LT Clock := ⟨fun a b => a ≤ b ∧ ¬ b ≤ a⟩

theorem lt_def {a b : Clock} : a < b ↔ a ≤ b ∧ ¬ b ≤ a := Iff.rfl

protected theorem le_refl (a : Clock) : a ≤ a := fun _ => UInt64.le_refl _

protected theorem le_trans {a b c : Clock} (ab : a ≤ b) (bc : b ≤ c) : a ≤ c :=
  fun node => UInt64.le_trans (ab node) (bc node)

protected theorem lt_of_le_of_lt {a b c : Clock} (ab : a ≤ b) (bc : b < c) : a < c :=
  ⟨Clock.le_trans ab bc.1, fun ca => bc.2 (Clock.le_trans ca ab)⟩

protected theorem lt_of_lt_of_le {a b c : Clock} (ab : a < b) (bc : b ≤ c) : a < c :=
  ⟨Clock.le_trans ab.1 bc, fun ca => ab.2 (Clock.le_trans bc ca)⟩

protected theorem lt_trans {a b c : Clock} (ab : a < b) (bc : b < c) : a < c :=
  Clock.lt_of_lt_of_le ab bc.1

protected theorem lt_irrefl (a : Clock) : ¬ a < a := fun less => less.2 less.1

/-- Clocks that are at most each other count the same updates. -/
theorem le_and_ge_iff {a b : Clock} :
    a ≤ b ∧ b ≤ a ↔ ∀ node, a.counter node = b.counter node := by
  constructor
  · rintro ⟨le, ge⟩ node
    exact UInt64.le_antisymm (le node) (ge node)
  · intro same
    exact ⟨fun node => UInt64.le_of_eq (same node), fun node => UInt64.le_of_eq (same node).symm⟩

theorem empty_le (a : Clock) : empty ≤ a := fun _ => UInt64.zero_le

/-! ### What the relation decides -/

theorem counter_of_mem {a : Clock} {e : NodeId × UInt64} (mem : e ∈ a.counters.toList) :
    a.counter e.1 = e.2 := by
  have here : a.counters.get? e.1 = some e.2 := SortedMap.get?_eq_some_iff.2 mem
  simp only [counter, SortedMap.getD]
  rw [here]
  rfl

/-- A counter above zero has an entry. -/
theorem mem_of_counter_pos {a : Clock} {node : NodeId} (pos : 0 < a.counter node) :
    (node, a.counter node) ∈ a.counters.toList := by
  simp only [counter, SortedMap.getD] at pos ⊢
  cases here : a.counters.get? node with
  | none => simp [here] at pos
  | some counter => exact SortedMap.get?_eq_some_iff.1 here

theorem exceeds_iff {a b : Clock} : a.exceeds b ↔ ∃ node, b.counter node < a.counter node := by
  simp only [exceeds]
  rw [List.any_eq_true]
  constructor
  · rintro ⟨e, mem, less⟩
    refine ⟨e.1, ?_⟩
    rw [counter_of_mem mem]
    exact of_decide_eq_true less
  · rintro ⟨node, less⟩
    have pos : 0 < a.counter node := UInt64.lt_of_le_of_lt UInt64.zero_le less
    exact ⟨_, mem_of_counter_pos pos, decide_eq_true less⟩

theorem counter_of_not_contains {a : Clock} {node : NodeId}
    (absent : a.counters.contains node = false) : a.counter node = 0 := by
  simp only [counter, SortedMap.getD]
  rw [Option.isNone_iff_eq_none.1 (Option.isSome_eq_false_iff.1 absent)]
  rfl

/-- The look at both clocks' entries misses no node: where `a` has no entry it counts zero, and a
zero of `b` is not above that. -/
theorem trails_iff {a b : Clock} : a.trails b ↔ ∃ node, a.counter node < b.counter node := by
  simp only [trails]
  rw [Bool.or_eq_true, List.any_eq_true, List.any_eq_true]
  constructor
  · rintro (⟨e, mem, less⟩ | ⟨e, mem, alone⟩)
    · refine ⟨e.1, ?_⟩
      rw [counter_of_mem mem]
      exact of_decide_eq_true less
    · obtain ⟨pos, absent⟩ := Bool.and_eq_true_iff.1 alone
      refine ⟨e.1, ?_⟩
      rw [counter_of_not_contains (Bool.not_eq_eq_eq_not.1 absent), counter_of_mem mem]
      exact of_decide_eq_true pos
  · rintro ⟨node, less⟩
    have pos : 0 < b.counter node := UInt64.lt_of_le_of_lt UInt64.zero_le less
    cases listed : a.counters.contains node with
    | true =>
      obtain ⟨counter, here⟩ := Option.isSome_iff_exists.1 listed
      have mem : (node, counter) ∈ a.counters.toList := SortedMap.get?_eq_some_iff.1 here
      have same : a.counter node = counter := counter_of_mem mem
      rw [same] at less
      exact .inl ⟨_, mem, decide_eq_true less⟩
    | false =>
      refine .inr ⟨_, mem_of_counter_pos pos, ?_⟩
      rw [listed]
      exact Bool.and_eq_true_iff.2 ⟨decide_eq_true pos, rfl⟩

theorem trails_eq (a b : Clock) : a.trails b = b.exceeds a :=
  Bool.eq_iff_iff.2 (trails_iff.trans exceeds_iff.symm)

theorem exceeds_eq_false_iff {a b : Clock} : a.exceeds b = false ↔ a ≤ b := by
  rw [← Bool.not_eq_true, exceeds_iff]
  constructor
  · intro none node
    exact UInt64.not_lt.1 fun less => none ⟨node, less⟩
  · rintro le ⟨node, less⟩
    exact UInt64.not_lt.2 (le node) less

theorem exceeds_eq_true_iff {a b : Clock} : a.exceeds b = true ↔ ¬ a ≤ b := by
  rw [← exceeds_eq_false_iff, Bool.not_eq_false]

theorem not_le_iff {a b : Clock} : ¬ a ≤ b ↔ ∃ node, b.counter node < a.counter node :=
  exceeds_eq_true_iff.symm.trans exceeds_iff

theorem lt_iff {a b : Clock} :
    a < b ↔ (∀ node, a.counter node ≤ b.counter node) ∧ ∃ node, a.counter node < b.counter node :=
  lt_def.trans (and_congr_right' not_le_iff)

theorem relation_eq_after_iff {a b : Clock} : a.relation b = .after ↔ b < a := by
  rw [lt_def, ← exceeds_eq_false_iff, ← exceeds_eq_true_iff]
  simp only [relation, trails_eq]
  cases a.exceeds b <;> cases b.exceeds a <;> simp

theorem relation_eq_before_iff {a b : Clock} : a.relation b = .before ↔ a < b := by
  rw [lt_def, ← exceeds_eq_false_iff, ← exceeds_eq_true_iff]
  simp only [relation, trails_eq]
  cases a.exceeds b <;> cases b.exceeds a <;> simp

theorem relation_eq_equal_iff {a b : Clock} : a.relation b = .equal ↔ a ≤ b ∧ b ≤ a := by
  rw [← exceeds_eq_false_iff, ← exceeds_eq_false_iff]
  simp only [relation, trails_eq]
  cases a.exceeds b <;> cases b.exceeds a <;> simp

theorem relation_eq_concurrent_iff {a b : Clock} :
    a.relation b = .concurrent ↔ ¬ a ≤ b ∧ ¬ b ≤ a := by
  rw [← exceeds_eq_true_iff, ← exceeds_eq_true_iff]
  simp only [relation, trails_eq]
  cases a.exceeds b <;> cases b.exceeds a <;> simp

/-- Versions that were not written independently are one above the other. -/
theorem relation_ne_concurrent_iff {a b : Clock} :
    a.relation b ≠ .concurrent ↔ a ≤ b ∨ b ≤ a := by
  rw [ne_eq, relation_eq_concurrent_iff, Classical.not_and_iff_not_or_not, Classical.not_not,
    Classical.not_not]

theorem isIndependentOf_iff {a b : Clock} : a.isIndependentOf b ↔ a.relation b = .concurrent :=
  beq_iff_eq

/-- After or equal is the order read backwards. -/
theorem relation_after_or_equal_iff {a b : Clock} :
    a.relation b = .after ∨ a.relation b = .equal ↔ b ≤ a := by
  rw [relation_eq_after_iff, relation_eq_equal_iff, lt_def]
  constructor
  · rintro (⟨le, -⟩ | ⟨-, le⟩) <;> exact le
  · intro le
    by_cases ge : a ≤ b
    · exact .inr ⟨ge, le⟩
    · exact .inl ⟨le, ge⟩

/-! ### Only counters matter -/

/-- Clocks that count the same updates relate alike to clocks that count the same updates. -/
theorem relation_congr {a a' b b' : Clock} (sameA : ∀ node, a.counter node = a'.counter node)
    (sameB : ∀ node, b.counter node = b'.counter node) : a.relation b = a'.relation b' := by
  have forth : a.exceeds b = a'.exceeds b' :=
    Bool.eq_iff_iff.2 (by simp only [exceeds_iff, sameA, sameB])
  have back : b.exceeds a = b'.exceeds a' :=
    Bool.eq_iff_iff.2 (by simp only [exceeds_iff, sameA, sameB])
  simp only [relation, trails_eq, forth, back]

theorem relation_swap (a b : Clock) : b.relation a = (a.relation b).reverse := by
  simp only [relation, trails_eq]
  cases a.exceeds b <;> cases b.exceeds a <;> rfl

/-- Writing a clock down again without its zeros, and at another time, changes no counter. -/
theorem counter_ofEntries (a : Clock) (timestamp : UInt64) (node : NodeId) :
    (ofEntries a.counters.toList timestamp).counter node = a.counter node := by
  have single : ∀ k v w, (k, v) ∈ a.counters.toList.filter (fun e => e.2 != 0) →
      (k, w) ∈ a.counters.toList.filter (fun e => e.2 != 0) → v = w := by
    intro k v w memV memW
    exact (counter_of_mem (List.mem_filter.1 memV).1).symm.trans
      (counter_of_mem (List.mem_filter.1 memW).1)
  have looked : ∀ counter, (ofEntries a.counters.toList timestamp).counters.get? node =
      some counter ↔ (node, counter) ∈ a.counters.toList ∧ (counter != 0) = true :=
    fun counter => (SortedMap.get?_ofList single).trans List.mem_filter
  cases here : (ofEntries a.counters.toList timestamp).counters.get? node with
  | some counter =>
    rw [counter_of_mem (SortedMap.get?_eq_some_iff.1 here)]
    exact (counter_of_mem ((looked counter).1 here).1).symm
  | none =>
    rw [counter_of_not_contains (congrArg Option.isSome here)]
    refine Decidable.byContradiction fun different => ?_
    have pos : 0 < a.counter node := UInt64.pos_iff_ne_zero.2 (Ne.symm different)
    rw [(looked _).2 ⟨mem_of_counter_pos pos, bne_iff_ne.2 (Ne.symm different)⟩] at here
    cases here

/-- Two clocks relate as their counters do, node by node, where a missing entry counts as zero.
Turning the clocks round turns the answer round; being after and being before are strict orders; equal
clocks relate alike to every clock; and neither zeros nor time stamps make a difference. -/
theorem relation_orders_counters (a b c : Clock) :
    ((a.relation b = .equal ↔ ∀ node, a.counter node = b.counter node) ∧
      (a.relation b = .after ↔
        (∀ node, b.counter node ≤ a.counter node) ∧ ∃ node, b.counter node < a.counter node) ∧
      (a.relation b = .before ↔
        (∀ node, a.counter node ≤ b.counter node) ∧ ∃ node, a.counter node < b.counter node) ∧
      (a.relation b = .concurrent ↔
        (∃ node, b.counter node < a.counter node) ∧ ∃ node, a.counter node < b.counter node)) ∧
    b.relation a = (a.relation b).reverse ∧
    (a.relation b = .after → b.relation c = .after → a.relation c = .after) ∧
    (a.relation b = .before → b.relation c = .before → a.relation c = .before) ∧
    a.relation a ≠ .after ∧ a.relation a ≠ .before ∧
    (a.relation b = .equal → a.relation c = b.relation c ∧ c.relation a = c.relation b) ∧
    ∀ s t, (ofEntries a.counters.toList s).relation (ofEntries b.counters.toList t) =
      a.relation b := by
  refine ⟨⟨?equal, ?after, ?before, ?concurrent⟩, relation_swap a b, ?trans, ?trans', ?irrefl,
    ?irrefl', ?congr, ?stripped⟩
  case equal => exact relation_eq_equal_iff.trans le_and_ge_iff
  case after => exact relation_eq_after_iff.trans lt_iff
  case before => exact relation_eq_before_iff.trans lt_iff
  case concurrent => exact relation_eq_concurrent_iff.trans (and_congr not_le_iff not_le_iff)
  case trans =>
    simp only [relation_eq_after_iff]
    exact fun ba cb => Clock.lt_trans cb ba
  case trans' =>
    simp only [relation_eq_before_iff]
    exact Clock.lt_trans
  case irrefl => exact fun above => Clock.lt_irrefl a (relation_eq_after_iff.1 above)
  case irrefl' => exact fun below => Clock.lt_irrefl a (relation_eq_before_iff.1 below)
  case congr =>
    intro equal
    have same := le_and_ge_iff.1 (relation_eq_equal_iff.1 equal)
    exact ⟨relation_congr same fun _ => rfl, relation_congr (fun _ => rfl) same⟩
  case stripped =>
    exact fun s t => relation_congr (counter_ofEntries a s) (counter_ofEntries b t)

/-- Three clocks, each after the one before it; the second has a zero written down, and is equal to the
clock that leaves it out. -/
theorem relation_orders_counters_zero :
    let first : Clock := ⟨.ofList [(1, 1)], 9⟩
    let second : Clock := ⟨.ofList [(1, 2), (2, 0)], 5⟩
    let bare : Clock := ⟨.ofList [(1, 2)], 7⟩
    let third : Clock := ⟨.ofList [(1, 2), (3, 1)], 0⟩
    third.relation second = .after ∧ second.relation first = .after ∧
      third.relation first = .after ∧ first.relation third = .before ∧
      second.relation bare = .equal ∧ second.relation third = bare.relation third := by
  intro first second bare third
  have up : third.relation second = .after ∧ second.relation first = .after := by decide
  have down : first.relation second = .before ∧ second.relation third = .before := by decide
  have equal : second.relation bare = .equal := by decide
  exact ⟨up.1, up.2, (relation_orders_counters third second first).2.2.1 up.1 up.2,
    (relation_orders_counters first second third).2.2.2.1 down.1 down.2, equal,
    ((relation_orders_counters second bare third).2.2.2.2.2.2.1 equal).1⟩

/-! ### Updates lead upwards -/

theorem lt_increment {a : Clock} {node : NodeId} (timestamp : UInt64)
    (fits : (a.counter node).toNat + 1 < UInt64.size) : a < a.increment node timestamp := by
  have grows : a.counter node < a.counter node + 1 := by
    have next : (a.counter node + 1).toNat = (a.counter node).toNat + 1 :=
      (UInt64.toNat_add _ _).trans (Nat.mod_eq_of_lt fits)
    rw [UInt64.lt_iff_toNat_lt, next]
    exact Nat.lt_succ_self _
  constructor
  · intro other
    rw [counter_increment]
    split
    · rename_i same
      rw [same]
      exact UInt64.le_of_lt grows
    · exact UInt64.le_refl _
  · intro back
    have here := back node
    rw [counter_increment, if_pos rfl] at here
    exact UInt64.not_lt.2 here grows

end Resharding.Clock
