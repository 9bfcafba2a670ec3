import Mathlib.Data.List.Nodup
import Resharding.Ordered.Map
import Resharding.Ordered.Set
import Resharding.Total

/-!
Maps and sets against the lists they are made from and list out.

What a set lists ascends, and occurs once; a map into which a list was written holds what the list
says last of a key (`SortedMap.get?_insertAll`), and so all that it says, wherever it says one thing
only (`SortedMap.get?_ofList`). Writing at a key that is there replaces one value in a sum over the
values (`SortedMap.total_values_insert`). A list that is gone through without a failure gives one
result for each element (`mapM_eq_ok`).
-/

namespace Resharding

theorem mapM_eq_ok {α β ε : Type} {f : α → Except ε β} {as : List α} {bs : List β}
    (each : List.Forall₂ (fun a b => f a = .ok b) as bs) : as.mapM f = .ok bs := by
  induction each with
  | nil => rfl
  | cons head _ ih =>
    rw [List.mapM_cons, head, ih]
    rfl

/-- What a list of pairs says last of a key, it says of it. -/
theorem mem_of_getLast?_filter {κ α : Type} [DecidableEq κ] {pairs : List (κ × α)} {k : κ}
    {e : κ × α} (last : (pairs.filter fun e => e.1 = k).getLast? = some e) : (k, e.2) ∈ pairs := by
  obtain ⟨mem, same⟩ := List.mem_filter.1 (List.mem_of_getLast? last)
  rw [← of_decide_eq_true same]
  exact mem

section Ascending

variable {α : Type} [Ord α] [LT α] [LE α] [Std.LawfulOrderOrd α] [Std.LawfulOrderLT α]

theorem SortedSet.toList_ascending (s : SortedSet α) : s.toList.Pairwise (· < ·) :=
  s.ascending.imp Std.compare_eq_lt.1

end Ascending

namespace SortedSet

variable {α : Type} [Ord α]

theorem mem_toList {s : SortedSet α} {a : α} : a ∈ s.toList ↔ a ∈ s := Iff.rfl

theorem union_self [Std.TransOrd α] [Std.LawfulEqOrd α] (s : SortedSet α) : s ∪ s = s :=
  ext_mem fun _ => mem_union.trans or_self_iff

theorem nodup_toList [Std.TransOrd α] (s : SortedSet α) : s.toList.Nodup := by
  refine s.ascending.imp ?_
  intro a b less same
  rw [same, Std.compare_self] at less
  cases less

end SortedSet

namespace SortedMap

variable {κ α : Type} [Ord κ]

theorem nodup_keys [Std.TransOrd κ] (m : SortedMap κ α) : m.keys.Nodup := by
  refine List.pairwise_map.2 (m.ascending.imp ?_)
  intro a b less same
  rw [same, Std.compare_self] at less
  cases less

theorem insertAll_append [Std.TransOrd κ] (m : SortedMap κ α) (first second : List (κ × α)) :
    m.insertAll (first ++ second) = (m.insertAll first).insertAll second := List.foldl_append

variable [Std.TransOrd κ] [Std.LawfulEqOrd κ]

theorem mem_values_iff {m : SortedMap κ α} {v : α} : v ∈ m.values ↔ ∃ k, m.get? k = some v := by
  simp only [values, List.mem_map, get?_eq_some_iff, Prod.exists, exists_eq_right]

/-- Keys are listed in one order only. -/
theorem keys_ext {β : Type} {m : SortedMap κ α} {n : SortedMap κ β}
    (same : ∀ k, k ∈ m.keys ↔ k ∈ n.keys) : m.keys = n.keys :=
  SortedSet.members_ext (List.pairwise_map.2 m.ascending) (List.pairwise_map.2 n.ascending) same

section Writing

variable [DecidableEq κ]

/-- What a list says last of a key is what a map has after it was written in, and where it says
nothing, the map has what it had. -/
theorem get?_insertAll (pairs : List (κ × α)) (m : SortedMap κ α) (k : κ) :
    (m.insertAll pairs).get? k =
      ((pairs.filter fun e => e.1 = k).getLast?.map Prod.snd).or (m.get? k) := by
  induction pairs generalizing m with
  | nil => rfl
  | cons p rest ih =>
    change ((m.insert p.1 p.2).insertAll rest).get? k = _
    rw [ih, get?_insert, List.filter_cons]
    by_cases same : p.1 = k
    · rw [if_pos same.symm, if_pos (decide_eq_true same), List.getLast?_cons]
      cases (rest.filter fun e => e.1 = k).getLast? <;> rfl
    · rw [if_neg (Ne.symm same), if_neg (mt of_decide_eq_true same)]

theorem get?_insertAll_of_not_mem {pairs : List (κ × α)} {k : κ}
    (absent : ∀ v, (k, v) ∉ pairs) (m : SortedMap κ α) : (m.insertAll pairs).get? k = m.get? k := by
  rw [get?_insertAll]
  cases last : (pairs.filter fun e => e.1 = k).getLast? with
  | none => rfl
  | some e => exact absurd (mem_of_getLast?_filter last) (absent e.2)

/-- What a list says of a key is what a map has after it was written in, if it says it alone. -/
theorem get?_insertAll_of_mem {pairs : List (κ × α)} {k : κ} {v : α} (mem : (k, v) ∈ pairs)
    (only : ∀ w, (k, w) ∈ pairs → w = v) (m : SortedMap κ α) :
    (m.insertAll pairs).get? k = some v := by
  have said : (k, v) ∈ pairs.filter fun e => e.1 = k :=
    List.mem_filter.2 ⟨mem, decide_eq_true rfl⟩
  rw [get?_insertAll]
  cases last : (pairs.filter fun e => e.1 = k).getLast? with
  | none => exact absurd (List.getLast?_eq_none_iff.1 last) (List.ne_nil_of_mem said)
  | some e => exact congrArg some (only e.2 (mem_of_getLast?_filter last))

/-- Whatever a map has after a list was written in, it had before or the list says it. -/
theorem mem_of_get?_insertAll {pairs : List (κ × α)} {m : SortedMap κ α} {k : κ} {v : α}
    (here : (m.insertAll pairs).get? k = some v) : (k, v) ∈ pairs ∨ m.get? k = some v := by
  rw [get?_insertAll] at here
  cases last : (pairs.filter fun e => e.1 = k).getLast? with
  | none =>
    rw [last] at here
    exact .inr here
  | some e =>
    rw [last] at here
    cases here
    exact .inl (mem_of_getLast?_filter last)

/-- A map made from a list has at a key what the list says of it, where it never says two things
of one key. -/
theorem get?_ofList {pairs : List (κ × α)}
    (single : ∀ k v w, (k, v) ∈ pairs → (k, w) ∈ pairs → v = w) {k : κ} {v : α} :
    (ofList pairs).get? k = some v ↔ (k, v) ∈ pairs := by
  constructor
  · intro here
    rcases mem_of_get?_insertAll here with mem | before
    · exact mem
    · cases before
  · intro mem
    exact get?_insertAll_of_mem mem (fun w mem' => single k w v mem' mem) empty

/-- A map made from a list without repeated keys has what the list says. -/
theorem get?_ofList_of_nodup {pairs : List (κ × α)} (distinct : (pairs.map Prod.fst).Nodup) {k : κ}
    {v : α} : (ofList pairs).get? k = some v ↔ (k, v) ∈ pairs := by
  apply get?_ofList
  intro j v w memV memW
  exact (Prod.mk.inj (List.inj_on_of_nodup_map distinct memV memW rfl)).2

/-- The keys of a map after a list was written in are those listed and those it had. -/
theorem isSome_get?_insertAll {pairs : List (κ × α)} {m : SortedMap κ α} {k : κ} :
    ((m.insertAll pairs).get? k).isSome ↔ k ∈ pairs.map Prod.fst ∨ (m.get? k).isSome := by
  rw [get?_insertAll, Option.isSome_or, Bool.or_eq_true, Option.isSome_map, List.getLast?_isSome]
  refine or_congr_left ?_
  rw [Ne, List.filter_eq_nil_iff, List.mem_map]
  simp only [decide_eq_true_eq, not_forall, not_not, exists_prop]

/-- What is written again need not have been written before. -/
theorem insertAll_insertAll {first second : List (κ × α)}
    (covers : first.map Prod.fst ⊆ second.map Prod.fst) (m : SortedMap κ α) :
    (m.insertAll first).insertAll second = m.insertAll second := by
  refine ext_get? fun k => ?_
  by_cases again : k ∈ second.map Prod.fst
  · obtain ⟨e, mem, rfl⟩ := List.mem_map.1 again
    have said : (second.filter fun d => d.1 = e.1) ≠ [] :=
      List.ne_nil_of_mem (List.mem_filter.2 ⟨mem, decide_eq_true rfl⟩)
    rw [get?_insertAll, get?_insertAll second, List.getLast?_eq_some_getLast said]
    rfl
  · have absent : ∀ v, (k, v) ∉ second := fun v mem => again (List.mem_map.2 ⟨_, mem, rfl⟩)
    have absentBefore : ∀ v, (k, v) ∉ first :=
      fun v mem => again (covers (List.mem_map.2 ⟨_, mem, rfl⟩))
    rw [get?_insertAll_of_not_mem absent, get?_insertAll_of_not_mem absentBefore,
      get?_insertAll_of_not_mem absent]

/-- Writing one value at every listed key leaves the other keys alone. -/
theorem get?_insertAll_const (keys : List κ) (v : α) (m : SortedMap κ α) (k : κ) :
    (m.insertAll (keys.map fun k => (k, v))).get? k = if k ∈ keys then some v else m.get? k := by
  have written : ∀ w, (k, w) ∈ keys.map (fun k => (k, v)) → k ∈ keys ∧ w = v := by
    intro w mem
    obtain ⟨_, listed, same⟩ := List.mem_map.1 mem
    cases same
    exact ⟨listed, rfl⟩
  split
  · rename_i listed
    have mem : (k, v) ∈ keys.map fun k => (k, v) := List.mem_map.2 ⟨k, listed, rfl⟩
    exact get?_insertAll_of_mem mem (fun w mem => (written w mem).2) m
  · rename_i absent
    exact get?_insertAll_of_not_mem (fun w mem => absent (written w mem).1) m

/-- A map that gives every listed key the same value. -/
theorem get?_ofList_const (keys : List κ) (v : α) (k : κ) :
    (ofList (keys.map fun k => (k, v))).get? k = if k ∈ keys then some v else none :=
  get?_insertAll_const keys v empty k

end Writing

/-! ### Summing and counting values -/

theorem total_putEntry (weight : α → Nat) {k : κ} {old : α} (v : α) {es : List (κ × α)}
    (ascending : es.Pairwise fun a b => compare a.1 b.1 = .lt) (here : findEntry k es = some old) :
    total ((putEntry k v es).map fun e => weight e.2) + weight old =
      total (es.map fun e => weight e.2) + weight v := by
  induction es with
  | nil => cases here
  | cons d rest ih =>
    have ⟨below, tail⟩ := List.pairwise_cons.1 ascending
    simp only [findEntry] at here
    simp only [putEntry]
    split
    · -- A key below the head is not in the list.
      rename_i less
      have absent : findEntry k rest = none :=
        findEntry_eq_none_of_below fun e mem => Std.TransCmp.lt_trans less (below e mem)
      rw [less, absent] at here
      cases here
    · rename_i same
      rw [if_pos same] at here
      cases here
      simp only [List.map_cons, total_cons]
      omega
    · rename_i greater
      rw [if_neg (by rw [greater]; decide)] at here
      have summed := ih tail here
      simp only [List.map_cons, total_cons]
      omega

/-- Writing at a key that is there takes the weight of one value out of the sum and puts that of
another in. -/
theorem total_values_insert (weight : α → Nat) {m : SortedMap κ α} {k : κ} {old : α} (v : α)
    (here : m.get? k = some old) :
    total ((m.insert k v).values.map weight) + weight old =
      total (m.values.map weight) + weight v := by
  simp only [values, List.map_map]
  exact total_putEntry weight v m.ascending here

/-- Writing at a key that is there takes one value out of the count and puts one in. -/
theorem countP_values_insert (p : α → Bool) {m : SortedMap κ α} {k : κ} {old : α} (v : α)
    (here : m.get? k = some old) :
    (m.insert k v).values.countP p + (if p old then 1 else 0) =
      m.values.countP p + (if p v then 1 else 0) := by
  have counted : ∀ as : List α, as.countP p = total (as.map fun a => if p a then 1 else 0) := by
    intro as
    induction as with
    | nil => rfl
    | cons a rest ih => rw [List.countP_cons, List.map_cons, total_cons, ih, Nat.add_comm]
  rw [counted, counted]
  exact total_values_insert _ v here

end SortedMap

end Resharding
