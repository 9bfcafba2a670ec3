import Resharding.Ordered.Bisection

/-!
Search by halving misses nothing in a list that rises past the target.

Wherever a matching element is, halving keeps one among the positions that are left
(`exists_match_narrow`), so a search fails only if nothing matches (`isSome_bisectFind?`).
-/

namespace Resharding

variable {α : Type} {probe : α → Ordering} {xs : List α}

/-- The list rises past the target: what follows an element above it is above it too, and what
precedes an element below it is below. -/
def RisesPast (probe : α → Ordering) (xs : List α) : Prop :=
  xs.Pairwise fun x y => (probe x = .gt → probe y = .gt) ∧ (probe y = .lt → probe x = .lt)

theorem RisesPast.gt_of_le (rises : RisesPast probe xs) {i j : Nat} {x y : α} (le : i ≤ j)
    (atI : xs[i]? = some x) (atJ : xs[j]? = some y) (above : probe x = .gt) : probe y = .gt := by
  obtain ⟨hi, rfl⟩ := List.getElem?_eq_some_iff.1 atI
  obtain ⟨hj, rfl⟩ := List.getElem?_eq_some_iff.1 atJ
  rcases Nat.lt_or_eq_of_le le with less | rfl
  · exact (List.pairwise_iff_getElem.1 rises i j hi hj less).1 above
  · exact above

theorem RisesPast.lt_of_le (rises : RisesPast probe xs) {i j : Nat} {x y : α} (le : i ≤ j)
    (atI : xs[i]? = some x) (atJ : xs[j]? = some y) (below : probe y = .lt) : probe x = .lt := by
  obtain ⟨hi, rfl⟩ := List.getElem?_eq_some_iff.1 atI
  obtain ⟨hj, rfl⟩ := List.getElem?_eq_some_iff.1 atJ
  rcases Nat.lt_or_eq_of_le le with less | rfl
  · exact (List.pairwise_iff_getElem.1 rises i j hi hj less).2 below
  · exact below

/-- A match lies among the `size` positions from `base` on. -/
def HasMatch (probe : α → Ordering) (xs : List α) (base size : Nat) : Prop :=
  ∃ p x, base ≤ p ∧ p < base + size ∧ xs[p]? = some x ∧ probe x = .eq

/-- Halving keeps a match: an element above the target has none behind it, and one not above it
has one at its place or behind. -/
theorem hasMatch_half (rises : RisesPast probe xs) {base size : Nat}
    (inside : base + size ≤ xs.length) (two : 1 < size) (found : HasMatch probe xs base size) :
    HasMatch probe xs
      (if (xs[base + size / 2]?).any (fun x => probe x == .gt) then base else base + size / 2)
      (size - size / 2) := by
  obtain ⟨p, x, low, high, atP, fits⟩ := found
  have less : base + size / 2 < xs.length := by omega
  have atMid : xs[base + size / 2]? = some xs[base + size / 2] := List.getElem?_eq_getElem less
  generalize xs[base + size / 2] = y at atMid
  rw [atMid, Option.any_some]
  cases order : probe y with
  | gt =>
    have before : p < base + size / 2 := by
      apply Nat.lt_of_not_le
      intro le
      rw [rises.gt_of_le le atMid atP order] at fits
      cases fits
    change HasMatch probe xs base (size - size / 2)
    exact ⟨p, x, low, by omega, atP, fits⟩
  | eq =>
    change HasMatch probe xs (base + size / 2) (size - size / 2)
    exact ⟨base + size / 2, y, Nat.le_refl _, by omega, atMid, order⟩
  | lt =>
    have behind : base + size / 2 < p := by
      apply Nat.lt_of_not_le
      intro le
      rw [rises.lt_of_le le atP atMid order] at fits
      cases fits
    change HasMatch probe xs (base + size / 2) (size - size / 2)
    exact ⟨p, x, Nat.le_of_lt behind, by omega, atP, fits⟩

theorem HasMatch.single {base size : Nat} (one : size ≤ 1) (found : HasMatch probe xs base size) :
    ∃ x, xs[base]? = some x ∧ probe x = .eq := by
  obtain ⟨p, x, low, high, atP, fits⟩ := found
  have : p = base := by omega
  exact ⟨x, this ▸ atP, fits⟩

/-- When the halving is done, the position that is left matches. -/
theorem probe_narrow (rises : RisesPast probe xs) {fuel base size : Nat} (enough : size ≤ fuel)
    (inside : base + size ≤ xs.length) (found : HasMatch probe xs base size) :
    ∃ x, xs[narrow probe xs fuel base size]? = some x ∧ probe x = .eq := by
  induction fuel generalizing base size with
  | zero => exact found.single (by omega)
  | succ fuel ih =>
    simp only [narrow]
    split
    · rename_i one
      exact found.single one
    · rename_i two
      refine ih (by omega) ?_ (hasMatch_half rises inside (Nat.lt_of_not_le two) found)
      split <;> omega

/-- A search by halving succeeds exactly when some element matches. -/
theorem isSome_bisectFind? (rises : RisesPast probe xs) :
    (bisectFind? probe xs).isSome ↔ ∃ x ∈ xs, probe x = .eq := by
  constructor
  · intro found
    obtain ⟨x, eq⟩ := Option.isSome_iff_exists.1 found
    obtain ⟨i, position, atI⟩ := Option.bind_eq_some_iff.1 eq
    obtain ⟨y, atI', fits⟩ := probe_of_bisect? position
    exact ⟨y, List.mem_of_getElem? atI', fits⟩
  · rintro ⟨x, mem, fits⟩
    obtain ⟨p, atP⟩ := List.mem_iff_getElem?.1 mem
    have less : p < xs.length := (List.getElem?_eq_some_iff.1 atP).1
    have anywhere : HasMatch probe xs 0 xs.length := ⟨p, x, Nat.zero_le _, by omega, atP, fits⟩
    obtain ⟨y, atEnd, hits⟩ := probe_narrow rises (Nat.le_refl _) (by omega) anywhere
    simp [bisectFind?, bisect?, atEnd, hits]

end Resharding
