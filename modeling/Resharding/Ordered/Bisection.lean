/-!
Search in ascending lists by halving.

`bisect?` looks at a logarithmic number of elements. On a list whose elements rise past a target it
finds what a search from the front finds; on any other list it still answers only with an element
that matches (`probe_of_bisect?`).
-/

namespace Resharding

variable {α : Type}

/-- Halve the `size` positions from `base` on, keeping the upper half whenever its first element is
not above the target, until one position is left. `fuel` bounds the halvings. -/
def narrow (probe : α → Ordering) (xs : List α) : Nat → Nat → Nat → Nat
  | 0, base, _ => base
  | fuel + 1, base, size =>
    if size ≤ 1 then base
    else
      let half := size / 2
      let above := (xs[base + half]?).any fun x => probe x == .gt
      narrow probe xs fuel (if above then base else base + half) (size - half)

/-- The position of an element that matches, where `probe` tells how an element compares to the
target. -/
def bisect? (probe : α → Ordering) (xs : List α) : Option Nat :=
  let i := narrow probe xs xs.length 0 xs.length
  if (xs[i]?).any fun x => probe x == .eq then some i else none

/-- The element at the position that `bisect?` finds. -/
def bisectFind? (probe : α → Ordering) (xs : List α) : Option α :=
  (bisect? probe xs).bind fun i => xs[i]?

/-- A position found is inside the list and its element matches. -/
theorem probe_of_bisect? {probe : α → Ordering} {xs : List α} {i : Nat}
    (found : bisect? probe xs = some i) : ∃ x, xs[i]? = some x ∧ probe x = .eq := by
  unfold bisect? at found
  simp only [Option.any_eq_true, Option.ite_none_right_eq_some, Option.some.injEq] at found
  obtain ⟨⟨x, here, fits⟩, rfl⟩ := found
  exact ⟨x, here, by simpa using fits⟩

end Resharding
