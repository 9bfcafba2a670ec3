/-!
Sums of lists of numbers, and of words.

Words are added as words, so that a sum that does not fit wraps around; it is the sum of the numbers
otherwise (`toNat_wrappedTotal_of_lt`).
-/

namespace Resharding

/-- The sum of some numbers. -/
def total (numbers : List Nat) : Nat := numbers.foldr (· + ·) 0

@[simp] theorem total_nil : total [] = 0 := rfl

@[simp] theorem total_cons (n : Nat) (rest : List Nat) : total (n :: rest) = n + total rest := rfl

@[simp] theorem total_append (ms ns : List Nat) : total (ms ++ ns) = total ms + total ns := by
  induction ms with
  | nil => exact (Nat.zero_add _).symm
  | cons m rest ih => rw [List.cons_append, total_cons, total_cons, ih, Nat.add_assoc]

/-- The sum of some words, which wraps around. -/
def wrappedTotal (words : List UInt64) : UInt64 := words.foldr (· + ·) 0

@[simp] theorem wrappedTotal_cons (w : UInt64) (rest : List UInt64) :
    wrappedTotal (w :: rest) = w + wrappedTotal rest := rfl

/-- Wrapping at every step comes to wrapping once. -/
theorem toNat_wrappedTotal (words : List UInt64) :
    (wrappedTotal words).toNat = total (words.map UInt64.toNat) % UInt64.size := by
  induction words with
  | nil => rfl
  | cons w rest ih =>
    rw [wrappedTotal_cons, List.map_cons, total_cons, ← Nat.add_mod_mod, ← ih]
    exact UInt64.toNat_add w (wrappedTotal rest)

theorem toNat_wrappedTotal_of_lt {words : List UInt64}
    (fits : total (words.map UInt64.toNat) < UInt64.size) :
    (wrappedTotal words).toNat = total (words.map UInt64.toNat) := by
  rw [toNat_wrappedTotal, Nat.mod_eq_of_lt fits]

end Resharding
