import Resharding.Wire.Reader

/-!
Readers in turn, and readers that are given more.

What a reader made of two reads, how many steps it takes and whether it meets keys in order comes
part by part from the two (`Reader.run_bind`, `Reader.steps_bind`, `Reader.inOrder_bind`), and so
does what is known of a value that is written and read (`Reader.Reads.bind`) or read and written
(`Reader.Takes.bind`). No reader looks beyond what it takes: bytes that are added behind stay behind
(`Reader.run_append`).
-/

namespace Resharding.Wire.Reader

variable {α β : Type} {r : Reader α} {next : α → Reader β} {bytes rest : List UInt8} {x : α} {y : β}
  {fault : Fault} {count : Nat}

/-! ### Taking bytes -/

theorem run_take_eq_ok_iff {taken : List UInt8} :
    (take count fault).run bytes = .ok (taken, rest) ↔
      taken.length = count ∧ bytes = taken ++ rest := by
  change (if bytes.length < count then _ else
    Except.ok (bytes.take count, bytes.drop count)) = _ ↔ _
  constructor
  · intro done
    split at done
    · cases done
    · cases done
      exact ⟨by rw [List.length_take]; omega, (List.take_append_drop count bytes).symm⟩
  · rintro ⟨rfl, rfl⟩
    rw [if_neg (by rw [List.length_append]; omega), List.take_left, List.drop_left]

@[simp] theorem steps_take : (take count fault).steps bytes = 1 := ite_self 1

theorem inOrder_take : (take count fault).InOrder bytes := .inr trivial

/-! ### One after another -/

theorem run_bind (r : Reader α) (next : α → Reader β) (bytes : List UInt8) :
    (r >>= next).run bytes = r.run bytes >>= fun read => (next read.1).run read.2 := by
  change (r.bind next).run bytes = _
  induction r generalizing bytes with
  | done value => rfl
  | fail fault => rfl
  | ask count fault more ih =>
    simp only [bind, run]
    split
    · rfl
    · exact ih _ _
  | pass mark more ih => exact ih bytes

theorem run_bind_of_ok (first : r.run bytes = .ok (x, rest)) :
    (r >>= next).run bytes = (next x).run rest := by
  rw [run_bind, first]
  rfl

theorem exists_of_run_bind (done : (r >>= next).run bytes = .ok (y, rest)) :
    ∃ x between, r.run bytes = .ok (x, between) ∧ (next x).run between = .ok (y, rest) := by
  rw [run_bind] at done
  cases first : r.run bytes with
  | error fault =>
    rw [first] at done
    cases done
  | ok read =>
    rw [first] at done
    exact ⟨read.1, read.2, rfl, done⟩

theorem steps_bind (first : r.run bytes = .ok (x, rest)) :
    (r >>= next).steps bytes = r.steps bytes + (next x).steps rest := by
  change (r.bind next).steps bytes = _
  induction r generalizing bytes with
  | done value =>
    cases first
    exact (Nat.zero_add _).symm
  | fail fault => cases first
  | ask count fault more ih =>
    simp only [run] at first
    split at first
    · cases first
    · rename_i enough
      simp only [bind, steps, if_neg enough]
      rw [ih _ first]
      exact Nat.add_right_comm _ _ _
  | pass mark more ih =>
    cases mark with
    | item =>
      simp only [bind, steps]
      rw [ih first]
      exact Nat.add_right_comm _ _ _
    | keys ascend => exact ih first

theorem steps_bind_of_error (first : r.run bytes = .error fault) :
    (r >>= next).steps bytes = r.steps bytes := by
  change (r.bind next).steps bytes = _
  induction r generalizing bytes with
  | done value => cases first
  | fail fault => rfl
  | ask count fault more ih =>
    simp only [run] at first
    simp only [bind, steps]
    split
    · rfl
    · rename_i enough
      rw [if_neg enough] at first
      rw [ih _ first]
  | pass mark more ih =>
    cases mark with
    | item => exact congrArg (· + 1) (ih first)
    | keys ascend => exact ih first

/-- The first of two readers ends within a limit by itself, or both do together. -/
theorem steps_bind_le {limit : Nat} (alone : r.steps bytes ≤ limit)
    (both : ∀ x rest, r.run bytes = .ok (x, rest) →
      r.steps bytes + (next x).steps rest ≤ limit) :
    (r >>= next).steps bytes ≤ limit := by
  cases first : r.run bytes with
  | error fault =>
    rw [steps_bind_of_error first]
    exact alone
  | ok read =>
    rw [steps_bind first]
    exact both read.1 read.2 first

/-- Nothing is read to wrap a value that was read. -/
theorem steps_map (r : Reader α) (wrap : α → β) (bytes : List UInt8) :
    (do return wrap (← r)).steps bytes = r.steps bytes := by
  cases first : r.run bytes with
  | error fault => exact steps_bind_of_error first
  | ok read => exact steps_bind first

theorem inOrder_bind (first : r.run bytes = .ok (x, rest)) :
    (r >>= next).InOrder bytes ↔ r.InOrder bytes ∧ (next x).InOrder rest := by
  change (r.bind next).InOrder bytes ↔ _
  induction r generalizing bytes with
  | done value =>
    cases first
    exact (iff_of_eq (true_and _)).symm
  | fail fault => cases first
  | ask count fault more ih =>
    simp only [run] at first
    split at first
    · cases first
    · rename_i enough
      simp only [bind, InOrder, or_iff_right enough]
      exact ih _ first
  | pass mark more ih =>
    cases mark with
    | item => exact ih first
    | keys ascend =>
      simp only [bind, InOrder, and_assoc]
      exact and_congr_right fun _ => ih first

/-! ### Reading what was written -/

/-- A value is read from the front of some bytes, with all keys in order. -/
structure Reads (r : Reader α) (bytes : List UInt8) (x : α) (rest : List UInt8) : Prop where
  run_eq : r.run bytes = .ok (x, rest)
  inOrder : r.InOrder bytes

theorem reads_done (x : α) (rest : List UInt8) : (done x).Reads rest x rest := ⟨rfl, trivial⟩

theorem reads_take (taken rest : List UInt8) :
    (take taken.length fault).Reads (taken ++ rest) taken rest :=
  ⟨run_take_eq_ok_iff.2 ⟨rfl, rfl⟩, inOrder_take⟩

theorem Reads.item (reads : r.Reads bytes x rest) : (pass .item r).Reads bytes x rest :=
  ⟨reads.run_eq, reads.inOrder⟩

theorem Reads.keys {ascend : Prop} (ascends : ascend) (reads : r.Reads bytes x rest) :
    (pass (.keys ascend) r).Reads bytes x rest :=
  ⟨reads.run_eq, ascends, reads.inOrder⟩

theorem Reads.bind {between : List UInt8} (first : r.Reads bytes x between)
    (second : (next x).Reads between y rest) : (r >>= next).Reads bytes y rest where
  run_eq := (run_bind_of_ok first.run_eq).trans second.run_eq
  inOrder := (inOrder_bind first.run_eq).2 ⟨first.inOrder, second.inOrder⟩

theorem Reads.map (first : r.Reads bytes x rest) (wrap : α → β) :
    (do return wrap (← r)).Reads bytes (wrap x) rest :=
  first.bind (reads_done (wrap x) rest)

/-! ### Writing what was read -/

/-- What is read from the front of some bytes is written in no more than were taken, and as those
very bytes if keys come in order. Two steps are allowed for every byte taken, and `left` of them
remain. -/
structure Takes (r : Reader α) (left : Nat) (bytes written rest : List UInt8) : Prop where
  length_le : written.length + rest.length ≤ bytes.length
  steps_le : r.steps bytes + left + 2 * rest.length ≤ 2 * bytes.length
  eq_written : r.InOrder bytes → bytes = written ++ rest

theorem takes_done (x : α) (rest : List UInt8) : (done x).Takes 0 rest [] rest :=
  ⟨Nat.le_of_eq (Nat.zero_add _), Nat.le_of_eq (Nat.zero_add _), fun _ => rfl⟩

theorem Takes.bind {between before behind : List UInt8} {leftFirst leftSecond : Nat}
    (first : r.Takes leftFirst bytes before between) (done : r.run bytes = .ok (x, between))
    (second : (next x).Takes leftSecond between behind rest) :
    (r >>= next).Takes (leftFirst + leftSecond) bytes (before ++ behind) rest where
  length_le := by
    have lengthFirst := first.length_le
    have lengthSecond := second.length_le
    rw [List.length_append]
    omega
  steps_le := by
    have stepsFirst := first.steps_le
    have stepsSecond := second.steps_le
    rw [steps_bind done]
    omega
  eq_written inOrder := by
    obtain ⟨inOrderFirst, inOrderSecond⟩ := (inOrder_bind done).1 inOrder
    rw [List.append_assoc, ← second.eq_written inOrderSecond]
    exact first.eq_written inOrderFirst

/-- Nothing more is taken to turn what was read into a value. -/
theorem Takes.bind_done {written : List UInt8} {left : Nat}
    (first : r.Takes left bytes written rest) (done : r.run bytes = .ok (x, rest))
    (last : next x = .done y) : (r >>= next).Takes left bytes written rest where
  length_le := first.length_le
  steps_le := by
    rw [steps_bind done, last]
    exact first.steps_le
  eq_written inOrder := first.eq_written ((inOrder_bind done).1 inOrder).1

theorem Takes.map {written : List UInt8} {left : Nat} (first : r.Takes left bytes written rest)
    (done : r.run bytes = .ok (x, rest)) (wrap : α → β) :
    (do return wrap (← r)).Takes left bytes written rest :=
  first.bind_done done rfl

theorem Takes.item {written : List UInt8} {left : Nat}
    (takes : r.Takes (left + 1) bytes written rest) :
    (pass .item r).Takes left bytes written rest where
  length_le := takes.length_le
  steps_le := by
    have steps := takes.steps_le
    change r.steps bytes + 1 + left + _ ≤ _
    omega
  eq_written := takes.eq_written

theorem Takes.of_le {written : List UInt8} {left fewer : Nat}
    (takes : r.Takes left bytes written rest) (less : fewer ≤ left) :
    r.Takes fewer bytes written rest where
  length_le := takes.length_le
  steps_le := by
    have steps := takes.steps_le
    omega
  eq_written := takes.eq_written

/-! ### Bytes behind -/

/-- Bytes that are added behind are left behind. -/
theorem run_append (done : r.run bytes = .ok (x, rest)) (more : List UInt8) :
    r.run (bytes ++ more) = .ok (x, rest ++ more) := by
  induction r generalizing bytes with
  | done value =>
    cases done
    rfl
  | fail fault => cases done
  | ask count fault next ih =>
    simp only [run] at done ⊢
    split at done
    · cases done
    · rename_i enough
      have within : count ≤ bytes.length := Nat.le_of_not_lt enough
      rw [if_neg (by rw [List.length_append]; omega), List.take_append_of_le_length within,
        List.drop_append_of_le_length within]
      exact ih _ done
  | pass mark next ih => exact ih done

end Resharding.Wire.Reader
