/-!
Finite sets as ascending lists of their members.

Members are strictly ascending, so a set has one representation: sets with the same members are
equal (`SortedSet.ext_mem`), and listing a set lists it in order.
-/

namespace Resharding

/-- A finite set, kept as the ascending list of its members. -/
structure SortedSet (α : Type) [Ord α] where
  members : List α
  ascending : members.Pairwise fun a b => compare a b = .lt
deriving DecidableEq

namespace SortedSet

variable {α : Type} [Ord α]

/-! ### Member lists -/

/-- Put `a` before the first larger member, or leave the list if `a` is in it. -/
def putMember (a : α) : List α → List α
  | [] => [a]
  | b :: rest =>
    match compare a b with
    | .lt => a :: b :: rest
    | .eq => b :: rest
    | .gt => b :: putMember a rest

theorem mem_of_mem_putMember {a b : α} {bs : List α} (mem : b ∈ putMember a bs) :
    b = a ∨ b ∈ bs := by
  induction bs with
  | nil => exact .inl (by simpa [putMember] using mem)
  | cons c rest ih =>
    unfold putMember at mem
    split at mem <;> simp only [List.mem_cons] at mem ⊢
    · exact mem
    · exact .inr mem
    · rcases mem with rfl | mem
      · exact .inr (.inl rfl)
      · exact (ih mem).imp_right .inr

theorem ascending_putMember [Std.TransOrd α] (a : α) {bs : List α}
    (ascending : bs.Pairwise fun a b => compare a b = .lt) :
    (putMember a bs).Pairwise fun a b => compare a b = .lt := by
  induction bs with
  | nil => simp [putMember]
  | cons c rest ih =>
    have ⟨below, tail⟩ := List.pairwise_cons.1 ascending
    unfold putMember
    split
    · rename_i lt
      refine List.pairwise_cons.2 ⟨fun e mem => ?_, ascending⟩
      rcases List.mem_cons.1 mem with rfl | mem
      · exact lt
      · exact Std.TransCmp.lt_trans lt (below e mem)
    · exact ascending
    · rename_i gt
      refine List.pairwise_cons.2 ⟨fun e mem => ?_, ih tail⟩
      rcases mem_of_mem_putMember mem with rfl | mem
      · exact Std.OrientedCmp.lt_of_gt gt
      · exact below e mem

theorem mem_putMember [Std.LawfulEqOrd α] {a b : α} {bs : List α} :
    b ∈ putMember a bs ↔ b = a ∨ b ∈ bs := by
  refine ⟨mem_of_mem_putMember, fun cases => ?_⟩
  induction bs with
  | nil => simpa [putMember] using cases
  | cons c rest ih =>
    unfold putMember
    split
    · simpa using cases
    · rename_i eq
      have : a = c := Std.LawfulEqOrd.eq_of_compare eq
      simpa [this] using cases
    · rcases cases with same | mem
      · exact List.mem_cons_of_mem _ (ih (.inl same))
      · rcases List.mem_cons.1 mem with rfl | mem
        · simp
        · exact List.mem_cons_of_mem _ (ih (.inr mem))

/-! ### Sets -/

/-- The set without members. -/
def empty : SortedSet α := ⟨[], .nil⟩

instance : EmptyCollection (SortedSet α) := ⟨empty⟩
instance : Inhabited (SortedSet α) := ⟨empty⟩
instance : Membership α (SortedSet α) := ⟨fun s a => a ∈ s.members⟩

instance [DecidableEq α] (a : α) (s : SortedSet α) : Decidable (a ∈ s) :=
  inferInstanceAs (Decidable (a ∈ s.members))

/-- The members, ascending. -/
def toList (s : SortedSet α) : List α := s.members

def size (s : SortedSet α) : Nat := s.members.length

def isEmpty (s : SortedSet α) : Bool := s.members.isEmpty

/-- Whether `a` is a member. -/
def contains (s : SortedSet α) (a : α) : Bool := s.members.any fun b => compare a b == .eq

/-- The members that satisfy `keep`. -/
def filter (keep : α → Bool) (s : SortedSet α) : SortedSet α :=
  ⟨s.members.filter keep, s.ascending.filter _⟩

/-- The members of `s` that are not in `t`. -/
def diff (s t : SortedSet α) : SortedSet α := s.filter fun a => !t.contains a

instance : SDiff (SortedSet α) := ⟨diff⟩

section Writing

variable [Std.TransOrd α]

/-- The set with `a` added. -/
def insert (s : SortedSet α) (a : α) : SortedSet α :=
  ⟨putMember a s.members, ascending_putMember a s.ascending⟩

/-- The set with every element of a list added. -/
def insertAll (s : SortedSet α) (as : List α) : SortedSet α := as.foldl insert s

/-- The set of a list's elements. -/
def ofList (as : List α) : SortedSet α := empty.insertAll as

/-- The members of either set. -/
def union (s t : SortedSet α) : SortedSet α := s.insertAll t.members

instance : Union (SortedSet α) := ⟨union⟩

end Writing

/-! ### Membership laws -/

theorem mem_def {s : SortedSet α} {a : α} : a ∈ s ↔ a ∈ s.members := Iff.rfl

@[simp] theorem not_mem_empty (a : α) : ¬ a ∈ (empty : SortedSet α) := by
  simp [mem_def, empty]

theorem mem_insert [Std.TransOrd α] [Std.LawfulEqOrd α] {s : SortedSet α} {a b : α} :
    b ∈ s.insert a ↔ b = a ∨ b ∈ s := mem_putMember

theorem contains_iff [Std.LawfulEqOrd α] {s : SortedSet α} {a : α} :
    s.contains a ↔ a ∈ s := by
  simp [contains, mem_def]

theorem mem_filter {s : SortedSet α} {keep : α → Bool} {a : α} :
    a ∈ s.filter keep ↔ a ∈ s ∧ keep a := by
  simp [filter, mem_def]

theorem mem_diff [Std.LawfulEqOrd α] {s t : SortedSet α} {a : α} :
    a ∈ s \ t ↔ a ∈ s ∧ a ∉ t := by
  have missing : (!t.contains a) = true ↔ a ∉ t := by
    rw [← contains_iff]; simp
  exact mem_filter.trans (and_congr_right fun _ => missing)

theorem mem_insertAll [Std.TransOrd α] [Std.LawfulEqOrd α] {as : List α} {s : SortedSet α} {a : α} :
    a ∈ s.insertAll as ↔ a ∈ s ∨ a ∈ as := by
  induction as generalizing s with
  | nil => simp [insertAll]
  | cons b rest ih =>
    have step := ih (s := s.insert b)
    simp only [insertAll, List.foldl_cons] at step ⊢
    rw [step, mem_insert, List.mem_cons]
    grind

theorem mem_ofList [Std.TransOrd α] [Std.LawfulEqOrd α] {as : List α} {a : α} :
    a ∈ ofList as ↔ a ∈ as := by
  simp [ofList, mem_insertAll]

theorem mem_union [Std.TransOrd α] [Std.LawfulEqOrd α] {s t : SortedSet α} {a : α} :
    a ∈ s ∪ t ↔ a ∈ s ∨ a ∈ t := mem_insertAll

/-- Ascending lists with the same members are equal. -/
theorem members_ext [Std.TransOrd α] [Std.LawfulEqOrd α] {as bs : List α}
    (sortedA : as.Pairwise fun a b => compare a b = .lt)
    (sortedB : bs.Pairwise fun a b => compare a b = .lt)
    (agree : ∀ a, a ∈ as ↔ a ∈ bs) : as = bs := by
  have irrefl : ∀ a : α, compare a a ≠ .lt := fun a => by simp
  induction as generalizing bs with
  | nil => exact (List.eq_nil_iff_forall_not_mem.2 fun b mem => by simpa using (agree b).2 mem).symm
  | cons a as ih =>
    cases bs with
    | nil => simpa using (agree a).1 (by simp)
    | cons b bs =>
      have ⟨belowA, tailA⟩ := List.pairwise_cons.1 sortedA
      have ⟨belowB, tailB⟩ := List.pairwise_cons.1 sortedB
      have head : a = b := by
        rcases List.mem_cons.1 ((agree a).1 (by simp)) with same | inB
        · exact same
        · rcases List.mem_cons.1 ((agree b).2 (by simp)) with same | inA
          · exact same.symm
          · exact absurd (Std.TransCmp.lt_trans (belowA b inA) (belowB a inB)) (irrefl a)
      subst head
      congr 1
      refine ih tailA tailB fun c => ⟨fun mem => ?_, fun mem => ?_⟩
      · rcases List.mem_cons.1 ((agree c).1 (List.mem_cons_of_mem _ mem)) with same | inB
        · exact absurd (same ▸ belowA c mem) (irrefl c)
        · exact inB
      · rcases List.mem_cons.1 ((agree c).2 (List.mem_cons_of_mem _ mem)) with same | inA
        · exact absurd (same ▸ belowB c mem) (irrefl c)
        · exact inA

/-- Sets with the same members are equal. -/
theorem ext_mem [Std.TransOrd α] [Std.LawfulEqOrd α] {s t : SortedSet α}
    (agree : ∀ a, a ∈ s ↔ a ∈ t) : s = t := by
  cases s with | mk as sortedA => cases t with | mk bs sortedB =>
    have : as = bs := members_ext sortedA sortedB agree
    subst this
    rfl

end SortedSet

end Resharding
