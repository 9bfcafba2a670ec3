/-!
Finite maps as ascending lists of entries.

Keys are strictly ascending, so a map has one representation: two maps that answer every look-up
alike are equal (`SortedMap.ext_get?`), and listing a map lists its keys in order. Writing a key
again replaces its value (`SortedMap.get?_insert`).
-/

namespace Resharding

/-- A finite map, kept as the list of its entries in ascending order of their keys. -/
structure SortedMap (κ α : Type) [Ord κ] where
  entries : List (κ × α)
  ascending : entries.Pairwise fun a b => compare a.1 b.1 = .lt
deriving DecidableEq

namespace SortedMap

variable {κ α β : Type} [Ord κ]

/-! ### Entry lists -/

/-- Put `v` at `k`, in the place of an entry with that key or else before the first larger key. -/
def putEntry (k : κ) (v : α) : List (κ × α) → List (κ × α)
  | [] => [(k, v)]
  | e :: rest =>
    match compare k e.1 with
    | .lt => (k, v) :: e :: rest
    | .eq => (k, v) :: rest
    | .gt => e :: putEntry k v rest

/-- The value of the first entry with key `k`. -/
def findEntry (k : κ) : List (κ × α) → Option α
  | [] => none
  | e :: rest => if compare k e.1 = .eq then some e.2 else findEntry k rest

theorem mem_putEntry {k : κ} {v : α} {e : κ × α} {es : List (κ × α)}
    (mem : e ∈ putEntry k v es) : e = (k, v) ∨ e ∈ es := by
  induction es with
  | nil => exact .inl (by simpa [putEntry] using mem)
  | cons d rest ih =>
    unfold putEntry at mem
    split at mem <;> simp only [List.mem_cons] at mem ⊢
    · exact mem
    · exact mem.imp_right .inr
    · rcases mem with rfl | mem
      · exact .inr (.inl rfl)
      · exact (ih mem).imp_right .inr

theorem ascending_putEntry [Std.TransOrd κ] (k : κ) (v : α) {es : List (κ × α)}
    (ascending : es.Pairwise fun a b => compare a.1 b.1 = .lt) :
    (putEntry k v es).Pairwise fun a b => compare a.1 b.1 = .lt := by
  induction es with
  | nil => simp [putEntry]
  | cons d rest ih =>
    have ⟨below, tail⟩ := List.pairwise_cons.1 ascending
    unfold putEntry
    split
    · rename_i lt
      refine List.pairwise_cons.2 ⟨fun e mem => ?_, ascending⟩
      rcases List.mem_cons.1 mem with rfl | mem
      · exact lt
      · exact Std.TransCmp.lt_trans lt (below e mem)
    · rename_i eq
      exact List.pairwise_cons.2
        ⟨fun e mem => Std.TransCmp.lt_of_eq_of_lt eq (below e mem), tail⟩
    · rename_i gt
      refine List.pairwise_cons.2 ⟨fun e mem => ?_, ih tail⟩
      rcases mem_putEntry mem with rfl | mem
      · exact Std.OrientedCmp.lt_of_gt gt
      · exact below e mem

theorem findEntry_putEntry [Std.TransOrd κ] [Std.LawfulEqOrd κ] [DecidableEq κ] (k j : κ) (v : α)
    (es : List (κ × α)) :
    findEntry j (putEntry k v es) = if j = k then some v else findEntry j es := by
  induction es with
  | nil => simp [putEntry, findEntry]
  | cons d rest ih =>
    unfold putEntry
    split
    · simp [findEntry]
    · rename_i eq
      have : k = d.1 := Std.LawfulEqOrd.eq_of_compare eq
      by_cases same : j = k
      · simp [findEntry, same]
      · have apart : ¬ j = d.1 := this ▸ same
        simp [findEntry, same, apart]
    · rename_i gt
      by_cases head : j = d.1
      · have apart : ¬ d.1 = k := fun same => by simp [same] at gt
        simp [findEntry, head, apart]
      · simp [findEntry, head, ih]

/-- A key below the head of an ascending list is nowhere in it. -/
theorem findEntry_eq_none_of_below [Std.TransOrd κ] [Std.LawfulEqOrd κ] {k : κ}
    {es : List (κ × α)} (below : ∀ e ∈ es, compare k e.1 = .lt) : findEntry k es = none := by
  induction es with
  | nil => rfl
  | cons d rest ih =>
    have lt := below d (by simp)
    have apart : ¬ k = d.1 := fun same => by simp [same] at lt
    simp [findEntry, apart, ih fun e mem => below e (List.mem_cons_of_mem _ mem)]

theorem entries_ext [Std.TransOrd κ] [Std.LawfulEqOrd κ] {es ds : List (κ × α)}
    (sortedE : es.Pairwise fun a b => compare a.1 b.1 = .lt)
    (sortedD : ds.Pairwise fun a b => compare a.1 b.1 = .lt)
    (agree : ∀ k, findEntry k es = findEntry k ds) : es = ds := by
  induction es generalizing ds with
  | nil =>
    cases ds with
    | nil => rfl
    | cons d rest => simpa [findEntry] using agree d.1
  | cons e es ih =>
    cases ds with
    | nil => simpa [findEntry] using agree e.1
    | cons d ds =>
      have ⟨belowE, tailE⟩ := List.pairwise_cons.1 sortedE
      have ⟨belowD, tailD⟩ := List.pairwise_cons.1 sortedD
      have key : e.1 = d.1 := by
        cases order : compare e.1 d.1 with
        | eq => exact Std.LawfulEqOrd.eq_of_compare order
        | lt =>
          have none : findEntry e.1 (d :: ds) = none :=
            findEntry_eq_none_of_below fun x mem => by
              rcases List.mem_cons.1 mem with rfl | mem
              · exact order
              · exact Std.TransCmp.lt_trans order (belowD x mem)
          have here := agree e.1
          rw [none] at here
          simp [findEntry] at here
        | gt =>
          have none : findEntry d.1 (e :: es) = none :=
            findEntry_eq_none_of_below fun x mem => by
              rcases List.mem_cons.1 mem with rfl | mem
              · exact Std.OrientedCmp.lt_of_gt order
              · exact Std.TransCmp.lt_trans (Std.OrientedCmp.lt_of_gt order) (belowE x mem)
          have here := agree d.1
          rw [none] at here
          simp [findEntry] at here
      have value : e.2 = d.2 := by
        have := agree e.1
        simpa [findEntry, key] using this
      have tails : es = ds := by
        refine ih tailE tailD fun k => ?_
        have here := agree k
        by_cases same : k = e.1
        · rw [same, findEntry_eq_none_of_below belowE, key, findEntry_eq_none_of_below belowD]
        · have other : ¬ k = d.1 := key ▸ same
          simpa [findEntry, same, other] using here
      rw [tails, Prod.ext key value]

/-! ### Maps -/

/-- The map without entries. -/
def empty : SortedMap κ α := ⟨[], .nil⟩

instance : EmptyCollection (SortedMap κ α) := ⟨empty⟩
instance : Inhabited (SortedMap κ α) := ⟨empty⟩

/-- The entries, keys ascending. -/
def toList (m : SortedMap κ α) : List (κ × α) := m.entries

/-- The keys, ascending. -/
def keys (m : SortedMap κ α) : List κ := m.entries.map (·.1)

/-- The values in the order of their keys. -/
def values (m : SortedMap κ α) : List α := m.entries.map (·.2)

def size (m : SortedMap κ α) : Nat := m.entries.length

def isEmpty (m : SortedMap κ α) : Bool := m.entries.isEmpty

/-- The value at a key. -/
def get? (m : SortedMap κ α) (k : κ) : Option α := findEntry k m.entries

def getD (m : SortedMap κ α) (k : κ) (default : α) : α := (m.get? k).getD default

def contains (m : SortedMap κ α) (k : κ) : Bool := (m.get? k).isSome

instance : Membership κ (SortedMap κ α) := ⟨fun m k => m.contains k⟩

instance (k : κ) (m : SortedMap κ α) : Decidable (k ∈ m) :=
  inferInstanceAs (Decidable (m.contains k = true))

/-- The map without its entry for `k`. -/
def erase (m : SortedMap κ α) (k : κ) : SortedMap κ α :=
  ⟨m.entries.filter fun e => compare k e.1 != .eq, m.ascending.filter _⟩

/-- The same keys with values made from key and value. -/
def map (f : κ → α → β) (m : SortedMap κ α) : SortedMap κ β :=
  ⟨m.entries.map fun e => (e.1, f e.1 e.2), List.pairwise_map.2 m.ascending⟩

section Writing

variable [Std.TransOrd κ]

/-- The map with `v` at `k`, whatever was there before. -/
def insert (m : SortedMap κ α) (k : κ) (v : α) : SortedMap κ α :=
  ⟨putEntry k v m.entries, ascending_putEntry k v m.ascending⟩

/-- The map with the value at `k`, or `default` if there is none, passed through `f`. -/
def adjust (m : SortedMap κ α) (k : κ) (default : α) (f : α → α) : SortedMap κ α :=
  m.insert k (f (m.getD k default))

/-- The map with all pairs written in turn, so that the last pair of a key counts. -/
def insertAll (m : SortedMap κ α) (pairs : List (κ × α)) : SortedMap κ α :=
  pairs.foldl (fun m p => m.insert p.1 p.2) m

/-- The map of a list of pairs; the last pair of a key counts. -/
def ofList (pairs : List (κ × α)) : SortedMap κ α := empty.insertAll pairs

/-- Both maps' entries, values at a common key joined by `f`. -/
def mergeWith (f : α → α → α) (a b : SortedMap κ α) : SortedMap κ α :=
  b.entries.foldl (fun m e => m.insert e.1 (match m.get? e.1 with
    | some v => f v e.2
    | none => e.2)) a

end Writing

/-! ### Look-up laws -/

theorem contains_iff {m : SortedMap κ α} {k : κ} : m.contains k ↔ k ∈ m := Iff.rfl

theorem not_mem_empty (k : κ) : k ∉ (empty : SortedMap κ α) := Bool.false_ne_true

@[simp] theorem get?_empty (k : κ) : (empty : SortedMap κ α).get? k = none := rfl

theorem get?_insert [Std.TransOrd κ] [Std.LawfulEqOrd κ] [DecidableEq κ] (m : SortedMap κ α)
    (k j : κ) (v : α) : (m.insert k v).get? j = if j = k then some v else m.get? j :=
  findEntry_putEntry k j v m.entries

theorem get?_adjust [Std.TransOrd κ] [Std.LawfulEqOrd κ] [DecidableEq κ] (m : SortedMap κ α)
    (k j : κ) (default : α) (f : α → α) :
    (m.adjust k default f).get? j = if j = k then some (f (m.getD k default)) else m.get? j :=
  get?_insert m k j _

/-- Look-up and listing agree. -/
theorem get?_eq_some_iff [Std.TransOrd κ] [Std.LawfulEqOrd κ] {m : SortedMap κ α} {k : κ} {v : α} :
    m.get? k = some v ↔ (k, v) ∈ m.entries := by
  obtain ⟨es, sorted⟩ := m
  show findEntry k es = some v ↔ (k, v) ∈ es
  induction es with
  | nil => simp [findEntry]
  | cons d rest ih =>
    have ⟨below, tail⟩ := List.pairwise_cons.1 sorted
    by_cases same : k = d.1
    · have absent : (k, v) ∉ rest := fun mem => by
        have := below _ mem
        simp [same] at this
      simp only [findEntry, same, Std.compare_self, if_true, Option.some.injEq, List.mem_cons]
      refine ⟨fun value => .inl (Prod.ext rfl value.symm), fun cases => ?_⟩
      rcases cases with eq | mem
      · rw [← eq]
      · exact absurd (same ▸ mem) absent
    · have other : (k, v) ≠ d := fun eq => same (eq ▸ rfl)
      simp [findEntry, same, other, ih tail]

theorem mem_keys_iff [Std.TransOrd κ] [Std.LawfulEqOrd κ] {m : SortedMap κ α} {k : κ} :
    k ∈ m.keys ↔ ∃ v, m.get? k = some v := by
  simp only [keys, List.mem_map, get?_eq_some_iff, Prod.exists, exists_and_right, exists_eq_right]

theorem findEntry_filter [Std.LawfulEqOrd κ] [DecidableEq κ] (k j : κ) (es : List (κ × α)) :
    findEntry j (es.filter fun e => compare k e.1 != .eq) =
      if j = k then none else findEntry j es := by
  induction es with
  | nil => simp [findEntry]
  | cons d rest ih =>
    by_cases removed : k = d.1
    · have gone : ((d :: rest).filter fun e => compare k e.1 != .eq) =
          rest.filter fun e => compare k e.1 != .eq := by simp [removed]
      rw [gone, ih]
      by_cases same : j = k
      · simp [same]
      · simp [findEntry, same, removed ▸ same]
    · have kept : ((d :: rest).filter fun e => compare k e.1 != .eq) =
          d :: rest.filter fun e => compare k e.1 != .eq := by simp [removed]
      rw [kept, findEntry, findEntry, ih]
      by_cases same : j = k
      · simp [same, removed]
      · simp [same]

theorem get?_erase [Std.LawfulEqOrd κ] [DecidableEq κ] (m : SortedMap κ α) (k j : κ) :
    (m.erase k).get? j = if j = k then none else m.get? j := findEntry_filter k j m.entries

theorem get?_map [Std.LawfulEqOrd κ] (f : κ → α → β) (m : SortedMap κ α) (k : κ) :
    (m.map f).get? k = (m.get? k).map (f k) := by
  obtain ⟨es, sorted⟩ := m
  show findEntry k (es.map fun e => (e.1, f e.1 e.2)) = (findEntry k es).map (f k)
  clear sorted
  induction es with
  | nil => rfl
  | cons d rest ih => by_cases same : k = d.1 <;> simp_all [findEntry]

/-- A merged map holds what either map holds, joined where both do. -/
theorem get?_mergeWith [Std.TransOrd κ] [Std.LawfulEqOrd κ] [DecidableEq κ] (f : α → α → α)
    (a b : SortedMap κ α) (k : κ) :
    (a.mergeWith f b).get? k =
      match a.get? k, b.get? k with
      | some v, some w => some (f v w)
      | some v, none => some v
      | none, w => w := by
  obtain ⟨es, sorted⟩ := b
  show (es.foldl _ a).get? k = match a.get? k, findEntry k es with
      | some v, some w => some (f v w)
      | some v, none => some v
      | none, w => w
  induction es generalizing a with
  | nil => cases h : a.get? k <;> simp [findEntry, h]
  | cons d rest ih =>
    have ⟨below, tail⟩ := List.pairwise_cons.1 sorted
    rw [List.foldl_cons, ih _ tail, get?_insert]
    by_cases same : k = d.1
    · have absent : findEntry k rest = none :=
        findEntry_eq_none_of_below fun e mem => same ▸ below e mem
      rw [if_pos same, absent]
      subst same
      cases h : a.get? d.1 <;> simp [findEntry]
    · simp [findEntry, same]

/-- Maps that answer every look-up alike are equal. -/
theorem ext_get? [Std.TransOrd κ] [Std.LawfulEqOrd κ] {m n : SortedMap κ α}
    (agree : ∀ k, m.get? k = n.get? k) : m = n := by
  cases m with | mk es sortedE => cases n with | mk ds sortedD =>
    have : es = ds := entries_ext sortedE sortedD agree
    subst this
    rfl

section Merging

variable [Std.TransOrd κ] [Std.LawfulEqOrd κ] [DecidableEq κ] {f : α → α → α}

theorem mergeWith_comm (comm : ∀ v w, f v w = f w v) (a b : SortedMap κ α) :
    a.mergeWith f b = b.mergeWith f a := by
  refine ext_get? fun k => ?_
  simp only [get?_mergeWith]
  cases a.get? k <;> cases b.get? k <;> simp only [comm]

theorem mergeWith_assoc (assoc : ∀ u v w, f (f u v) w = f u (f v w)) (a b c : SortedMap κ α) :
    (a.mergeWith f b).mergeWith f c = a.mergeWith f (b.mergeWith f c) := by
  refine ext_get? fun k => ?_
  simp only [get?_mergeWith]
  cases a.get? k <;> cases b.get? k <;> cases c.get? k <;> simp only [assoc]

theorem mergeWith_self (idem : ∀ v, f v v = v) (a : SortedMap κ α) : a.mergeWith f a = a := by
  refine ext_get? fun k => ?_
  simp only [get?_mergeWith]
  cases a.get? k <;> simp only [idem]

end Merging

end SortedMap

end Resharding
