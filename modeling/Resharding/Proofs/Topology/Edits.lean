import Mathlib.Data.Finset.Lattice.Lemmas
import Mathlib.Data.Finset.SDiff
import Resharding.Proofs.Topology.Built

/-!
What edits make of a node.

The partitions of an edited node are those that were mentioned and not taken back, each at its first
place (`Node.partitions_editAll`): it makes no difference whether repeats are dropped after every
edit or once at the end, since dropping them goes together with appending (`keepFirst_append`) and
with taking away (`keepFirst_filter`). So, from any moment on, what edits spare stays in front and in
order, and what they bring comes behind it (`Node.edits_replayed`).
-/

namespace Resharding

/-! ### First places -/

section Repeats

variable {α : Type} [DecidableEq α] {seen more : List α}

/-- One element comes before another in a list, each taken at its first place. -/
def PrecedesIn (as : List α) (a b : α) : Prop := as.idxOf a < as.idxOf b

/-- What is seen beforehand is missing afterwards, and nothing else changes. -/
theorem keepUnseen_eq_filter (sub : more ⊆ seen) (as : List α) :
    keepUnseen seen as = (keepUnseen more as).filter (· ∉ seen) := by
  induction as generalizing seen more with
  | nil => rfl
  | cons b rest ih =>
    simp only [keepUnseen]
    by_cases inMore : b ∈ more
    · rw [if_pos inMore, if_pos (sub inMore)]
      exact ih sub
    · rw [if_neg inMore]
      by_cases inSeen : b ∈ seen
      · rw [if_pos inSeen, List.filter_cons_of_neg (by simpa using inSeen)]
        exact ih (List.cons_subset.2 ⟨inSeen, sub⟩)
      · rw [if_neg inSeen, List.filter_cons_of_pos (by simpa using inSeen),
          ih (List.cons_subset_cons b sub)]
        refine congrArg (b :: ·) (List.filter_congr fun x mem => ?_)
        have apart : x ≠ b := fun same => (mem_keepUnseen.1 mem).2 (same ▸ List.mem_cons_self)
        simp only [List.mem_cons, apart, false_or]

theorem keepFirst_cons (a : α) (as : List α) :
    keepFirst (a :: as) = a :: (keepFirst as).filter (· ≠ a) := by
  simp only [keepFirst, keepUnseen, List.not_mem_nil, if_false]
  rw [keepUnseen_eq_filter (List.nil_subset _)]
  simp only [List.mem_singleton, ne_eq]

theorem keepFirst_append (as bs : List α) :
    keepFirst (as ++ bs) = keepFirst as ++ (keepFirst bs).filter (· ∉ as) := by
  induction as with
  | nil => simp only [List.nil_append, keepFirst, keepUnseen, List.not_mem_nil, not_false_eq_true,
      decide_true, List.filter_true]
  | cons a rest ih =>
    rw [List.cons_append, keepFirst_cons, ih, keepFirst_cons, List.filter_append, List.filter_filter,
      List.cons_append]
    simp only [List.mem_cons, not_or, ne_eq, Bool.decide_and]

theorem keepFirst_filter (keep : α → Bool) (as : List α) :
    keepFirst (as.filter keep) = (keepFirst as).filter keep := by
  induction as with
  | nil => rfl
  | cons a rest ih =>
    rw [keepFirst_cons]
    cases kept : keep a with
    | true =>
      rw [List.filter_cons_of_pos kept, List.filter_cons_of_pos kept, keepFirst_cons, ih,
        List.filter_comm]
    | false =>
      rw [List.filter_cons_of_neg (Bool.not_eq_true _ ▸ kept),
        List.filter_cons_of_neg (Bool.not_eq_true _ ▸ kept), ih, List.filter_filter]
      refine List.filter_congr fun x _ => (Bool.and_eq_left_iff_imp.2 fun keptX => ?_).symm
      refine decide_eq_true fun same => ?_
      rw [same, kept] at keptX
      cases keptX

theorem keepFirst_keepFirst (as : List α) : keepFirst (keepFirst as) = keepFirst as :=
  keepFirst_eq_self (nodup_keepUnseen [] as)

/-- Elements are kept in the order of their first places. -/
theorem pairwise_keepFirst (as : List α) : (keepFirst as).Pairwise (PrecedesIn as) := by
  induction as with
  | nil => exact .nil
  | cons a rest ih =>
    have behind : ∀ x ∈ (keepFirst rest).filter (· ≠ a), x ≠ a :=
      fun x mem => of_decide_eq_true (List.mem_filter.1 mem).2
    rw [keepFirst_cons]
    refine List.pairwise_cons.2 ⟨fun x mem => ?_, ?_⟩
    · simp only [PrecedesIn]
      rw [List.idxOf_cons_self, List.idxOf_cons_ne _ (behind x mem).symm]
      exact Nat.succ_pos _
    · refine (ih.filter _).imp_of_mem fun {x y} memX memY less => ?_
      simp only [PrecedesIn]
      rw [List.idxOf_cons_ne _ (behind x memX).symm, List.idxOf_cons_ne _ (behind y memY).symm]
      exact Nat.succ_lt_succ less

end Repeats

/-! ### What edits say -/

namespace Node

namespace Edit

/-- The partitions that are mentioned after an edit, repeats included. -/
def mention (ps : List PartitionId) : Edit → List PartitionId
  | .own partitions => partitions
  | .gain partitions => ps ++ partitions
  | .lose partitions => ps.filter fun p => !partitions.contains p
  | .zone _ => ps
  | .ports .. => ps

/-- A set of partitions after an edit: assigned, united with what is added, or without what is
removed. -/
def replay (ps : Finset PartitionId) : Edit → Finset PartitionId
  | .own partitions => partitions.toFinset
  | .gain partitions => ps ∪ partitions.toFinset
  | .lose partitions => ps \ partitions.toList.toFinset
  | .zone _ => ps
  | .ports .. => ps

/-- Whether a partition that is owned stays where it is. -/
def spares (p : PartitionId) : Edit → Bool
  | .own _ => false
  | .lose partitions => !partitions.contains p
  | _ => true

/-- The zone that an edit sets. -/
def zone? : Edit → Option ZoneId
  | .zone z => some z
  | _ => none

/-- The ports that an edit sets. -/
def ports? : Edit → Option (UInt16 × UInt16 × UInt16)
  | .ports http socket admin => some (http, socket, admin)
  | _ => none

end Edit

/-- The ports for web clients, for sockets and for administration. -/
def ports (n : Node) : UInt16 × UInt16 × UInt16 := (n.httpPort, n.socketPort, n.adminPort)

/-- The partitions that are mentioned after several edits, repeats included. -/
def mentions (ps : List PartitionId) (edits : List Edit) : List PartitionId :=
  edits.foldl Edit.mention ps

/-- What edits make of a list of partitions: those that they all spare stand in front and in order,
and those that they bring stand behind, in the order of their first mention. -/
def WentThrough (edits : List Edit) (before after : List PartitionId) : Prop :=
  ∃ added, after = before.filter (fun p => edits.all (·.spares p)) ++ added ∧
    (∀ p, p ∈ added ↔ p ∈ mentions [] edits ∧ ¬ (p ∈ before ∧ edits.all (·.spares p))) ∧
    added.Pairwise (PrecedesIn (mentions [] edits))

variable {n : Node} {ps : List PartitionId}

theorem Edit.mention_eq (ps : List PartitionId) (e : Edit) :
    e.mention ps = ps.filter (e.spares ·) ++ e.mention [] := by
  cases e with
  | own partitions => simp only [mention, spares, List.filter_false, List.nil_append]
  | gain partitions => simp only [mention, spares, List.filter_true, List.nil_append]
  | lose partitions => simp only [mention, spares, List.filter_nil, List.append_nil]
  | zone zone => simp only [mention, spares, List.filter_true, List.append_nil]
  | ports http socket admin => simp only [mention, spares, List.filter_true, List.append_nil]

/-- What edits spare stays in front of what they bring. -/
theorem mentions_eq (ps : List PartitionId) (edits : List Edit) :
    mentions ps edits = ps.filter (fun p => edits.all (·.spares p)) ++ mentions [] edits := by
  induction edits generalizing ps with
  | nil => simp only [mentions, List.foldl_nil, List.all_nil, List.filter_true, List.append_nil]
  | cons e rest ih =>
    have later : ∀ ps, mentions ps (e :: rest) = mentions (e.mention ps) rest := fun _ => rfl
    rw [later, later, ih, ih (e.mention []), e.mention_eq ps, List.filter_append, List.filter_filter,
      List.append_assoc]
    simp only [List.all_cons, Bool.and_comm]

/-! ### Edited nodes -/

theorem partitions_edit (kept : n.partitions = keepFirst ps) (e : Edit) :
    (n.edit e).partitions = keepFirst (e.mention ps) := by
  cases e with
  | own partitions => rfl
  | gain partitions =>
    simp only [edit, gaining, owning, Edit.mention]
    rw [kept, keepFirst_append, keepFirst_append, keepFirst_keepFirst]
    simp only [mem_keepFirst]
  | lose partitions =>
    simp only [edit, losing, owning, Edit.mention]
    rw [kept, keepFirst_filter, keepFirst_filter, keepFirst_keepFirst]
  | zone zone => exact kept
  | ports http socket admin => exact kept

/-- An edited node owns what is mentioned, each partition at its first place. -/
theorem partitions_editAll (kept : n.partitions = keepFirst ps) (edits : List Edit) :
    (n.editAll edits).partitions = keepFirst (mentions ps edits) := by
  induction edits generalizing n ps with
  | nil => exact kept
  | cons e rest ih => exact ih (partitions_edit kept e)

theorem toFinset_mention (ps : List PartitionId) (e : Edit) :
    (e.mention ps).toFinset = e.replay ps.toFinset := by
  cases e with
  | own partitions => rfl
  | gain partitions => exact List.toFinset_append
  | lose partitions =>
    ext p
    simp only [Edit.mention, Edit.replay, List.mem_toFinset, List.mem_filter, Finset.mem_sdiff,
      SortedSet.mem_toList, ← SortedSet.contains_iff, Bool.not_eq_true', Bool.not_eq_true]
  | zone zone => rfl
  | ports http socket admin => rfl

theorem toFinset_mentions (ps : List PartitionId) (edits : List Edit) :
    (mentions ps edits).toFinset = edits.foldl Edit.replay ps.toFinset := by
  induction edits generalizing ps with
  | nil => rfl
  | cons e rest ih =>
    rw [List.foldl_cons, ← toFinset_mention]
    exact ih _

theorem address_edit (n : Node) (e : Edit) : (n.edit e).id = n.id ∧ (n.edit e).host = n.host := by
  cases e <;> exact ⟨rfl, rfl⟩

theorem zone_edit (n : Node) (e : Edit) : (n.edit e).zone = e.zone?.getD n.zone := by
  cases e <;> rfl

theorem ports_edit (n : Node) (e : Edit) : (n.edit e).ports = e.ports?.getD n.ports := by
  cases e <;> rfl

theorem address_editAll (n : Node) (edits : List Edit) :
    (n.editAll edits).id = n.id ∧ (n.editAll edits).host = n.host := by
  induction edits generalizing n with
  | nil => exact ⟨rfl, rfl⟩
  | cons e rest ih =>
    obtain ⟨id, host⟩ := ih (n.edit e)
    obtain ⟨sameId, sameHost⟩ := address_edit n e
    exact ⟨id.trans sameId, host.trans sameHost⟩

/-- Where an edit says what becomes of a field or leaves it, the field is what was said last. -/
theorem field_editAll {α : Type} {field : Node → α} {said? : Edit → Option α}
    (step : ∀ n e, field (n.edit e) = (said? e).getD (field n)) (n : Node) (edits : List Edit) :
    field (n.editAll edits) = (edits.filterMap said?).getLast?.getD (field n) := by
  induction edits generalizing n with
  | nil => rfl
  | cons e rest ih =>
    refine (ih (n.edit e)).trans ?_
    rw [step, List.filterMap_cons]
    cases said? e with
    | none => rfl
    | some value =>
      simp only [List.getLast?_cons]
      rfl

theorem wentThrough_editAll (kept : n.partitions = keepFirst ps) (edits : List Edit) :
    WentThrough edits n.partitions (n.editAll edits).partitions := by
  have spared : ∀ p, p ∈ ps.filter (fun p => edits.all (·.spares p)) ↔
      p ∈ n.partitions ∧ edits.all (·.spares p) := by
    intro p
    rw [kept, mem_keepFirst, List.mem_filter]
  refine ⟨(keepFirst (mentions [] edits)).filter
    (· ∉ ps.filter fun p => edits.all (·.spares p)), ?_, fun p => ?_, ?_⟩
  · rw [partitions_editAll kept, mentions_eq, keepFirst_append, keepFirst_filter, kept]
  · rw [List.mem_filter, mem_keepFirst, decide_eq_true_eq, spared]
  · exact (pairwise_keepFirst _).filter _

/-- However a node is edited, it lists no partition twice; its partitions are those that the edits
leave when they are replayed on sets, in the order of their first mention. From any moment on, those
that the later edits spare keep their order, and those that they bring come behind all of them. Id
and host stay, and zone and ports are what was last said of them. -/
theorem edits_replayed (id : NodeId) (host : String) (ps : List PartitionId) (edits : List Edit) :
    let made := create id host ps
    let n := made.editAll edits
    n.partitions.Nodup ∧
      n.partitions.toFinset = edits.foldl Edit.replay ps.toFinset ∧
      n.partitions.Pairwise (PrecedesIn (mentions ps edits)) ∧
      (∀ moment, WentThrough (edits.drop moment) (made.editAll (edits.take moment)).partitions
        n.partitions) ∧
      n.id = id ∧ n.host = host ∧
      n.zone = (edits.filterMap Edit.zone?).getLast?.getD defaultZone ∧
      n.ports = (edits.filterMap Edit.ports?).getLast?.getD (8081, 6666, 6667) := by
  intro made n
  have kept : n.partitions = keepFirst (mentions ps edits) := partitions_editAll rfl edits
  obtain ⟨sameId, sameHost⟩ := address_editAll made edits
  refine ⟨?_, ?_, ?_, fun moment => ?_, sameId, sameHost, field_editAll zone_edit made edits,
    field_editAll ports_edit made edits⟩
  · rw [kept]
    exact nodup_keepUnseen [] _
  · rw [← toFinset_mentions, kept]
    ext p
    rw [List.mem_toFinset, List.mem_toFinset, mem_keepFirst]
  · rw [kept]
    exact pairwise_keepFirst _
  · have later : n = (made.editAll (edits.take moment)).editAll (edits.drop moment) := by
      simp only [n, editAll]
      rw [← List.foldl_append, List.take_append_drop]
    rw [later]
    exact wentThrough_editAll (partitions_editAll rfl _) _

example :
    ((create 1 "a" [3, 1, 3]).editAll
      [.gain [2, 1, 9, 2], .lose (.ofList [3, 8]), .zone 4, .gain [3]]).partitions = [1, 2, 9, 3] := by
  decide +kernel

end Node

end Resharding
