import Resharding.Proofs.Topology.Owned
import Resharding.Proofs.Topology.Replacement

/-!
What a move changes.

A move changes the two nodes that it is about and nothing else (`Cluster.node?_move_receiving`,
`Cluster.node?_move_giving`, `Cluster.node?_move_other`), so that afterwards the stealer owns what was
moved besides what it owned, and the donor what it owned less what was moved
(`Cluster.Admits.mem_owned_move`). Nothing is owned twice exactly if nothing was moved that a third
node owns, and then the moved partitions, and they alone, have changed hands
(`Cluster.move_transfers`). Whatever the two nodes are to the cluster, a move that is made again
changes nothing (`Cluster.move_again`).
-/

namespace Resharding.Cluster

variable {c : Cluster} {owners : SortedMap PartitionId NodeId} {stealer donor : Node}
  {partitions : SortedSet PartitionId} {node : NodeId} {p : PartitionId}

/-! ### What is replaced in a move -/

/-- What a move makes of the stealer. -/
def receiving (c : Cluster) (stealer : Node) (partitions : SortedSet PartitionId) : Node :=
  stealer.owning (stealer.partitionSet ∪ c.owned stealer.id ∪ partitions).toList

/-- What a move makes of the donor. -/
def giving (c : Cluster) (donor : Node) (partitions : SortedSet PartitionId) : Node :=
  donor.owning (((c.node? donor.id).getD donor).partitionSet \ partitions).toList

theorem move_of_ne (apart : stealer.id ≠ donor.id) :
    c.move stealer donor partitions =
      c.replaceNodes [c.receiving stealer partitions, c.giving donor partitions] := by
  have others : stealer.hasIdOf donor = false := beq_false_of_ne apart
  simp only [move, others, Bool.false_eq_true, if_false]
  rfl

theorem move_of_eq (same : stealer.id = donor.id) :
    c.move stealer donor partitions = c.replaceNodes [c.receiving stealer partitions] := by
  have itself : stealer.hasIdOf donor = true := beq_iff_eq.2 same
  simp only [move, itself, if_true]
  rfl

/-! ### What is found after a move -/

theorem zones_move (wf : c.WellFormed) (stealer donor : Node) (partitions : SortedSet PartitionId) :
    (c.move stealer donor partitions).zones = c.zones := by
  simp only [move]
  split
  · exact zones_replaceNodes wf
  · exact zones_replaceNodes wf

theorem name_move (c : Cluster) (stealer donor : Node) (partitions : SortedSet PartitionId) :
    (c.move stealer donor partitions).name = c.name := by
  simp only [move]
  split
  · rfl
  · rfl

theorem node?_move_receiving (c : Cluster) (stealer donor : Node)
    (partitions : SortedSet PartitionId) :
    (c.move stealer donor partitions).node? stealer.id = some (c.receiving stealer partitions) := by
  by_cases same : stealer.id = donor.id
  · rw [move_of_eq same]
    exact node?_replaceNodes_single c (c.receiving stealer partitions)
  · have apart : (c.receiving stealer partitions).id ≠ (c.giving donor partitions).id := same
    rw [move_of_ne same]
    exact node?_replaceNodes_first apart c

theorem node?_move_giving (apart : stealer.id ≠ donor.id) (partitions : SortedSet PartitionId) :
    (c.move stealer donor partitions).node? donor.id = some (c.giving donor partitions) := by
  have apart' : (c.receiving stealer partitions).id ≠ (c.giving donor partitions).id := apart
  rw [move_of_ne apart]
  exact node?_replaceNodes_second apart' c

theorem node?_move_other (wf : c.WellFormed) (notStealer : node ≠ stealer.id)
    (notDonor : node ≠ donor.id) (partitions : SortedSet PartitionId) :
    (c.move stealer donor partitions).node? node = c.node? node := by
  by_cases same : stealer.id = donor.id
  · rw [move_of_eq same]
    exact node?_replaceNodes_of_not_mem wf (List.forall_mem_singleton.2 notStealer.symm)
  · rw [move_of_ne same]
    apply node?_replaceNodes_of_not_mem wf
    exact List.forall_mem_cons.2 ⟨notStealer.symm, List.forall_mem_singleton.2 notDonor.symm⟩

/-- A move between two nodes changes what is found under their ids and nothing else. -/
theorem node?_move (wf : c.WellFormed) (apart : stealer.id ≠ donor.id)
    (partitions : SortedSet PartitionId) (id : NodeId) :
    (c.move stealer donor partitions).node? id =
      if id = stealer.id then some (c.receiving stealer partitions)
      else if id = donor.id then some (c.giving donor partitions)
      else c.node? id := by
  split
  · rename_i isStealer
    rw [isStealer, node?_move_receiving]
  split
  · rename_i isDonor
    rw [isDonor, node?_move_giving apart]
  · rename_i notStealer notDonor
    exact node?_move_other wf notStealer notDonor partitions

/-! ### Stealers -/

/-- A node that can take over partitions: a member as it is, or a new node that owns nothing yet. -/
def Admits (c : Cluster) (n : Node) : Prop :=
  c.node? n.id = some n ∨ c.node? n.id = none ∧ n.partitions = []

namespace Admits

theorem partitionSet_eq (admits : c.Admits stealer) : stealer.partitionSet = c.owned stealer.id := by
  simp only [owned]
  rcases admits with member | ⟨new, none⟩
  · rw [member]
    rfl
  · rw [new, Node.partitionSet, none]
    rfl

/-- The stealer keeps its address and zone, and owns what was moved besides what it owned. -/
theorem receiving_eq (admits : c.Admits stealer) (partitions : SortedSet PartitionId) :
    c.receiving stealer partitions =
      { stealer with partitions := (c.owned stealer.id ∪ partitions).toList } := by
  rw [receiving, admits.partitionSet_eq, SortedSet.union_self]
  exact stealer.owning_of_nodup (SortedSet.nodup_toList _)

theorem node?_move_stealer (admits : c.Admits stealer) (donor : Node)
    (partitions : SortedSet PartitionId) :
    (c.move stealer donor partitions).node? stealer.id =
      some { stealer with partitions := (c.owned stealer.id ∪ partitions).toList } :=
  admits.receiving_eq partitions ▸ node?_move_receiving c stealer donor partitions

end Admits

/-- The donor keeps its address and zone, and owns what it owned less what was moved. -/
theorem giving_eq (member : c.contains donor.id) (partitions : SortedSet PartitionId) :
    c.giving donor partitions =
      { donor with partitions := (c.owned donor.id \ partitions).toList } := by
  obtain ⟨d, found⟩ := Option.isSome_iff_exists.1 member
  have owns : ((c.node? donor.id).getD donor).partitionSet = c.owned donor.id := by
    simp only [owned, found, Option.getD_some, Option.map_some]
  rw [giving, owns]
  exact donor.owning_of_nodup (SortedSet.nodup_toList _)

theorem node?_move_donor (apart : stealer.id ≠ donor.id) (member : c.contains donor.id)
    (partitions : SortedSet PartitionId) :
    (c.move stealer donor partitions).node? donor.id =
      some { donor with partitions := (c.owned donor.id \ partitions).toList } :=
  giving_eq member partitions ▸ node?_move_giving apart partitions

/-- A move to another node replaces two nodes. -/
theorem Admits.move_eq (admits : c.Admits stealer) (apart : stealer.id ≠ donor.id)
    (member : c.contains donor.id) :
    c.move stealer donor partitions = c.replaceNodes
      [{ stealer with partitions := (c.owned stealer.id ∪ partitions).toList },
        { donor with partitions := (c.owned donor.id \ partitions).toList }] := by
  rw [move_of_ne apart, admits.receiving_eq, giving_eq member]

/-- The nodes after a move are those before and the stealer. -/
theorem nodeIds_move (wf : c.WellFormed) (admits : c.Admits stealer)
    (member : c.contains donor.id) (partitions : SortedSet PartitionId) :
    (c.move stealer donor partitions).nodeIds =
      (SortedSet.ofList (stealer.id :: c.nodeIds)).toList := by
  have ascending : (c.move stealer donor partitions).nodeIds.Pairwise fun a b => compare a b = .lt :=
    List.pairwise_map.2 (wf.move.ascending.imp Std.compare_eq_lt.2)
  refine SortedSet.members_ext ascending (SortedSet.ascending _) fun id => ?_
  rw [← wf.move.contains_iff, SortedSet.mem_toList, SortedSet.mem_ofList, List.mem_cons,
    ← wf.contains_iff]
  simp only [contains]
  by_cases isStealer : id = stealer.id
  · rw [isStealer, admits.node?_move_stealer]
    exact iff_of_true rfl (.inl rfl)
  rw [or_iff_right isStealer]
  by_cases isDonor : id = donor.id
  · rw [isDonor, node?_move_donor (fun same => isStealer (isDonor.trans same.symm)) member]
    exact iff_of_true rfl member
  · rw [node?_move_other wf isStealer isDonor]

/-! ### Who owns what after a move -/

/-- After a move a node owns what it owned, unless it gave it away, and the stealer owns besides what
was moved. -/
theorem Admits.mem_owned_move (wf : c.WellFormed) (admits : c.Admits stealer)
    (member : c.contains donor.id) :
    p ∈ (c.move stealer donor partitions).owned node ↔
      p ∈ c.owned node ∧ (p ∈ partitions → node = donor.id → node = stealer.id) ∨
        p ∈ partitions ∧ node = stealer.id := by
  rw [mem_owned_iff]
  by_cases isStealer : node = stealer.id
  · subst isStealer
    rw [admits.node?_move_stealer]
    simp only [Option.some.injEq, exists_eq_left', SortedSet.mem_toList, SortedSet.mem_union,
      implies_true, and_true]
  by_cases isDonor : node = donor.id
  · subst isDonor
    rw [node?_move_donor (Ne.symm isStealer) member]
    simp only [Option.some.injEq, exists_eq_left', SortedSet.mem_toList, SortedSet.mem_diff,
      isStealer, forall_const, imp_false, and_false, or_false]
  · rw [node?_move_other wf isStealer isDonor, ← mem_owned_iff]
    simp only [isStealer, isDonor, false_implies, implies_true, and_true, and_false, or_false]

/-- No partition of a third node is moved. -/
def SparesOthers (owners : SortedMap PartitionId NodeId) (stealer donor : NodeId)
    (partitions : SortedSet PartitionId) : Prop :=
  ∀ p ∈ partitions, ∀ node, owners.get? p = some node → node = stealer ∨ node = donor

/-- What a member lists is of no third node. -/
theorem sparesOthers_of_lists (owns : c.ownership = .ok owners)
    (member : c.node? donor.id = some donor) (lists : ∀ p ∈ partitions, p ∈ donor.partitions) :
    SparesOthers owners stealer.id donor.id partitions := by
  intro p moved node owner
  rw [get?_of_lists owns member (lists p moved)] at owner
  exact .inr (Option.some.inj owner).symm

/-- Where no partition of a third node is moved, the stealer is the new owner of what was. -/
theorem Admits.ownership_move (wf : c.WellFormed) (owns : c.ownership = .ok owners)
    (admits : c.Admits stealer) (member : c.contains donor.id)
    (spares : SparesOthers owners stealer.id donor.id partitions) :
    (c.move stealer donor partitions).ownership =
      .ok (owners.insertAll (partitions.toList.map fun p => (p, stealer.id))) := by
  apply wf.move.ownership_eq
  intro p node
  rw [admits.mem_owned_move wf member, wf.mem_owned_iff_owner owns,
    SortedMap.get?_insertAll_const]
  by_cases moved : p ∈ partitions
  · rw [if_pos (SortedSet.mem_toList.2 moved), Option.some.injEq]
    constructor
    · rintro (⟨owner, gave⟩ | ⟨-, rfl⟩)
      · exact ((spares p moved node owner).elim id (gave moved)).symm
      · rfl
    · rintro rfl
      exact .inr ⟨moved, rfl⟩
  · rw [if_neg (fun mem => moved (SortedSet.mem_toList.1 mem))]
    simp only [moved, false_implies, and_true, false_and, or_false]

/-- If a partition of a third node is moved, it is listed twice afterwards. -/
theorem Admits.sparesOthers_of_ownership_move {owners' : SortedMap PartitionId NodeId}
    (wf : c.WellFormed) (owns : c.ownership = .ok owners) (admits : c.Admits stealer)
    (member : c.contains donor.id)
    (owns' : (c.move stealer donor partitions).ownership = .ok owners') :
    SparesOthers owners stealer.id donor.id partitions := by
  intro p moved node owner
  by_contra third
  obtain ⟨notStealer, notDonor⟩ := not_or.1 third
  have keeps : p ∈ (c.move stealer donor partitions).owned node :=
    (admits.mem_owned_move wf member).2
      (.inl ⟨(wf.mem_owned_iff_owner owns).2 owner, fun _ same => absurd same notDonor⟩)
  have gets : p ∈ (c.move stealer donor partitions).owned stealer.id :=
    (admits.mem_owned_move wf member).2 (.inr ⟨moved, rfl⟩)
  exact notStealer (Option.some.inj
    ((get?_of_mem_owned owns' keeps).symm.trans (get?_of_mem_owned owns' gets)))

/-- A move leaves every partition with one owner exactly if none of a third node is moved, and then
what was moved belongs to the stealer and all else to whom it belonged. Whatever is moved, nothing
changes but what the stealer and the donor list, in ascending order then, and that the stealer is a
member. -/
theorem move_transfers (built : c.Built) (owns : c.ownership = .ok owners)
    (admits : c.Admits stealer) (member : c.contains donor.id)
    (partitions : SortedSet PartitionId) :
    ((∃ owners', (c.move stealer donor partitions).ownership = .ok owners') ↔
      ∀ p ∈ partitions, ∀ node, owners.get? p = some node →
        node = stealer.id ∨ node = donor.id) ∧
    (∀ owners', (c.move stealer donor partitions).ownership = .ok owners' →
      ∀ p, owners'.get? p = if p ∈ partitions then some stealer.id else owners.get? p) ∧
    (c.move stealer donor partitions).name = c.name ∧
    (c.move stealer donor partitions).zones = c.zones ∧
    (∀ id, id ≠ stealer.id → id ≠ donor.id →
      (c.move stealer donor partitions).node? id = c.node? id) ∧
    (∃ taken : List PartitionId, taken.Pairwise (· < ·) ∧
      (∀ p, p ∈ taken ↔ p ∈ stealer.partitions ∨ p ∈ partitions) ∧
      (c.move stealer donor partitions).node? stealer.id =
        some { stealer with partitions := taken }) ∧
    (stealer.id ≠ donor.id → ∃ kept : List PartitionId, kept.Pairwise (· < ·) ∧
      (∀ p, p ∈ kept ↔ p ∈ c.owned donor.id ∧ p ∉ partitions) ∧
      (c.move stealer donor partitions).node? donor.id =
        some { donor with partitions := kept }) ∧
    (c.move stealer donor partitions).nodeIds =
      (SortedSet.ofList (stealer.id :: c.nodeIds)).toList := by
  have wf := built.wellFormed
  refine ⟨⟨?_, fun spares => ⟨_, admits.ownership_move wf owns member spares⟩⟩, ?_,
    name_move c stealer donor partitions, zones_move wf stealer donor partitions, ?_, ?_, ?_,
    nodeIds_move wf admits member partitions⟩
  · rintro ⟨owners', owns'⟩
    exact admits.sparesOthers_of_ownership_move wf owns member owns'
  · intro owners' owns' p
    have spares := admits.sparesOthers_of_ownership_move wf owns member owns'
    rw [admits.ownership_move wf owns member spares] at owns'
    cases owns'
    exact SortedMap.get?_insertAll_const _ _ _ _
  · exact fun id notStealer notDonor => node?_move_other wf notStealer notDonor partitions
  · refine ⟨_, SortedSet.toList_ascending _, fun p => ?_,
      admits.node?_move_stealer donor partitions⟩
    rw [SortedSet.mem_toList, SortedSet.mem_union, ← admits.partitionSet_eq]
    exact or_congr_left SortedSet.mem_ofList
  · intro apart
    refine ⟨_, SortedSet.toList_ascending _, fun p => ?_,
      node?_move_donor apart member partitions⟩
    rw [SortedSet.mem_toList, SortedSet.mem_diff]

/-- A new node takes over a partition of node 0, and one that nobody owned; a partition of node 2 it
cannot take over from node 0. -/
theorem move_transfers_uniform :
    ∃ owners owners', (Cluster.uniform 3 2).ownership = .ok owners ∧
      ((Cluster.uniform 3 2).move (.create 7 "new" []) (.uniform 2 0) (.ofList [1, 9])).ownership =
        .ok owners' ∧
      (∀ p, owners'.get? p = if p ∈ SortedSet.ofList [1, 9] then some 7 else owners.get? p) ∧
      ((Cluster.uniform 3 2).move (.create 7 "new" []) (.uniform 2 0) (.ofList [1, 9])).nodeIds =
        [0, 1, 2, 7] ∧
      ¬ ∃ owners', ((Cluster.uniform 3 2).move (.create 7 "new" []) (.uniform 2 0)
        (.ofList [1, 4])).ownership = .ok owners' := by
  obtain ⟨owners, owns⟩ : ∃ owners, (Cluster.uniform 3 2).ownership = .ok owners := ⟨_, rfl⟩
  have ofFirst : owners.get? 1 = some 0 := by cases owns; decide +kernel
  have ofThird : owners.get? 4 = some 2 := by cases owns; decide +kernel
  have ofNobody : owners.get? 9 = none := by cases owns; decide +kernel
  have admits : (Cluster.uniform 3 2).Admits (.create 7 "new" []) :=
    .inr ⟨by decide +kernel, rfl⟩
  have member : (Cluster.uniform 3 2).contains (Node.uniform 2 0).id := by decide +kernel
  have transfers := move_transfers (.uniform 3 2) owns admits member
  obtain ⟨accepted, tells, -, -, -, -, -, ids⟩ := transfers (.ofList [1, 9])
  obtain ⟨owners', owns'⟩ := accepted.2 fun p moved node owner => by
    rw [SortedSet.mem_ofList] at moved
    simp only [List.mem_cons, List.not_mem_nil, or_false] at moved
    rcases moved with rfl | rfl
    · rw [ofFirst] at owner
      exact .inr (Option.some.inj owner).symm
    · rw [ofNobody] at owner
      cases owner
  refine ⟨owners, owners', owns, owns', tells owners' owns', ids.trans (by decide +kernel), ?_⟩
  rw [(transfers (.ofList [1, 4])).1]
  intro spares
  have moved : 4 ∈ SortedSet.ofList [(1 : PartitionId), 4] := SortedSet.mem_ofList.2 (by decide)
  exact absurd (spares 4 moved 2 ofThird) (by decide)

/-! ### Moving again -/

theorem partitionSet_owning_toList (n : Node) (s : SortedSet PartitionId) :
    (n.owning s.toList).partitionSet = s :=
  SortedSet.ext_mem fun _ => SortedSet.mem_ofList.trans Node.mem_owning

/-- What a move made of the stealer, a move that finds it so makes of it again. -/
theorem receiving_of_found {d : Cluster}
    (found : d.node? stealer.id = some (c.receiving stealer partitions)) :
    d.receiving stealer partitions = c.receiving stealer partitions := by
  have owns : d.owned stealer.id = stealer.partitionSet ∪ c.owned stealer.id ∪ partitions := by
    simp only [owned, found, Option.map_some, Option.getD_some]
    exact partitionSet_owning_toList ..
  have same : stealer.partitionSet ∪ d.owned stealer.id ∪ partitions =
      stealer.partitionSet ∪ c.owned stealer.id ∪ partitions := by
    refine SortedSet.ext_mem fun p => ?_
    simp only [owns, SortedSet.mem_union]
    tauto
  simp only [receiving, same]

/-- What a move left the donor, a move that finds it so leaves it again. -/
theorem giving_of_found {d : Cluster}
    (found : d.node? donor.id = some (c.giving donor partitions)) :
    d.giving donor partitions = c.giving donor partitions := by
  have same : (c.giving donor partitions).partitionSet \ partitions =
      ((c.node? donor.id).getD donor).partitionSet \ partitions := by
    refine SortedSet.ext_mem fun p => ?_
    simp only [giving, partitionSet_owning_toList, SortedSet.mem_diff, and_assoc, and_self]
  rw [giving, found, Option.getD_some, same, giving]

/-- A move that is made again with the same arguments changes nothing, whether the two nodes are
members as given, members that were given with other partitions or other addresses, or strangers, and
also if they are one node. -/
theorem move_again (c : Cluster) (stealer donor : Node) (partitions : SortedSet PartitionId) :
    (c.move stealer donor partitions).move stealer donor partitions =
      c.move stealer donor partitions := by
  -- Both nodes are found as the first move left them, and are replaced by the same values again.
  have received := receiving_of_found (node?_move_receiving c stealer donor partitions)
  by_cases same : stealer.id = donor.id
  · rw [move_of_eq same, received, move_of_eq same]
    exact replaceNodes_replaceNodes (List.Subset.refl _) c
  · have given := giving_of_found (node?_move_giving (c := c) same partitions)
    rw [move_of_ne same, received, given, move_of_ne same]
    exact replaceNodes_replaceNodes (List.Subset.refl _) c

end Resharding.Cluster
