import Mathlib.Data.List.Forall2
import Mathlib.Data.List.Induction
import Resharding.Proofs.Planning.Moves

/-!
Donations one by one.

As long as no partition is owned twice, a donation is found its donor (`Cluster.WellFormed.owner?_eq`)
and replaces two nodes (`Cluster.WellFormed.donate_eq`), and so do several from one node to another,
whatever their order (`Cluster.Between.foldlM_donate`). A move replaces the same two nodes. The new
lists differ in their order only: the move sorts them, and donations are listed as they come in
(`Cluster.donations_move`).
-/

namespace Resharding

/-! ### Equal but for the order of partitions -/

/-- The same node, which may list its partitions in another order. -/
def Node.Reorders (m n : Node) : Prop :=
  m.partitions.Perm n.partitions ∧ m = { n with partitions := m.partitions }

theorem Node.Reorders.refl (n : Node) : n.Reorders n := ⟨.refl _, rfl⟩

theorem Node.Reorders.id_eq {m n : Node} (reorders : m.Reorders n) : m.id = n.id := by
  rw [reorders.2]

/-- The same cluster, in which nodes may list their partitions in another order. -/
structure Cluster.Reorders (a b : Cluster) : Prop where
  name : a.name = b.name
  zones : a.zones = b.zones
  nodes : List.Forall₂ Node.Reorders a.nodes b.nodes

namespace SortedMap

variable {κ α : Type} [Ord κ] {R : α → α → Prop} {v w : α}

theorem forall₂_putEntry {es ds : List (κ × α)} (k : κ) (related : R v w)
    (entries : List.Forall₂ (fun e d => e.1 = d.1 ∧ R e.2 d.2) es ds) :
    List.Forall₂ (fun e d => e.1 = d.1 ∧ R e.2 d.2) (putEntry k v es) (putEntry k w ds) := by
  induction entries with
  | nil => exact .cons ⟨rfl, related⟩ .nil
  | cons first rest ih =>
    simp only [putEntry, first.1]
    split
    · exact .cons ⟨rfl, related⟩ (.cons first rest)
    · exact .cons ⟨rfl, related⟩ rest
    · exact .cons first ih

/-- Writing related values at the same keys leads to related values. -/
theorem forall₂_insertAll [Std.TransOrd κ] {m n : SortedMap κ α} {pairs pairs' : List (κ × α)}
    (written : List.Forall₂ (fun e d => e.1 = d.1 ∧ R e.2 d.2) pairs pairs')
    (entries : List.Forall₂ (fun e d => e.1 = d.1 ∧ R e.2 d.2) m.entries n.entries) :
    List.Forall₂ (fun e d => e.1 = d.1 ∧ R e.2 d.2) (m.insertAll pairs).entries
      (n.insertAll pairs').entries := by
  induction written generalizing m n with
  | nil => exact entries
  | @cons e d _ _ first _ ih =>
    refine @ih (m.insert e.1 e.2) (n.insert d.1 d.2) ?_
    rw [first.1]
    exact forall₂_putEntry d.1 first.2 entries

end SortedMap

namespace Cluster

variable {a b c : Cluster} {owners : SortedMap PartitionId NodeId} {updated updated' : List Node}
  {n giver receiver taker : Node} {node : NodeId} {p : PartitionId} {given : List PartitionId}

/-- Replacing nodes by the same ones in another order leads to the same cluster in another order. -/
theorem reorders_replaceNodes (c : Cluster) (nodes : List.Forall₂ Node.Reorders updated updated') :
    (c.replaceNodes updated).Reorders (c.replaceNodes updated') where
  name := rfl
  zones := rfl
  nodes := by
    have written : List.Forall₂ (fun e d : NodeId × Node => e.1 = d.1 ∧ e.2.Reorders d.2)
        (updated.map fun n => (n.id, n)) (updated'.map fun n => (n.id, n)) := by
      rw [List.forall₂_map_left_iff, List.forall₂_map_right_iff]
      exact nodes.imp fun m n reorders => ⟨reorders.id_eq, reorders⟩
    have before : List.Forall₂ (fun e d : NodeId × Node => e.1 = d.1 ∧ e.2.Reorders d.2)
        (byId c.nodes).entries (byId c.nodes).entries :=
      List.forall₂_same.2 fun e _ => ⟨rfl, .refl e.2⟩
    have entries := SortedMap.forall₂_insertAll written before
    simp only [replaceNodes, ofMap, SortedMap.values]
    rw [List.forall₂_map_left_iff, List.forall₂_map_right_iff]
    exact entries.imp fun e d related => related.2

namespace Reorders

theorem nodeIds_eq (reorders : a.Reorders b) : a.nodeIds = b.nodeIds := by
  have nodes := reorders.nodes
  simp only [nodeIds]
  generalize a.nodes = as, b.nodes = bs at nodes
  induction nodes with
  | nil => rfl
  | cons first _ ih => rw [List.map_cons, List.map_cons, first.id_eq, ih]

theorem claims_perm (reorders : a.Reorders b) : a.claims.Perm b.claims := by
  have nodes := reorders.nodes
  simp only [claims]
  generalize a.nodes = as, b.nodes = bs at nodes
  induction nodes with
  | nil => exact .refl _
  | cons first _ ih =>
    rw [List.flatMap_cons, List.flatMap_cons, first.id_eq]
    exact (first.1.map _).append ih

/-- The order in which nodes list their partitions does not matter to who owns them. -/
theorem ownership_eq (reorders : a.Reorders b) (owns : b.ownership = .ok owners) :
    a.ownership = .ok owners := by
  have distinct : a.listed.Nodup := by
    rw [← map_fst_claims]
    refine (reorders.claims_perm.map _).nodup_iff.2 ?_
    rw [map_fst_claims]
    exact (ownership_eq_ok_iff.1 owns).1
  have owns' := ownership_eq_ok_iff.2 ⟨distinct, rfl⟩
  rw [owns']
  refine congrArg _ (SortedMap.ext_get? fun p => Option.ext fun node => ?_)
  rw [get?_ownership owns', get?_ownership owns, ← mem_claims, ← mem_claims,
    reorders.claims_perm.mem_iff]

end Reorders

/-! ### Single donations -/

theorem WellFormed.owner?_eq (wf : c.WellFormed) (owns : c.ownership = .ok owners)
    (found : c.node? node = some n) (lists : p ∈ n.partitions) : c.owner? p = some n := by
  rw [owner?_eq_bind wf.ascending owns, get?_of_lists owns found lists, Option.bind_some, found]

/-- A donation replaces the giver and the node that takes, as it is in the cluster. -/
theorem WellFormed.donate_eq (wf : c.WellFormed) (owns : c.ownership = .ok owners)
    (found : c.node? node = some giver) (lists : p ∈ giver.partitions) (apart : taker.id ≠ node) :
    c.donate taker p = .ok (c.replaceNodes
      [((c.node? taker.id).getD taker).gaining [p], giver.losing (.ofList [p])]) := by
  obtain ⟨-, rfl⟩ := mem_of_node? found
  simp only [Cluster.donate, wf.owner?_eq owns found lists]
  rw [if_neg apart.symm]

theorem donate_of_unowned (unowned : ∀ n ∈ c.nodes, p ∉ n.partitions) (taker : Node) :
    c.donate taker p = .error (.unownedPartition p) := by
  have none : c.owner? p = none :=
    List.find?_eq_none.2 fun n mem owns => unowned n mem (List.contains_iff_mem.1 owns)
  simp only [donate, none]

theorem donate_of_owner (owns : c.ownership = .ok owners)
    (owner : owners.get? p = some taker.id) : c.donate taker p = .ok c := by
  obtain ⟨o, found, same⟩ := Option.map_eq_some_iff.1 ((map_owner? owns p).trans owner)
  simp only [donate, found]
  rw [if_pos same]

/-! ### Several donations -/

/-- Two nodes of which one, a member, can give to the other what it owns. -/
structure Between (c : Cluster) (owners : SortedMap PartitionId NodeId) (receiver giver : Node) :
    Prop where
  wellFormed : c.WellFormed
  owns : c.ownership = .ok owners
  admits : c.Admits receiver
  member : c.node? giver.id = some giver
  apart : receiver.id ≠ giver.id

/-- The cluster in which some partitions were given, the new ones listed behind the old ones. -/
def hand (c : Cluster) (receiver giver : Node) (given : List PartitionId) : Cluster :=
  c.replaceNodes [{ receiver with partitions := receiver.partitions ++ given },
    { giver with partitions := giver.partitions.filter fun p => p ∉ given }]

/-- Taking away some partitions and then others is taking away both at once. -/
theorem filter_not_mem_filter (ps given more : List PartitionId) :
    ((ps.filter fun p => p ∉ given).filter fun p => p ∉ more) =
      ps.filter fun p => p ∉ given ++ more := by
  rw [List.filter_filter]
  refine List.filter_congr fun p _ => ?_
  simp only [List.mem_append, not_or, Bool.decide_and, Bool.and_comm]

namespace Between

theorem contains_giver (between : c.Between owners receiver giver) : c.contains giver.id :=
  Option.isSome_iff_exists.2 ⟨giver, between.member⟩

theorem mem_giver (between : c.Between owners receiver giver) :
    p ∈ giver.partitions ↔ owners.get? p = some giver.id := by
  rw [← between.wellFormed.mem_owned_iff_owner between.owns, mem_owned_iff, between.member]
  simp only [Option.some.injEq, exists_eq_left']

theorem mem_receiver (between : c.Between owners receiver giver) :
    p ∈ receiver.partitions ↔ owners.get? p = some receiver.id := by
  rw [← between.wellFormed.mem_owned_iff_owner between.owns, ← between.admits.partitionSet_eq]
  exact SortedSet.mem_ofList.symm

theorem nodup_giver (between : c.Between owners receiver giver) : giver.partitions.Nodup :=
  between.wellFormed.distinct giver (mem_of_node? between.member).1

theorem nodup_receiver (between : c.Between owners receiver giver)
    (distinct : given.Nodup) (sub : ∀ p ∈ given, p ∈ giver.partitions) :
    (receiver.partitions ++ given).Nodup := by
  refine List.nodup_append.2 ⟨?_, distinct, fun p had q gets same => ?_⟩
  · rcases between.admits with member | ⟨-, none⟩
    · exact between.wellFormed.distinct receiver (mem_of_node? member).1
    · rw [none]
      exact List.nodup_nil
  · subst same
    have owner := between.mem_receiver.1 had
    rw [between.mem_giver.1 (sub p gets)] at owner
    exact between.apart (Option.some.inj owner).symm

/-- But for the order, giving partitions is moving them. -/
theorem hand_reorders (between : c.Between owners receiver giver)
    (distinct : given.Nodup) (sub : ∀ p ∈ given, p ∈ giver.partitions) :
    (c.hand receiver giver given).Reorders (c.move receiver giver (.ofList given)) := by
  rw [between.admits.move_eq between.apart between.contains_giver]
  refine c.reorders_replaceNodes (.cons ⟨?_, rfl⟩ (.cons ⟨?_, rfl⟩ .nil))
  · refine (List.perm_ext_iff_of_nodup (between.nodup_receiver distinct sub)
      (SortedSet.nodup_toList _)).2 fun p => ?_
    rw [SortedSet.mem_toList, SortedSet.mem_union, SortedSet.mem_ofList, List.mem_append,
      between.mem_receiver, between.wellFormed.mem_owned_iff_owner between.owns]
  · refine (List.perm_ext_iff_of_nodup (between.nodup_giver.filter _)
      (SortedSet.nodup_toList _)).2 fun p => ?_
    rw [SortedSet.mem_toList, SortedSet.mem_diff, SortedSet.mem_ofList, List.mem_filter,
      between.mem_giver, between.wellFormed.mem_owned_iff_owner between.owns, decide_eq_true_iff]

/-- What is moved has a new owner. -/
theorem ownership_move (between : c.Between owners receiver giver)
    (sub : ∀ p ∈ given, p ∈ giver.partitions) :
    (c.move receiver giver (.ofList given)).ownership =
      .ok (owners.insertAll ((SortedSet.ofList given).toList.map fun p => (p, receiver.id))) := by
  apply between.admits.ownership_move between.wellFormed between.owns between.contains_giver
  exact sparesOthers_of_lists between.owns between.member fun p moved =>
    sub p (SortedSet.mem_ofList.1 moved)

theorem nodup_handed (between : c.Between owners receiver giver)
    (distinct : given.Nodup) (sub : ∀ p ∈ given, p ∈ giver.partitions) :
    ∀ n ∈ [{ receiver with partitions := receiver.partitions ++ given },
      { giver with partitions := giver.partitions.filter fun p => p ∉ given }],
      n.partitions.Nodup :=
  List.forall_mem_cons.2 ⟨between.nodup_receiver distinct sub,
    List.forall_mem_singleton.2 (between.nodup_giver.filter _)⟩

theorem node?_hand (between : c.Between owners receiver giver) (given : List PartitionId)
    (id : NodeId) : (c.hand receiver giver given).node? id =
      if id = receiver.id then some { receiver with partitions := receiver.partitions ++ given }
      else if id = giver.id then
        some { giver with partitions := giver.partitions.filter fun p => p ∉ given }
      else c.node? id := by
  refine node?_replaceNodes_pair between.wellFormed ?_ id
  exact between.apart

/-- The first donation. -/
theorem donate_first (between : c.Between owners receiver giver) (lists : p ∈ giver.partitions) :
    c.donate receiver p = .ok (c.hand receiver giver [p]) := by
  have here : (c.node? receiver.id).getD receiver = receiver := by
    rcases between.admits with member | ⟨new, -⟩
    · rw [member, Option.getD_some]
    · rw [new, Option.getD_none]
  have distinct := between.nodup_receiver (List.nodup_singleton p) (List.forall_mem_singleton.2 lists)
  rw [between.wellFormed.donate_eq between.owns between.member lists between.apart, here,
    Node.gaining_of_nodup distinct, Node.losing_ofList between.nodup_giver]
  rfl

/-- A donation after others. -/
theorem donate_hand (between : c.Between owners receiver giver) (distinct : (given ++ [p]).Nodup)
    (sub : ∀ q ∈ given ++ [p], q ∈ giver.partitions) :
    (c.hand receiver giver given).donate receiver p = .ok (c.hand receiver giver (given ++ [p])) := by
  obtain ⟨distinctGiven, -, fresh⟩ := List.nodup_append.1 distinct
  obtain ⟨subGiven, lists⟩ := List.forall_mem_append.1 sub
  have handed := between.nodup_handed distinctGiven subGiven
  have wf : (c.hand receiver giver given).WellFormed := between.wellFormed.replaceNodes handed
  have hereR : (c.hand receiver giver given).node? receiver.id =
      some { receiver with partitions := receiver.partitions ++ given } := by
    rw [between.node?_hand, if_pos rfl]
  have hereG : (c.hand receiver giver given).node? giver.id =
      some { giver with partitions := giver.partitions.filter fun p => p ∉ given } := by
    rw [between.node?_hand, if_neg between.apart.symm, if_pos rfl]
  have keeps : p ∈ giver.partitions.filter fun p => p ∉ given :=
    List.mem_filter.2 ⟨lists p (List.mem_singleton_self p),
      decide_eq_true fun again => fresh p again p (List.mem_singleton_self p) rfl⟩
  have longer := between.nodup_receiver distinct sub
  rw [← List.append_assoc] at longer
  have owns := (between.hand_reorders distinctGiven subGiven).ownership_eq
    (between.ownership_move subGiven)
  rw [wf.donate_eq owns hereG keeps between.apart, hereR,
    Option.getD_some, Node.gaining_of_nodup longer,
    Node.losing_ofList (between.nodup_giver.filter _), filter_not_mem_filter, List.append_assoc]
  refine congrArg _ (replaceNodes_replaceNodes ?_ c)
  exact List.Subset.refl [receiver.id, giver.id]

/-- Donations in turn hand over what is donated, in that order. -/
theorem foldlM_donate (between : c.Between owners receiver giver) (nonempty : given ≠ [])
    (distinct : given.Nodup) (sub : ∀ p ∈ given, p ∈ giver.partitions) :
    given.foldlM (fun c p => c.donate receiver p) c = .ok (c.hand receiver giver given) := by
  induction given using List.reverseRecOn with
  | nil => exact absurd rfl nonempty
  | append_singleton before p ih =>
    simp only [List.foldlM_append, List.foldlM_cons, List.foldlM_nil, bind_pure]
    by_cases first : before = []
    · subst first
      rw [List.foldlM_nil, pure_bind]
      exact between.donate_first (sub p (List.mem_singleton_self p))
    · rw [ih first (List.nodup_append.1 distinct).1 (List.forall_mem_append.1 sub).1]
      exact between.donate_hand distinct sub

end Between

/-- Donated one by one in any order, the partitions of a member end up where a move takes them, and
the cluster differs from the moved one at most in the order in which nodes list their partitions. What
nobody owns cannot be donated, and what the taker owns already stays where it is. -/
theorem donations_move (built : c.Built) (owns : c.ownership = .ok owners)
    (member : c.node? giver.id = some giver) (admits : c.Admits receiver)
    (apart : receiver.id ≠ giver.id) {partitions : SortedSet PartitionId}
    (nonempty : partitions ≠ .empty) (sub : ∀ p ∈ partitions, p ∈ giver.partitions) :
    (∀ order : List PartitionId, order.Perm partitions.toList →
      (∀ done, done <+: order → ∃ c', done.foldlM (fun c p => c.donate receiver p) c = .ok c') ∧
      ∃ c' owners', order.foldlM (fun c p => c.donate receiver p) c = .ok c' ∧
        c'.Reorders (c.move receiver giver partitions) ∧
        c'.nodeIds = (c.move receiver giver partitions).nodeIds ∧
        c'.ownership = .ok owners' ∧
        (c.move receiver giver partitions).ownership = .ok owners') ∧
    (∀ taker p, (∀ n ∈ c.nodes, p ∉ n.partitions) →
      c.donate taker p = .error (.unownedPartition p)) ∧
    ∀ (taker : Node) p, owners.get? p = some taker.id → c.donate taker p = .ok c := by
  refine ⟨fun order perm => ?_, fun taker p unowned => donate_of_unowned unowned taker,
    fun taker p owner => donate_of_owner owns owner⟩
  have between : c.Between owners receiver giver := ⟨built.wellFormed, owns, admits, member, apart⟩
  have distinct : order.Nodup := perm.nodup_iff.2 (SortedSet.nodup_toList partitions)
  have subOrder : ∀ p ∈ order, p ∈ giver.partitions := fun p mem => sub p (perm.subset mem)
  have same : SortedSet.ofList order = partitions :=
    SortedSet.ext_mem fun p => SortedSet.mem_ofList.trans perm.mem_iff
  have nonemptyOrder : order ≠ [] := by
    rintro rfl
    exact nonempty same.symm
  have reorders := between.hand_reorders distinct subOrder
  have moved := between.ownership_move subOrder
  rw [same] at reorders moved
  refine ⟨fun done first => ?_, c.hand receiver giver order, _,
    between.foldlM_donate nonemptyOrder distinct subOrder, reorders, reorders.nodeIds_eq,
    reorders.ownership_eq moved, moved⟩
  by_cases none : done = []
  · exact ⟨c, by rw [none]; rfl⟩
  · exact ⟨_, between.foldlM_donate none (distinct.sublist first.sublist)
      fun p mem => subOrder p (first.subset mem)⟩

/-- A newcomer is given two partitions, the larger one first: the move lists them the other way
round. -/
theorem donations_move_reversed :
    ∃ c', [1, 0].foldlM (fun c p => c.donate (.create 5 "h5" []) p) (Cluster.uniform 2 3) = .ok c' ∧
      c'.Reorders ((Cluster.uniform 2 3).move (.create 5 "h5" []) (.uniform 3 0) (.ofList [0, 1])) ∧
      (c'.node? 5).map (·.partitions) = some [1, 0] ∧
      (((Cluster.uniform 2 3).move (.create 5 "h5" []) (.uniform 3 0) (.ofList [0, 1])).node? 5).map
        (·.partitions) = some [0, 1] ∧
      (Cluster.uniform 2 3).donate (.create 5 "h5" []) 40 = .error (.unownedPartition 40) ∧
      (Cluster.uniform 2 3).donate (.uniform 3 1) 4 = .ok (.uniform 2 3) := by
  obtain ⟨owners, owns⟩ : ∃ owners, (Cluster.uniform 2 3).ownership = .ok owners := ⟨_, rfl⟩
  have ofSecond : owners.get? 4 = some 1 := by cases owns; decide +kernel
  have member : (Cluster.uniform 2 3).node? (Node.uniform 3 0).id = some (.uniform 3 0) := by
    decide +kernel
  have admits : (Cluster.uniform 2 3).Admits (.create 5 "h5" []) := .inr ⟨by decide +kernel, rfl⟩
  have lists : ∀ p ∈ SortedSet.ofList [(0 : PartitionId), 1], p ∈ (Node.uniform 3 0).partitions := by
    intro p mem
    rw [SortedSet.mem_ofList] at mem
    simp only [List.mem_cons, List.not_mem_nil, or_false] at mem
    rcases mem with rfl | rfl
    · decide +kernel
    · decide +kernel
  obtain ⟨anyOrder, unowned, owned⟩ :=
    donations_move (.uniform 2 3) owns member admits (by decide) (by decide) lists
  obtain ⟨-, c', -, done, reorders, -⟩ := anyOrder [1, 0] (by decide)
  refine ⟨c', done, reorders, ?_, by decide +kernel, ?_, owned (.uniform 3 1) 4 ofSecond⟩
  · cases done
    decide +kernel
  · exact unowned _ 40 (by decide +kernel)

end Cluster

end Resharding
