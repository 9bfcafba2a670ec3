import Resharding.Proofs.Placement.Keepers
import Resharding.Proofs.Planning.Nesting

/-!
How many nodes hold a partition.

Every owned partition is held by as many nodes as the most replicated store asks for, as far as there
are nodes that own something: nodes of the whole cluster, or of each zone for a store that spreads by
zone (`Cluster.holdings_counted`). Leaving the primaries out leaves out for every node exactly what it
owns. Nodes are counted by their ids, in the zones in which the cluster finds them; in a cluster that
repeats an id, counting what is listed in each zone comes to too much. So does counting zone by zone
where the zones ask for more copies together than a word counts (`Cluster.holders_fall_short`).
-/

namespace Resharding

namespace StoreDefinition

variable {store : StoreDefinition} {stores : List StoreDefinition}

/-- The store is the first of those that ask for the most copies. -/
def Leads (store : StoreDefinition) (stores : List StoreDefinition) : Prop :=
  ∃ before after, stores = before ++ store :: after ∧
    (∀ s ∈ before, s.replicationFactor < store.replicationFactor) ∧
    ∀ s ∈ after, s.replicationFactor ≤ store.replicationFactor

/-- A store stays the best so far while none asks for more copies. -/
theorem foldl_mostReplicated_of_le {after : List StoreDefinition}
    (atMost : ∀ s ∈ after, s.replicationFactor ≤ store.replicationFactor) :
    after.foldl (fun best s =>
      if best.replicationFactor < s.replicationFactor then s else best) store = store := by
  induction after with
  | nil => rfl
  | cons s rest ih =>
    rw [List.foldl_cons, if_neg (Nat.not_lt.2 (atMost s List.mem_cons_self))]
    exact ih fun t mem => atMost t (List.mem_cons_of_mem _ mem)

theorem mostReplicated?_of_leads (leads : store.Leads stores) :
    mostReplicated? stores = some store := by
  obtain ⟨before, after, rfl, fewer, atMost⟩ := leads
  cases before with
  | nil => exact congrArg some (foldl_mostReplicated_of_le atMost)
  | cons first rest =>
    obtain ⟨mem, -⟩ := foldl_mostReplicated first rest
    change some (List.foldl _ first (rest ++ store :: after)) = some store
    refine congrArg some ?_
    rw [List.foldl_append, List.foldl_cons, if_pos (fewer _ mem)]
    exact foldl_mostReplicated_of_le atMost

end StoreDefinition

/-! ### Partitions by nodes -/

namespace Cluster

/-- The partitions that are listed under an id. -/
def listedUnder (c : Cluster) (node : NodeId) : SortedSet PartitionId :=
  .ofList ((c.nodes.filter fun n => n.id == node).flatMap (·.partitions))

variable {c : Cluster} {owners : SortedMap PartitionId NodeId} {node : NodeId} {p : PartitionId}

theorem mem_listedUnder (owns : c.ownership = .ok owners) :
    p ∈ c.listedUnder node ↔ owners.get? p = some node := by
  simp only [listedUnder, SortedSet.mem_ofList, List.mem_flatMap, List.mem_filter, beq_iff_eq,
    get?_ownership owns, and_assoc]

theorem mem_nodeIds_of_owner (owns : c.ownership = .ok owners)
    (owner : owners.get? p = some node) : node ∈ c.nodeIds := by
  obtain ⟨n, mem, rfl, -⟩ := (get?_ownership owns).1 owner
  exact List.mem_map_of_mem mem

end Cluster

/-! ### Copies along a walk -/

namespace StoreDefinition

variable {c : Cluster} {store : StoreDefinition} {owners : SortedMap PartitionId NodeId}
  {p : PartitionId}

theorem length_choose_of_consistent (spread : store.spread = .consistent)
    (owns : c.ownership = .ok owners) (listed : p ∈ c.listed) :
    (store.choose ((Ring.of owners c.zoneOf).walkFrom p)).length =
      min (max store.replicationFactor 1) c.keepers.length := by
  rw [choose_eq_take spread, List.length_take, ← (Ring.firstSlots_perm_keepers owns listed).length_eq,
    List.length_map]

theorem mem_keys_of_mem_rationed {quotas : SortedMap ZoneId Nat} {slots : List Slot} {s : Slot}
    (mem : s ∈ rationed quotas slots) : s.zone ∈ quotas.keys := by
  have some := getD_pos_of_mem_rationed mem
  rw [SortedMap.mem_keys_iff, ← Option.isSome_iff_exists]
  by_contra none
  rw [SortedMap.getD, Option.not_isSome_iff_eq_none.1 none] at some
  cases some

/-- Rations are counted zone by zone. -/
theorem length_rationed_walkFrom (quotas : SortedMap ZoneId Nat) (owns : c.ownership = .ok owners)
    (listed : p ∈ c.listed) :
    (rationed quotas (firstSlots [] ((Ring.of owners c.zoneOf).walkFrom p))).length =
      total (quotas.keys.map fun zone =>
        min (quotas.getD zone 0) (c.keepersIn zone).length) := by
  rw [length_eq_total_slotsIn quotas.nodup_keys fun s => mem_keys_of_mem_rationed]
  refine congrArg total (List.map_congr_left fun zone _ => ?_)
  rw [slotsIn_rationed, List.length_take, Ring.length_slotsIn_firstSlots owns listed]

theorem length_choose_of_zoned (spread : store.spread = .zoned) (owns : c.ownership = .ok owners)
    (listed : p ∈ c.listed) :
    (store.choose ((Ring.of owners c.zoneOf).walkFrom p)).length =
      min store.replicationFactor (total (store.quotas.keys.map fun zone =>
        min (store.quotas.getD zone 0) (c.keepersIn zone).length)) := by
  rw [choose_eq_take_rationed spread Strategy.zonedByNode_walkFrom, List.length_take,
    length_rationed_walkFrom _ owns listed]

theorem length_choose_of_fits (spread : store.spread = .zoned)
    (fits : Strategy.FitsWord store.zoneCopies) (owns : c.ownership = .ok owners)
    (listed : p ∈ c.listed) :
    (store.choose ((Ring.of owners c.zoneOf).walkFrom p)).length =
      total (store.quotas.keys.map fun zone =>
        min (store.quotas.getD zone 0) (c.keepersIn zone).length) := by
  rw [choose_eq_rationed spread Strategy.zonedByNode_walkFrom fits,
    length_rationed_walkFrom _ owns listed]

end StoreDefinition

/-! ### Steps that may fail -/

theorem exists_of_bind_eq_ok {α β ε : Type} {x : Except ε α} {next : α → Except ε β} {b : β}
    (done : (x >>= next) = .ok b) : ∃ a, x = .ok a ∧ next a = .ok b := by
  cases x with
  | error e => cases done
  | ok a => exact ⟨a, rfl, done⟩

/-- What every step keeps that succeeds, is kept by all of them in turn. -/
theorem foldlM_keeps {α σ ε : Type} {step : σ → α → Except ε σ} {P : σ → Prop} {as : List α}
    {s s' : σ} (keeps : ∀ s a s', P s → step s a = .ok s' → P s') (start : P s)
    (done : as.foldlM step s = .ok s') : P s' := by
  induction as generalizing s with
  | nil =>
    cases done
    exact start
  | cons a rest ih =>
    rw [List.foldlM_cons] at done
    obtain ⟨between, first, later⟩ := exists_of_bind_eq_ok done
    exact ih (keeps s a between start first) later

/-! ### Holders -/

namespace Holdings

/-- The nodes that hold a partition, in ascending order. -/
def holders (h : Holdings) (p : PartitionId) : List NodeId :=
  (h.toList.filter fun e => e.2.contains p).map (·.1)

variable {c : Cluster} {h h' : Holdings} {owners : SortedMap PartitionId NodeId} {node : NodeId}
  {p : PartitionId} {copies : List PartitionId}

theorem held_of_get? {held : SortedSet PartitionId} (here : h.get? node = some held) :
    h.held node = held := by
  simp only [Holdings.held, SortedMap.getD]
  rw [here]
  rfl

theorem mem_holders : node ∈ h.holders p ↔ p ∈ h.held node := by
  simp only [holders, List.mem_map, List.mem_filter, SortedSet.contains_iff]
  constructor
  · rintro ⟨⟨_, held⟩, ⟨mem, holds⟩, rfl⟩
    rw [held_of_get? (SortedMap.get?_eq_some_iff.2 mem)]
    exact holds
  · intro holds
    cases here : h.get? node with
    | none =>
      simp only [Holdings.held, SortedMap.getD] at holds
      rw [here] at holds
      exact absurd holds (SortedSet.not_mem_empty p)
    | some held =>
      rw [held_of_get? here] at holds
      exact ⟨(node, held), ⟨SortedMap.get?_eq_some_iff.1 here, holds⟩, rfl⟩

theorem nodup_holders (h : Holdings) (p : PartitionId) : (h.holders p).Nodup :=
  (SortedMap.nodup_keys h).sublist (List.filter_sublist.map _)

/-- Holdings are told by who is listed and by what everybody holds. -/
theorem eq_map {change : NodeId → SortedSet PartitionId → SortedSet PartitionId}
    (same : h'.keys = h.keys) (values : ∀ node, h'.held node = change node (h.held node)) :
    h' = h.map change := by
  refine SortedMap.ext_get? fun node => ?_
  rw [SortedMap.get?_map]
  cases here : h.get? node with
  | some held =>
    have member : node ∈ h'.keys := same ▸ SortedMap.mem_keys_iff.2 ⟨held, here⟩
    obtain ⟨held', here'⟩ := SortedMap.mem_keys_iff.1 member
    rw [here', ← held_of_get? here, ← held_of_get? here', values]
    rfl
  | none =>
    refine Option.eq_none_iff_forall_ne_some.2 fun held' here' => ?_
    have member : node ∈ h.keys := same ▸ SortedMap.mem_keys_iff.2 ⟨held', here'⟩
    obtain ⟨held, there⟩ := SortedMap.mem_keys_iff.1 member
    rw [here] at there
    cases there

/-! ### Who is listed -/

theorem keys_start : (start c).keys = (SortedSet.ofList c.nodeIds).toList := by
  refine SortedSet.members_ext (List.pairwise_map.2 (start c).ascending)
    (SortedSet.ofList c.nodeIds).ascending fun node => ?_
  rw [SortedMap.mem_keys_iff]
  simp only [start, SortedMap.get?_ofList_const]
  refine Iff.trans ?_ (SortedSet.mem_toList.trans SortedSet.mem_ofList).symm
  constructor
  · rintro ⟨held, here⟩
    by_contra absent
    rw [if_neg absent] at here
    cases here
  · intro mem
    exact ⟨_, if_pos mem⟩

theorem keys_credit (mem : node ∈ h.keys) (p : PartitionId) :
    (h.credit node p).keys = h.keys := by
  refine SortedMap.keys_ext fun other => ?_
  simp only [SortedMap.mem_keys_iff] at mem ⊢
  simp only [credit, SortedMap.get?_adjust]
  split
  · rename_i same
    rw [same]
    exact iff_of_true ⟨_, rfl⟩ mem
  · exact Iff.rfl

/-- Crediting copies to nodes that are listed lists no others. -/
theorem keys_creditCopies (known : ∀ copy holder, owners.get? copy = some holder → holder ∈ h.keys)
    (done : creditCopies owners p h copies = .ok h') : h'.keys = h.keys := by
  simp only [creditCopies] at done
  apply foldlM_keeps (P := fun g => g.keys = h.keys) _ rfl done
  intro g copy g' same credited
  cases owner : owners.get? copy with
  | none =>
    rw [owner] at credited
    cases credited
  | some holder =>
    rw [owner] at credited
    cases credited
    have listed : holder ∈ g.keys := same.symm ▸ known copy holder owner
    rw [keys_credit listed, same]

theorem keys_ofStrategy {strategy : Strategy} {includePrimary : Bool}
    (owns : c.ownership = .ok owners)
    (done : ofStrategy c owners strategy includePrimary = .ok h) :
    h.keys = (SortedSet.ofList c.nodeIds).toList := by
  simp only [ofStrategy] at done
  apply foldlM_keeps (P := fun g => g.keys = (SortedSet.ofList c.nodeIds).toList) _ keys_start done
  intro g q g' same credited
  rw [← same]
  apply keys_creditCopies _ credited
  intro copy holder owner
  rw [same]
  exact SortedSet.mem_toList.2 (SortedSet.mem_ofList.2 (Cluster.mem_nodeIds_of_owner owns owner))

end Holdings

namespace Cluster

variable {c : Cluster} {store : StoreDefinition} {stores : List StoreDefinition}
  {strategy : Strategy} {choose : StrategyChoice} {includePrimary : Bool} {h : Holdings}
  {owners : SortedMap PartitionId NodeId} {p : PartitionId}

/-- Exactly the nodes of the cluster are listed, whatever strategies stores are given. -/
theorem keys_holdings (done : c.holdings choose stores includePrimary = .ok h) :
    h.keys = (SortedSet.ofList c.nodeIds).toList := by
  simp only [holdings] at done
  obtain ⟨owners, owns, chosen⟩ := exists_of_bind_eq_ok done
  split at chosen
  · cases chosen
  · obtain ⟨strategy, -, placed⟩ := exists_of_bind_eq_ok chosen
    exact Holdings.keys_ofStrategy owns placed

/-- The holders of a partition are the nodes of the slots that are chosen for it. -/
theorem length_holders {copies : Nat}
    (holds : ∀ node p, p ∈ h.held node ↔
      (Strategy.ofRing (.of owners c.zoneOf) copies store.choose).Holds true node p) :
    (h.holders p).length = (store.choose ((Ring.of owners c.zoneOf).walkFrom p)).length := by
  have same : (h.holders p).Perm
      ((store.choose ((Ring.of owners c.zoneOf).walkFrom p)).map (·.node)) := by
    refine (List.perm_ext_iff_of_nodup (h.nodup_holders p) Strategy.nodup_node_choose).2 ?_
    intro node
    rw [Holdings.mem_holders, holds, Strategy.holds_iff, List.mem_map]
    simp only [Bool.true_or, true_and]
  rw [same.length_eq, List.length_map]

/-- A cluster is told who holds what for its stores with the primaries and without them, and exactly
its nodes are listed both times. Every owned partition is held by as many nodes as the leading store
asks for, at least one, or by all that own something if these are fewer. For a store that spreads by
zone, this holds of every zone if a word counts the copies of all zones; if it does not, the count in
the word is the most that there are. Without the primaries, every node holds what it held less what it
owns.

Owners are counted by their ids, in the zones in which the cluster finds them. Where ids ascend, these
are the nodes that are listed with partitions, in the zones they are listed in. -/
theorem holdings_counted (leads : store.Leads stores)
    (accepted : Strategy.ofStore store c = .ok strategy) :
    ∃ all copies, c.holdings Strategy.ofStore stores true = .ok all ∧
      c.holdings Strategy.ofStore stores false = .ok copies ∧
      all.keys = (SortedSet.ofList c.nodeIds).toList ∧
      copies.keys = (SortedSet.ofList c.nodeIds).toList ∧
      copies = all.map (fun node held => held \ c.listedUnder node) ∧
      (store.spread = .consistent → ∀ p ∈ c.partitionSet,
        (all.holders p).length = min (max store.replicationFactor 1) c.keepers.length) ∧
      (store.spread = .zoned → ∀ p ∈ c.partitionSet,
        (all.holders p).length =
            min store.replicationFactor (total (store.quotas.keys.map fun zone =>
              min (store.quotas.getD zone 0) (c.keepersIn zone).length)) ∧
          (Strategy.FitsWord store.zoneCopies →
            (all.holders p).length = total (store.quotas.keys.map fun zone =>
              min (store.quotas.getD zone 0) (c.keepersIn zone).length))) ∧
      (c.nodes.Pairwise (·.id < ·.id) →
        c.keepers.length = (c.nodes.filter fun n => !n.partitions.isEmpty).length ∧
        ∀ zone, (c.keepersIn zone).length =
          ((c.nodesIn zone).filter fun n => !n.partitions.isEmpty).length) := by
  have most := StoreDefinition.mostReplicated?_of_leads leads
  obtain ⟨all, doneAll, holdsAll⟩ := holdings_ofStore most accepted true
  obtain ⟨copies, doneCopies, holdsCopies⟩ := holdings_ofStore most accepted false
  obtain ⟨owners, count, owns, rfl⟩ := Strategy.exists_of_ofStore accepted
  have listed : ∀ p ∈ c.partitionSet, p ∈ c.listed := fun p mem => SortedSet.mem_ofList.1 mem
  refine ⟨all, copies, doneAll, doneCopies, keys_holdings doneAll, keys_holdings doneCopies, ?_, ?_,
    ?_, ?_⟩
  · refine Holdings.eq_map ((keys_holdings doneCopies).trans (keys_holdings doneAll).symm) ?_
    intro node
    refine SortedSet.ext_mem fun p => ?_
    rw [holdsCopies, Strategy.holds_without_primary_iff, SortedSet.mem_diff, holdsAll,
      mem_listedUnder owns]
  · intro spread p mem
    rw [length_holders holdsAll]
    exact StoreDefinition.length_choose_of_consistent spread owns (listed p mem)
  · intro spread p mem
    rw [length_holders holdsAll]
    exact ⟨StoreDefinition.length_choose_of_zoned spread owns (listed p mem),
      fun fits => StoreDefinition.length_choose_of_fits spread fits owns (listed p mem)⟩
  · exact fun ascending => ⟨length_keepers ascending, length_keepersIn ascending⟩

/-- Two copies in each of two zones, one of which has a single node: every partition has three. -/
theorem holdings_counted_apart :
    ∃ all copies,
      apart.holdings Strategy.ofStore
        [.plain 1, .withZones (.plain 0) (.ofList [(0, 2), (1, 2)])] true = .ok all ∧
      apart.holdings Strategy.ofStore
        [.plain 1, .withZones (.plain 0) (.ofList [(0, 2), (1, 2)])] false = .ok copies ∧
      copies = all.map (fun node held => held \ apart.listedUnder node) ∧
      ∀ p ∈ apart.partitionSet, (all.holders p).length = 3 := by
  have leads : StoreDefinition.Leads (.withZones (.plain 0) (.ofList [(0, 2), (1, 2)]))
      [.plain 1, .withZones (.plain 0) (.ofList [(0, 2), (1, 2)])] :=
    ⟨[.plain 1], [], rfl, by decide +kernel, nofun⟩
  obtain ⟨strategy, accepted⟩ : ∃ strategy, Strategy.ofStore
      (.withZones (.plain 0) (.ofList [(0, 2), (1, 2)])) apart = .ok strategy := ⟨_, rfl⟩
  obtain ⟨all, copies, doneAll, doneCopies, -, -, less, -, counted, -⟩ :=
    holdings_counted leads accepted
  refine ⟨all, copies, doneAll, doneCopies, less, fun p mem => ?_⟩
  rw [(counted rfl p mem).2 (by decide +kernel)]
  decide +kernel

/-- One id that is listed in two zones, and another in a third. -/
def twofold : Cluster where
  name := "twofold"
  nodes := [.create 0 "a" [0], (Node.create 0 "b" [1]).inZone 1, (Node.create 1 "c" [2]).inZone 2]
  zones := [⟨0, []⟩, ⟨1, []⟩, ⟨2, []⟩]

/-- Two clusters in which a partition is held by fewer nodes than the zones come to. A node that is
listed twice, in either of the two zones that are to have a copy, holds a partition once, although each
zone has a listed node that owns something. And where two zones ask for `2 ^ 64 + 1` copies together, a
partition is held once, although four of their nodes own something. -/
theorem holders_fall_short :
    (∃ all,
      twofold.holdings Strategy.ofStore [.withZones (.plain 0) (.ofList [(0, 1), (1, 1)])] true =
          .ok all ∧
      0 ∈ twofold.partitionSet ∧ (all.holders 0).length = 1 ∧
      total ([(0, 1), (1, 1)].map fun e =>
        min e.2 ((twofold.nodesIn e.1).filter fun n => !n.partitions.isEmpty).length) = 2) ∧
    ∃ all,
      apart.holdings Strategy.ofStore
        [.withZones (.plain 0) (.ofList [(0, 0x8000000000000000), (1, 0x8000000000000001)])] true =
          .ok all ∧
      0 ∈ apart.partitionSet ∧ (all.holders 0).length = 1 ∧
      total ([(0, 0x8000000000000000), (1, 0x8000000000000001)].map fun e =>
        min e.2 ((apart.nodesIn e.1).filter fun n => !n.partitions.isEmpty).length) = 4 :=
  ⟨⟨_, rfl, by decide +kernel, by decide +kernel, by decide +kernel⟩,
    _, rfl, by decide +kernel, by decide +kernel, by decide +kernel⟩

end Cluster

end Resharding
