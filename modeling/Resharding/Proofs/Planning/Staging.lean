import Resharding.Proofs.Planning.Copies
import Resharding.Proofs.Planning.Gains

/-!
Planning does not see who is staged.

The nodes that staging adds own nothing, so they claim nothing (`Cluster.claims_stage`) and the ring
does not show them (`Ring.ofCluster_stage`). Every store is then placed as before
(`Strategy.ofStore_stage`), nobody is credited with anything else (`Cluster.holdings_stage`), and a
node that is not there gains what one gains that is there with nothing (`primariesGained_stage`,
`replicasGained_stage`).
-/

namespace Resharding

variable {c target : Cluster} {owners : SortedMap PartitionId NodeId} {zoneOf zoneOf' : NodeId → ZoneId}
  {choose : StrategyChoice} {stores : List StoreDefinition}
  {includePrimary : Bool} {h : Holdings} {ids : List NodeId} {node : NodeId} {p : PartitionId}

/-! ### The ring and strategies -/

theorem Cluster.zoneOf_stage (wf : c.WellFormed) (wfTarget : target.WellFormed)
    (member : c.contains node) : (c.stage target).zoneOf node = c.zoneOf node := by
  obtain ⟨n, found⟩ := Option.isSome_iff_exists.1 member
  simp only [zoneOf]
  rw [node?_stage wf wfTarget, found, Option.some_or]

/-- The zones of those that own nothing do not show on the ring. -/
theorem Ring.of_congr (same : ∀ p node, owners.get? p = some node → zoneOf node = zoneOf' node) :
    Ring.of owners zoneOf = Ring.of owners zoneOf' := by
  simp only [Ring.of, Ring.mk.injEq]
  refine List.map_congr_left fun e mem => ?_
  rw [same e.1 e.2 (SortedMap.get?_eq_some_iff.2 mem)]

theorem Ring.ofCluster_stage (wf : c.WellFormed) (wfTarget : target.WellFormed) :
    Ring.ofCluster (c.stage target) = Ring.ofCluster c := by
  have same := Cluster.ownership_stage wf wfTarget
  cases owns : c.ownership with
  | error e =>
    simp only [Ring.ofCluster, same, owns]
    rfl
  | ok owners =>
    rw [Ring.ofCluster_eq owns, Ring.ofCluster_eq (same.trans owns)]
    refine congrArg _ (Ring.of_congr fun p node owner => ?_)
    exact Cluster.zoneOf_stage wf wfTarget (wf.contains_owner owns owner)

/-- Every store has the same strategy, or is refused for the same reason. -/
theorem Strategy.ofStore_stage (wf : c.WellFormed) (wfTarget : target.WellFormed)
    (store : StoreDefinition) : ofStore store (c.stage target) = ofStore store c := by
  have zones : (c.stage target).zones = c.zones := Cluster.zones_replaceNodes wf
  have name : (c.stage target).name = c.name := rfl
  simp only [ofStore, consistent, zoned, Ring.ofCluster_stage wf wfTarget,
    missingZone?_congr zones, name]

/-! ### Holdings -/

namespace Holdings

/-- The holdings with some ids listed as holding nothing. -/
def listing (h : Holdings) (ids : List NodeId) : Holdings :=
  h.insertAll (ids.map fun id => (id, .empty))

theorem get?_listing :
    (h.listing ids).get? node = if node ∈ ids then some .empty else h.get? node :=
  SortedMap.get?_insertAll_const ids (SortedSet.empty : SortedSet PartitionId) h node

/-- Crediting a node does not depend on which others are listed. -/
theorem credit_listing (h : Holdings) (known : node ∉ ids) (p : PartitionId) :
    (h.listing ids).credit node p = (h.credit node p).listing ids := by
  refine SortedMap.ext_get? fun other => ?_
  rw [get?_listing]
  simp only [credit, SortedMap.get?_adjust, SortedMap.getD, get?_listing, if_neg known]
  by_cases same : other = node
  · rw [if_pos same, if_pos same, if_neg (same ▸ known)]
  · rw [if_neg same, if_neg same]

/-- A change that commutes with every step commutes with all of them in turn. -/
theorem foldlM_map {α β ε : Type} {step : β → α → Except ε β} (change : β → β)
    (commutes : ∀ b a, step (change b) a = (step b a).map change) (as : List α) (b : β) :
    as.foldlM step (change b) = (as.foldlM step b).map change := by
  induction as generalizing b with
  | nil => rfl
  | cons a rest ih =>
    rw [List.foldlM_cons, List.foldlM_cons, commutes]
    cases step b a with
    | error e => rfl
    | ok b' => exact ih b'

theorem creditCopies_listing (known : ∀ q node, owners.get? q = some node → node ∉ ids)
    (copies : List PartitionId) (h : Holdings) :
    creditCopies owners p (h.listing ids) copies =
      (creditCopies owners p h copies).map (·.listing ids) := by
  refine foldlM_map (·.listing ids) (fun h copy => ?_) copies h
  cases owner : owners.get? copy with
  | none => rfl
  | some holder => exact congrArg _ (credit_listing h (known copy holder owner) p)

end Holdings

namespace Cluster

/-- The ids of the nodes of a target that a cluster lacks. -/
def newIds (c target : Cluster) : List NodeId := target.nodeIds.filter fun id => !c.contains id

theorem mem_newIds (wfTarget : target.WellFormed) :
    node ∈ c.newIds target ↔ target.contains node ∧ ¬ c.contains node := by
  simp only [newIds, List.mem_filter, wfTarget.contains_iff, Bool.not_eq_true', Bool.not_eq_true]

theorem start_stage (wf : c.WellFormed) (wfTarget : target.WellFormed) :
    Holdings.start (c.stage target) = (Holdings.start c).listing (c.newIds target) := by
  refine SortedMap.ext_get? fun node => ?_
  rw [Holdings.get?_listing]
  simp only [Holdings.start, SortedMap.get?_ofList_const, mem_newIds wfTarget,
    ← wf.contains_iff, ← wf.stage.contains_iff, contains_stage wf wfTarget, Bool.or_eq_true]
  by_cases here : c.contains node
  · rw [if_pos (.inl here), if_neg (fun new => new.2 here), if_pos here]
  · simp only [here, false_or, Bool.false_eq_true, not_false_eq_true, and_true, if_false]

theorem ofStrategy_stage (wf : c.WellFormed) (wfTarget : target.WellFormed)
    (owns : c.ownership = .ok owners) (strategy : Strategy) :
    Holdings.ofStrategy (c.stage target) owners strategy includePrimary =
      (Holdings.ofStrategy c owners strategy includePrimary).map
        (·.listing (c.newIds target)) := by
  have known : ∀ q node, owners.get? q = some node → node ∉ c.newIds target :=
    fun q node owner new => ((mem_newIds wfTarget).1 new).2 (wf.contains_owner owns owner)
  have listed : (c.stage target).nodes.flatMap (·.partitions) = c.nodes.flatMap (·.partitions) :=
    listed_stage wf wfTarget
  simp only [Holdings.ofStrategy, start_stage wf wfTarget, listed]
  refine Holdings.foldlM_map (fun h : Holdings => h.listing (c.newIds target)) (fun h p => ?_) _ _
  exact Holdings.creditCopies_listing known _ h

/-- With staged nodes all hold what they held, and those nodes nothing, for any way of choosing
strategies that does not see them. -/
theorem holdings_stage (wf : c.WellFormed) (wfTarget : target.WellFormed)
    (unseen : ∀ store, choose store (c.stage target) = choose store c) :
    (c.stage target).holdings choose stores includePrimary =
      (c.holdings choose stores includePrimary).map (·.listing (c.newIds target)) := by
  simp only [holdings, ownership_stage wf wfTarget, unseen]
  cases owns : c.ownership with
  | error e => rfl
  | ok owners =>
    cases StoreDefinition.mostReplicated? stores with
    | none => rfl
    | some store =>
      cases placed : choose store c with
      | error e =>
        simp only [placed]
        rfl
      | ok strategy =>
        simp only [placed]
        exact ofStrategy_stage wf wfTarget owns strategy

/-- Ids that were not listed hold as much as before when they are. -/
theorem held_listing (wfTarget : target.WellFormed) (wf : c.WellFormed)
    (done : c.holdings choose stores includePrimary = .ok h) (node : NodeId) :
    (h.listing (c.newIds target)).held node = h.held node := by
  simp only [Holdings.held, SortedMap.getD, Holdings.get?_listing]
  split
  · rename_i new
    have unlisted : h.get? node = none := by
      refine Option.eq_none_iff_forall_ne_some.2 fun held here => ?_
      have listed : node ∈ h.keys := SortedMap.mem_keys_iff.2 ⟨held, here⟩
      rw [keys_holdings done, SortedSet.mem_toList, SortedSet.mem_ofList] at listed
      exact ((mem_newIds wfTarget).1 new).2 (wf.contains_iff.2 listed)
    rw [unlisted, Option.getD_none, Option.getD_some]
  · rfl

end Cluster

/-! ### Gains -/

theorem gained_congr {before before' : Option (SortedSet PartitionId)}
    (same : before.getD .empty = before'.getD .empty) (after : Option (SortedSet PartitionId)) :
    gained before after = gained before' after :=
  SortedSet.ext_mem fun p => by rw [mem_gained, mem_gained, same]

/-- A node that is not there gains the same primaries as one that is there and owns nothing. -/
theorem primariesGained_stage (wf : c.WellFormed) (wfTarget : target.WellFormed) (other : Cluster)
    (stealer : NodeId) :
    primariesGained (c.stage target) other stealer = primariesGained c other stealer := by
  simp only [primariesGained]
  refine congrArg _ (funext fun there => congrArg _ (gained_congr ?_ _))
  exact Cluster.owned_stage wf wfTarget stealer

/-- A node that is not there gains the same copies as one that is there and holds nothing. -/
theorem replicasGained_stage (wf : c.WellFormed) (wfTarget : target.WellFormed) (other : Cluster)
    (unseen : ∀ store, choose store (c.stage target) = choose store c) (stealer : NodeId) :
    replicasGained choose (c.stage target) other stores stealer =
      replicasGained choose c other stores stealer := by
  simp only [replicasGained, Cluster.holdings_stage wf wfTarget unseen]
  cases done : c.holdings choose stores false with
  | error e => rfl
  | ok here =>
    cases other.holdings choose stores false with
    | error e => rfl
    | ok there =>
      change Except.ok (gained ((here.listing (c.newIds target)).get? stealer) _ \
        (c.stage target).owned stealer) = .ok (gained (here.get? stealer) _ \ c.owned stealer)
      rw [Cluster.owned_stage wf wfTarget, gained_congr (Cluster.held_listing wfTarget wf done stealer)]

/-- Whether a cluster is planned from with the nodes of a target staged or without them makes no
difference to who owns what, or to the error if that is not settled, to the strategy of any store, to
what every node holds, staged nodes being listed with nothing, and to what a node gains in the target,
as primaries and as copies. -/
theorem staging_unseen (built : c.Built) (builtTarget : target.Built) :
    (c.stage target).ownership = c.ownership ∧
      (∀ store, Strategy.ofStore store (c.stage target) = Strategy.ofStore store c) ∧
      (∀ stores includePrimary,
        (c.stage target).holdings Strategy.ofStore stores includePrimary =
          (c.holdings Strategy.ofStore stores includePrimary).map
            (·.listing (c.newIds target))) ∧
      (∀ stealer,
        primariesGained (c.stage target) target stealer = primariesGained c target stealer) ∧
      ∀ stores stealer,
        replicasGained Strategy.ofStore (c.stage target) target stores stealer =
          replicasGained Strategy.ofStore c target stores stealer := by
  have wf := built.wellFormed
  have wfTarget := builtTarget.wellFormed
  have unseen := Strategy.ofStore_stage wf wfTarget
  exact ⟨Cluster.ownership_stage wf wfTarget, unseen,
    fun _ _ => Cluster.holdings_stage wf wfTarget unseen,
    fun stealer => primariesGained_stage wf wfTarget target stealer,
    fun _ stealer => replicasGained_stage wf wfTarget target unseen stealer⟩

/-- Two nodes that both list partition 0. -/
def Cluster.contested : Cluster := (Cluster.uniform 2 2).replaceNodes [.create 1 "localhost" [3, 0]]

/-- A third node joins: staged or not, it gains the same and held nothing, and where two nodes already
contend for a partition they are named either way. -/
theorem staging_unseen_joining :
    ∃ h, (Cluster.uniform 2 2).holdings Strategy.ofStore [.plain 2] true = .ok h ∧
      ((Cluster.uniform 2 2).stage (.uniform 3 2)).holdings Strategy.ofStore [.plain 2] true =
        .ok (h.listing [2]) ∧
      primariesGained ((Cluster.uniform 2 2).stage (.uniform 3 2)) (.uniform 3 2) 2 =
        .ok (.ofList [4, 5]) ∧
      replicasGained Strategy.ofStore ((Cluster.uniform 2 2).stage (.uniform 3 2)) (.uniform 3 2)
        [.plain 2] 2 = .ok (.ofList [2, 3]) ∧
      (Cluster.contested.stage (.uniform 3 2)).ownership = .error (.listedTwice 0 0 1) := by
  have contested : Cluster.contested.Built :=
    .replaceNodes (.uniform 2 2) fun n mem => List.mem_singleton.1 mem ▸ .create ..
  obtain ⟨-, -, holdings, primaries, replicas⟩ := staging_unseen (.uniform 2 2) (.uniform 3 2)
  obtain ⟨ownership, -⟩ := staging_unseen contested (.uniform 3 2)
  obtain ⟨h, done⟩ : ∃ h, (Cluster.uniform 2 2).holdings Strategy.ofStore [.plain 2] true = .ok h :=
    ⟨_, rfl⟩
  refine ⟨h, done, ?_, (primaries 2).trans rfl, (replicas [.plain 2] 2).trans rfl,
    ownership.trans rfl⟩
  have new : (Cluster.uniform 2 2).newIds (.uniform 3 2) = [2] := by decide +kernel
  rw [holdings, done, new]
  rfl

end Resharding
