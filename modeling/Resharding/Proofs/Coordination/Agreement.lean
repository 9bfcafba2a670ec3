import Mathlib.Data.List.Perm.Subperm
import Mathlib.Logic.Equiv.Defs
import Resharding.Coordination.Agreement
import Resharding.Proofs.Coordination.Resolution
import Resharding.Topology.Uniform

/-!
What an agreement on stores comes to.

The result follows from how the calls ended (`Agreement.agreement`): every node has to answer with as
many eligible stores as the first one, among them all of the first one's (`agreement_eq_ok_iff`).
Where the first node lists no store twice, this says that all nodes offer the same stores, each in an
order of its own (`agreedStores_rearranged`). A repeated store can hide one that another node has
besides (`agreedStores_blind_to_repeats`).
-/

namespace Resharding

namespace Agreement

open RoundOutcome

/-- How the calls to the nodes ended, as far as they have. -/
abbrev Ends := NodeId → Option (Except CallError (List StoreDefinition))

/-! ### What is to follow from the answers -/

section Spec

variable (c : Cluster) (ends : Ends)

/-- The result when the calls have ended like that. -/
def agreement : Except Error (List StoreDefinition) := agree none (taken ends c.nodeIds)

/-- The eligible stores of a node that answers. -/
def Offers (node : NodeId) (stores : List StoreDefinition) : Prop :=
  ∃ all, ends node = some (.ok all) ∧ StoreDefinition.eligible all = stores

/-- Every node answers, and any two of them offer the same stores, in whatever orders. -/
def AllAgree : Prop :=
  ∀ i ∈ c.nodeIds, ∀ j ∈ c.nodeIds, ∃ as bs, Offers ends i as ∧ Offers ends j bs ∧ as.Perm bs

/-- No node offers a store twice. -/
def NoRepeats : Prop := ∀ node ∈ c.nodeIds, ∀ stores, Offers ends node stores → stores.Nodup

/-- A node with the property, which no node listed before it has. -/
def IsFirstOf (nodes : List NodeId) (p : NodeId → Prop) (node : NodeId) : Prop :=
  p node ∧ ∃ before after, nodes = before ++ node :: after ∧ ∀ other ∈ before, ¬ p other

end Spec

variable {c : Cluster} {ends : Ends} {nodes : List NodeId} {node first : NodeId}
  {stores others agreed result : List StoreDefinition}

theorem Offers.unique (one : Offers ends node stores) (two : Offers ends node others) :
    stores = others := by
  obtain ⟨all, ended, rfl⟩ := one
  obtain ⟨all', ended', rfl⟩ := two
  cases ended.symm.trans ended'
  rfl

theorem exists_isFirstOf {p : NodeId → Prop} (some : ∃ node ∈ nodes, p node) :
    ∃ node, IsFirstOf nodes p node := by
  induction nodes with
  | nil =>
    obtain ⟨node, mem, -⟩ := some
    cases mem
  | cons head rest ih =>
    by_cases here : p head
    · exact ⟨head, here, [], rest, rfl, nofun⟩
    · obtain ⟨node, mem, has⟩ := some
      have later : ∃ node ∈ rest, p node := by
        rcases List.mem_cons.1 mem with rfl | mem
        · exact absurd has here
        · exact ⟨node, mem, has⟩
      obtain ⟨node, has, before, after, split, none⟩ := ih later
      have noneYet : ∀ other ∈ head :: before, ¬ p other := List.forall_mem_cons.2 ⟨here, none⟩
      exact ⟨node, has, head :: before, after, congrArg (head :: ·) split, noneYet⟩

/-- In an ascending list the first node with a property is the smallest one. -/
theorem IsFirstOf.isFirst {p : NodeId → Prop} (ascending : nodes.Pairwise (· ≤ ·))
    (isFirst : IsFirstOf nodes p node) : IsFirst (fun node => node ∈ nodes ∧ p node) node := by
  obtain ⟨has, before, after, rfl, none⟩ := isFirst
  obtain ⟨-, behind, -⟩ := List.pairwise_append.1 ascending
  constructor
  · exact ⟨List.mem_append_right _ List.mem_cons_self, has⟩
  rintro other ⟨mem, hasToo⟩
  rcases List.mem_append.1 mem with mem | mem
  · exact absurd hasToo (none other mem)
  · rcases List.mem_cons.1 mem with rfl | mem
    · exact UInt64.le_refl _
    · exact (List.pairwise_cons.1 behind).1 other mem

/-! ### Comparing two lists -/

theorem sameStores_iff : sameStores agreed stores ↔
    agreed.length = stores.length ∧ agreed ⊆ stores := by
  simp only [sameStores, Bool.and_eq_true, beq_iff_eq, List.all_eq_true, List.contains_iff_mem]
  rfl

theorem sameStores_self (stores : List StoreDefinition) : sameStores stores stores :=
  sameStores_iff.2 ⟨rfl, List.Subset.refl _⟩

/-- A list without repeats is compared up to its order. -/
theorem sameStores_iff_perm (nodup : agreed.Nodup) :
    sameStores agreed stores ↔ stores.Perm agreed := by
  rw [sameStores_iff]
  constructor
  · rintro ⟨length, sub⟩
    have within : agreed.Subperm stores := List.subperm_of_subset nodup sub
    exact (within.perm_of_length_le (Nat.le_of_eq length.symm)).symm
  · intro perm
    exact ⟨perm.length_eq.symm, perm.symm.subset⟩

/-! ### Going through the answers -/

theorem offers_of_ok {all : List StoreDefinition} (counts : orTimeout node (ends node) = .ok all) :
    Offers ends node (StoreDefinition.eligible all) := ⟨all, orTimeout_eq_ok_iff.1 counts, rfl⟩

theorem not_offers_of_error {e : CallError} (counts : orTimeout node (ends node) = .error e) :
    ¬ Offers ends node stores := by
  rintro ⟨all, ended, -⟩
  rw [orTimeout_eq_ok_iff.2 ended] at counts
  cases counts

theorem agree_eq_ok_iff : agree (some agreed) (taken ends nodes) = .ok result ↔
    result = agreed ∧ ∀ node ∈ nodes, ∃ stores, Offers ends node stores ∧ sameStores agreed stores := by
  induction nodes with
  | nil =>
    constructor
    · intro same
      cases same
      exact ⟨rfl, List.forall_mem_nil _⟩
    · rintro ⟨rfl, -⟩
      rfl
  | cons head rest ih =>
    rw [List.forall_mem_cons]
    simp only [taken] at ih ⊢
    rw [List.map_cons]
    cases counts : orTimeout head (ends head) with
    | error e =>
      apply iff_of_false
      · intro same
        cases same
      · rintro ⟨-, ⟨stores, offers, -⟩, -⟩
        exact not_offers_of_error counts offers
    | ok all =>
      have offers := offers_of_ok counts
      simp only [agree]
      split
      · rename_i same
        rw [ih]
        exact and_congr_right' (iff_and_self.2 fun _ => ⟨_, offers, same⟩)
      · rename_i differs
        apply iff_of_false
        · intro same
          cases same
        · rintro ⟨-, ⟨stores, offers', same⟩, -⟩
          exact differs (offers.unique offers' ▸ same)

/-- The first node that offers other stores than agreed ends the agreement, if all before answer. -/
theorem agree_eq_differ {before after : List NodeId}
    (same : ∀ node ∈ before, ∃ stores, Offers ends node stores ∧ sameStores agreed stores)
    (offers : Offers ends node stores) (differs : ¬ sameStores agreed stores) :
    agree (some agreed) (taken ends (before ++ node :: after)) = .error (.storesDiffer node) := by
  induction before with
  | nil =>
    obtain ⟨all, ended, rfl⟩ := offers
    simp only [taken, List.nil_append]
    rw [List.map_cons, orTimeout_eq_ok_iff.2 ended]
    exact if_neg differs
  | cons head rest ih =>
    obtain ⟨⟨stores', ⟨all, ended, rfl⟩, sameHere⟩, sameRest⟩ := List.forall_mem_cons.1 same
    have later := ih sameRest
    simp only [taken] at later ⊢
    rw [List.cons_append, List.map_cons, orTimeout_eq_ok_iff.2 ended]
    exact (if_pos sameHere).trans later

/-! ### The result -/

section Head

variable (head : c.nodeIds.head? = some first)

include head

theorem agreement_of_offers (offers : Offers ends first agreed) :
    ∃ rest, c.nodeIds = first :: rest ∧
      agreement c ends = agree (some agreed) (taken ends rest) := by
  obtain ⟨rest, listed⟩ := List.head?_eq_some_iff.1 head
  obtain ⟨all, ended, rfl⟩ := offers
  refine ⟨rest, listed, ?_⟩
  simp only [agreement]
  rw [listed]
  simp only [taken]
  rw [List.map_cons, orTimeout_eq_ok_iff.2 ended]
  rfl

/-- An agreement is on the stores of the first node: all nodes have as many, and have these. -/
theorem agreement_eq_ok_iff : agreement c ends = .ok agreed ↔ Offers ends first agreed ∧
    ∀ node ∈ c.nodeIds, ∃ stores, Offers ends node stores ∧ sameStores agreed stores := by
  cases counts : orTimeout first (ends first) with
  | error e =>
    refine iff_of_false ?_ fun both => not_offers_of_error counts both.1
    obtain ⟨rest, listed⟩ := List.head?_eq_some_iff.1 head
    simp only [agreement]
    rw [listed]
    simp only [taken]
    rw [List.map_cons, counts]
    intro same
    cases same
  | ok all =>
    have offers := offers_of_ok counts
    obtain ⟨rest, listed, same⟩ := agreement_of_offers head offers
    rw [same, agree_eq_ok_iff, listed, List.forall_mem_cons]
    constructor
    · rintro ⟨rfl, all⟩
      exact ⟨offers, ⟨_, offers, sameStores_self _⟩, all⟩
    · rintro ⟨offers', -, all⟩
      cases offers.unique offers'
      exact ⟨rfl, all⟩

theorem mem_of_head : first ∈ c.nodeIds := List.mem_of_mem_head? head

theorem isFirst_of_head (ascending : c.nodeIds.Pairwise (· ≤ ·)) :
    IsFirst (· ∈ c.nodeIds) first := by
  obtain ⟨rest, listed⟩ := List.head?_eq_some_iff.1 head
  have isFirst : IsFirstOf c.nodeIds (· ∈ c.nodeIds) first :=
    ⟨mem_of_head head, [], rest, listed, nofun⟩
  have least := isFirst.isFirst ascending
  exact ⟨least.1.1, fun other mem => least.2 other ⟨mem, mem⟩⟩

/-- Without repeats on the first node, agreeing with it is to offer what it offers. -/
theorem exists_agreement_iff (nodup : ∀ stores, Offers ends first stores → stores.Nodup) :
    (∃ stores, agreement c ends = .ok stores) ↔ AllAgree c ends := by
  constructor
  · rintro ⟨agreed, done⟩ i memI j memJ
    obtain ⟨offers, all⟩ := (agreement_eq_ok_iff head).1 done
    obtain ⟨as, ofI, sameI⟩ := all i memI
    obtain ⟨bs, ofJ, sameJ⟩ := all j memJ
    have nodup := nodup agreed offers
    exact ⟨as, bs, ofI, ofJ,
      ((sameStores_iff_perm nodup).1 sameI).trans ((sameStores_iff_perm nodup).1 sameJ).symm⟩
  · intro all
    obtain ⟨agreed, -, offers, -, -⟩ := all first (mem_of_head head) first (mem_of_head head)
    refine ⟨agreed, (agreement_eq_ok_iff head).2 ⟨offers, fun node mem => ?_⟩⟩
    obtain ⟨stores, agreed', ofNode, offers', perm⟩ := all node mem first (mem_of_head head)
    cases offers.unique offers'
    exact ⟨stores, ofNode, (sameStores_iff_perm (nodup agreed offers)).2 perm⟩

theorem agreement_of_differ (offers : Offers ends first agreed) (nodup : agreed.Nodup)
    (answered : ∀ node ∈ c.nodeIds, ∃ stores, Offers ends node stores)
    (isFirst : IsFirstOf c.nodeIds
      (fun node => ∃ stores, Offers ends node stores ∧ ¬ stores.Perm agreed) node) :
    agreement c ends = .error (.storesDiffer node) := by
  obtain ⟨⟨stores, ofNode, differs⟩, before, after, split, none⟩ := isFirst
  obtain ⟨rest, listed, same⟩ := agreement_of_offers head offers
  have apart : ¬ sameStores agreed stores := fun same =>
    differs ((sameStores_iff_perm nodup).1 same)
  cases before with
  | nil =>
    -- The first node offers what it offers.
    cases (List.cons.inj (listed.symm.trans split)).1
    cases offers.unique ofNode
    exact absurd (List.Perm.refl _) differs
  | cons b before =>
    obtain ⟨rfl, rfl⟩ := List.cons.inj (listed.symm.trans split)
    rw [same]
    refine agree_eq_differ (fun other mem => ?_) ofNode apart
    have memAll : other ∈ c.nodeIds :=
      split ▸ List.mem_append_left _ (List.mem_cons_of_mem _ mem)
    obtain ⟨stores', ofOther⟩ := answered other memAll
    refine ⟨stores', ofOther, (sameStores_iff_perm nodup).2 ?_⟩
    by_contra notPerm
    exact none other (List.mem_cons_of_mem _ mem) ⟨stores', ofOther, notPerm⟩

end Head

theorem AllAgree.reassign (all : AllAgree c ends) {σ : NodeId → NodeId}
    (within : ∀ node ∈ c.nodeIds, σ node ∈ c.nodeIds) : AllAgree c (ends ∘ σ) :=
  fun i memI j memJ => all (σ i) (within i memI) (σ j) (within j memJ)

/-- A store of which two copies are kept, and another one. -/
def users : StoreDefinition := { name := "users", engine := "bdb", declaredCopies := 2 }

def events : StoreDefinition := { users with name := "events" }

end Agreement

namespace Fleet

open Agreement

variable {f : Fleet} {settings : Settings} {c : Cluster}

theorem agreedStores_eq (ok : f.view.Consistent) (distinct : c.nodeIds.Nodup) :
    (f.agreedStores settings c).1 = agreement c (f.ends settings .stores c.nodeIds) :=
  congrArg (agree none) (takeAll_callRound ok distinct)

/-- The nodes of a cluster agree on stores as the ends of the calls say: on those of the first node, if
every node offers as many and these among them. If the first node offers no store twice, they agree
exactly if all of them answer and offer the same stores up to order, and otherwise the first node
that offers others is named, once all have answered. If no node offers a store twice, it makes no
difference which node offers what. -/
theorem agreedStores_rearranged (reachable : f.Reachable) (settings : Settings)
    (distinct : c.nodeIds.Nodup) {first : NodeId} (head : c.nodeIds.head? = some first) :
    (f.agreedStores settings c).1 = agreement c (f.ends settings .stores c.nodeIds) ∧
      (∀ (ends : Agreement.Ends) agreed, agreement c ends = .ok agreed ↔
        Offers ends first agreed ∧ ∀ node ∈ c.nodeIds, ∃ stores, Offers ends node stores ∧
          agreed.length = stores.length ∧ agreed ⊆ stores) ∧
      (∀ ends : Agreement.Ends, (∀ stores, Offers ends first stores → stores.Nodup) →
        ((∃ stores, agreement c ends = .ok stores) ↔ AllAgree c ends) ∧
        ∀ agreed, Offers ends first agreed →
          (∀ node ∈ c.nodeIds, ∃ stores, Offers ends node stores) →
          (∃ node ∈ c.nodeIds, ∃ stores, Offers ends node stores ∧ ¬ stores.Perm agreed) →
          ∃ node, IsFirstOf c.nodeIds
              (fun node => ∃ stores, Offers ends node stores ∧ ¬ stores.Perm agreed) node ∧
            agreement c ends = .error (.storesDiffer node)) ∧
      (∀ ends : Agreement.Ends, NoRepeats c ends → ∀ σ : Equiv.Perm NodeId,
        (∀ node, σ node ∈ c.nodeIds ↔ node ∈ c.nodeIds) →
        ((∃ stores, agreement c (ends ∘ σ) = .ok stores) ↔
          ∃ stores, agreement c ends = .ok stores)) ∧
      (c.nodeIds.Pairwise (· ≤ ·) → IsFirst (· ∈ c.nodeIds) first ∧
        ∀ p node, IsFirstOf c.nodeIds p node →
          IsFirst (fun node => node ∈ c.nodeIds ∧ p node) node) := by
  refine ⟨agreedStores_eq reachable.consistent distinct, ?_, ?_, ?_, ?_⟩
  · intro ends agreed
    simp only [← sameStores_iff]
    exact agreement_eq_ok_iff head
  · intro ends nodup
    refine ⟨exists_agreement_iff head nodup, ?_⟩
    intro agreed offers answered differs
    obtain ⟨node, isFirst⟩ := exists_isFirstOf differs
    exact ⟨node, isFirst,
      agreement_of_differ head offers (nodup agreed offers) answered isFirst⟩
  · intro ends none σ within
    have mem : first ∈ c.nodeIds := mem_of_head head
    rw [exists_agreement_iff head (none first mem), exists_agreement_iff head
      fun stores offers => none (σ first) ((within first).2 mem) stores offers]
    constructor
    · intro all
      have back : AllAgree c ((ends ∘ σ) ∘ σ.symm) := all.reassign fun node mem => by
        rw [← within, Equiv.apply_symm_apply]
        exact mem
      rw [Function.comp_assoc, Equiv.self_comp_symm] at back
      exact back
    · intro all
      exact all.reassign fun node => (within node).2
  · intro ascending
    exact ⟨isFirst_of_head head ascending, fun _ _ isFirst => isFirst.isFirst ascending⟩

/-- Two servers that list these stores. -/
def listing (first second : List StoreDefinition) : Fleet :=
  ((holding (.uniform 2 1)).setStores 0 first).setStores 1 second

/-- Both nodes offer both stores, in different orders. -/
theorem agreedStores_rearranged_swapped :
    ((listing [users, events] [events, users]).agreedStores {} (.uniform 2 1)).1 =
        .ok [users, events] ∧
      AllAgree (.uniform 2 1) ((listing [users, events] [events, users]).ends {} .stores
        (Cluster.uniform 2 1).nodeIds) := by
  have rearranged := agreedStores_rearranged (f := listing [users, events] [events, users])
    (c := .uniform 2 1) (.adjust (.adjust (.fresh 0 _ none .empty) 0 _) 1 _) {} (by decide)
    (show (Cluster.uniform 2 1).nodeIds.head? = some 0 from rfl)
  have done : ((listing [users, events] [events, users]).agreedStores {} (.uniform 2 1)).1 =
      .ok [users, events] := rfl
  have nodup (stores : List StoreDefinition) (offers : Offers ((listing [users, events]
      [events, users]).ends {} .stores (Cluster.uniform 2 1).nodeIds) 0 stores) :
      stores.Nodup := by
    have offered : Offers ((listing [users, events] [events, users]).ends {} .stores
        (Cluster.uniform 2 1).nodeIds) 0 [users, events] := ⟨[users, events], rfl, rfl⟩
    rw [offers.unique offered]
    decide
  exact ⟨done, (rearranged.2.2.1 _ nodup).1.1 ⟨_, rearranged.1.symm.trans done⟩⟩

/-- A repeated store stands for one that the other node has besides, but not the other way round. -/
theorem agreedStores_blind_to_repeats :
    ((listing [users, users] [users, events]).agreedStores {} (.uniform 2 1)).1 =
        .ok [users, users] ∧
      ((listing [users, events] [users, users]).agreedStores {} (.uniform 2 1)).1 =
        .error (.storesDiffer 1) ∧
      ¬ [users, users].Perm [users, events] :=
  ⟨rfl, rfl, by decide⟩

end Fleet

end Resharding
