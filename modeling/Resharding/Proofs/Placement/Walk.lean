import Mathlib.Data.List.Perm.Subperm
import Resharding.Placement.Walk
import Resharding.Proofs.Ordered.Listing

/-!
What the two walks choose.

Both choose among the first slots of the nodes, which are no two of one node (`firstSlots`). The
consistent walk takes the first few of them (`consistentWalk_eq_take`). Rations are in each zone the
first few (`slotsIn_rationed`), and the zoned walk takes the first few rations
(`zonedWalk_eq_take`): the slots that it passes over for want of a quota would not have been taken
later, as all slots of a node are in one zone. If it may take as many as the quotas come to, it stops
when they are used up and not before, so that no zone is cut short (`zonedWalk_eq_rationed`).
-/

namespace Resharding

/-- The first slot of each node that is not `taken`. -/
def firstSlots : List NodeId → List Slot → List Slot
  | _, [] => []
  | taken, s :: rest =>
    if s.node ∈ taken then firstSlots taken rest else s :: firstSlots (s.node :: taken) rest

/-- The slots for which there is something left of the quota of their zone. -/
def rationed : SortedMap ZoneId Nat → List Slot → List Slot
  | _, [] => []
  | quotas, s :: rest =>
    match quotas.getD s.zone 0 with
    | 0 => rationed quotas rest
    | left + 1 => s :: rationed (quotas.insert s.zone left) rest

/-- The slots of a zone. -/
def slotsIn (zone : ZoneId) (slots : List Slot) : List Slot := slots.filter fun s => s.zone == zone

/-- All slots of a node are in one zone. -/
def ZonedByNode (slots : List Slot) : Prop :=
  ∀ s ∈ slots, ∀ t ∈ slots, s.node = t.node → s.zone = t.zone

variable {slots : List Slot} {taken passed : List NodeId} {quotas : SortedMap ZoneId Nat}
  {count : Nat} {s t : Slot}

theorem mem_slotsIn {zone : ZoneId} : s ∈ slotsIn zone slots ↔ s ∈ slots ∧ s.zone = zone := by
  simp only [slotsIn, List.mem_filter, beq_iff_eq]

theorem slotsIn_cons_of_eq {zone : ZoneId} (here : s.zone = zone) :
    slotsIn zone (s :: slots) = s :: slotsIn zone slots :=
  List.filter_cons_of_pos (beq_iff_eq.2 here)

theorem slotsIn_cons_of_ne {zone : ZoneId} (elsewhere : s.zone ≠ zone) :
    slotsIn zone (s :: slots) = slotsIn zone slots :=
  List.filter_cons_of_neg fun same => elsewhere (beq_iff_eq.1 same)

/-- Slots are counted zone by zone. -/
theorem length_eq_total_slotsIn {zones : List ZoneId} (distinct : zones.Nodup)
    (within : ∀ s ∈ slots, s.zone ∈ zones) :
    slots.length = total (zones.map fun zone => (slotsIn zone slots).length) := by
  induction zones generalizing slots with
  | nil =>
    rw [List.eq_nil_iff_forall_not_mem.2 fun s mem => List.not_mem_nil (within s mem)]
    rfl
  | cons zone zones ih =>
    obtain ⟨fresh, distinct⟩ := List.nodup_cons.1 distinct
    -- The slots of the other zones are those that are left when this zone is taken out.
    have others : ∀ other ∈ zones,
        slotsIn other (slots.filter fun s => !(s.zone == zone)) = slotsIn other slots := by
      intro other mem
      have apart : other ≠ zone := fun same => fresh (same ▸ mem)
      simp only [slotsIn]
      rw [List.filter_filter]
      refine List.filter_congr fun s _ => ?_
      rw [Bool.and_eq_left_iff_imp]
      intro here
      rw [beq_iff_eq.1 here, Bool.not_eq_true', beq_eq_false_iff_ne]
      exact apart
    have rest := @ih (slots.filter fun s => !(s.zone == zone)) distinct fun s mem => by
      obtain ⟨mem, elsewhere⟩ := List.mem_filter.1 mem
      refine (List.mem_cons.1 (within s mem)).resolve_left fun here => ?_
      rw [here, beq_self_eq_true] at elsewhere
      cases elsewhere
    rw [List.map_congr_left fun other mem => congrArg List.length (others other mem)] at rest
    rw [List.map_cons, total_cons, ← rest]
    exact List.length_eq_length_filter_add _

/-! ### First slots -/

theorem firstSlots_sublist (taken : List NodeId) (slots : List Slot) :
    (firstSlots taken slots).Sublist slots := by
  induction slots generalizing taken with
  | nil => exact .slnil
  | cons s rest ih =>
    simp only [firstSlots]
    split
    · exact (ih taken).cons s
    · exact (ih (s.node :: taken)).cons_cons s

theorem not_mem_taken (mem : s ∈ firstSlots taken slots) : s.node ∉ taken := by
  induction slots generalizing taken with
  | nil => cases mem
  | cons t rest ih =>
    simp only [firstSlots] at mem
    split at mem
    · exact ih mem
    · rename_i free
      rcases List.mem_cons.1 mem with rfl | mem
      · exact free
      · exact fun inTaken => ih mem (List.mem_cons_of_mem _ inTaken)

theorem nodup_node_firstSlots (taken : List NodeId) (slots : List Slot) :
    ((firstSlots taken slots).map (·.node)).Nodup := by
  induction slots generalizing taken with
  | nil => exact List.nodup_nil
  | cons s rest ih =>
    simp only [firstSlots]
    split
    · exact ih taken
    · refine List.nodup_cons.2 ⟨fun again => ?_, ih (s.node :: taken)⟩
      obtain ⟨t, mem, same⟩ := List.mem_map.1 again
      exact not_mem_taken mem (same ▸ List.mem_cons_self)

/-- Every node that is not taken has a first slot. -/
theorem exists_mem_firstSlots (mem : s ∈ slots) (free : s.node ∉ taken) :
    ∃ t ∈ firstSlots taken slots, t.node = s.node := by
  induction slots generalizing taken with
  | nil => cases mem
  | cons head rest ih =>
    simp only [firstSlots]
    split
    · rename_i inTaken
      rcases List.mem_cons.1 mem with rfl | mem
      · exact absurd inTaken free
      · exact ih mem free
    · by_cases same : head.node = s.node
      · exact ⟨head, List.mem_cons_self, same⟩
      · have inRest : s ∈ rest := (List.mem_cons.1 mem).resolve_left fun eq => same (eq ▸ rfl)
        have free' : s.node ∉ head.node :: taken := fun inTaken =>
          (List.mem_cons.1 inTaken).elim (Ne.symm same) free
        obtain ⟨t, memT, eq⟩ := ih inRest free'
        exact ⟨t, List.mem_cons_of_mem _ memT, eq⟩

/-- The nodes of the first slots are all nodes. -/
theorem mem_map_node_firstSlots {node : NodeId} :
    node ∈ (firstSlots [] slots).map (·.node) ↔ ∃ s ∈ slots, s.node = node := by
  rw [List.mem_map]
  constructor
  · rintro ⟨s, mem, same⟩
    exact ⟨s, (firstSlots_sublist [] slots).subset mem, same⟩
  · rintro ⟨s, mem, rfl⟩
    exact exists_mem_firstSlots mem List.not_mem_nil

/-- There are no more first slots than nodes. -/
theorem length_firstSlots_le {nodes : List NodeId} (within : ∀ s ∈ slots, s.node ∈ nodes) :
    (firstSlots taken slots).length ≤ nodes.length := by
  rw [← List.length_map (·.node)]
  refine (List.subperm_of_subset (nodup_node_firstSlots taken slots) ?_).length_le
  intro node mem
  obtain ⟨s, chosen, rfl⟩ := List.mem_map.1 mem
  exact within s ((firstSlots_sublist taken slots).subset chosen)

/-- A change to the slots that leaves their nodes alone goes through the choice. -/
theorem firstSlots_map {change : Slot → Slot} (keeps : ∀ s, (change s).node = s.node)
    (taken : List NodeId) (slots : List Slot) :
    firstSlots taken (slots.map change) = (firstSlots taken slots).map change := by
  induction slots generalizing taken with
  | nil => rfl
  | cons s rest ih =>
    simp only [List.map_cons, firstSlots, keeps]
    split
    · exact ih taken
    · rw [ih, List.map_cons]

/-! ### The consistent walk -/

theorem consistentWalk_eq_take (count : Nat) (taken : List NodeId) (slots : List Slot) :
    consistentWalk count taken slots = (firstSlots taken slots).take count := by
  induction slots generalizing count taken with
  | nil => cases count <;> rfl
  | cons s rest ih =>
    cases count with
    | zero => rfl
    | succ count =>
      simp only [consistentWalk, firstSlots]
      split
      · exact ih (count + 1) taken
      · rw [ih, List.take_succ_cons]

/-! ### Rations -/

theorem rationed_sublist (quotas : SortedMap ZoneId Nat) (slots : List Slot) :
    (rationed quotas slots).Sublist slots := by
  induction slots generalizing quotas with
  | nil => exact .slnil
  | cons s rest ih =>
    simp only [rationed]
    split
    · exact (ih quotas).cons s
    · exact (ih _).cons_cons s

theorem getD_insert (quotas : SortedMap ZoneId Nat) (z zone : ZoneId) (left : Nat) :
    (quotas.insert z left).getD zone 0 = if zone = z then left else quotas.getD zone 0 := by
  simp only [SortedMap.getD, SortedMap.get?_insert]
  split <;> rfl

/-- In each zone the rations go to the first slots, as many as the quota says. -/
theorem slotsIn_rationed (zone : ZoneId) (quotas : SortedMap ZoneId Nat) (slots : List Slot) :
    slotsIn zone (rationed quotas slots) = (slotsIn zone slots).take (quotas.getD zone 0) := by
  induction slots generalizing quotas with
  | nil => exact List.take_nil.symm
  | cons s rest ih =>
    simp only [rationed]
    by_cases here : s.zone = zone
    · rw [slotsIn_cons_of_eq here]
      split
      · rename_i none
        rw [ih, ← here, none]
        rfl
      · rename_i left some
        rw [slotsIn_cons_of_eq here, ih, getD_insert, if_pos here.symm, ← here, some]
        rfl
    · rw [slotsIn_cons_of_ne here]
      split
      · exact ih quotas
      · rw [slotsIn_cons_of_ne here, ih, getD_insert, if_neg (Ne.symm here)]

theorem mem_rationed_iff :
    s ∈ rationed quotas slots ↔ s ∈ (slotsIn s.zone slots).take (quotas.getD s.zone 0) := by
  rw [← slotsIn_rationed, mem_slotsIn]
  exact (and_iff_left rfl).symm

theorem getD_pos_of_mem_rationed (mem : s ∈ rationed quotas slots) :
    0 < quotas.getD s.zone 0 :=
  Nat.lt_of_lt_of_le (List.length_pos_of_mem (mem_rationed_iff.1 mem)) (List.length_take_le _ _)

/-- Where a zone is given no fewer, the slots of that zone that were rationed before are again. -/
theorem mem_rationed_of_le {quotas' : SortedMap ZoneId Nat}
    (atLeast : quotas.getD s.zone 0 ≤ quotas'.getD s.zone 0) (mem : s ∈ rationed quotas slots) :
    s ∈ rationed quotas' slots :=
  mem_rationed_iff.2 (List.take_subset_take_left _ atLeast (mem_rationed_iff.1 mem))

/-- Taking one off a quota takes one off the sum. -/
theorem total_insert_pred {zone : ZoneId} {left : Nat} (some : quotas.getD zone 0 = left + 1) :
    total (quotas.insert zone left).values + 1 = total quotas.values := by
  have here : quotas.get? zone = Option.some (left + 1) := by
    simp only [SortedMap.getD] at some
    cases found : quotas.get? zone with
    | none =>
      rw [found] at some
      cases some
    | some quota =>
      rw [found] at some
      exact congrArg Option.some some
  have summed := SortedMap.total_values_insert id left here
  simp only [List.map_id, id] at summed
  omega

/-- No more is handed out than the quotas come to. -/
theorem length_rationed_le (quotas : SortedMap ZoneId Nat) (slots : List Slot) :
    (rationed quotas slots).length ≤ total quotas.values := by
  induction slots generalizing quotas with
  | nil => exact Nat.zero_le _
  | cons s rest ih =>
    simp only [rationed]
    split
    · exact ih quotas
    · rename_i left some
      have summed := total_insert_pred some
      have rest := ih (quotas.insert s.zone left)
      rw [List.length_cons]
      omega

/-! ### The zoned walk -/

/-- The zoned walk hands out the rations among the first slots of the nodes, until it has enough.

Those of which nothing is left of the quota are `passed` over without being taken, so the nodes
that are passed may be more than those taken; their zones have nothing left then. -/
theorem zonedWalk_eq_take_of_passed (zoned : ZonedByNode slots) (sub : taken ⊆ passed)
    (closed : ∀ s ∈ slots, s.node ∈ passed → s.node ∈ taken ∨ quotas.getD s.zone 0 = 0) :
    zonedWalk count quotas taken slots = (rationed quotas (firstSlots passed slots)).take count := by
  induction slots generalizing count quotas taken passed with
  | nil => cases count <;> rfl
  | cons s rest ih =>
    have zonedRest : ZonedByNode rest := fun t memT u memU =>
      zoned t (List.mem_cons_of_mem _ memT) u (List.mem_cons_of_mem _ memU)
    have closedRest : ∀ t ∈ rest, t.node ∈ passed → t.node ∈ taken ∨ quotas.getD t.zone 0 = 0 :=
      fun t mem => closed t (List.mem_cons_of_mem _ mem)
    cases count with
    | zero => rfl
    | succ count =>
      simp only [zonedWalk, firstSlots]
      by_cases inTaken : s.node ∈ taken
      · rw [if_pos inTaken, if_pos (sub inTaken)]
        exact ih zonedRest sub closedRest
      rw [if_neg inTaken]
      cases quota : quotas.getD s.zone 0 with
      | zero =>
        -- Nothing is left for this slot, nor will be for a later one of its node.
        by_cases inPassed : s.node ∈ passed
        · rw [if_pos inPassed]
          exact ih zonedRest sub closedRest
        · rw [if_neg inPassed]
          simp only [rationed, quota]
          refine ih zonedRest (List.Subset.trans sub (List.subset_cons_self ..)) ?_
          intro t mem inMore
          rcases List.mem_cons.1 inMore with same | inPassed
          · right
            rw [zoned t (List.mem_cons_of_mem _ mem) s List.mem_cons_self same]
            exact quota
          · exact closedRest t mem inPassed
      | succ left =>
        have free : s.node ∉ passed := by
          intro inPassed
          rcases closed s List.mem_cons_self inPassed with inTaken' | none
          · exact inTaken inTaken'
          · rw [none] at quota
            cases quota
        rw [if_neg free]
        simp only [rationed, quota]
        rw [List.take_succ_cons]
        congr 1
        refine ih zonedRest (List.cons_subset_cons _ sub) ?_
        intro t mem inMore
        rcases List.mem_cons.1 inMore with same | inPassed
        · exact .inl (same ▸ List.mem_cons_self)
        · rcases closedRest t mem inPassed with inTaken' | none
          · exact .inl (List.mem_cons_of_mem _ inTaken')
          · right
            rw [getD_insert, if_neg, none]
            intro sameZone
            rw [sameZone, quota] at none
            cases none

theorem zonedWalk_eq_take (zoned : ZonedByNode slots) (count : Nat)
    (quotas : SortedMap ZoneId Nat) :
    zonedWalk count quotas [] slots = (rationed quotas (firstSlots [] slots)).take count :=
  zonedWalk_eq_take_of_passed zoned (List.Subset.refl []) fun _ _ => nofun

/-- A walk that goes on until the quotas are used up cuts no zone short. -/
theorem zonedWalk_eq_rationed (zoned : ZonedByNode slots) (enough : total quotas.values ≤ count) :
    zonedWalk count quotas [] slots = rationed quotas (firstSlots [] slots) := by
  rw [zonedWalk_eq_take zoned,
    List.take_of_length_le (Nat.le_trans (length_rationed_le quotas _) enough)]

theorem zonedWalk_sublist (zoned : ZonedByNode slots) :
    (zonedWalk count quotas [] slots).Sublist (firstSlots [] slots) := by
  rw [zonedWalk_eq_take zoned]
  exact (List.take_sublist _ _).trans (rationed_sublist _ _)

end Resharding
