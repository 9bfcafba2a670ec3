import Resharding.Coordination.Readiness
import Resharding.Proofs.Fleet.Awaited
import Resharding.Proofs.Ordered.Listing

/-!
Whether a fleet is ready.

Both checks ask the nodes of a cluster one after the other until one of them offends
(`Fleet.inspect_spec`), so what comes of a check is told by what counts as an offence: a node that
cannot be reached, one in another state than the normal one (`Fleet.StateOffence`), and one without
the movable format for some store (`Fleet.FormatOffence`). A node that was asked is left as it was
(`Fleet.readiness_decided`).
-/

namespace Resharding.Fleet

variable {f : Fleet} {nodes : List Node} {n : Node} {e : Error} {request : Request}

/-! ### Asking one after the other -/

/-- Nodes are asked until one of them offends: the result of asking, and the nodes that were asked.
-/
inductive Checked (offence : Node → Error → Prop) (nodes : List Node) :
    Except Error Unit → List Node → Prop where
  | pass (fit : ∀ n ∈ nodes, ∀ e, ¬ offence n e) : Checked offence nodes (.ok ()) nodes
  | fail (before : List Node) {after : List Node} {n : Node} {e : Error}
      (split : nodes = before ++ n :: after)
      (fit : ∀ m ∈ before, ∀ e, ¬ offence m e) (offends : offence n e) :
      Checked offence nodes (.error e) (before ++ [n])

theorem Checked.cons {offence : Node → Error → Prop} {result : Except Error Unit}
    {asked : List Node} (fit : ∀ e, ¬ offence n e) (rest : Checked offence nodes result asked) :
    Checked offence (n :: nodes) result (n :: asked) := by
  cases rest with
  | pass others => exact .pass (List.forall_mem_cons.2 ⟨fit, others⟩)
  | fail before split others offends =>
    exact .fail (n :: before) (congrArg (n :: ·) split) (List.forall_mem_cons.2 ⟨fit, others⟩)
      offends

/-- Asking succeeds exactly when no node offends. -/
theorem Checked.eq_ok_iff {offence : Node → Error → Prop} {result : Except Error Unit}
    {asked : List Node} (checked : Checked offence nodes result asked) :
    result = .ok () ↔ ∀ n ∈ nodes, ∀ e, ¬ offence n e := by
  cases checked with
  | pass fit => exact iff_of_true rfl fit
  | fail before split fit offends =>
    refine iff_of_false nofun fun none => none _ ?_ _ offends
    rw [split]
    exact List.mem_append_right _ List.mem_cons_self

/-- Offences that are the same on the nodes asked count the same. -/
theorem Checked.congr {offence offence' : Node → Error → Prop} {result : Except Error Unit}
    {asked : List Node} (checked : Checked offence nodes result asked)
    (same : ∀ n e, offence n e ↔ offence' n e) : Checked offence' nodes result asked := by
  have eq : offence = offence' := funext fun n => funext fun e => propext (same n e)
  exact eq ▸ checked

/-- The same request to one node after the other, until the answer of one is found wanting. -/
def inspect (request : Request) (judge : Node → Except CallError request.Reply → Option Error) :
    Fleet → List Node → Except Error Unit × Fleet
  | f, [] => (.ok (), f)
  | f, n :: rest =>
    match judge n (f.call n.id request).1 with
    | some e => (.error e, (f.call n.id request).2)
    | none => inspect request judge (f.call n.id request).2 rest

/-- The checks of two fleets whose servers are alike come to the same. -/
theorem Checked.of_besides {f g : Fleet}
    {judge : Node → Except CallError request.Reply → Option Error}
    {result : Except Error Unit} {asked : List Node}
    (blind : ∀ node s, request.reply node s.besides = request.reply node s)
    (alike : ∀ node, (g.servers.get? node).map Server.besides =
      (f.servers.get? node).map Server.besides)
    (checked : Checked (fun n e => judge n (request.answer n.id (g.find n.id)) = some e) nodes
      result asked) :
    Checked (fun n e => judge n (request.answer n.id (f.find n.id)) = some e) nodes
      result asked := by
  refine checked.congr fun n e => ?_
  rw [Request.answer_besides (blind n.id) (find_besides (alike n.id))]

/-- What is left by asking some nodes: nothing but clusters has changed, by calls of others, and one
call more has been begun for each of the nodes. If nobody else makes calls, that is all. -/
structure Asked (f f' : Fleet) (operation : Operation) (asked : List Node) : Prop where
  besides : ∀ node, (f'.servers.get? node).map Server.besides =
    (f.servers.get? node).map Server.besides
  tally : ∀ other node, f'.view.tally other node = f.view.tally other node +
    asked.countP fun n => n.id = node ∧ operation = other
  quiet : f.Quiet → f'.Quiet
  servers : f.Quiet → f'.servers = f.servers
  calls : f.Quiet → f'.calls = f.calls ++ asked.map fun n => ⟨n.id, operation⟩

theorem Asked.none (f : Fleet) (operation : Operation) : Asked f f operation [] :=
  ⟨fun _ => rfl, fun _ _ => rfl, id, fun _ => rfl, fun _ => (List.append_nil _).symm⟩

theorem Asked.trans {f g h : Fleet} {operation : Operation} {first second : List Node}
    (asked : Asked f g operation first) (later : Asked g h operation second) :
    Asked f h operation (first ++ second) := by
  refine ⟨fun node => (later.besides node).trans (asked.besides node), fun other node => ?_,
    fun quiet => later.quiet (asked.quiet quiet),
    fun quiet => (later.servers (asked.quiet quiet)).trans (asked.servers quiet), fun quiet => ?_⟩
  · rw [later.tally, asked.tally, List.countP_append, Nat.add_assoc]
  · rw [later.calls (asked.quiet quiet), asked.calls quiet, List.append_assoc, List.map_append]

theorem Continues.asked (continues : Continues f (f.call n.id request).2 n.id request)
    (unlimited : f.permits = .none) (reads : ∀ s, request.effect s = s) :
    Asked f (f.call n.id request).2 request.operation [n] where
  besides := continues.besides
  tally other node := by
    rw [continues.tally, List.countP_singleton]
    simp only [decide_eq_true_eq]
  quiet quiet := quiet.call unlimited n.id request
  servers quiet := servers_call_of_kept quiet unlimited fun s _ => reads s
  calls quiet := calls_call quiet unlimited n.id request

/-- Asking for what changes nothing and does not tell clusters finds the first node whose answer is
wanting, also if other calls are under way, and makes one call to each node up to that one. -/
theorem inspect_spec (request : Request) (serving : f.Serving) (unlimited : f.permits = none)
    (reads : ∀ s, request.effect s = s)
    (blind : ∀ node s, request.reply node s.besides = request.reply node s)
    (judge : Node → Except CallError request.Reply → Option Error) (nodes : List Node) :
    ∃ asked, Checked (fun n e => judge n (request.answer n.id (f.find n.id)) = some e) nodes
        (inspect request judge f nodes).1 asked ∧
      Asked f (inspect request judge f nodes).2 request.operation asked := by
  induction nodes generalizing f with
  | nil => exact ⟨[], .pass nofun, .none f _⟩
  | cons n rest ih =>
    obtain ⟨continues, found, answers, alike⟩ := serving.call unlimited n.id request
    have one := continues.asked unlimited reads
    rw [Request.answer_besides (blind n.id) alike] at answers
    simp only [inspect]
    rw [answers]
    cases judged : judge n (request.answer n.id (f.find n.id)) with
    | some e => exact ⟨[n], .fail [] rfl nofun judged, one⟩
    | none =>
      obtain ⟨asked, checked, later⟩ := ih continues.serving continues.unlimited
      refine ⟨n :: asked, .cons ?_ (checked.of_besides blind continues.besides), one.trans later⟩
      intro e offends
      rw [judged] at offends
      cases offends

/-! ### States -/

/-- Why a node is not in the normal state. -/
inductive StateOffence (f : Fleet) (n : Node) : Error → Prop where
  | unreachable (misses : f.find n.id = .error (.unreachable n.id)) :
      StateOffence f n (.noAnswer n.id (.unreachable n.id))
  | notNormal {s : Server} (finds : f.find n.id = .ok s) (other : s.state ≠ .normal) :
      StateOffence f n (.notNormal n.id n.host s.state)

/-- What is wrong with the answer of a node that is asked for its state. -/
def judgeState (n : Node) : Except CallError ServerState → Option Error
  | .error e => some (.noAnswer n.id e)
  | .ok state => if state.isNormal then none else some (.notNormal n.id n.host state)

theorem checkStates_eq (f : Fleet) (nodes : List Node) :
    f.checkStates nodes = inspect .state judgeState f nodes := by
  induction nodes generalizing f with
  | nil => rfl
  | cons n rest ih =>
    simp only [checkStates, inspect]
    cases called : f.call n.id .state with
    | mk answer g =>
      cases answer with
      | error e => rfl
      | ok state =>
        simp only [judgeState]
        cases state.isNormal with
        | true => exact ih g
        | false => rfl

theorem judgeState_eq_some_iff :
    judgeState n (Request.answer .state n.id (f.find n.id)) = some e ↔ StateOffence f n e := by
  cases finds : f.find n.id with
  | error e' =>
    cases error_of_find finds
    constructor
    · intro judged
      cases judged
      exact .unreachable finds
    · rintro (_ | ⟨finds', -⟩)
      · rfl
      · cases finds.symm.trans finds'
  | ok s =>
    change (if s.state.isNormal then none else some (Error.notNormal n.id n.host s.state)) = _ ↔ _
    rw [Option.ite_none_left_eq_some, Option.some.injEq]
    constructor
    · rintro ⟨other, rfl⟩
      exact .notNormal finds fun normal => other (beq_iff_eq.2 normal)
    · rintro (misses | ⟨finds', other⟩)
      · cases finds.symm.trans misses
      · cases finds.symm.trans finds'
        exact ⟨fun normal => other (beq_iff_eq.1 normal), rfl⟩

/-- A node offends by no state exactly when it can be reached and is in the normal one. -/
theorem no_stateOffence_iff :
    (∀ e, ¬ StateOffence f n e) ↔ ∃ s, f.find n.id = .ok s ∧ s.state = .normal := by
  cases finds : f.find n.id with
  | error e =>
    cases error_of_find finds
    exact iff_of_false (fun none => none _ (.unreachable finds)) fun ⟨_, eq, _⟩ => nomatch eq
  | ok s =>
    constructor
    · intro innocent
      exact ⟨s, rfl, not_not.1 fun other => innocent _ (.notNormal finds other)⟩
    · rintro ⟨s', same, normal⟩ e (misses | ⟨finds', other⟩)
      · cases finds.symm.trans misses
      · cases same
        cases finds.symm.trans finds'
        exact other normal

/-! ### Formats -/

/-- Why a node does not have the movable format for all of some stores. A store without a format
counts before any with another format, and the first one in the list counts; of those with another
format, the first one in the order of names does. -/
inductive FormatOffence (f : Fleet) (stores : List String) (n : Node) : Error → Prop where
  | unreachable (misses : f.find n.id = .error (.unreachable n.id)) :
      FormatOffence f stores n (.noAnswer n.id (.unreachable n.id))
  | missing {s : Server} {before after : List String} {store : String}
      (finds : f.find n.id = .ok s) (split : stores = before ++ store :: after)
      (there : ∀ other ∈ before, s.formats.get? other ≠ none)
      (lacks : s.formats.get? store = none) :
      FormatOffence f stores n (.noAnswer n.id (.remote (.storeNotFound store)))
  | wrong {s : Server} {store format : String} (finds : f.find n.id = .ok s)
      (there : ∀ other ∈ stores, s.formats.get? other ≠ none) (mem : store ∈ stores)
      (has : s.formats.get? store = some format) (other : format ≠ "ro2")
      (first : ∀ other ∈ stores, other < store → s.formats.get? other = some "ro2") :
      FormatOffence f stores n (.immovableStore n.id store format "ro2")

theorem compare_eq_lt_iff {a b : String} : compare a b = .lt ↔ a < b :=
  compareOfLessAndEq_eq_lt

theorem ofCode?_eq_movable_iff {code : String} :
    StorageFormat.ofCode? code = some .movable ↔ code = "ro2" := by
  constructor
  · intro known
    simp only [StorageFormat.ofCode?] at known
    have same := List.find?_some known
    exact (eq_of_beq same).symm
  · rintro rfl
    exact StorageFormat.ofCode?_code .movable

section Formats

variable {formats found : SortedMap String String} {stores : List String} {store format : String}

/-- The formats of the named stores along with those already found. -/
def formatsFrom (formats found : SortedMap String String) (stores : List String) :
    Except CallError (SortedMap String String) :=
  stores.foldlM (fun found store =>
    match formats.get? store with
    | some format => .ok (found.insert store format)
    | none => .error (.remote (.storeNotFound store))) found

theorem formatsFrom_cons_of_some (has : formats.get? store = some format) :
    formatsFrom formats found (store :: stores) =
      formatsFrom formats (found.insert store format) stores := by
  simp only [formatsFrom]
  rw [List.foldlM_cons, has]
  rfl

theorem formatsFrom_cons_of_none (lacks : formats.get? store = none) :
    formatsFrom formats found (store :: stores) = .error (.remote (.storeNotFound store)) := by
  simp only [formatsFrom]
  rw [List.foldlM_cons, lacks]
  rfl

/-- The first store in the list that has no format is the one that is reported. -/
theorem formatsFrom_of_missing {before after : List String}
    (there : ∀ other ∈ before, formats.get? other ≠ none) (lacks : formats.get? store = none) :
    formatsFrom formats found (before ++ store :: after) =
      .error (.remote (.storeNotFound store)) := by
  induction before generalizing found with
  | nil => exact formatsFrom_cons_of_none lacks
  | cons first before ih =>
    obtain ⟨format, has⟩ := Option.ne_none_iff_exists'.1 (there first List.mem_cons_self)
    rw [List.cons_append, formatsFrom_cons_of_some has]
    exact ih fun other mem => there other (List.mem_cons_of_mem _ mem)

/-- If every store has a format, these are the formats that are found. -/
theorem exists_formatsFrom (found : SortedMap String String)
    (there : ∀ other ∈ stores, formats.get? other ≠ none) :
    ∃ all, formatsFrom formats found stores = .ok all ∧
      ∀ k, all.get? k = if k ∈ stores then formats.get? k else found.get? k := by
  induction stores generalizing found with
  | nil => exact ⟨found, rfl, fun _ => rfl⟩
  | cons first rest ih =>
    obtain ⟨format, has⟩ := Option.ne_none_iff_exists'.1 (there first List.mem_cons_self)
    obtain ⟨all, eq, finds⟩ := ih (found.insert first format) fun other mem =>
      there other (List.mem_cons_of_mem _ mem)
    refine ⟨all, (formatsFrom_cons_of_some has).trans eq, fun k => ?_⟩
    rw [finds, SortedMap.get?_insert]
    by_cases later : k ∈ rest
    · rw [if_pos later, if_pos (List.mem_cons_of_mem _ later)]
    · rw [if_neg later]
      by_cases same : k = first
      · rw [if_pos same, same, if_pos List.mem_cons_self, has]
      · rw [if_neg same, if_neg fun mem => (List.mem_cons.1 mem).elim same later]

/-- Either every store has a format, or some store in the list is the first that has none. -/
theorem there_or_missing (formats : SortedMap String String) (stores : List String) :
    (∀ other ∈ stores, formats.get? other ≠ none) ∨
      ∃ before store after, stores = before ++ store :: after ∧
        (∀ other ∈ before, formats.get? other ≠ none) ∧ formats.get? store = none := by
  cases first : stores.find? fun store => (formats.get? store).isNone with
  | none =>
    refine .inl fun other mem lacks => List.find?_eq_none.1 first other mem ?_
    exact Option.isNone_iff_eq_none.2 lacks
  | some store =>
    obtain ⟨lacks, before, after, split, there⟩ := List.find?_eq_some_iff_append.1 first
    refine .inr ⟨before, store, after, split, fun other mem none => ?_,
      Option.isNone_iff_eq_none.1 lacks⟩
    have some := there other mem
    rw [none] at some
    cases some

theorem immovable?_eq_none_iff :
    immovable? formats = none ↔ ∀ k v, formats.get? k = some v → v = "ro2" := by
  simp only [immovable?]
  rw [List.find?_eq_none]
  constructor
  · intro none k v here
    have movable := none (k, v) (SortedMap.get?_eq_some_iff.1 here)
    rw [bne_iff_ne, not_not] at movable
    exact ofCode?_eq_movable_iff.1 movable
  · rintro all ⟨k, v⟩ mem
    rw [bne_iff_ne, not_not]
    exact ofCode?_eq_movable_iff.2 (all k v (SortedMap.get?_eq_some_iff.2 mem))

/-- The store that is found to be immovable is the first in the order of names. -/
theorem immovable?_eq_some_iff :
    immovable? formats = some (store, format) ↔ formats.get? store = some format ∧
      format ≠ "ro2" ∧ ∀ k v, k < store → formats.get? k = some v → v = "ro2" := by
  have ascending (before after : List (String × String))
      (split : formats.toList = before ++ (store, format) :: after) :
      (∀ e ∈ before, e.1 < store) ∧ ∀ e ∈ after, store < e.1 := by
    have sorted := formats.ascending
    rw [show formats.entries = _ from split] at sorted
    obtain ⟨-, rest, across⟩ := List.pairwise_append.1 sorted
    exact ⟨fun e mem => compare_eq_lt_iff.1 (across e mem _ List.mem_cons_self),
      fun e mem => compare_eq_lt_iff.1 ((List.pairwise_cons.1 rest).1 e mem)⟩
  simp only [immovable?]
  rw [List.find?_eq_some_iff_append, bne_iff_ne, ne_eq, ofCode?_eq_movable_iff]
  constructor
  · rintro ⟨other, before, after, split, passed⟩
    have mem : (store, format) ∈ formats.toList := by
      rw [split]
      exact List.mem_append_right _ List.mem_cons_self
    refine ⟨SortedMap.get?_eq_some_iff.2 mem, other, fun k v less here => ?_⟩
    have listed : (k, v) ∈ before ++ (store, format) :: after :=
      split ▸ SortedMap.get?_eq_some_iff.1 here
    rcases List.mem_append.1 listed with front | back
    · have movable := passed _ front
      rw [Bool.not_eq_true', bne_eq_false_iff_eq] at movable
      exact ofCode?_eq_movable_iff.1 movable
    · rcases List.mem_cons.1 back with same | later
      · cases same
        exact absurd less (String.lt_irrefl _)
      · exact absurd ((ascending before after split).2 _ later) (String.lt_asymm less)
  · rintro ⟨here, other, first⟩
    obtain ⟨before, after, split⟩ := List.append_of_mem (SortedMap.get?_eq_some_iff.1 here)
    refine ⟨other, before, after, split, fun e mem => ?_⟩
    have listed : e ∈ formats.toList := by
      rw [SortedMap.toList, split]
      exact List.mem_append_left _ mem
    have movable := first e.1 e.2 ((ascending before after split).1 e mem)
      (SortedMap.get?_eq_some_iff.2 listed)
    rw [Bool.not_eq_true', bne_eq_false_iff_eq]
    exact ofCode?_eq_movable_iff.2 movable

end Formats

/-- What is wrong with the answer of a node that is asked for the formats of some stores. -/
def judgeFormats (n : Node) : Except CallError (SortedMap String String) → Option Error
  | .error e => some (.noAnswer n.id e)
  | .ok formats => (immovable? formats).map fun (store, format) =>
      .immovableStore n.id store format StorageFormat.movable.code

theorem checkFormatsOf_eq (f : Fleet) (stores : List String) (nodes : List Node) :
    f.checkFormatsOf stores nodes = inspect (.formats stores) judgeFormats f nodes := by
  induction nodes generalizing f with
  | nil => rfl
  | cons n rest ih =>
    simp only [checkFormatsOf, inspect]
    cases called : f.call n.id (.formats stores) with
    | mk answer g =>
      cases answer with
      | error e => rfl
      | ok formats =>
        simp only [judgeFormats]
        cases immovable? formats with
        | none => exact ih g
        | some found => rfl

variable {stores : List String}

/-- A node offends by its formats in the way in which its answer is found wanting. -/
theorem judgeFormats_of_offence (offends : FormatOffence f stores n e) :
    judgeFormats n (Request.answer (.formats stores) n.id (f.find n.id)) = some e := by
  cases offends with
  | unreachable misses =>
    rw [misses]
    rfl
  | missing finds split there lacks =>
    rename_i s before after store
    rw [finds, split]
    change judgeFormats n (formatsFrom s.formats .empty _) = _
    rw [formatsFrom_of_missing there lacks]
    rfl
  | wrong finds there mem has other first =>
    rename_i s store format
    obtain ⟨all, eq, hasAll⟩ := exists_formatsFrom .empty there
    have found : immovable? all = some (store, format) := by
      refine immovable?_eq_some_iff.2 ⟨?_, other, fun k v less here => ?_⟩
      · rw [hasAll, if_pos mem]
        exact has
      · rw [hasAll] at here
        obtain ⟨mem', here⟩ := Option.ite_none_right_eq_some.1 here
        exact Option.some.inj (here.symm.trans (first k mem' less))
    rw [finds]
    change judgeFormats n (formatsFrom s.formats .empty stores) = _
    rw [eq]
    simp only [judgeFormats]
    rw [found]
    rfl

theorem offence_of_judgeFormats
    (judged : judgeFormats n (Request.answer (.formats stores) n.id (f.find n.id)) = some e) :
    FormatOffence f stores n e := by
  cases finds : f.find n.id with
  | error e' =>
    cases error_of_find finds
    rw [finds] at judged
    cases judged
    exact .unreachable finds
  | ok s =>
    rw [finds] at judged
    change judgeFormats n (formatsFrom s.formats .empty stores) = _ at judged
    rcases there_or_missing s.formats stores with
      there | ⟨before, store, after, split, there, lacks⟩
    · obtain ⟨all, eq, hasAll⟩ := exists_formatsFrom .empty there
      rw [eq] at judged
      obtain ⟨⟨store, format⟩, found, rfl⟩ := Option.map_eq_some_iff.1 judged
      obtain ⟨here, other, first⟩ := immovable?_eq_some_iff.1 found
      rw [hasAll] at here
      obtain ⟨mem, has⟩ := Option.ite_none_right_eq_some.1 here
      refine .wrong finds there mem has other fun k mem' less => ?_
      obtain ⟨v, hasV⟩ := Option.ne_none_iff_exists'.1 (there k mem')
      rw [hasV, first k v less ((hasAll k).trans ((if_pos mem').trans hasV))]
    · rw [split, formatsFrom_of_missing there lacks] at judged
      cases judged
      exact .missing finds split there lacks

/-- A node offends by no format exactly when it can be reached and has the movable one for all of
the stores. -/
theorem no_formatOffence_iff :
    (∀ e, ¬ FormatOffence f stores n e) ↔
      ∃ s, f.find n.id = .ok s ∧ ∀ store ∈ stores, s.formats.get? store = some "ro2" := by
  constructor
  · intro innocent
    cases finds : f.find n.id with
    | error e =>
      cases error_of_find finds
      exact absurd (.unreachable finds) (innocent _)
    | ok s =>
      refine ⟨s, rfl, ?_⟩
      rcases there_or_missing s.formats stores with
        there | ⟨before, store, after, split, there, lacks⟩
      · obtain ⟨all, eq, hasAll⟩ := exists_formatsFrom .empty there
        have answered : Request.answer (.formats stores) n.id (f.find n.id) = .ok all := by
          rw [finds]
          exact eq
        have judged : judgeFormats n (.ok all) = none :=
          Option.eq_none_iff_forall_ne_some.2 fun e judged =>
            innocent e (offence_of_judgeFormats (answered ▸ judged))
        have movable := immovable?_eq_none_iff.1 (Option.map_eq_none_iff.1 judged)
        intro store mem
        obtain ⟨v, hasV⟩ := Option.ne_none_iff_exists'.1 (there store mem)
        rw [hasV, movable store v ((hasAll store).trans ((if_pos mem).trans hasV))]
      · exact absurd (.missing finds split there lacks) (innocent _)
  · rintro ⟨s, finds, movable⟩ e offends
    cases offends with
    | unreachable misses => cases finds.symm.trans misses
    | missing finds' split there lacks =>
      cases finds.symm.trans finds'
      have mem : _ ∈ stores := split ▸ List.mem_append_right _ List.mem_cons_self
      rw [movable _ mem] at lacks
      cases lacks
    | wrong finds' there mem has other first =>
      cases finds.symm.trans finds'
      exact other (Option.some.inj (has.symm.trans (movable _ mem)))

/-! ### Both checks -/

/-- The nodes that are asked for the formats of read-only stores: those that own partitions, if
there is any such store. -/
def holders (c : Cluster) (stores : List StoreDefinition) : List Node :=
  if StoreDefinition.readOnly stores = [] then []
  else c.nodes.filter fun n => !n.partitions.isEmpty

theorem checkNormal_decided (serving : f.Serving) (unlimited : f.permits = none) (c : Cluster) :
    ((f.checkNormal c).1 = .ok () ↔ ∀ n ∈ c.nodes, ∃ s, f.find n.id = .ok s ∧ s.state = .normal) ∧
      ∃ asked, Checked (StateOffence f) c.nodes (f.checkNormal c).1 asked ∧
        Asked f (f.checkNormal c).2 .getServerState asked := by
  obtain ⟨asked, checked, left⟩ := inspect_spec .state serving unlimited (fun _ => rfl)
    (fun _ _ => rfl) judgeState c.nodes
  rw [← checkStates_eq] at checked left
  have checked : Checked (StateOffence f) c.nodes _ asked :=
    checked.congr fun _ _ => judgeState_eq_some_iff
  refine ⟨checked.eq_ok_iff.trans ?_, asked, checked, left⟩
  exact forall₂_congr fun _ _ => no_stateOffence_iff

theorem checkFormats_eq (f : Fleet) (c : Cluster) (stores : List StoreDefinition) :
    f.checkFormats c stores =
      f.checkFormatsOf ((StoreDefinition.readOnly stores).map (·.name)) (holders c stores) := by
  simp only [checkFormats, holders]
  cases StoreDefinition.readOnly stores with
  | nil => rfl
  | cons d rest => rfl

theorem readOnly_eq_nil_iff {stores : List StoreDefinition} :
    StoreDefinition.readOnly stores = [] ↔ ∀ d ∈ stores, ¬ d.isReadOnly := List.filter_eq_nil_iff

/-- Nodes that own nothing are not asked, and no node is if there is no read-only store. -/
theorem forall_holders_iff {c : Cluster} {stores : List StoreDefinition} {fit : Node → Prop} :
    (∀ n ∈ holders c stores, fit n) ↔
      (∀ d ∈ stores, ¬ d.isReadOnly) ∨ ∀ n ∈ c.nodes, n.partitions ≠ [] → fit n := by
  rw [← readOnly_eq_nil_iff]
  simp only [holders]
  split
  · rename_i none
    exact iff_of_true nofun (.inl none)
  · rename_i some
    rw [or_iff_right some]
    refine forall_congr' fun n => ?_
    rw [List.mem_filter, and_imp, Bool.not_eq_true', List.isEmpty_eq_false_iff]

theorem forall_readOnly_iff {stores : List StoreDefinition} {p : String → Prop} :
    (∀ store ∈ (StoreDefinition.readOnly stores).map (·.name), p store) ↔
      ∀ d ∈ stores, d.isReadOnly → p d.name := by
  rw [List.forall_mem_map]
  exact forall_congr' fun d => by rw [StoreDefinition.readOnly, List.mem_filter, and_imp]

theorem checkFormats_decided (serving : f.Serving) (unlimited : f.permits = none) (c : Cluster)
    (stores : List StoreDefinition) :
    ((f.checkFormats c stores).1 = .ok () ↔ (∀ d ∈ stores, ¬ d.isReadOnly) ∨
        ∀ n ∈ c.nodes, n.partitions ≠ [] → ∃ s, f.find n.id = .ok s ∧
          ∀ d ∈ stores, d.isReadOnly → s.formats.get? d.name = some "ro2") ∧
      ∃ asked, Checked (FormatOffence f ((StoreDefinition.readOnly stores).map (·.name)))
          (holders c stores) (f.checkFormats c stores).1 asked ∧
        Asked f (f.checkFormats c stores).2 .getReadOnlyFormat asked := by
  let names := (StoreDefinition.readOnly stores).map (·.name)
  obtain ⟨asked, checked, left⟩ := inspect_spec (.formats names) serving unlimited
    (fun _ => rfl) (fun _ _ => rfl) judgeFormats (holders c stores)
  rw [← checkFormatsOf_eq, ← checkFormats_eq] at checked left
  have checked : Checked (FormatOffence f names) (holders c stores) _ asked :=
    checked.congr fun _ _ => ⟨offence_of_judgeFormats, judgeFormats_of_offence⟩
  refine ⟨(checked.eq_ok_iff.trans ?_).trans forall_holders_iff, asked, checked, left⟩
  refine forall₂_congr fun _ _ => no_formatOffence_iff.trans ?_
  exact exists_congr fun s => and_congr_right fun _ => forall_readOnly_iff

/-- A check succeeds exactly when every node that counts can be reached and is in the normal state,
or has the movable format for all read-only stores. Otherwise the error is the offence of the first
node in the cluster that offends. In either case the nodes up to that one are called once each, no
other is, and none changes. The verdict is the same if calls of others are under way, which may
still be recorded and may change clusters in the meantime. -/
theorem readiness_decided (state : f.Reachable ∨ f.Quiet) (unlimited : f.permits = none)
    (c : Cluster) (stores : List StoreDefinition) :
    (((f.checkNormal c).1 = .ok () ↔ ∀ n ∈ c.nodes, ∃ s, f.find n.id = .ok s ∧ s.state = .normal) ∧
      ∃ asked, Checked (StateOffence f) c.nodes (f.checkNormal c).1 asked ∧
        Asked f (f.checkNormal c).2 .getServerState asked) ∧
    ((f.checkFormats c stores).1 = .ok () ↔ (∀ d ∈ stores, ¬ d.isReadOnly) ∨
        ∀ n ∈ c.nodes, n.partitions ≠ [] → ∃ s, f.find n.id = .ok s ∧
          ∀ d ∈ stores, d.isReadOnly → s.formats.get? d.name = some "ro2") ∧
      ∃ asked, Checked (FormatOffence f ((StoreDefinition.readOnly stores).map (·.name)))
          (holders c stores) (f.checkFormats c stores).1 asked ∧
        Asked f (f.checkFormats c stores).2 .getReadOnlyFormat asked := by
  have serving : f.Serving := state.elim Reachable.serving Quiet.serving
  exact ⟨checkNormal_decided serving unlimited c, checkFormats_decided serving unlimited c stores⟩

/-- Three nodes that are ready, the first of which owns nothing, and a store that is in an old
format on the second. -/
theorem readiness_decided_old_format :
    let f : Fleet :=
      (((({} : Fleet).setDelay 0 3).setFormat 1 "a" "ro2").setFormat 1 "b" "ro1").setState 2 .normal
    let c : Cluster := ⟨"c", [⟨0, "h", 1, 2, 3, 0, []⟩, ⟨1, "h", 1, 2, 3, 0, [4]⟩,
      ⟨2, "h", 1, 2, 3, 0, [5]⟩], [.sole]⟩
    let stores : List StoreDefinition := [⟨"b", "read-only", 1, .consistent, .empty, 1, 1, none⟩,
      ⟨"a", "read-only", 1, .consistent, .empty, 1, 1, none⟩]
    (f.checkNormal c).1 = .ok () ∧
      (f.checkFormats c stores).1 = .error (.immovableStore 1 "b" "ro1" "ro2") ∧
      (f.checkFormats c stores).2.calls = [⟨1, .getReadOnlyFormat⟩] ∧
      (f.checkFormats c stores).2.servers = f.servers := by
  intro f c stores
  have reachable : f.Reachable :=
    .adjust (.adjust (.adjust (.adjust (.fresh 0 .empty none .empty) 0 _) 1 _) 1 _) 2 _
  obtain ⟨⟨ready, -⟩, -, asked, -, left⟩ := readiness_decided (.inl reachable) rfl c stores
  refine ⟨ready.2 fun n mem => ?_, by decide +kernel, by decide +kernel, left.servers ⟨rfl, rfl⟩⟩
  simp only [c, List.mem_cons, List.not_mem_nil, or_false] at mem
  rcases mem with rfl | rfl | rfl <;> exact ⟨_, rfl, rfl⟩

end Resharding.Fleet
