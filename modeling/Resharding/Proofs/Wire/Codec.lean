import Mathlib.Algebra.Group.Nat.Defs
import Mathlib.Data.List.Flatten
import Mathlib.Data.List.Nodup
import Mathlib.Data.List.Perm.Subperm
import Resharding.Proofs.Ordered.Listing
import Resharding.Proofs.Wire.Reader
import Resharding.Wire.Codec

/-!
Lawful codecs.

A codec is lawful if what it writes is read back from in front of any bytes, and if whatever is read
takes as many bytes as its own written form or more, and exactly its written form where sets and
maps come in order (`Codec.Lawful`). Reading then also ends within two steps for every byte. Every
way of putting codecs together keeps this; sets and maps are the only values that may be read from
more than they are written as, for they list again no more than they were given
(`SortedSet.toList_ofList_subperm`, `SortedMap.toList_ofList_subperm`). What a written form has no
room for is too long to be written (`Codec.Roomy`).
-/

namespace Resharding

/-! ### Sets and maps as their lists -/

namespace SortedSet

variable {α : Type} [Ord α] [Std.TransOrd α] [Std.LawfulEqOrd α]

theorem ofList_toList (s : SortedSet α) : ofList s.toList = s :=
  ext_mem fun _ => mem_ofList

/-- A set lists no more than it was made from. -/
theorem toList_ofList_subperm (as : List α) : (ofList as).toList.Subperm as :=
  List.subperm_of_subset (nodup_toList _) fun _ mem => mem_ofList.1 mem

theorem toList_ofList {as : List α} (ascending : as.Pairwise fun a b => compare a b = .lt) :
    (ofList as).toList = as :=
  members_ext (ofList as).ascending ascending fun _ => mem_ofList

end SortedSet

namespace SortedMap

variable {κ α : Type} [Ord κ] [Std.TransOrd κ] [Std.LawfulEqOrd κ] [DecidableEq κ]

theorem ofList_toList (m : SortedMap κ α) : ofList m.toList = m := by
  refine ext_get? fun k => Option.ext fun v => ?_
  rw [get?_ofList, get?_eq_some_iff]
  · rfl
  · intro k v w memV memW
    have here := get?_eq_some_iff.2 memV
    rw [get?_eq_some_iff.2 memW] at here
    exact (Option.some.inj here).symm

/-- A map lists no more entries than it was made from. -/
theorem toList_ofList_subperm (es : List (κ × α)) : (ofList es).toList.Subperm es := by
  refine List.subperm_of_subset ?_ fun e mem => ?_
  · exact List.Nodup.of_map (fun e : κ × α => e.1) (nodup_keys (ofList es))
  · have listed := mem_of_get?_insertAll (get?_eq_some_iff.2 mem)
    exact listed.resolve_right nofun

theorem toList_ofList {es : List (κ × α)}
    (ascending : es.Pairwise fun a b => compare a.1 b.1 = .lt) : (ofList es).toList = es :=
  congrArg toList (ofList_toList ⟨es, ascending⟩)

end SortedMap

namespace Wire.Codec

variable {α β : Type} {c : Codec α}

/-! ### Laws -/

/-- What holds of a value that was read from the front of some bytes. -/
structure Found (c : Codec α) (bytes : List UInt8) (x : α) (rest : List UInt8) : Prop where
  fits : c.fits x
  takes : c.reader.Takes 1 bytes (c.encode x) rest

/-- What is written is read back, and what is read could have been written as briefly. -/
structure Lawful (c : Codec α) : Prop where
  reads : ∀ {x}, c.fits x → ∀ rest, c.reader.Reads (c.encode x ++ rest) x rest
  found : ∀ {bytes x rest}, c.reader.run bytes = .ok (x, rest) → c.Found bytes x rest
  steps_le : ∀ bytes, c.reader.steps bytes ≤ 2 * bytes.length + 1

theorem Lawful.encode_length_pos (law : c.Lawful) {x : α} (fits : c.fits x) :
    0 < (c.encode x).length := by
  have steps := (law.found (law.reads fits []).run_eq).takes.steps_le
  rw [List.append_nil] at steps
  omega

/-- What is read next may take the step that is left. -/
theorem Lawful.steps_bind_le (law : c.Lawful) {next : α → Reader β} (bytes : List UInt8)
    (later : ∀ x between, c.reader.run bytes = .ok (x, between) →
      (next x).steps between ≤ 2 * between.length + 2) :
    (c.reader >>= next).steps bytes ≤ 2 * bytes.length + 1 := by
  refine Reader.steps_bind_le (law.steps_le bytes) fun x between first => ?_
  have stepsFirst := (law.found first).takes.steps_le
  have stepsLater := later x between first
  omega

/-! ### Putting codecs together -/

theorem Lawful.convert (law : c.Lawful) {wrap : α → β} {unwrap : β → α}
    (back : ∀ b, wrap (unwrap b) = b) (forth : ∀ a, c.fits a → unwrap (wrap a) = a) :
    (c.convert wrap unwrap).Lawful where
  reads {b} fits rest := by
    have reads := (law.reads fits rest).map wrap
    rwa [back] at reads
  found {bytes _ _} done := by
    obtain ⟨a, rest, first, last⟩ := Reader.exists_of_run_bind done
    cases last
    have found := law.found first
    have same : unwrap (wrap a) = a := forth a found.fits
    refine ⟨?_, ?_⟩
    · simp only [Codec.convert, same]
      exact found.fits
    · simp only [Codec.convert, same]
      exact found.takes.map first wrap
  steps_le bytes := law.steps_bind_le bytes fun _ _ _ => Nat.zero_le _

theorem Lawful.pair {a : Codec α} {b : Codec β} (lawA : a.Lawful) (lawB : b.Lawful) :
    (a.pair b).Lawful where
  reads {p} fits rest := by
    simp only [Codec.pair, List.append_assoc]
    exact (lawA.reads fits.1 _).bind ((lawB.reads fits.2 rest).map (p.1, ·))
  found {bytes _ _} done := by
    obtain ⟨x, between, first, second⟩ := Reader.exists_of_run_bind done
    obtain ⟨y, rest, second, last⟩ := Reader.exists_of_run_bind second
    cases last
    have foundA := lawA.found first
    have foundB := lawB.found second
    refine ⟨⟨foundA.fits, foundB.fits⟩, ?_⟩
    exact (foundA.takes.bind first (foundB.takes.map second (x, ·))).of_le (by decide)
  steps_le bytes := by
    refine lawA.steps_bind_le bytes fun x between _ => ?_
    rw [Reader.steps_map]
    exact Nat.le_succ_of_le (lawB.steps_le between)

/-! ### Numbers -/

theorem length_lowBytes (width n : Nat) : (lowBytes width n).length = width := by
  induction width generalizing n with
  | zero => rfl
  | succ width ih => exact congrArg (· + 1) (ih (n / 256))

theorem numberOfBytes_lowBytes {width n : Nat} (fits : n < 256 ^ width) :
    numberOfBytes (lowBytes width n) = n := by
  induction width generalizing n with
  | zero =>
    rw [Nat.pow_zero, Nat.lt_one_iff] at fits
    exact fits.symm
  | succ width ih =>
    simp only [lowBytes, numberOfBytes]
    rw [ih (Nat.div_lt_of_lt_mul (by rwa [← Nat.pow_succ']))]
    exact Nat.mod_add_div n 256

theorem numberOfBytes_lt (bytes : List UInt8) : numberOfBytes bytes < 256 ^ bytes.length := by
  induction bytes with
  | nil => exact Nat.one_pos
  | cons b rest ih =>
    have low := b.toNat_lt
    simp only [numberOfBytes, List.length_cons, Nat.pow_succ']
    omega

theorem lowBytes_numberOfBytes (bytes : List UInt8) :
    lowBytes bytes.length (numberOfBytes bytes) = bytes := by
  induction bytes with
  | nil => rfl
  | cons b rest ih =>
    have low := b.toNat_lt
    have high : (b.toNat + 256 * numberOfBytes rest) / 256 = numberOfBytes rest := by omega
    simp only [numberOfBytes, List.length_cons, lowBytes, high, ih]
    congr 1
    rw [← UInt8.toNat_inj, UInt8.toNat_ofNat']
    omega

theorem length_number {width : Nat} (n : Nat) : ((number width).encode n).length = width :=
  length_lowBytes width n

theorem run_number_eq_ok_iff {width n : Nat} {bytes rest : List UInt8} :
    (number width).reader.run bytes = .ok (n, rest) ↔
      (number width).fits n ∧ bytes = (number width).encode n ++ rest := by
  constructor
  · intro done
    obtain ⟨taken, _, first, last⟩ := Reader.exists_of_run_bind done
    cases last
    obtain ⟨rfl, rfl⟩ := Reader.run_take_eq_ok_iff.1 first
    refine ⟨numberOfBytes_lt taken, ?_⟩
    simp only [number, lowBytes_numberOfBytes]
  · rintro ⟨fits, rfl⟩
    refine (Reader.run_bind_of_ok
      (Reader.run_take_eq_ok_iff.2 ⟨length_lowBytes width n, rfl⟩)).trans ?_
    exact congrArg (fun n => Except.ok (n, rest)) (numberOfBytes_lowBytes fits)

theorem steps_number (width : Nat) (bytes : List UInt8) :
    (number width).reader.steps bytes = 1 := ite_self 1

theorem reads_number {width n : Nat} (fits : (number width).fits n) (rest : List UInt8) :
    (number width).reader.Reads ((number width).encode n ++ rest) n rest :=
  ⟨run_number_eq_ok_iff.2 ⟨fits, rfl⟩, .inr trivial⟩

theorem lawful_number {width : Nat} (some : 0 < width) : (number width).Lawful where
  reads fits rest := reads_number fits rest
  found {bytes n rest} done := by
    obtain ⟨fits, rfl⟩ := run_number_eq_ok_iff.1 done
    refine ⟨fits, ?_, ?_, fun _ => rfl⟩
    · exact Nat.le_of_eq List.length_append.symm
    · rw [steps_number, List.length_append, length_number]
      omega
  steps_le bytes := by
    rw [steps_number]
    omega

theorem lawful_byte : byte.Lawful :=
  (lawful_number (by decide)).convert (fun _ => UInt8.ofNat_toNat)
    fun _ fits => UInt8.toNat_ofNat_of_lt' fits

theorem lawful_word16 : word16.Lawful :=
  (lawful_number (by decide)).convert (fun _ => UInt16.ofNat_toNat)
    fun _ fits => UInt16.toNat_ofNat_of_lt' fits

theorem lawful_word32 : word32.Lawful :=
  (lawful_number (by decide)).convert (fun _ => UInt32.ofNat_toNat)
    fun _ fits => UInt32.toNat_ofNat_of_lt' fits

theorem lawful_word64 : word64.Lawful :=
  (lawful_number (by decide)).convert (fun _ => UInt64.ofNat_toNat)
    fun _ fits => UInt64.toNat_ofNat_of_lt' fits

/-! ### Texts -/

theorem textOfBytes_eq_ok_iff {bytes : List UInt8} {s : String} :
    textOfBytes bytes = .ok s ↔ bytes = textBytes s := by
  simp only [textOfBytes, textBytes, String.fromUTF8?]
  constructor
  · intro read
    split at read
    · rename_i t found
      cases read
      split at found
      · cases found
        rfl
      · cases found
    · cases read
  · rintro rfl
    rw [dif_pos s.isValidUTF8]
    rfl

theorem run_readText_eq_ok_iff {taken : List UInt8} {s : String} {bytes rest : List UInt8} :
    (readText taken).run bytes = .ok (s, rest) ↔ taken = textBytes s ∧ bytes = rest := by
  rw [← textOfBytes_eq_ok_iff]
  simp only [readText]
  split
  · rename_i t read
    rw [read]
    change Except.ok _ = _ ↔ _
    simp only [Except.ok.injEq, Prod.mk.injEq]
  · rename_i fault read
    rw [read]
    exact iff_of_false nofun (fun both => nomatch both.1)

theorem steps_readText (taken bytes : List UInt8) : (readText taken).steps bytes = 0 := by
  simp only [readText]
  split <;> rfl

theorem reads_readText (s : String) (rest : List UInt8) :
    (readText (textBytes s)).Reads rest s rest := by
  simp only [readText, textOfBytes_eq_ok_iff.2 rfl]
  exact Reader.reads_done s rest

theorem lawful_text : text.Lawful where
  reads {s} fits rest := by
    simp only [text, List.append_assoc]
    exact (reads_number fits _).bind ((Reader.reads_take _ rest).bind (reads_readText s rest))
  found {bytes s rest} done := by
    obtain ⟨count, between, first, others⟩ := Reader.exists_of_run_bind done
    obtain ⟨taken, after, second, last⟩ := Reader.exists_of_run_bind others
    obtain ⟨rfl, rfl⟩ := run_readText_eq_ok_iff.1 last
    have steps : text.reader.steps bytes = 2 := by
      simp only [text]
      rw [Reader.steps_bind first, Reader.steps_bind second, steps_number, Reader.steps_take,
        steps_readText]
    obtain ⟨fits, rfl⟩ := run_number_eq_ok_iff.1 first
    obtain ⟨rfl, rfl⟩ := Reader.run_take_eq_ok_iff.1 second
    refine ⟨fits, ?_, ?_, fun _ => (List.append_assoc _ _ _).symm⟩
    · simp only [text, List.length_append]
      omega
    · rw [steps, List.length_append, List.length_append, length_number]
      omega
  steps_le bytes := by
    refine (lawful_number (by decide)).steps_bind_le bytes fun count between _ => ?_
    refine Reader.steps_bind_le ?_ fun taken rest _ => ?_
    · rw [Reader.steps_take]
      omega
    · rw [Reader.steps_take, steps_readText]
      omega

/-! ### Lists -/

/-- What holds of `count` items that were read from the front of some bytes. -/
structure FoundItems (c : Codec α) (count : Nat) (bytes : List UInt8) (xs : List α)
    (rest : List UInt8) : Prop where
  length_eq : xs.length = count
  fits : ∀ x ∈ xs, c.fits x
  takes : (takeItems c.reader count).Takes 0 bytes (xs.flatMap c.encode) rest

theorem Lawful.reads_takeItems (law : c.Lawful) {xs : List α} (fits : ∀ x ∈ xs, c.fits x)
    (rest : List UInt8) :
    (takeItems c.reader xs.length).Reads (xs.flatMap c.encode ++ rest) xs rest := by
  induction xs with
  | nil => exact Reader.reads_done [] rest
  | cons x xs ih =>
    have ⟨here, others⟩ := List.forall_mem_cons.1 fits
    rw [List.flatMap_cons, List.append_assoc]
    refine Reader.Reads.item ((law.reads here _).bind ?_)
    exact (ih others).map (x :: ·)

theorem Lawful.foundItems (law : c.Lawful) {count : Nat} {bytes : List UInt8} {xs : List α}
    {rest : List UInt8} (done : (takeItems c.reader count).run bytes = .ok (xs, rest)) :
    c.FoundItems count bytes xs rest := by
  induction count generalizing bytes xs with
  | zero =>
    cases done
    exact ⟨rfl, nofun, Reader.takes_done [] rest⟩
  | succ count ih =>
    obtain ⟨x, between, first, others⟩ := Reader.exists_of_run_bind done
    obtain ⟨xs, _, second, last⟩ := Reader.exists_of_run_bind others
    cases last
    have found := law.found first
    have items := ih second
    refine ⟨congrArg (· + 1) items.length_eq, List.forall_mem_cons.2 ⟨found.fits, items.fits⟩, ?_⟩
    rw [List.flatMap_cons]
    -- beginning the item is the step that reading it leaves
    refine Reader.Takes.item ?_
    exact (found.takes.bind first (items.takes.map second (x :: ·))).of_le (Nat.le_refl 1)

/-- However many items are announced, they take no more than two steps for every byte there is. -/
theorem Lawful.steps_takeItems_le (law : c.Lawful) (count : Nat) (bytes : List UInt8) :
    (takeItems c.reader count).steps bytes ≤ 2 * bytes.length + 2 := by
  induction count generalizing bytes with
  | zero => exact Nat.zero_le _
  | succ count ih =>
    refine Nat.succ_le_succ (law.steps_bind_le bytes fun x between _ => ?_)
    rw [Reader.steps_map]
    exact ih between

theorem Lawful.list (law : c.Lawful) : c.list.Lawful where
  reads fits rest := by
    simp only [Codec.list, List.append_assoc]
    exact (reads_number fits.1 _).bind (law.reads_takeItems fits.2 rest)
  found {bytes xs rest} done := by
    obtain ⟨count, between, first, second⟩ := Reader.exists_of_run_bind done
    have counted := (lawful_number (by decide)).found first
    have items := law.foundItems second
    obtain rfl := items.length_eq
    exact ⟨⟨counted.fits, items.fits⟩, counted.takes.bind first items.takes⟩
  steps_le bytes :=
    (lawful_number (by decide)).steps_bind_le bytes fun count between _ =>
      law.steps_takeItems_le count between

/-! ### Sets and maps -/

/-- What is listed again as part of a list is written no longer. -/
theorem length_encode_list_le {xs ys : List α} (fewer : xs.Subperm ys) :
    (c.list.encode xs).length ≤ (c.list.encode ys).length := by
  obtain ⟨among, perm, sublist⟩ := fewer
  have same := (perm.flatMap_right c.encode).length_eq
  have less := (sublist.flatMap c.encode).length_le
  simp only [Codec.list, List.length_append, length_number]
  omega

theorem Lawful.collection (law : c.Lawful) {ascend : List α → Prop} {gather : List α → β}
    {listing : β → List α} (ascends : ∀ b, ascend (listing b))
    (back : ∀ b, gather (listing b) = b) (forth : ∀ {xs}, ascend xs → listing (gather xs) = xs)
    (fewer : ∀ xs, (listing (gather xs)).Subperm xs) :
    (c.collection ascend gather listing).Lawful where
  reads {b} fits rest := by
    refine (law.list.reads fits rest).bind (Reader.Reads.keys (ascends b) ⟨?_, trivial⟩)
    exact congrArg (fun b => Except.ok (b, rest)) (back b)
  found {bytes _ rest} done := by
    obtain ⟨xs, _, first, last⟩ := Reader.exists_of_run_bind done
    cases last
    obtain ⟨fits, takes⟩ := law.list.found first
    refine ⟨⟨?_, fun x mem => ?_⟩, ?_, ?_, fun inOrder => ?_⟩
    · exact Nat.lt_of_le_of_lt (fewer xs).length_le fits.1
    · exact fits.2 x ((fewer xs).subset mem)
    · have shorter := c.length_encode_list_le (fewer xs)
      exact Nat.le_trans (Nat.add_le_add_right shorter _) takes.length_le
    · simp only [Codec.collection]
      rw [Reader.steps_bind first]
      exact takes.steps_le
    · simp only [Codec.collection] at inOrder ⊢
      rw [Reader.inOrder_bind first] at inOrder
      rw [forth inOrder.2.1]
      exact takes.eq_written inOrder.1
  steps_le bytes := law.list.steps_bind_le bytes fun _ _ _ => Nat.zero_le _

theorem Lawful.set [Ord α] [Std.TransOrd α] [Std.LawfulEqOrd α] (law : c.Lawful) :
    c.set.Lawful :=
  law.collection SortedSet.ascending SortedSet.ofList_toList SortedSet.toList_ofList
    SortedSet.toList_ofList_subperm

theorem Lawful.map [Ord α] [Std.TransOrd α] [Std.LawfulEqOrd α] [DecidableEq α] {key : Codec α}
    {value : Codec β} (lawKey : key.Lawful) (lawValue : value.Lawful) :
    (key.map value).Lawful :=
  (lawKey.pair lawValue).collection SortedMap.ascending SortedMap.ofList_toList
    SortedMap.toList_ofList SortedMap.toList_ofList_subperm

/-! ### Tagged values -/

theorem fits_byte (b : UInt8) : byte.fits b := b.toNat_lt

theorem Lawful.option (law : c.Lawful) : c.option.Lawful where
  reads {x} fits rest := by
    cases x with
    | none => exact (lawful_byte.reads (fits_byte 0) rest).bind (Reader.reads_done none rest)
    | some x =>
      simp only [Codec.option, List.append_assoc]
      exact (lawful_byte.reads (fits_byte 1) _).bind ((law.reads (fits x rfl) rest).map some)
  found {bytes x rest} done := by
    obtain ⟨tag, between, first, second⟩ := Reader.exists_of_run_bind done
    have tagged := (lawful_byte.found first).takes
    split at second
    · rename_i none
      cases second
      obtain rfl := eq_of_beq none
      exact ⟨nofun, tagged.bind_done first rfl⟩
    · split at second
      · rename_i one
        obtain ⟨y, _, second, last⟩ := Reader.exists_of_run_bind second
        cases last
        obtain rfl := eq_of_beq one
        have found := law.found second
        refine ⟨?_, ?_⟩
        · rintro _ ⟨⟩
          exact found.fits
        · exact (tagged.bind first (found.takes.map second some)).of_le (by decide)
      · cases second
  steps_le bytes := by
    refine lawful_byte.steps_bind_le bytes fun tag between _ => ?_
    split
    · exact Nat.zero_le _
    · split
      · rw [Reader.steps_map]
        exact Nat.le_succ_of_le (law.steps_le between)
      · exact Nat.zero_le _

theorem lawful_variant [DecidableEq α] {variants : List α} (distinct : variants.Nodup)
    (few : variants.length < 256 ^ 4) : (variant variants).Lawful where
  reads {x} fits rest := by
    have index : (number 4).fits (variants.idxOf x) :=
      Nat.lt_trans (List.idxOf_lt_length_of_mem fits.1) few
    refine (reads_number index rest).bind ?_
    rw [List.getElem?_idxOf fits.1]
    exact Reader.reads_done x rest
  found {bytes x rest} done := by
    obtain ⟨index, between, first, second⟩ := Reader.exists_of_run_bind done
    have indexed := ((lawful_number (by decide)).found first).takes
    split at second
    · rename_i here
      cases second
      obtain ⟨within, rfl⟩ := List.getElem?_eq_some_iff.1 here
      have same : variants.idxOf variants[index] = index := distinct.idxOf_getElem index within
      refine ⟨⟨List.getElem_mem within, few⟩, ?_⟩
      simp only [variant, same]
      exact indexed.bind_done first (by rw [here]; rfl)
    · cases second
  steps_le bytes := by
    refine (lawful_number (by decide)).steps_bind_le bytes fun index between _ => ?_
    split <;> exact Nat.zero_le _

/-! ### Room -/

/-- A lawful codec with room for every value that is written in fewer than `2 ^ 64` bytes. -/
structure Roomy (c : Codec α) : Prop extends Lawful c where
  fits_of_length_lt : ∀ x, (c.encode x).length < 2 ^ 64 → c.fits x

theorem roomy_word16 : word16.Roomy := ⟨lawful_word16, fun n _ => n.toNat_lt⟩
theorem roomy_word32 : word32.Roomy := ⟨lawful_word32, fun n _ => n.toNat_lt⟩
theorem roomy_word64 : word64.Roomy := ⟨lawful_word64, fun n _ => n.toNat_lt⟩

theorem roomy_text : text.Roomy := by
  refine ⟨lawful_text, fun s short => ?_⟩
  simp only [text, List.length_append] at short
  change (textBytes s).length < 2 ^ 64
  omega

theorem roomy_variant [DecidableEq α] {variants : List α} (distinct : variants.Nodup)
    (few : variants.length < 256 ^ 4) (listed : ∀ x, x ∈ variants) : (variant variants).Roomy :=
  ⟨lawful_variant distinct few, fun x _ => ⟨listed x, few⟩⟩

namespace Roomy

theorem convert (room : c.Roomy) {wrap : α → β} {unwrap : β → α}
    (back : ∀ b, wrap (unwrap b) = b) (forth : ∀ a, unwrap (wrap a) = a) :
    (c.convert wrap unwrap).Roomy :=
  ⟨room.toLawful.convert back fun a _ => forth a, fun b => room.fits_of_length_lt (unwrap b)⟩

theorem pair {a : Codec α} {b : Codec β} (roomA : a.Roomy) (roomB : b.Roomy) :
    (a.pair b).Roomy := by
  refine ⟨roomA.toLawful.pair roomB.toLawful, fun p short => ?_⟩
  simp only [Codec.pair, List.length_append] at short
  exact ⟨roomA.fits_of_length_lt p.1 (by omega), roomB.fits_of_length_lt p.2 (by omega)⟩

theorem items (room : c.Roomy) {xs : List α} (short : (xs.flatMap c.encode).length < 2 ^ 64) :
    (∀ x ∈ xs, c.fits x) ∧ xs.length ≤ (xs.flatMap c.encode).length := by
  induction xs with
  | nil => exact ⟨nofun, Nat.le_refl 0⟩
  | cons x xs ih =>
    rw [List.flatMap_cons, List.length_append] at short ⊢
    have here : c.fits x := room.fits_of_length_lt x (by omega)
    have some := room.encode_length_pos here
    obtain ⟨fits, count⟩ := ih (by omega)
    exact ⟨List.forall_mem_cons.2 ⟨here, fits⟩, by rw [List.length_cons]; omega⟩

theorem list (room : c.Roomy) : c.list.Roomy := by
  refine ⟨room.toLawful.list, fun xs short => ?_⟩
  simp only [Codec.list, List.length_append] at short
  obtain ⟨fits, count⟩ := room.items (Nat.lt_of_add_left_lt short)
  refine ⟨?_, fits⟩
  change xs.length < 2 ^ 64
  omega

theorem set [Ord α] [Std.TransOrd α] [Std.LawfulEqOrd α] (room : c.Roomy) : c.set.Roomy :=
  ⟨room.toLawful.set, fun s => room.list.fits_of_length_lt s.toList⟩

theorem map [Ord α] [Std.TransOrd α] [Std.LawfulEqOrd α] [DecidableEq α] {key : Codec α}
    {value : Codec β} (roomKey : key.Roomy) (roomValue : value.Roomy) : (key.map value).Roomy :=
  ⟨roomKey.toLawful.map roomValue.toLawful,
    fun m => (roomKey.pair roomValue).list.fits_of_length_lt m.toList⟩

theorem option (room : c.Roomy) : c.option.Roomy := by
  refine ⟨room.toLawful.option, ?_⟩
  rintro _ short x ⟨⟩
  simp only [Codec.option, List.length_append] at short
  exact room.fits_of_length_lt x (by omega)

end Roomy

end Wire.Codec

end Resharding
