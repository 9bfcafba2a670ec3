import Resharding.Proofs.Wire.Codec
import Resharding.Wire.Records

/-!
Written forms of records, read back.

All records are put together from lawful codecs with room for them (`Record.roomy`), and so a record
is read back from its written form whatever follows it (`Record.encode_delimits_itself`), a written
form that was cut off is refused (`Record.load_cut_and_extended`), and what is read from any bytes
at all is what they begin with, unless sets or maps come out of order or repeat keys
(`Record.encode_normalizes`).
-/

namespace Resharding.Wire

namespace Codec

variable {α : Type} {c : Codec α} {x y : α} {bytes : List UInt8}

/-! ### Loading -/

theorem load_eq_ok_iff : c.load bytes = .ok x ↔ ∃ rest, c.reader.run bytes = .ok (x, rest) := by
  simp only [load, read, decode]
  cases c.reader.run bytes with
  | error fault => exact iff_of_false nofun fun ⟨_, done⟩ => nomatch done
  | ok found =>
    constructor
    · rintro ⟨⟩
      exact ⟨found.2, rfl⟩
    · rintro ⟨rest, ⟨⟩⟩
      rfl

/-- Bytes that nothing can be read from are refused as such. -/
theorem exists_fault_of_load_ne_ok (refused : ∀ x, c.load bytes ≠ .ok x) :
    ∃ fault, c.load bytes = .error (.serialization fault) := by
  simp only [load] at refused ⊢
  cases reading : c.read bytes with
  | error fault => exact ⟨fault, rfl⟩
  | ok x =>
    rw [reading] at refused
    exact absurd rfl (refused x)

theorem load_append (done : c.load bytes = .ok x) (more : List UInt8) :
    c.load (bytes ++ more) = .ok x := by
  obtain ⟨rest, done⟩ := load_eq_ok_iff.1 done
  exact load_eq_ok_iff.2 ⟨rest ++ more, Reader.run_append done more⟩

namespace Lawful

theorem load_encode_append (law : c.Lawful) (fits : c.fits x) (more : List UInt8) :
    c.load (c.encode x ++ more) = .ok x :=
  load_eq_ok_iff.2 ⟨more, (law.reads fits more).run_eq⟩

theorem load_encode (law : c.Lawful) (fits : c.fits x) : c.load (c.encode x) = .ok x := by
  have done := law.load_encode_append fits []
  rwa [List.append_nil] at done

theorem found_of_load (law : c.Lawful) (done : c.load bytes = .ok x) :
    ∃ rest, c.Found bytes x rest := by
  obtain ⟨rest, done⟩ := load_eq_ok_iff.1 done
  exact ⟨rest, law.found done⟩

theorem length_encode_le (law : c.Lawful) (done : c.load bytes = .ok x) :
    (c.encode x).length ≤ bytes.length := by
  obtain ⟨rest, found⟩ := law.found_of_load done
  exact Nat.le_of_add_right_le found.takes.length_le

/-- No written form begins another one. -/
theorem eq_of_encode_prefix (law : c.Lawful) (fitsX : c.fits x) (fitsY : c.fits y)
    (begins : c.encode x <+: c.encode y) : x = y := by
  obtain ⟨more, same⟩ := begins
  have done := law.load_encode_append fitsX more
  rw [same, law.load_encode fitsY] at done
  exact (Except.ok.inj done).symm

/-- A value would need all the bytes that it is written as. -/
theorem load_ne_ok_of_cut_off (law : c.Lawful) (fits : c.fits x) (begins : bytes <+: c.encode x)
    (short : bytes ≠ c.encode x) (y : α) : c.load bytes ≠ .ok y := by
  intro done
  obtain ⟨more, whole⟩ := begins
  have same := load_append done more
  rw [whole, law.load_encode fits] at same
  cases same
  have length := law.length_encode_le done
  rw [← whole, List.length_append] at length
  have none : more = [] := List.eq_nil_of_length_eq_zero (by omega)
  rw [none, List.append_nil] at whole
  exact short whole

/-- The bytes from which a value is read in order are those that begin with its written form. -/
theorem load_inOrder_iff (law : c.Lawful) :
    c.load bytes = .ok x ∧ c.reader.InOrder bytes ↔ c.fits x ∧ c.encode x <+: bytes := by
  constructor
  · rintro ⟨done, sorted⟩
    obtain ⟨rest, found⟩ := law.found_of_load done
    exact ⟨found.fits, rest, (found.takes.eq_written sorted).symm⟩
  · rintro ⟨fits, more, rfl⟩
    exact ⟨law.load_encode_append fits more, (law.reads fits more).inOrder⟩

end Lawful

/-! ### Records -/

theorem roomy_clock : clock.Roomy :=
  ((roomy_word64.map roomy_word64).pair roomy_word64).convert (fun _ => rfl) fun _ => rfl

theorem Roomy.versioned {value : Codec α} (room : value.Roomy) : value.versioned.Roomy :=
  (room.pair roomy_clock).convert (fun _ => rfl) fun _ => rfl

theorem roomy_zone : zone.Roomy :=
  (roomy_word32.pair roomy_word32.list).convert (fun _ => rfl) fun _ => rfl

theorem roomy_node : node.Roomy :=
  (roomy_word64.pair <| roomy_text.pair <| roomy_word16.pair <| roomy_word16.pair <|
    roomy_word16.pair <| roomy_word32.pair roomy_word32.list).convert (fun _ => rfl) fun _ => rfl

theorem roomy_cluster : cluster.Roomy :=
  (roomy_text.pair <| roomy_node.list.pair roomy_zone.list).convert (fun _ => rfl) fun _ => rfl

theorem roomy_spread : (variant Spread.all).Roomy :=
  roomy_variant (by decide) (by decide) (by rintro ⟨⟩ <;> decide)

theorem roomy_store : store.Roomy :=
  (roomy_text.pair <| roomy_text.pair <| roomy_word64.pair <| roomy_spread.pair <|
    (roomy_word32.map roomy_word64).pair <| roomy_word64.pair <|
    roomy_word64.pair roomy_text.option).convert (fun _ => rfl) fun _ => rfl

theorem roomy_migration : migration.Roomy :=
  (roomy_word64.pair <| roomy_word64.pair <| roomy_word32.set.pair roomy_text.list).convert
    (fun _ => rfl) fun _ => rfl

theorem roomy_serverState : serverState.Roomy :=
  roomy_variant (by decide) (by decide) (by rintro ⟨⟩ <;> decide)

end Codec

open Codec

theorem Payload.roomy : ∀ p : Payload, p.codec.Roomy
  | cluster => roomy_cluster
  | text => roomy_text
  | partitions => roomy_word32.list
  | stores => roomy_store.list
  | migration => roomy_migration
  | serverState => roomy_serverState

namespace Record

/-- Every codec of a record is lawful, and only records of `2 ^ 64` bytes or more can have a count
that does not fit. -/
theorem roomy : ∀ r : Record, r.codec.Roomy
  | migration => roomy_migration
  | versioned payload => payload.roomy.versioned

theorem lawful (r : Record) : r.codec.Lawful := r.roomy.toLawful

/-- A record that fits, as all of fewer than `2 ^ 64` bytes do, is read back from its written form
whatever follows it, so no two records are written alike and none as the beginning of another. -/
theorem encode_delimits_itself (r : Record) {v : r.Value} (fits : r.codec.fits v) :
    (∀ more, r.codec.load (r.codec.encode v ++ more) = .ok v) ∧
      ∀ w, r.codec.fits w →
        (r.codec.encode v = r.codec.encode w → v = w) ∧
        (r.codec.encode v <+: r.codec.encode w → r.codec.encode v = r.codec.encode w) := by
  refine ⟨r.lawful.load_encode_append fits, fun w fitsW => ⟨fun same => ?_, fun begins => ?_⟩⟩
  · exact r.lawful.eq_of_encode_prefix fits fitsW (same ▸ List.prefix_rfl)
  · exact congrArg r.codec.encode (r.lawful.eq_of_encode_prefix fits fitsW begins)

/-- A migration of two partitions for one store. -/
def someMigration : Migration := ⟨2, 1, .ofList [3, 0], ["s"]⟩

theorem encode_delimits_itself_migration :
    (∀ more, migration.codec.load (migration.codec.encode someMigration ++ more) =
        .ok someMigration) ∧
      ∀ w, migration.codec.fits w →
        (migration.codec.encode someMigration = migration.codec.encode w → someMigration = w) ∧
        (migration.codec.encode someMigration <+: migration.codec.encode w →
          migration.codec.encode someMigration = migration.codec.encode w) :=
  migration.encode_delimits_itself (migration.roomy.fits_of_length_lt _ (by decide +kernel))

/-- Of the beginnings of a written form those that were cut off are refused, and no others; what was
read is read again with more bytes behind it; and reading ends within two steps for every byte. -/
theorem load_cut_and_extended (r : Record) :
    (∀ v, r.codec.fits v → ∀ bytes, bytes <+: r.codec.encode v →
      ((∃ fault, r.codec.load bytes = .error (.serialization fault)) ↔
        bytes ≠ r.codec.encode v)) ∧
    (∀ bytes v more, r.codec.load bytes = .ok v → r.codec.load (bytes ++ more) = .ok v) ∧
    ∀ bytes, r.codec.reader.steps bytes ≤ 2 * bytes.length + 1 := by
  refine ⟨fun v fits bytes begins => ⟨?_, fun short => ?_⟩, fun bytes v more done => ?_,
    r.lawful.steps_le⟩
  · rintro ⟨fault, refused⟩ rfl
    rw [r.lawful.load_encode fits] at refused
    cases refused
  · exact exists_fault_of_load_ne_ok (r.lawful.load_ne_ok_of_cut_off fits begins short)
  · exact load_append done more

theorem load_cut_and_extended_migration :
    (∃ fault, migration.codec.load ((migration.codec.encode someMigration).take 30) =
        .error (.serialization fault)) ∧
      migration.codec.load (migration.codec.encode someMigration ++ [7]) = .ok someMigration := by
  have fits : migration.codec.fits someMigration :=
    migration.roomy.fits_of_length_lt _ (by decide +kernel)
  obtain ⟨cut, extended, -⟩ := migration.load_cut_and_extended
  refine ⟨?_, ?_⟩
  · exact (cut _ fits _ (List.take_prefix _ _)).2 (by decide +kernel)
  · exact extended _ _ [7] (migration.lawful.load_encode fits)

/-- What is read from any bytes is written in no more bytes, and is read back from them. The bytes
from which it is read with all sets and maps in order are those that begin with its written form. -/
theorem encode_normalizes (r : Record) (bytes : List UInt8) (v : r.Value) :
    (r.codec.load bytes = .ok v →
      (r.codec.encode v).length ≤ bytes.length ∧ r.codec.load (r.codec.encode v) = .ok v) ∧
    (r.codec.load bytes = .ok v ∧ r.codec.reader.InOrder bytes ↔
      r.codec.fits v ∧ r.codec.encode v <+: bytes) := by
  refine ⟨fun done => ?_, r.lawful.load_inOrder_iff⟩
  obtain ⟨_, found⟩ := r.lawful.found_of_load done
  exact ⟨r.lawful.length_encode_le done, r.lawful.load_encode found.fits⟩

/-- The written form of the migration with its partitions as three, zero and three again. -/
def unsortedMigration : List UInt8 :=
  [2, 0, 0, 0, 0, 0, 0, 0, 1, 0, 0, 0, 0, 0, 0, 0] ++
    [3, 0, 0, 0, 0, 0, 0, 0, 3, 0, 0, 0, 0, 0, 0, 0, 3, 0, 0, 0] ++
    [1, 0, 0, 0, 0, 0, 0, 0, 1, 0, 0, 0, 0, 0, 0, 0, 115]

theorem encode_normalizes_unsorted :
    migration.codec.load unsortedMigration = .ok someMigration ∧
      (migration.codec.encode someMigration).length ≤ unsortedMigration.length ∧
      migration.codec.load (migration.codec.encode someMigration) = .ok someMigration ∧
      ¬ migration.codec.reader.InOrder unsortedMigration := by
  have done : migration.codec.load unsortedMigration = .ok someMigration := by rfl
  have other : ¬ migration.codec.encode someMigration <+: unsortedMigration := by decide +kernel
  obtain ⟨normal, canonical⟩ := migration.encode_normalizes unsortedMigration someMigration
  obtain ⟨shorter, again⟩ := normal done
  exact ⟨done, shorter, again, fun sorted => other (canonical.1 ⟨done, sorted⟩).2⟩

end Record

end Resharding.Wire
