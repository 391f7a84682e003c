import Operativsystem.Kernel.NetlinkKernel

/-! # The table as a map from key texts

The table keeps zero-padded keys and objects; what users of the store see is a map from key texts
to values. `TableOf` relates the two, and is kept by insertion and removal.
-/

namespace Operativsystem.Kernel

open Memory Resources

/-- A text that fits the key field with its terminator. -/
def IsKey (key : Bytes) : Prop := 0 ∉ key ∧ key.length < KEY_SIZE

/-- The entries of the table are exactly those of the map, and the keys of the map are texts. -/
structure TableOf (ht : Table) (m : Bytes → Option Bytes) : Prop where
  keys : ∀ key value, m key = some value → IsKey key
  entries : ∀ k obj, ht.lookup k = some obj ↔
    ∃ key value, m key = some value ∧ k = padded KEY_SIZE key ∧ obj = entry key value

theorem tableOf_empty : TableOf ∅ fun _ => none :=
  ⟨fun _ _ absurd => by simp at absurd, fun _ _ => by simp⟩

variable {ht ht' : Table} {m m' : Bytes → Option Bytes} {key value : Bytes}

theorem TableOf.lookup (table : TableOf ht m) (isKey : IsKey key) :
    rhashtableLookupFast ht (padded (KEY_SIZE + 1) key) = (m key).map (entry key) := by
  rw [rhashtableLookupFast, take_padded isKey.2.le]
  cases present : m key with
  | some value => exact (table.entries _ _).mpr ⟨key, value, present, rfl, rfl⟩
  | none =>
    by_contra found
    obtain ⟨obj, found⟩ := Option.ne_none_iff_exists'.mp found
    obtain ⟨other, value, held, same, -⟩ := (table.entries _ _).mp found
    have isOther := table.keys other value held
    obtain rfl := padded_injective isKey.1 isOther.1 isKey.2 isOther.2 same
    cases held.symm.trans present

/-- The map determines the table. -/
theorem TableOf.unique (table : TableOf ht m) (table' : TableOf ht' m) : ht = ht' := by
  apply Finmap.ext_lookup
  intro k
  apply Option.ext
  intro obj
  exact (table.entries k obj).trans (table'.entries k obj).symm

/-- Away from the field of a key, an update of the map at that key changes no entry. -/
private theorem entries_update {k : Bytes} {obj : RhashObject} {stored : Option Bytes}
    (other : k ≠ padded KEY_SIZE key) :
    (∃ text value, m text = some value ∧ k = padded KEY_SIZE text ∧ obj = entry text value) ↔
      ∃ text value, Function.update m key stored text = some value ∧ k = padded KEY_SIZE text ∧
        obj = entry text value := by
  refine exists_congr fun text => exists_congr fun value => and_congr_left fun ⟨place, _⟩ => ?_
  have different : text ≠ key := fun same => other (same ▸ place)
  rw [Function.update_of_ne different]

theorem isKey_update {stored : Option Bytes} (keys : ∀ key value, m key = some value → IsKey key)
    (isKey : IsKey key) (other value : Bytes)
    (held : Function.update m key stored other = some value) : IsKey other := by
  by_cases same : other = key
  · exact same ▸ isKey
  · exact keys other value (by rwa [Function.update_of_ne same] at held)

/-- Inserting a fresh key adds its entry. -/
theorem TableOf.insert (table : TableOf ht m) (isKey : IsKey key) (absent : m key = none)
    (value : Bytes) :
    ∃ ht', rhashtableLookupInsertFast ht (entry key value) = some ht' ∧
      TableOf ht' (Function.update m key (some value)) := by
  have free : rhashtableLookupFast ht (padded (KEY_SIZE + 1) key) = none := by
    rw [table.lookup isKey, absent, Option.map_none]
  have place : (entry key value).key.take KEY_SIZE = padded KEY_SIZE key := take_padded isKey.2.le
  have keys : ∀ text stored, Function.update m key (some value) text = some stored → IsKey text :=
    isKey_update table.keys isKey
  refine ⟨ht.insert (padded KEY_SIZE key) (entry key value), ?_, keys, fun k obj => ?_⟩
  · rw [rhashtableLookupInsertFast, place, entry, free]
    rfl
  · by_cases same : k = padded KEY_SIZE key
    · subst same
      rw [Finmap.lookup_insert]
      constructor
      · intro found
        exact ⟨key, value, Function.update_self .., rfl, (Option.some.inj found).symm⟩
      · rintro ⟨text, stored, held, same, rfl⟩
        have isText := keys text stored held
        obtain rfl := padded_injective isKey.1 isText.1 isKey.2 isText.2 same
        rw [Function.update_self] at held
        rw [Option.some.inj held]
    · rw [Finmap.lookup_insert_of_ne _ same, table.entries]
      exact entries_update same

/-- Removing a key removes its entry. -/
theorem TableOf.remove (table : TableOf ht m) (isKey : IsKey key) :
    TableOf (rhashtableRemoveFast ht (padded (KEY_SIZE + 1) key)) (Function.update m key none) := by
  have keys : ∀ text stored, Function.update m key none text = some stored → IsKey text :=
    isKey_update table.keys isKey
  refine ⟨keys, fun k obj => ?_⟩
  rw [rhashtableRemoveFast, take_padded isKey.2.le]
  by_cases same : k = padded KEY_SIZE key
  · subst same
    rw [Finmap.lookup_erase]
    refine ⟨fun found => absurd found (by simp), ?_⟩
    rintro ⟨text, stored, held, same, -⟩
    have isText := keys text stored held
    obtain rfl := padded_injective isKey.1 isText.1 isKey.2 isText.2 same
    rw [Function.update_self] at held
    cases held
  · rw [Finmap.lookup_erase_ne same, table.entries]
    exact entries_update same

end Operativsystem.Kernel
