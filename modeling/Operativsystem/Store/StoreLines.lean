import Operativsystem.Store.StoreData

/-! # Any lines of the store file

The store file may hold any lines with a key in front of a colon: values with further colons, a key more than
once, a last line without its newline. A DELETE takes out the lines of its key and leaves the others as they
stand. An INSERT appends one line, in which the value is only kept up to its first zero byte or its last byte,
whichever comes first.
-/

namespace Operativsystem.Store

open Memory Resources Kernel User

/-- An acknowledged DELETE leaves the lines of the other keys, in their order and byte for byte. -/
theorem delete_keeps_lines (files : Files) (content key : Bytes)
    (shaped : ∀ line ∈ lines files.storeFile, StoredLine line) (clean : 0 ∉ key) (fits : key.length < KEY_SIZE)
    (terminated : 0 ∈ content) (acknowledged : ¬Failed content) (opCode unwritten a b c : Byte) (n m : ℕ)
    (junk : Bytes) :
    ∃ files', storeData files ⟨opCode, n, .bytes (DELETE :: a :: b :: c :: (key ++ 0 :: junk))⟩
        ⟨KERNEL, m, .bytes (answerFrame unwritten content)⟩ = some files' ∧
      files'.storeFile = ((lines files.storeFile).filter fun line => lineKey line ≠ key).flatten := by
  have copied : readKey (DELETE :: a :: b :: c :: (key ++ 0 :: junk)) = some (padded (KEY_SIZE + 1) key) :=
    readKey_text rfl clean fits.le
  have kept := keptLines_stored (padded (KEY_SIZE + 1) key) shaped
  rw [cstr_padded clean fits] at kept
  have part := (areLines_lines files.storeFile).sublist
    (List.filter_sublist (p := fun line => lineKey line ≠ key))
  rw [storeData_succeeded terminated acknowledged rfl rfl copied, if_neg (by decide), if_pos rfl, kept]
  refine ⟨_, rfl, ?_⟩
  change (lines _).flatMap _ = _
  rw [part.lines_flatten]
  exact copied_stored fun line member => shaped line (List.mem_of_mem_filter member)

/-- A key that occurs twice, and one that starts with it, in a file without a last newline. -/
theorem delete_keeps_lines_prefix :
    let files : Files := ⟨ascii "a:1" ++ newline :: ascii "ab:2:3" ++ newline :: ascii "a:4", []⟩
    ∃ files', storeData files ⟨USER, 68, .bytes (keyFrame DELETE (ascii "a") ++ [0])⟩
        ⟨KERNEL, 46, .bytes (answerFrame 7 (answerText "Successful deleting object from rhashtable."))⟩ =
          some files' ∧
      files'.storeFile = ascii "ab:2:3" ++ [newline] := by
  intro files
  have shaped : ∀ line ∈ lines files.storeFile, StoredLine line := by
    have split : lines files.storeFile =
        [ascii "a:1" ++ [newline], ascii "ab:2:3" ++ [newline], ascii "a:4"] := by
      decide
    simp only [split, List.forall_mem_cons, List.not_mem_nil, false_implies, implies_true, and_true]
    exact ⟨⟨by decide, ascii "a", [49, newline], by decide, by decide, rfl⟩,
      ⟨by decide, ascii "ab", ascii "2:3" ++ [newline], by decide, by decide, rfl⟩,
      by decide, ascii "a", [52], by decide, by decide, rfl⟩
  obtain ⟨files', stored, kept⟩ := delete_keeps_lines files
    (answerText "Successful deleting object from rhashtable.") (ascii "a") shaped (by decide) (by decide)
    (by decide) (by decide) USER 7 0 0 0 68 46 (calloc 63)
  exact ⟨files', stored, kept.trans (by decide)⟩

/-- The text that an acknowledged INSERT appends to the store file, whatever is in it. -/
def Appends (key : Key) (value text : Bytes) : Prop :=
  ∀ (files : Files) (opCode unwritten : Byte) (n m : ℕ) (content : Bytes), 0 ∈ content → ¬Failed content →
    (storeData files ⟨opCode, n, .bytes (insertFrame key.text value ++ [0])⟩
      ⟨KERNEL, m, .bytes (answerFrame unwritten content)⟩).map Files.storeFile = some (files.storeFile ++ text)

/-- The value starts with the text, and a zero byte follows or only the last byte does. -/
def Begins (text value : Bytes) : Prop := 0 ∉ text ∧ ∃ b rest, value = text ++ b :: rest ∧ (b = 0 ∨ rest = [])

section Insert

variable {value text : Bytes}

theorem appends_line (key : Key) (nonempty : value ≠ []) (small : value.length < 65536) :
    Appends key value (key.text ++ colon :: cstr value.dropLast ++ [newline]) := by
  intro files opCode unwritten n m content terminated acknowledged
  rw [storeData_appends key nonempty small terminated acknowledged]
  rfl

/-- A value starts with exactly one such text, the one that is stored. -/
theorem begins_iff (nonempty : value ≠ []) : Begins text value ↔ cstr value.dropLast = text := by
  constructor
  · rintro ⟨clean, b, rest, rfl, ended⟩
    cases rest with
    | nil => rw [List.dropLast_concat, cstr_of_clean clean]
    | cons c rest =>
      obtain rfl := ended.resolve_right (List.cons_ne_nil c rest)
      rw [List.dropLast_append_of_ne_nil (List.cons_ne_nil _ _), List.dropLast_cons_cons, cstr_text clean]
  · rintro rfl
    have split := List.dropLast_concat_getLast nonempty
    refine ⟨cstr_clean _, ?_⟩
    by_cases inside : 0 ∈ value.dropLast
    · obtain ⟨rest, cut⟩ := cstr_split inside
      refine ⟨0, rest ++ [value.getLast nonempty], ?_, .inl rfl⟩
      rw [← List.cons_append, ← List.append_assoc, ← cut, split]
    · rw [cstr_of_clean inside]
      exact ⟨_, [], split.symm, .inr rfl⟩

end Insert

/-- Two values are stored as different texts exactly if no text begins both, unless they are the same. -/
theorem insert_determines_value (key : Key) (v w : Bytes) (nonempty : v ≠ []) (nonempty' : w ≠ [])
    (fits : v.length + HEADERSIZE + KEY_SIZE < 65536) (fits' : w.length + HEADERSIZE + KEY_SIZE < 65536) :
    ∃ s t, Appends key v s ∧ Appends key w t ∧
      ((v ≠ w → s ≠ t) ↔ v = w ∨ ¬∃ text, Begins text v ∧ Begins text w) := by
  refine ⟨_, _, appends_line key nonempty (by omega), appends_line key nonempty' (by omega), ?_⟩
  have common : (∃ text, Begins text v ∧ Begins text w) ↔ cstr v.dropLast = cstr w.dropLast := by
    simp only [begins_iff nonempty, begins_iff nonempty', exists_eq_left']
    exact eq_comm
  rw [common, or_iff_not_imp_left]
  simp

/-- Two texts with their terminators. -/
theorem insert_determines_value_texts :
    let key : Key := ⟨ascii "k", by decide, by decide⟩
    ∃ s t, Appends key (ascii "x" ++ [0]) s ∧ Appends key (ascii "xy" ++ [0]) t ∧ s ≠ t := by
  intro key
  obtain ⟨s, t, first, second, exact⟩ := insert_determines_value key (ascii "x" ++ [0]) (ascii "xy" ++ [0])
    (by decide) (by decide) (by decide) (by decide)
  refine ⟨s, t, first, second, exact.mpr (.inr ?_) (by decide)⟩
  rintro ⟨text, begins, begins'⟩
  rw [begins_iff (by decide)] at begins begins'
  exact absurd (begins.trans begins'.symm) (by decide)

/-- The integers 1024 and 2048, of four bytes each, are both stored as the empty text. -/
theorem insert_loses_integers :
    let key : Key := ⟨ascii "key1", by decide, by decide⟩
    ([0, 4, 0, 0] : Bytes) ≠ [0, 8, 0, 0] ∧ Appends key [0, 4, 0, 0] (ascii "key1:" ++ [newline]) ∧
      Appends key [0, 8, 0, 0] (ascii "key1:" ++ [newline]) :=
  ⟨by decide, appends_line _ (by decide) (by decide), appends_line _ (by decide) (by decide)⟩

end Operativsystem.Store
