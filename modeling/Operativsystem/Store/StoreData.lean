import Operativsystem.Library.Text
import Operativsystem.Store.RequestMap

/-! # The store file

`store_data` mirrors the table in a text file with a line `key:text` for each entry. A stored INSERT
appends its line; a DELETE copies the other lines to a temporary file and back. `keptLines` is the
text that is copied; the lines themselves come from entries that fit a line.
-/

namespace Operativsystem.Store

open Memory Resources Kernel User

abbrev colon : Byte := 58

/-- `STORE_FILE` and `TMP_FILE`; the latter is emptied whenever it is opened. -/
structure Files where
  storeFile : Bytes
  tmpFile : Bytes

/-- The lines that do not start with the key. `strtok` runs on a copy without a terminator. -/
def keptLines (key : Bytes) : List Bytes → Option Bytes
  | [] => some []
  | line :: rest => do
    let (token, _) ← strtok colon (strncpy line.length (cstr (line ++ [0])))
    let pt ← token
    let kept ← keptLines key rest
    some (if pt ≠ cstr key then cstr (line ++ [0]) ++ kept else kept)

/-- `store_data`, on files that can be opened. Its key is copied as the kernel copies it. -/
def storeData (files : Files) (pduSend pduReceive : Pdu) : Option Files :=
  match pduSend.data, pduReceive.data with
  | .bytes sendData, .bytes receiveData => do
    let failed ← strncmpEq 5 (receiveData.drop HEADERSIZE) (ascii "Error" ++ [0])
    if failed then some { files with tmpFile := [] }
    else
      let opCode ← sendData.head?
      let messLen ← read16 sendData 1
      let key ← readKey sendData
      if opCode = INSERT then
        let mess ← memcpy (calloc messLen) 0 (sendData.drop (HEADERSIZE + KEY_SIZE)) messLen
        let mess ← memcpy mess (messLen - 1) [0] 1
        some ⟨files.storeFile ++ (cstr key ++ colon :: cstr mess ++ [newline]), []⟩
      else if opCode = DELETE then
        let kept ← keptLines key (lines files.storeFile)
        some ⟨(lines kept).flatMap fun line => cstr (line ++ [0]), kept⟩
      else some { files with tmpFile := [] }
  | _, _ => none

/-- A key text that can start a line. -/
structure LineKey extends Key where
  nonempty : text ≠ []
  whole : colon ∉ text
  unbroken : newline ∉ text

/-- A value text that can end a line; the value is the text with its terminator. -/
structure LineText where
  text : Bytes
  clean : 0 ∉ text
  unbroken : newline ∉ text
  fits : text.length + 1 + HEADERSIZE + KEY_SIZE ≤ MAX_PAYLOAD

def LineText.value (t : LineText) : Value := ⟨t.text ++ [0], by simp, by simpa using t.fits⟩

structure Entry where
  key : LineKey
  text : LineText

def Entry.body (e : Entry) : Bytes := e.key.text ++ colon :: e.text.text

def Entry.line (e : Entry) : Bytes := e.body ++ [newline]

namespace Entry

theorem body_clean (e : Entry) : 0 ∉ e.body := by
  simp only [body, List.mem_append, List.mem_cons, not_or]
  exact ⟨e.key.clean, by decide, e.text.clean⟩

theorem body_unbroken (e : Entry) : newline ∉ e.body := by
  simp only [body, List.mem_append, List.mem_cons, not_or]
  exact ⟨e.key.unbroken, by decide, e.text.unbroken⟩

theorem lines_entries (live : List Entry) : lines (live.flatMap line) = live.map line :=
  lines_flatMap live body fun e _ => e.body_unbroken

end Entry

/-- A line as the store writes it: no zero byte, and something in front of the first colon. -/
def StoredLine (line : Bytes) : Prop :=
  0 ∉ line ∧ ∃ key rest, key ≠ [] ∧ colon ∉ key ∧ line = key ++ colon :: rest

/-- The text before the first colon. -/
def lineKey (line : Bytes) : Bytes := line.takeWhile (· ≠ colon)

theorem lineKey_append {key : Bytes} (whole : colon ∉ key) (rest : Bytes) :
    lineKey (key ++ colon :: rest) = key := by
  rw [lineKey, List.takeWhile_append_of_pos]
  · simp
  · intro b member
    simpa using ne_of_mem_of_not_mem member whole

/-- The lines whose key is another one, as they stand. -/
theorem keptLines_stored (key : Bytes) {stored : List Bytes} (shaped : ∀ line ∈ stored, StoredLine line) :
    keptLines key stored = some (stored.filter fun line => lineKey line ≠ cstr key).flatten := by
  induction stored with
  | nil => rfl
  | cons line rest ih =>
    obtain ⟨⟨clean, lead, text, nonempty, whole, rfl⟩, later⟩ := List.forall_mem_cons.mp shaped
    have cleanLead : 0 ∉ lead := fun member => clean (List.mem_append_left _ member)
    have copy : strncpy (lead ++ colon :: text).length (lead ++ colon :: text) = lead ++ colon :: text := by
      rw [strncpy, List.take_length, padded, Nat.sub_self, calloc_zero, List.append_nil]
    have token := strtok_text nonempty cleanLead whole (Or.inr rfl) text
    rw [keptLines, cstr_text clean, copy, token, ih later, List.filter_cons, lineKey_append whole]
    by_cases other : lead ≠ cstr key
    · simp [other]
    · simp [not_not.mp other]

theorem copied_stored {stored : List Bytes} (shaped : ∀ line ∈ stored, StoredLine line) :
    (stored.flatMap fun line => cstr (line ++ [0])) = stored.flatten := by
  rw [← List.flatMap_id]
  exact List.flatMap_congr fun line member => cstr_text (shaped line member).1 []

namespace Entry

theorem line_eq (e : Entry) : e.line = e.key.text ++ colon :: (e.text.text ++ [newline]) := by simp [line, body]

theorem stored (e : Entry) : StoredLine e.line := by
  refine ⟨?_, e.key.text, e.text.text ++ [newline], e.key.nonempty, e.key.whole, e.line_eq⟩
  simp only [line, List.mem_append, List.mem_singleton, not_or]
  exact ⟨e.body_clean, by decide⟩

theorem cstr_line (e : Entry) : cstr (e.line ++ [0]) = e.line := cstr_text e.stored.1 []

theorem lineKey_line (e : Entry) : lineKey e.line = e.key.text := by rw [line_eq, lineKey_append e.key.whole]

theorem stored_lines {live : List Entry} {line : Bytes} (member : line ∈ live.map Entry.line) :
    StoredLine line := by
  obtain ⟨e, -, rfl⟩ := List.mem_map.mp member
  exact e.stored

end Entry

/-- The other entries of the file, as they stand. -/
theorem keptLines_entries (key : Bytes) (live : List Entry) :
    keptLines key (live.map Entry.line) =
      some ((live.filter fun e => e.key.text ≠ cstr key).flatMap Entry.line) := by
  rw [keptLines_stored key fun _ => Entry.stored_lines, List.filter_map, List.flatMap_def]
  simp only [Function.comp_def, Entry.lineKey_line]

theorem copied_entries (live : List Entry) :
    ((lines (live.flatMap Entry.line)).flatMap fun line => cstr (line ++ [0])) =
      live.flatMap Entry.line := by
  rw [Entry.lines_entries, copied_stored fun _ => Entry.stored_lines, List.flatMap_def]

/-- An answer that `store_data` takes for a failure. -/
def Failed (answer : Bytes) : Prop := ascii "Error" <+: answer

instance (answer : Bytes) : Decidable (Failed answer) := inferInstanceAs (Decidable (_ <+: _))

section Requests

variable {files : Files} {content : Bytes} {opCode : Byte} {n m : ℕ} {unwritten : Byte}

/-- The comparison with "Error" on a terminated answer. -/
private theorem compared (terminated : 0 ∈ content) :
    strncmpEq 5 ((answerFrame unwritten content).drop HEADERSIZE) (ascii "Error" ++ [0]) =
      some (decide (Failed content)) :=
  strncmpEq_text (show 0 ∉ ascii "Error" by decide) terminated

/-- After a failure the file stays as it is, whatever was requested. -/
theorem storeData_failed {sendData : Bytes} (terminated : 0 ∈ content) (failed : Failed content) :
    storeData files ⟨opCode, n, .bytes sendData⟩ ⟨KERNEL, m, .bytes (answerFrame unwritten content)⟩ =
      some { files with tmpFile := [] } := by
  simp [storeData, compared terminated, failed]

/-- After a success the request decides what becomes of the file. -/
theorem storeData_succeeded {sendData key : Bytes} {op : Byte} {messLen : ℕ}
    (terminated : 0 ∈ content) (succeeded : ¬Failed content) (head : sendData.head? = some op)
    (length : read16 sendData 1 = some messLen) (copied : readKey sendData = some key) :
    storeData files ⟨opCode, n, .bytes sendData⟩ ⟨KERNEL, m, .bytes (answerFrame unwritten content)⟩ =
      if op = INSERT then do
        let mess ← memcpy (calloc messLen) 0 (sendData.drop (HEADERSIZE + KEY_SIZE)) messLen
        let mess ← memcpy mess (messLen - 1) [0] 1
        some ⟨files.storeFile ++ (cstr key ++ colon :: cstr mess ++ [newline]), []⟩
      else if op = DELETE then do
        let kept ← keptLines key (lines files.storeFile)
        some ⟨(lines kept).flatMap fun line => cstr (line ++ [0]), kept⟩
      else some { files with tmpFile := [] } := by
  simp only [storeData, compared terminated, decide_eq_false succeeded, head, length, copied,
    Option.bind_eq_bind, Option.bind_some, Bool.false_eq_true, if_false]

theorem storeData_init (terminated : 0 ∈ content) (succeeded : ¬Failed content) :
    storeData files ⟨opCode, n, .bytes ([INIT, 0, 0, 0] ++ [0])⟩
      ⟨KERNEL, m, .bytes (answerFrame unwritten content)⟩ = some { files with tmpFile := [] } := by
  have key : readKey ([INIT, 0, 0, 0] ++ [0]) = some (padded (KEY_SIZE + 1) []) := by decide
  rw [storeData_succeeded terminated succeeded rfl rfl key, if_neg (by decide), if_neg (by decide)]

theorem storeData_get {key : Key} (terminated : 0 ∈ content) (succeeded : ¬Failed content) :
    storeData files ⟨opCode, n, .bytes (keyFrame GET key.text ++ [0])⟩
      ⟨KERNEL, m, .bytes (answerFrame unwritten content)⟩ = some { files with tmpFile := [] } := by
  have copied := @readKey_keyFrame _ [0] GET key.clean key.fits
  rw [storeData_succeeded terminated succeeded rfl rfl copied, if_neg (by decide), if_neg (by decide)]

theorem cstr_padded {text : Bytes} (clean : 0 ∉ text) (fits : text.length < KEY_SIZE) :
    cstr (padded (KEY_SIZE + 1) text) = text := by
  rw [padded_eq (by omega), cstr_text clean]

/-- A DELETE that went through keeps the lines of the other keys. -/
theorem storeData_delete {key : Key} {live : List Entry} (file : files.storeFile = live.flatMap Entry.line)
    (terminated : 0 ∈ content) (succeeded : ¬Failed content) :
    ∃ files', storeData files ⟨opCode, n, .bytes (keyFrame DELETE key.text ++ [0])⟩
        ⟨KERNEL, m, .bytes (answerFrame unwritten content)⟩ = some files' ∧
      files'.storeFile = (live.filter fun e => e.key.text ≠ key.text).flatMap Entry.line := by
  have copied := @readKey_keyFrame _ [0] DELETE key.clean key.fits
  have kept := keptLines_entries (padded (KEY_SIZE + 1) key.text) live
  rw [cstr_padded key.clean key.fits] at kept
  rw [storeData_succeeded terminated succeeded rfl rfl copied, if_neg (by decide), if_pos rfl, file,
    Entry.lines_entries, kept]
  exact ⟨_, rfl, copied_entries _⟩

/-- An INSERT that went through appends the key and the value up to its first zero byte or its last byte. -/
theorem storeData_appends (key : Key) {value : Bytes} (nonempty : value ≠ []) (small : value.length < 65536)
    (terminated : 0 ∈ content) (succeeded : ¬Failed content) :
    storeData files ⟨opCode, n, .bytes (insertFrame key.text value ++ [0])⟩
        ⟨KERNEL, m, .bytes (answerFrame unwritten content)⟩ =
      some ⟨files.storeFile ++ (key.text ++ colon :: cstr value.dropLast ++ [newline]), []⟩ := by
  have copied := @readKey_insertFrame key.text value [0] key.clean key.fits
  have length := @insertFrame_read16 key.text _ small [0]
  have mess : memcpy (calloc value.length) 0 (value ++ [0]) value.length = some value := by
    rw [memcpy_front (by simp) (by simp), List.take_left]
    simp [calloc]
  have ended : memcpy value (value.length - 1) [0] 1 = some (value.dropLast ++ [0]) := by
    have split := List.dropLast_concat_getLast nonempty
    have parts := @memcpy_parts value value.dropLast [value.getLast nonempty] [] [0] (value.length - 1) 1
      (by rw [List.append_nil, split]) List.length_dropLast rfl le_rfl
    rwa [List.append_nil] at parts
  rw [storeData_succeeded terminated succeeded rfl length copied, if_pos rfl, insertFrame_drop key.fits.le]
  simp only [mess, ended, cstr_append, Option.bind_eq_bind, Option.bind_some, cstr_padded key.clean key.fits]

/-- The line of a text. -/
theorem storeData_line (key : Key) (text : LineText) (terminated : 0 ∈ content) (succeeded : ¬Failed content) :
    ∃ files', storeData files ⟨opCode, n, .bytes (insertFrame key.text text.value.bytes ++ [0])⟩
        ⟨KERNEL, m, .bytes (answerFrame unwritten content)⟩ = some files' ∧
      files'.storeFile = files.storeFile ++ (key.text ++ colon :: text.text ++ [newline]) := by
  have fits := text.value.fits
  have small : text.value.bytes.length < 65536 := by
    simp only [MAX_PAYLOAD, HEADERSIZE, KEY_SIZE] at fits
    omega
  have kept : cstr text.value.bytes.dropLast = text.text := by
    rw [LineText.value, List.dropLast_concat, cstr_of_clean text.clean]
  refine ⟨_, storeData_appends key text.value.nonempty small terminated succeeded, ?_⟩
  rw [kept]

/-- The line of an entry. -/
theorem storeData_insert (e : Entry) (terminated : 0 ∈ content) (succeeded : ¬Failed content) :
    ∃ files', storeData files
        ⟨opCode, n, .bytes (insertFrame e.key.text e.text.value.bytes ++ [0])⟩
        ⟨KERNEL, m, .bytes (answerFrame unwritten content)⟩ = some files' ∧
      files'.storeFile = files.storeFile ++ e.line :=
  storeData_line e.key.toKey e.text terminated succeeded

end Requests

end Operativsystem.Store
