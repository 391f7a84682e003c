import Operativsystem.Store.Lockstep

/-! # Restarting the server

`load_stored_values` sends an INSERT for each line of the store file that has a colon. The value is
the second token of the line, which still holds the newline, so a stored text comes back with a
newline before its terminator, and a value that filled its frame no longer fits.
-/

namespace Operativsystem.Store

open Memory Resources Kernel User Machine

/-- The structure that the tokens of a line fill: the first two count. -/
def loadStruct (line : Bytes) : Option InsertStruct := do
  let (first, rest) ← strtok colon (line ++ [0])
  match first with
  | none => some ⟨INSERT, calloc KEY_SIZE, 0, []⟩
  | some token =>
    let key := strncpy KEY_SIZE token
    let (second, _) ← strtok colon rest
    match second with
    | none => some ⟨INSERT, key, 0, []⟩
    | some token =>
      let dataBytes := u16 (token.length + 1)
      some ⟨INSERT, key, dataBytes, strncpy dataBytes token⟩

/-- One line of the file; a line that does not match `.*:.*` is passed over. -/
def loadLine (o : Outcomes) (link : Link) (line : Bytes) : Option Link :=
  if colon ∈ cstr (line ++ [0]) then do
    let insertStruct ← loadStruct line
    let action ← pduToBufferUser (.insert insertStruct)
    transact o link action (u16 (insertStruct.dataBytes + HEADERSIZE + KEY_SIZE))
  else some link

/-- The PDU that is made of a line. -/
def loadPdu (line : Bytes) : Option (Option Pdu) :=
  if colon ∈ cstr (line ++ [0]) then do
    let insertStruct ← loadStruct line
    let action ← pduToBufferUser (.insert insertStruct)
    some (some ⟨USER, u16 (insertStruct.dataBytes + HEADERSIZE + KEY_SIZE), .bytes action⟩)
  else some none

def sendLoaded (o : Outcomes) (link : Link) : Option Pdu → Option Link
  | none => some link
  | some ⟨_, dataBytes, .bytes action⟩ => transact o link action dataBytes
  | some _ => none

def loadStoredValues (o : Outcomes) (link : Link) (storeFile : Bytes) : Option Link :=
  (lines storeFile).foldlM (loadLine o) link

/-- `init_hashtable` on a fresh module with the file that was left. -/
def restart (o : Outcomes) (storeFile : Bytes) : Option Link := do
  let link ← initHashtable o
  loadStoredValues o link storeFile

/-- The key and the value of a line: its first two fields. -/
def keyField (line : Bytes) : Bytes := firstField colon (cstr (line ++ [0]))

def valueField (line : Bytes) : Bytes := firstField colon (laterFields colon (cstr (line ++ [0])))

/-- The `data_bytes` of the structure, zero if there is no value. -/
def valueLength (line : Bytes) : ℕ := if valueField line = [] then 0 else u16 ((valueField line).length + 1)

def loadedValue (line : Bytes) : Bytes := strncpy (valueLength line) (valueField line)

section Lines

theorem loadedValue_length (line : Bytes) : (loadedValue line).length = valueLength line := strncpy_length _

theorem valueLength_le (line : Bytes) : valueLength line ≤ line.length + 2 := by
  have field := firstField_length_le colon (laterFields colon (cstr (line ++ [0])))
  have later := (laterFields_suffix colon (cstr (line ++ [0]))).length_le
  have text := cstr_length_le (line ++ [0])
  rw [List.length_append, List.length_singleton] at text
  rw [valueLength, valueField]
  split_ifs
  · exact Nat.zero_le _
  · exact (Nat.mod_le _ _).trans (by omega)

/-- The structure of a line, whatever it holds. -/
theorem loadStruct_eq (line : Bytes) : loadStruct line =
    some ⟨INSERT, strncpy KEY_SIZE (keyField line), valueLength line, loadedValue line⟩ := by
  obtain ⟨tail, split⟩ := cstr_split (show 0 ∈ line ++ [0] by simp)
  have clean := cstr_clean (line ++ [0])
  rw [loadStruct, loadedValue, valueLength, keyField, valueField, split, cstr_text clean]
  generalize cstr (line ++ [0]) = text at clean
  have later : 0 ∉ laterFields colon text := fun member => clean ((laterFields_suffix colon text).subset member)
  simp only [strtok_fields (show colon ≠ 0 by decide) clean, Option.bind_eq_bind, Option.bind_some]
  by_cases first : firstField colon text = []
  · rw [if_pos first, laterFields_eq_nil first, first]
    rfl
  · rw [if_neg first]
    simp only [strtok_fields (show colon ≠ 0 by decide) later, Option.bind_some]
    by_cases second : firstField colon (laterFields colon text) = []
    · rw [if_pos second, if_pos second, strncpy_zero]
    · rw [if_neg second, if_neg second]

/-- A line with a colon is sent as the frame of its key and its value. -/
theorem loadPdu_eq (line : Bytes) : loadPdu line =
    some (if colon ∈ cstr (line ++ [0]) then
      some ⟨USER, u16 ((loadedValue line).length + HEADERSIZE + KEY_SIZE),
        .bytes (insertFrame ((keyField line).take KEY_SIZE) (loadedValue line))⟩
      else none) := by
  have clean : 0 ∉ (keyField line).take KEY_SIZE := fun member =>
    cstr_clean (line ++ [0]) (firstField_subset colon _ (List.mem_of_mem_take member))
  have action := @createInsertBuffer_text _ _ (loadedValue line) [] clean (List.length_take_le _ _)
    ⟨_, padded_append KEY_SIZE ((keyField line).take KEY_SIZE)⟩
  rw [List.append_nil, loadedValue_length] at action
  rw [loadPdu, loadStruct_eq, loadedValue_length]
  split_ifs
  · simp only [pduToBufferUser, strncpy, action, Option.bind_eq_bind, Option.bind_some]
  · rfl

/-- Loading a line is sending its PDU. -/
theorem loadLine_loadPdu (o : Outcomes) (link : Link) (line : Bytes) :
    loadLine o link line = (loadPdu line).bind (sendLoaded o link) := by
  rw [loadLine, loadPdu]
  split_ifs with matched
  · cases loadStruct line with
    | none => rfl
    | some insertStruct =>
      simp only [Option.bind_eq_bind, Option.bind_some]
      cases pduToBufferUser (.insert insertStruct) <;> rfl
  · rfl

end Lines

/-- The value that comes back: the first field behind the key, to which the newline of the line belongs. -/
def Entry.loaded (e : Entry) : Bytes := firstField colon (e.text.text ++ [newline]) ++ [0]

/-- What comes back of a text without a colon: the text with the newline. -/
def Entry.reloaded (e : Entry) : Bytes := e.text.text ++ [newline, 0]

/-- The loaded value still fits a frame. -/
def Entry.Loads (e : Entry) : Prop := e.loaded.length + HEADERSIZE + KEY_SIZE ≤ MAX_PAYLOAD

section Load

variable {o : Outcomes} {link : Link} {e : Entry}

theorem Entry.loaded_whole (e : Entry) (whole : colon ∉ e.text.text) : e.loaded = e.reloaded := by
  have single : colon ∉ e.text.text ++ [newline] := by
    simp only [List.mem_append, List.mem_singleton, not_or]
    exact ⟨whole, by decide⟩
  rw [loaded, firstField_whole single, List.append_assoc]
  rfl

theorem Entry.loaded_length_le (e : Entry) : e.loaded.length ≤ e.text.text.length + 2 := by
  have field := firstField_length_le colon (e.text.text ++ [newline])
  simp only [List.length_append, List.length_singleton] at field
  simp only [loaded, List.length_append, List.length_singleton]
  omega

theorem Entry.loaded_small (e : Entry) : e.loaded.length + HEADERSIZE + KEY_SIZE < 65536 := by
  have fits := e.text.fits
  have length := e.loaded_length_le
  simp only [MAX_PAYLOAD] at fits
  omega

/-- The loaded value fits unless the text is as long as a text can be and has no colon. -/
theorem Entry.loads_iff (e : Entry) :
    e.Loads ↔ colon ∈ e.text.text ∨ e.text.text.length + 2 + HEADERSIZE + KEY_SIZE ≤ MAX_PAYLOAD := by
  by_cases inside : colon ∈ e.text.text
  · have field := firstField_length_lt (List.mem_append_left [newline] inside)
    have fits := e.text.fits
    simp only [List.length_append, List.length_singleton] at field
    refine iff_of_true ?_ (Or.inl inside)
    simp only [Loads, loaded, List.length_append, List.length_singleton]
    omega
  · simp [Loads, e.loaded_whole inside, reloaded, inside]

/-- The fields of the line of an entry. -/
theorem Entry.fields (e : Entry) : keyField e.line = e.key.text ∧
    valueField e.line = firstField colon (e.text.text ++ [newline]) := by
  have split := firstField_append e.key.nonempty e.key.whole (e.text.text ++ [newline])
  have line : e.line = e.key.text ++ colon :: (e.text.text ++ [newline]) := by simp [line, body]
  rw [keyField, valueField, e.cstr_line, line, split.1, split.2]
  exact ⟨rfl, rfl⟩

theorem Entry.loadedValue_line (e : Entry) : loadedValue e.line = e.loaded := by
  have small := e.loaded_small
  have nonempty : firstField colon (e.text.text ++ [newline]) ≠ [] :=
    firstField_ne_nil ⟨newline, by simp, by decide⟩
  have length : e.loaded.length = (firstField colon (e.text.text ++ [newline])).length + 1 := by
    rw [loaded, List.length_append, List.length_singleton]
  rw [loadedValue, valueLength, e.fields.2, if_neg nonempty, u16_of_lt (by omega), strncpy,
    List.take_of_length_le (by omega), padded, Nat.add_sub_cancel_left]
  rfl

/-- A line is sent as the frame that stores the loaded value. -/
theorem loadPdu_line (e : Entry) : loadPdu e.line =
    some (some ⟨USER, (insertFrame e.key.text e.loaded).length, .bytes (insertFrame e.key.text e.loaded)⟩) := by
  have matched : colon ∈ cstr (e.line ++ [0]) := by
    rw [e.cstr_line]
    simp [Entry.line, Entry.body]
  rw [loadPdu_eq, if_pos matched, e.loadedValue_line, e.fields.1, List.take_of_length_le e.key.fits.le,
    u16_of_lt e.loaded_small, insertFrame_length e.key.fits.le]

theorem loadLine_eq (e : Entry) : loadLine o link e.line =
    transact o link (insertFrame e.key.text e.loaded) (insertFrame e.key.text e.loaded).length := by
  rw [loadLine_loadPdu, loadPdu_line]
  rfl

/-- A loaded value that fits is inserted as a request. -/
theorem loadLine_fits {m : Bytes → Option Bytes} (usual : Usual o) (loads : e.Loads) (serves : Serves link m) :
    ∃ link', loadLine o link e.line = some link' ∧
      Serves link' (mapStep o m (.insert e.key.toKey ⟨e.loaded, by simp [Entry.loaded], loads⟩)).1 := by
  obtain ⟨link', sent, serves'⟩ := transact_request usual serves
    (.insert e.key.toKey ⟨e.loaded, by simp [Entry.loaded], loads⟩) []
  rw [List.append_nil] at sent
  exact ⟨link', (loadLine_eq e).trans sent, serves'⟩

/-- A loaded value that does not fit overruns the payload. -/
theorem loadLine_long (long : ¬e.Loads) : loadLine o link e.line = none := by
  have size : (insertFrame e.key.text e.loaded).length = e.loaded.length + HEADERSIZE + KEY_SIZE :=
    insertFrame_length e.key.fits.le
  rw [loadLine_eq, transact]
  cases copied : link.nlhUserSend.memcpy (insertFrame e.key.text e.loaded)
      (insertFrame e.key.text e.loaded).length with
  | none => rfl
  | some payload => exact absurd (size.symm.trans_le (link.nlhUserSend.memcpy_some copied).2.1) long

end Load

/-- The entries of a file are loaded one after the other. -/
theorem loadStoredValues_fits (unwritten : Byte) {link : Link} {done rest : List Entry}
    (serves : Serves link (mapWith Entry.loaded done)) (loads : ∀ e ∈ rest, e.Loads)
    (distinct : ((done ++ rest).map fun e => e.key.text).Nodup) :
    ∃ link', (rest.map Entry.line).foldlM (loadLine (.smooth unwritten)) link = some link' ∧
      Serves link' (mapWith Entry.loaded (done ++ rest)) := by
  induction rest generalizing done link with
  | nil => exact ⟨link, rfl, by rwa [List.append_nil]⟩
  | cons e rest ih =>
    have others : ∀ other ∈ done, other.key.text ≠ e.key.text := by
      intro other member same
      rw [List.map_append, List.nodup_append] at distinct
      exact distinct.2.2 _ (List.mem_map_of_mem member) _ List.mem_cons_self same
    have absent : mapWith Entry.loaded done e.key.text = none := mapWith_eq_none_iff.mpr others
    obtain ⟨next, loaded, serves⟩ := loadLine_fits (o := .smooth unwritten) ⟨rfl, rfl, rfl, rfl⟩
      (loads e List.mem_cons_self) serves
    have inserted : Serves next (Function.update (mapWith Entry.loaded done) e.key.text (some e.loaded)) := by
      simpa [mapStep, Outcomes.smooth, absent] using serves
    rw [← mapWith_append others] at inserted
    rw [List.append_cons] at distinct ⊢
    obtain ⟨link', loadedRest, serves⟩ := ih inserted
      (fun other member => loads other (List.mem_cons_of_mem _ member)) distinct
    exact ⟨link', by rw [List.map_cons, List.foldlM_cons, loaded]; exact loadedRest, serves⟩

theorem loadStoredValues_long {o : Outcomes} {link : Link} {live : List Entry} {bad : Entry}
    (member : bad ∈ live) (long : ¬bad.Loads) : (live.map Entry.line).foldlM (loadLine o) link = none := by
  induction live generalizing link with
  | nil => cases member
  | cons e rest ih =>
    rw [List.map_cons, List.foldlM_cons]
    rcases List.mem_cons.mp member with rfl | later
    · rw [loadLine_long long]
      rfl
    · cases loadLine o link e.line with
      | none => rfl
      | some next => exact ih later

section Restart

variable {s : StoreState} {live : List Entry}

theorem restart_eq (unwritten : Byte) (storeFile : Bytes) : restart (.smooth unwritten) storeFile =
    loadStoredValues (.smooth unwritten) (initialLink unwritten) storeFile := by
  rw [restart, initHashtable_eq]
  rfl

/-- After a restart every key has its loaded value, if the server gets through. -/
theorem restart_entries (lockstep : Lockstep s live) (loads : ∀ e ∈ live, e.Loads) (unwritten : Byte) :
    ∃ link', restart (.smooth unwritten) s.files.storeFile = some link' ∧
      Serves link' (mapWith Entry.loaded live) := by
  have initial : Serves (initialLink unwritten) (mapWith Entry.loaded []) := initialLink_serves unwritten
  obtain ⟨link', loaded, serves⟩ := @loadStoredValues_fits unwritten _ [] live initial loads lockstep.distinct
  refine ⟨link', ?_, serves⟩
  rw [restart_eq, lockstep.file, loadStoredValues, Entry.lines_entries, loaded]

theorem restart_long (lockstep : Lockstep s live) {bad : Entry} (member : bad ∈ live) (long : ¬bad.Loads)
    (unwritten : Byte) : restart (.smooth unwritten) s.files.storeFile = none := by
  rw [restart_eq, lockstep.file, loadStoredValues, Entry.lines_entries, loadStoredValues_long member long]

/-- A restart gives back the table that it finds only if that is empty. -/
theorem restart_preserves_iff (lockstep : Lockstep s live) (whole : ∀ e ∈ live, colon ∉ e.text.text)
    (unwritten : Byte) :
    (∃ link', restart (.smooth unwritten) s.files.storeFile = some link' ∧ link'.kernel = s.link.kernel) ↔
      s.link.kernel = ⟨some ∅⟩ := by
  rw [lockstep.empty_iff]
  constructor
  · rintro ⟨link', loaded, same⟩
    by_cases loads : ∀ e ∈ live, e.Loads
    · obtain ⟨link'', again, serves⟩ := restart_entries lockstep loads unwritten
      obtain rfl := Option.some.inj (again.symm.trans loaded)
      cases live with
      | nil => rfl
      | cons e rest =>
        obtain ⟨ht, kernel, found⟩ := lookup_mapWith lockstep.serves
        obtain ⟨ht', kernel', found'⟩ := lookup_mapWith serves
        rw [kernel, kernel'] at same
        obtain rfl : ht' = ht := Option.some.inj (KernelState.mk.inj same)
        have values := congrArg RhashObject.dataBytes (Option.some.inj (found'.symm.trans found))
        rw [entry, e.loaded_whole (whole e List.mem_cons_self)] at values
        simp [entry, Entry.reloaded, LineText.value] at values
    · obtain ⟨bad, member, long⟩ : ∃ e ∈ live, ¬e.Loads := by simpa using loads
      rw [restart_long lockstep member long] at loaded
      cases loaded
  · rintro rfl
    refine ⟨initialLink unwritten, ?_, (lockstep.empty_iff.mpr rfl).symm⟩
    rw [restart_eq, lockstep.file]
    rfl

end Restart

/-- A turn whose inserted text has no colon. -/
structure PortableTurn extends Turn where
  whole : ∀ e, request = .insert e → colon ∉ e.text.text

/-- After every run from an empty table and an empty file, restarting the server with the file gives
the table back exactly when the table is empty. -/
theorem restart_preserves (unwritten unwritten' : Byte) (turns : List PortableTurn) :
    ∃ s answers,
      trace storeStep (.start unwritten) (turns.map fun turn => (turn.outcomes, turn.request.request)) =
        some (s, answers) ∧
      ((∃ link', restart (.smooth unwritten') s.files.storeFile = some link' ∧
          link'.kernel = s.link.kernel) ↔ s.link.kernel = ⟨some ∅⟩) := by
  obtain ⟨s, answers, ran, lockstep⟩ :=
    run_lockstep (lockstep_start unwritten) (turns.map PortableTurn.toTurn)
  simp only [List.map_map] at ran lockstep
  refine ⟨s, answers, ran, restart_preserves_iff lockstep (fun e member => ?_) unwritten'⟩
  rcases mem_liveAfter member with absurd | inserted
  · cases absurd
  · obtain ⟨turn, -, same⟩ := List.mem_map.mp inserted
    exact turn.whole e same

/-- The acknowledged value "b" comes back with a newline in it. -/
theorem restart_changes_value :
    let e : Entry := ⟨⟨⟨ascii "a", by decide, by decide⟩, by decide, by decide, by decide⟩,
      ⟨ascii "b", by decide, by decide, by decide⟩⟩
    ∃ s link', trace storeStep (.start 0) [(.smooth 0, .insert e.key.toKey e.text.value)] =
        some (s, [answerText "Inserted object to rhashtable"]) ∧
      restart (.smooth 0) s.files.storeFile = some link' ∧ link'.kernel ≠ s.link.kernel := by
  intro e
  obtain ⟨s, stepped, lockstep⟩ :=
    storeStep_lockstep (o := .smooth 0) ⟨rfl, rfl, rfl, rfl⟩ (lockstep_start 0) (.insert e)
  have live : liveStep [] (.insert e) (answerText "Inserted object to rhashtable") = [e] :=
    liveStep_insert (by decide) e
  have lockstep : Lockstep s [e] := by rwa [← live]
  have whole : ∀ other ∈ [e], colon ∉ other.text.text := by
    intro other single
    obtain rfl := List.mem_singleton.mp single
    decide
  have loads : ∀ other ∈ [e], other.Loads := by
    intro other single
    obtain rfl := List.mem_singleton.mp single
    exact show (firstField colon (ascii "b" ++ [newline]) ++ [0]).length + HEADERSIZE + KEY_SIZE ≤ MAX_PAYLOAD by
      decide
  obtain ⟨link', loaded, -⟩ := restart_entries lockstep loads 0
  refine ⟨s, link', ?_, loaded, fun same => ?_⟩
  · change storeStep (.start 0) (.smooth 0, .insert e.key.toKey e.text.value) =
      some (s, answerText "Inserted object to rhashtable") at stepped
    simp only [trace, stepped, Option.bind_eq_bind, Option.bind_some]
  · have empty := (restart_preserves_iff lockstep whole 0).mp ⟨link', loaded, same⟩
    cases lockstep.empty_iff.mp empty

end Operativsystem.Store
