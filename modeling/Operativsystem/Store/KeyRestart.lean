import Operativsystem.Store.Restart

/-! # Keys across a restart

The prompt of the client takes any key, but a line of the store file ends its key at the first colon. A key
with a colon is stored in the table and in the file, and its line brings back another key, or is taken for the
line of another key when that is deleted. `ColonFree` is what a restart leaves in any case.
-/

namespace Operativsystem.Store

open Memory Resources Kernel User Machine

/-- No key of the table holds a colon. -/
def ColonFree (k : KernelState) : Prop := ∀ ht, k.ht = some ht → ∀ key ∈ ht, colon ∉ key

section Handlers

variable {o : Outcomes} {k k' : KernelState} {request : Bytes}

/-- Every byte of a key that is compared is zero or comes from the key field. -/
theorem readKey_bytes {key : Bytes} (found : readKey request = some key) :
    ∀ b ∈ key.take KEY_SIZE, b = 0 ∨ b ∈ (request.drop HEADERSIZE).take KEY_SIZE := by
  simp only [readKey, Option.bind_eq_bind, Option.bind_eq_some_iff] at found
  obtain ⟨len, length, text, copied, ended⟩ := found
  have width : text.length = KEY_SIZE + 1 := (memcpy_length copied).trans (calloc_length _)
  have front : key.take KEY_SIZE = text.take KEY_SIZE := by
    simp only [memcpy, Option.ite_none_right_eq_some, Option.some.injEq] at ended
    rw [← ended.2, List.append_assoc, List.take_append_of_le_length (by rw [List.length_take]; omega),
      List.take_take, Nat.min_self]
  simp only [memcpy, Option.ite_none_right_eq_some, Option.some.injEq, List.take_zero, List.nil_append] at copied
  intro b member
  rw [front, ← copied.2, List.take_append, List.mem_append] at member
  rcases member with text | zeros
  · rw [List.take_take, Nat.min_comm, ← List.take_take] at text
    exact Or.inr (List.mem_of_mem_take text)
  · exact Or.inl (List.eq_of_mem_replicate (List.mem_of_mem_drop (List.mem_of_mem_take zeros)))

/-- An INSERT whose key field has no colon adds no key with one. -/
theorem readInsertStruct_colonFree {response : Pdu} (free : ColonFree k)
    (field : colon ∉ (request.drop HEADERSIZE).take KEY_SIZE)
    (handled : readInsertStruct o k request = some (k', response)) : ColonFree k' := by
  simp only [readInsertStruct, Option.bind_eq_bind] at handled
  split_ifs at handled with object failed
  · obtain ⟨dataBytes, -, handled⟩ := Option.bind_eq_some_iff.mp handled
    obtain ⟨key, copied, handled⟩ := Option.bind_eq_some_iff.mp handled
    obtain ⟨data, -, handled⟩ := Option.bind_eq_some_iff.mp handled
    obtain ⟨ht, live, handled⟩ := Option.bind_eq_some_iff.mp handled
    obtain ⟨_, -, same⟩ := Option.bind_eq_some_iff.mp handled
    cases same
    exact free
  · obtain ⟨dataBytes, -, handled⟩ := Option.bind_eq_some_iff.mp handled
    obtain ⟨key, copied, handled⟩ := Option.bind_eq_some_iff.mp handled
    obtain ⟨data, -, handled⟩ := Option.bind_eq_some_iff.mp handled
    obtain ⟨ht, live, handled⟩ := Option.bind_eq_some_iff.mp handled
    cases inserted : rhashtableLookupInsertFast ht ⟨key, dataBytes, data⟩ with
    | none =>
      rw [inserted] at handled
      obtain ⟨_, -, same⟩ := Option.bind_eq_some_iff.mp handled
      cases same
      exact free
    | some ht' =>
      rw [inserted] at handled
      obtain ⟨_, -, same⟩ := Option.bind_eq_some_iff.mp handled
      cases same
      simp only [rhashtableLookupInsertFast, Option.ite_none_left_eq_some, Option.some.injEq] at inserted
      rintro _ ⟨⟩ other member
      rw [← inserted.2, Finmap.mem_insert] at member
      rcases member with rfl | old
      · intro inside
        rcases readKey_bytes copied colon inside with zero | held
        · exact absurd zero (by decide)
        · exact field held
      · exact free ht live other old
  · obtain ⟨_, -, same⟩ := Option.bind_eq_some_iff.mp handled
    cases same
    exact free

theorem workHandler_colonFree {answer : Option Bytes} (free : ColonFree k) (head : request.head? = some INSERT)
    (field : colon ∉ (request.drop HEADERSIZE).take KEY_SIZE)
    (handled : workHandler o k request = some (k', answer)) : ColonFree k' := by
  obtain ⟨⟨next, response⟩, read, sent⟩ := Option.bind_eq_some_iff.mp handled
  have kept : k' = next := by
    cases response with
    | none => exact (Prod.mk.inj (Option.some.inj sent)).1.symm
    | some response =>
      obtain ⟨_, -, same⟩ := Option.bind_eq_some_iff.mp sent
      exact (Prod.mk.inj (Option.some.inj same)).1.symm
  rw [readExactlyFromUser] at read
  split_ifs at read with allocated
  · obtain ⟨opCode, first, read⟩ := Option.bind_eq_some_iff.mp read
    obtain rfl : INSERT = opCode := Option.some.inj (head.symm.trans first)
    obtain ⟨⟨next', response'⟩, switched, same⟩ := Option.bind_eq_some_iff.mp read
    cases same
    exact kept ▸ readInsertStruct_colonFree free field switched
  · cases read
    exact kept ▸ free

end Handlers

section Lines

variable {o : Outcomes} {link link' : Link} {line : Bytes}

/-- A line of any form leaves a table without colons as such. -/
theorem loadLine_colonFree (free : ColonFree link.kernel)
    (short : line.length + 2 + HEADERSIZE + KEY_SIZE < 65536) (loaded : loadLine o link line = some link') :
    ColonFree link'.kernel := by
  rw [loadLine_loadPdu, loadPdu_eq] at loaded
  split_ifs at loaded with matched
  · have fits : ((keyField line).take KEY_SIZE).length ≤ KEY_SIZE := List.length_take_le _ _
    have size : u16 ((loadedValue line).length + HEADERSIZE + KEY_SIZE) =
        (insertFrame ((keyField line).take KEY_SIZE) (loadedValue line)).length := by
      have bound := valueLength_le line
      rw [insertFrame_length fits, loadedValue_length, u16_of_lt (by omega)]
    rw [size] at loaded
    obtain ⟨payload, copied, sent⟩ := Option.bind_eq_some_iff.mp
      (show transact o link _ (insertFrame ((keyField line).take KEY_SIZE) (loadedValue line)).length =
        some link' from loaded)
    obtain ⟨⟨kernel, answer⟩, handled, sent⟩ := Option.bind_eq_some_iff.mp sent
    obtain ⟨message, -, same⟩ := Option.bind_eq_some_iff.mp sent
    cases same
    obtain ⟨-, -, written⟩ := link.nlhUserSend.memcpy_some copied
    rw [List.take_length] at written
    refine workHandler_colonFree free ?_ ?_ handled
    · rw [written]
      rfl
    · rw [written, insertFrame_key fits]
      intro member
      rw [padded, List.mem_append] at member
      rcases member with inside | zero
      · exact delim_notMem_firstField colon _ (List.mem_of_mem_take inside)
      · exact absurd (List.eq_of_mem_replicate zero) (by decide)
  · cases loaded
    exact free

theorem loadStoredValues_colonFree {file : List Bytes} (free : ColonFree link.kernel)
    (short : ∀ line ∈ file, line.length + 2 + HEADERSIZE + KEY_SIZE < 65536)
    (loaded : file.foldlM (loadLine o) link = some link') : ColonFree link'.kernel := by
  induction file generalizing link with
  | nil => exact Option.some.inj loaded ▸ free
  | cons line rest ih =>
    obtain ⟨next, first, later⟩ := Option.bind_eq_some_iff.mp loaded
    exact ih (loadLine_colonFree free (short line List.mem_cons_self) first)
      (fun other member => short other (List.mem_cons_of_mem _ member)) later

end Lines

/-- A key that the prompt of the client takes. -/
structure TypedKey extends Key where
  nonempty : text ≠ []
  unbroken : newline ∉ text
  typed : text.length ≤ MAXMESSLEN

inductive TypedRequest where
  | insert (key : TypedKey) (text : LineText)
  | delete (key : TypedKey)

def TypedRequest.request : TypedRequest → Request
  | .insert key text => .insert key.toKey text.value
  | .delete key => .delete key.toKey

structure TypedTurn where
  outcomes : Outcomes
  usual : Usual outcomes
  request : TypedRequest

/-- A turn whose request is acknowledged. -/
def ackStep (s : StoreState) (turn : TypedTurn) : Option StoreState := do
  let (next, answer) ← storeStep s (turn.outcomes, turn.request.request)
  if Failed answer then none else some next

/-- A restart with the file brings back exactly the keys of the table. -/
def Restored (s : StoreState) : Prop :=
  ∀ unwritten, ∃ link', restart (.smooth unwritten) s.files.storeFile = some link' ∧
    link'.kernel.ht.map Finmap.keys = s.link.kernel.ht.map Finmap.keys

/-- The key of an INSERT has no colon, and its text has one or is not as long as a text can be. -/
def TypedRequest.Loadable : TypedRequest → Prop
  | .insert key text => colon ∉ key.text ∧
      (colon ∈ text.text ∨ text.text.length + 2 + HEADERSIZE + KEY_SIZE ≤ MAX_PAYLOAD)
  | .delete _ => True

/-- Table and file list the same entries, and every line of the file can be loaded. -/
def Loading (s : StoreState) : Prop := ∃ live, Lockstep s live ∧ ∀ e ∈ live, e.Loads

theorem line_short (key : Key) (text : LineText) :
    (key.text ++ colon :: text.text ++ [newline]).length + 2 + HEADERSIZE + KEY_SIZE < 65536 := by
  have fits := key.fits
  have fits' := text.fits
  simp only [KEY_SIZE, HEADERSIZE, MAX_PAYLOAD] at fits fits'
  simp only [List.length_append, List.length_cons, List.length_nil, KEY_SIZE, HEADERSIZE]
  omega

section Keys

variable {o : Outcomes} {s s' : StoreState} {live : List Entry} {ht ht' : Table} {m m' : Bytes → Option Bytes}

/-- Maps with the same keys have tables with the same keys. -/
theorem keys_eq (table : TableOf ht m) (table' : TableOf ht' m') (same : ∀ key, m key = none ↔ m' key = none) :
    ht.keys = ht'.keys := by
  have inside {ht ht' : Table} {m m' : Bytes → Option Bytes} (table : TableOf ht m) (table' : TableOf ht' m')
      (same : ∀ key, m key = none ↔ m' key = none) {k : Bytes} (member : k ∈ ht) : k ∈ ht' := by
    obtain ⟨obj, found⟩ := Finmap.mem_iff.mp member
    obtain ⟨key, value, held, place, -⟩ := (table.entries k obj).mp found
    obtain ⟨value', held'⟩ : ∃ value', m' key = some value' := by
      rw [← Option.ne_none_iff_exists', ne_eq, ← same key, held]
      simp
    exact Finmap.mem_iff.mpr ⟨_, (table'.entries k _).mpr ⟨key, value', held', place, rfl⟩⟩
  ext k
  rw [Finmap.mem_keys, Finmap.mem_keys]
  exact ⟨inside table table' same, inside table' table fun key => (same key).symm⟩

theorem Loading.restored (loading : Loading s) : Restored s := by
  obtain ⟨live, lockstep, loads⟩ := loading
  intro unwritten
  obtain ⟨link', loaded, serves⟩ := restart_entries lockstep loads unwritten
  obtain ⟨ht, kernel, table⟩ := lockstep.serves.table
  obtain ⟨ht', kernel', table'⟩ := serves.table
  refine ⟨link', loaded, ?_⟩
  rw [kernel, kernel', Option.map_some, Option.map_some, keys_eq table' table]
  exact fun key => by rw [mapOf, mapWith_eq_none_iff, mapWith_eq_none_iff]

/-- An acknowledged turn about lines. -/
theorem ackStep_lockstep {turn : TypedTurn} {request : LineRequest}
    (same : turn.request.request = request.request)
    (lockstep : Lockstep s live) (stepped : ackStep s turn = some s') :
    ∃ answer, ¬Failed answer ∧ Lockstep s' (liveStep live request answer) := by
  obtain ⟨next, answered, lockstep'⟩ := storeStep_lockstep turn.usual lockstep request
  rw [ackStep, same, answered] at stepped
  simp only [Option.bind_eq_bind, Option.bind_some, Option.ite_none_left_eq_some, Option.some.injEq] at stepped
  obtain ⟨succeeded, rfl⟩ := stepped
  exact ⟨_, succeeded, lockstep'⟩

/-- An acknowledged turn is answered as the map answers it. -/
theorem ackStep_serves {turn : TypedTurn} (serves : Serves s.link m) (stepped : ackStep s turn = some s') :
    ¬Failed (mapStep turn.outcomes m turn.request.request).2 ∧
      Serves s'.link (mapStep turn.outcomes m turn.request.request).1 ∧
      storeData s.files
          ⟨turn.request.request.opCode, turn.request.request.frame.length,
            .bytes (turn.request.request.frame ++ [0])⟩
          ⟨KERNEL, (mapStep turn.outcomes m turn.request.request).2.length + HEADERSIZE,
            .bytes (answerFrame turn.outcomes.unwritten (mapStep turn.outcomes m turn.request.request).2)⟩ =
        some s'.files := by
  obtain ⟨link', serves', answered⟩ := storeStep_eq turn.usual serves turn.request.request
  obtain ⟨⟨next, answer⟩, ran, kept⟩ := Option.bind_eq_some_iff.mp stepped
  obtain ⟨files, stored, made⟩ := Option.map_eq_some_iff.mp (answered.symm.trans ran)
  cases made
  simp only [Option.ite_none_left_eq_some, Option.some.injEq] at kept
  obtain ⟨succeeded, rfl⟩ := kept
  exact ⟨succeeded, serves', stored⟩

/-- Acknowledged turns that can be loaded keep every line so. -/
theorem Loading.step {turn : TypedTurn} (loadable : turn.request.Loadable) (loading : Loading s)
    (stepped : ackStep s turn = some s') : Loading s' := by
  obtain ⟨live, lockstep, loads⟩ := loading
  cases request : turn.request with
  | insert key text =>
    rw [request] at loadable
    let e : Entry := ⟨⟨key.toKey, key.nonempty, loadable.1, key.unbroken⟩, text⟩
    have same : turn.request.request = (LineRequest.insert e).request := by rw [request]; rfl
    obtain ⟨answer, succeeded, lockstep'⟩ := ackStep_lockstep same lockstep stepped
    rw [liveStep_insert succeeded] at lockstep'
    refine ⟨_, lockstep', fun other member => ?_⟩
    rcases List.mem_append.mp member with old | new
    · exact loads other old
    · obtain rfl := List.mem_singleton.mp new
      exact e.loads_iff.mpr loadable.2
  | delete key =>
    have whole : colon ∉ key.text := by
      intro inside
      have absent : mapOf live key.text = none :=
        mapWith_eq_none_iff.mpr fun e _ same => e.key.whole (same ▸ inside)
      have succeeded := (ackStep_serves lockstep.serves stepped).1
      rw [request] at succeeded
      refine succeeded ?_
      simp only [TypedRequest.request, mapStep, absent]
      decide
    have same : turn.request.request =
        (LineRequest.delete ⟨key.toKey, key.nonempty, whole, key.unbroken⟩).request := by rw [request]; rfl
    obtain ⟨answer, succeeded, lockstep'⟩ := ackStep_lockstep same lockstep stepped
    rw [liveStep_delete succeeded] at lockstep'
    exact ⟨_, lockstep', fun e member => loads e (List.mem_of_mem_filter member)⟩

/-- An acknowledged INSERT of a key with a colon adds the key to the table and its line to the file. -/
theorem ackStep_colon {turn : TypedTurn} {key : TypedKey} {text : LineText}
    (request : turn.request = .insert key text) (lockstep : Lockstep s live)
    (stepped : ackStep s turn = some s') :
    s'.files.storeFile = live.flatMap Entry.line ++ (key.text ++ colon :: text.text ++ [newline]) ∧
      ∃ ht, s'.link.kernel = ⟨some ht⟩ ∧ padded KEY_SIZE key.text ∈ ht := by
  obtain ⟨succeeded, serves, stored⟩ := ackStep_serves lockstep.serves stepped
  have frame : turn.request.request = .insert key.toKey text.value := by rw [request]; rfl
  rw [frame] at succeeded serves stored
  rcases mapStep_insert turn.outcomes (mapOf live) key.toKey text.value with ⟨failed, -⟩ | ⟨-, -, grown⟩
  · exact absurd failed succeeded
  · obtain ⟨files, stored', file⟩ :=
      @storeData_line s.files _ INSERT (insertFrame key.text text.value.bytes).length
        ((mapStep turn.outcomes (mapOf live) (.insert key.toKey text.value)).2.length + HEADERSIZE)
        turn.outcomes.unwritten key.toKey text (answer_terminated _) succeeded
    obtain rfl : files = s'.files := Option.some.inj (stored'.symm.trans stored)
    obtain ⟨ht, kernel, table⟩ := serves.table
    refine ⟨by rw [file, lockstep.file], ht, kernel, ?_⟩
    have held : (mapStep turn.outcomes (mapOf live) (.insert key.toKey text.value)).1 key.text =
        some text.value.bytes := by rw [grown, Function.update_self]
    exact Finmap.mem_iff.mpr ⟨_, (table.entries _ _).mpr ⟨_, _, held, rfl, rfl⟩⟩

/-- The key with a colon does not come back. -/
theorem not_restored_colon {turn : TypedTurn} {key : TypedKey} {text : LineText}
    (request : turn.request = .insert key text) (inside : colon ∈ key.text) (lockstep : Lockstep s live)
    (stepped : ackStep s turn = some s') : ¬Restored s' := by
  intro restored
  obtain ⟨file, ht, kernel, member⟩ := ackStep_colon request lockstep stepped
  obtain ⟨link', loaded, same⟩ := restored 0
  have body : newline ∉ key.text ++ colon :: text.text := by
    simp only [List.mem_append, List.mem_cons, not_or]
    exact ⟨key.unbroken, by decide, text.unbroken⟩
  have split : lines s'.files.storeFile =
      live.map Entry.line ++ [key.text ++ colon :: text.text ++ [newline]] := by
    rw [file]
    exact (lines_flatMap_append live Entry.body (fun e _ => e.body_unbroken) _).trans
      (congrArg (live.map Entry.line ++ ·) (lines_append body []))
  have short : ∀ line ∈ lines s'.files.storeFile, line.length + 2 + HEADERSIZE + KEY_SIZE < 65536 := by
    rw [split]
    intro line member
    rcases List.mem_append.mp member with entry | last
    · obtain ⟨e, -, rfl⟩ := List.mem_map.mp entry
      exact line_short e.key.toKey e.text
    · rw [List.mem_singleton.mp last]
      exact line_short key.toKey text
  rw [restart_eq] at loaded
  have start : ColonFree (initialLink 0).kernel := by
    rintro _ ⟨⟩ other absurd
    cases Finmap.notMem_empty absurd
  have free := loadStoredValues_colonFree start short loaded
  rw [kernel, Option.map_some] at same
  obtain ⟨ht', kernel', keys⟩ := Option.map_eq_some_iff.mp same
  rw [← Finmap.mem_keys, ← keys, Finmap.mem_keys] at member
  exact free ht' kernel' _ member (List.mem_append_left _ inside)

end Keys

/-- After a run of acknowledged turns from an empty table and an empty file, a restart has brought back exactly
the keys of the table at every point exactly if all turns can be loaded. -/
theorem restart_keys (unwritten : Byte) (turns : List TypedTurn) (s : StoreState)
    (ran : run ackStep (.start unwritten) turns = some s) :
    Throughout ackStep Restored (.start unwritten) turns ↔ ∀ turn ∈ turns, turn.request.Loadable := by
  have start : Loading (.start unwritten) := ⟨[], lockstep_start unwritten, fun _ absurd => by cases absurd⟩
  rw [← Steps.forall_iff ran]
  refine throughout_iff (fun s turn s' loadable loading stepped => Loading.step loadable loading stepped)
    (fun s turn s' loading _ stepped => ?_) start start.restored ran
  refine ⟨fun restored => ?_, fun loadable => (loading.step loadable stepped).restored⟩
  obtain ⟨live, lockstep, -⟩ := loading
  cases request : turn.request with
  | insert key text =>
    have whole : colon ∉ key.text := fun inside => not_restored_colon request inside lockstep stepped restored
    let e : Entry := ⟨⟨key.toKey, key.nonempty, whole, key.unbroken⟩, text⟩
    have same : turn.request.request = (LineRequest.insert e).request := by rw [request]; rfl
    obtain ⟨answer, succeeded, lockstep'⟩ := ackStep_lockstep same lockstep stepped
    rw [liveStep_insert succeeded] at lockstep'
    refine ⟨whole, e.loads_iff.mp ?_⟩
    by_contra long
    obtain ⟨link', loaded, -⟩ := restored 0
    have overrun := restart_long lockstep' (List.mem_append_right live (List.mem_singleton.mpr rfl)) long 0
    cases overrun.symm.trans loaded
  | delete key => trivial

def typedTurn (request : TypedRequest) : TypedTurn := ⟨.smooth 0, ⟨rfl, rfl, rfl, rfl⟩, request⟩

/-- A plain key, and one with a colon. -/
def plainKey : TypedKey := ⟨⟨ascii "a", by decide, by decide⟩, by decide, by decide, by decide⟩

theorem plainKey_whole : colon ∉ plainKey.text := by decide

def colonKey : TypedKey := ⟨⟨ascii "a:b", by decide, by decide⟩, by decide, by decide, by decide⟩

def shortText : LineText := ⟨ascii "c:d", by decide, by decide, by decide⟩

theorem restart_keys_plain :
    ∃ s, run ackStep (.start 0) [typedTurn (.insert plainKey shortText)] = some s ∧
      Throughout ackStep Restored (.start 0) [typedTurn (.insert plainKey shortText)] := by
  obtain ⟨s, ran⟩ : ∃ s, run ackStep (.start 0) [typedTurn (.insert plainKey shortText)] = some s :=
    Option.isSome_iff_exists.mp (by decide +kernel)
  refine ⟨s, ran, (restart_keys 0 _ s ran).mpr fun turn member => ?_⟩
  obtain rfl := List.mem_singleton.mp member
  exact ⟨plainKey_whole, Or.inl (show colon ∈ ascii "c:d" by decide)⟩

/-- After an acknowledged INSERT and an acknowledged DELETE of "a:b" the table is empty, and a restart inserts
the key "a". -/
theorem restart_resurrects :
    ∃ s, run ackStep (.start 0) [typedTurn (.insert colonKey shortText), typedTurn (.delete colonKey)] = some s ∧
      s.link.kernel = ⟨some ∅⟩ ∧
      ((restart (.smooth 0) s.files.storeFile).map fun link => link.kernel.ht.map Finmap.keys) =
        some (some {padded KEY_SIZE (ascii "a")}) ∧ ¬Restored s := by
  have after : ((run ackStep (.start 0)
      [typedTurn (.insert colonKey shortText), typedTurn (.delete colonKey)]).map
      fun s => (s.link.kernel, (restart (.smooth 0) s.files.storeFile).map fun link =>
        link.kernel.ht.map Finmap.keys)) = some (⟨some ∅⟩, some (some {padded KEY_SIZE (ascii "a")})) := by
    decide +kernel
  obtain ⟨s, ran, same⟩ := Option.map_eq_some_iff.mp after
  obtain ⟨empty, loaded⟩ := Prod.mk.inj same
  refine ⟨s, ran, empty, loaded, fun restored => ?_⟩
  obtain ⟨link', again, keys⟩ := restored 0
  rw [again, Option.map_some, keys, empty] at loaded
  exact absurd loaded (by decide)

end Operativsystem.Store
