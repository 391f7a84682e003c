import Operativsystem.Store.Restart

/-! # Restarting the server on a live module

The module keeps its table when the server ends. A new server process finds it there: its INIT changes
nothing, and every line of the file is sent as an INSERT of a key that the table has. A run with restarts in
it therefore answers every request as the run without them, and ends with the same table and the same files.
-/

namespace Operativsystem.Store

open Memory Resources Kernel User Machine

/-- A new server process on a module that lives on: cleared payloads, the INIT request, and the stored values. -/
def restartServer (o : Outcomes) (s : StoreState) : Option StoreState := do
  let data ← memcpy (calloc HEADERSIZE) 0 [INIT] 1
  let link ← transact o ⟨s.link.kernel, .zeroed, .zeroed⟩ data HEADERSIZE
  let link ← loadStoredValues o link s.files.storeFile
  some ⟨link, s.files⟩

/-- A turn whose inserted text is no longer than a line of the prompt. -/
structure ShortTurn extends Turn where
  short : ∀ e, request = .insert e → e.text.text.length ≤ MAXMESSLEN

inductive ServerEvent where
  | turn (turn : ShortTurn)
  | restart (o : Outcomes) (usual : Usual o)

def ServerEvent.served : ServerEvent → Option (Outcomes × Request)
  | .turn next => some (next.outcomes, next.request.request)
  | .restart .. => none

/-- The state after an event, and the answer of a turn. -/
def serverStep (s : StoreState) : ServerEvent → Option (StoreState × Option Bytes)
  | .turn turn => (storeStep s (turn.outcomes, turn.request.request)).map fun (s, answer) => (s, some answer)
  | .restart o _ => (restartServer o s).map fun s => (s, none)

/-- Every line of the file is sent as an INSERT of a key that the table has. -/
def OnlyDuplicates (s : StoreState) : Prop :=
  ∃ ht, s.link.kernel = ⟨some ht⟩ ∧ ∀ line ∈ lines s.files.storeFile, ∃ key value, IsKey key ∧
    loadPdu line = some (some ⟨USER, (insertFrame key value).length, .bytes (insertFrame key value)⟩) ∧
    padded KEY_SIZE key ∈ ht

section Restarting

variable {o : Outcomes} {link : Link} {m : Bytes → Option Bytes} {s s' : StoreState} {live : List Entry}

theorem Serves.unique {link' : Link} (serves : Serves link m) (serves' : Serves link' m) :
    link.kernel = link'.kernel := by
  obtain ⟨ht, kernel, table⟩ := serves.table
  obtain ⟨ht', kernel', table'⟩ := serves'.table
  rw [kernel, kernel', table.unique table']

/-- An INSERT of a key that is there changes nothing, whatever goes wrong with it. -/
theorem mapStep_duplicate {key : Key} {value : Value} (held : m key.text ≠ none) :
    (mapStep o m (.insert key value)).1 = m := by
  rcases mapStep_insert o m key value with ⟨-, same⟩ | ⟨-, fresh, -⟩
  · exact same
  · exact absurd fresh held

/-- Lines of keys that are there are loaded without an effect. -/
theorem loadStoredValues_duplicates (usual : Usual o) {entries : List Entry} (loads : ∀ e ∈ entries, e.Loads)
    (held : ∀ e ∈ entries, m e.key.text ≠ none) (serves : Serves link m) :
    ∃ link', (entries.map Entry.line).foldlM (loadLine o) link = some link' ∧ Serves link' m := by
  induction entries generalizing link with
  | nil => exact ⟨link, rfl, serves⟩
  | cons e rest ih =>
    obtain ⟨next, loaded, serves⟩ := loadLine_fits usual (loads e List.mem_cons_self) serves
    rw [mapStep_duplicate (held e List.mem_cons_self)] at serves
    obtain ⟨link', later, serves⟩ := ih (fun other member => loads other (List.mem_cons_of_mem _ member))
      (fun other member => held other (List.mem_cons_of_mem _ member)) serves
    exact ⟨link', by rw [List.map_cons, List.foldlM_cons, loaded]; exact later, serves⟩

theorem mapOf_held {e : Entry} (member : e ∈ live) : mapOf live e.key.text ≠ none :=
  fun absent => mapWith_eq_none_iff.mp absent e member rfl

/-- A restart goes through, and keeps the table and the files. -/
theorem restartServer_lockstep (usual : Usual o) (lockstep : Lockstep s live) (loads : ∀ e ∈ live, e.Loads) :
    ∃ s', restartServer o s = some s' ∧ s'.files = s.files ∧ s'.link.kernel = s.link.kernel ∧
      Lockstep s' live := by
  have header : memcpy (calloc HEADERSIZE) 0 [INIT] 1 = some [INIT, 0, 0, 0] := rfl
  have fresh : Serves ⟨s.link.kernel, .zeroed, .zeroed⟩ (mapOf live) :=
    ⟨lockstep.serves.table, lockstep.serves.short⟩
  obtain ⟨first, sent, serves⟩ := transact_request usual fresh .init []
  obtain ⟨link', loaded, serves⟩ := loadStoredValues_duplicates usual loads (fun _ => mapOf_held) serves
  have ran : restartServer o s = some ⟨link', s.files⟩ := by
    rw [List.append_nil] at sent
    simp only [restartServer, header, Option.bind_eq_bind, Option.bind_some]
    rw [show transact o _ [INIT, 0, 0, 0] HEADERSIZE = some first from sent, Option.bind_some, loadStoredValues,
      lockstep.file, Entry.lines_entries, loaded, Option.bind_some]
  exact ⟨_, ran, rfl, serves.unique lockstep.serves, serves, lockstep.file, lockstep.distinct⟩

theorem Lockstep.onlyDuplicates (lockstep : Lockstep s live) : OnlyDuplicates s := by
  obtain ⟨ht, kernel, table⟩ := lockstep.serves.table
  refine ⟨ht, kernel, fun line member => ?_⟩
  rw [lockstep.file, Entry.lines_entries] at member
  obtain ⟨e, inside, rfl⟩ := List.mem_map.mp member
  obtain ⟨value, held⟩ := Option.ne_none_iff_exists'.mp (mapOf_held inside)
  exact ⟨e.key.text, e.loaded, ⟨e.key.clean, e.key.fits⟩, loadPdu_line e,
    Finmap.mem_iff.mpr ⟨_, (table.entries _ _).mpr ⟨_, _, held, rfl, rfl⟩⟩⟩

/-- Two states that differ in their payloads only; every line of the file can be loaded. -/
structure Together (s s' : StoreState) (live : List Entry) : Prop where
  left : Lockstep s live
  right : Lockstep s' live
  files : s.files = s'.files
  loads : ∀ e ∈ live, e.Loads

/-- A turn does the same to both states. -/
theorem Together.turn (together : Together s s' live) (turn : ShortTurn) :
    ∃ next next' answer live', storeStep s (turn.outcomes, turn.request.request) = some (next, answer) ∧
      storeStep s' (turn.outcomes, turn.request.request) = some (next', answer) ∧ Together next next' live' := by
  obtain ⟨next, stepped, left⟩ := storeStep_lockstep turn.usual together.left turn.request
  obtain ⟨next', stepped', right⟩ := storeStep_lockstep turn.usual together.right turn.request
  refine ⟨next, next', _, _, stepped, stepped', left, right, ?_, fun e member => ?_⟩
  · obtain ⟨link, -, ran⟩ := storeStep_eq turn.usual together.left.serves turn.request.request
    obtain ⟨link', -, ran'⟩ := storeStep_eq turn.usual together.right.serves turn.request.request
    obtain ⟨files, stored, made⟩ := Option.map_eq_some_iff.mp (ran.symm.trans stepped)
    obtain ⟨files', stored', made'⟩ := Option.map_eq_some_iff.mp (ran'.symm.trans stepped')
    cases made
    cases made'
    rw [together.files] at stored
    exact Option.some.inj (stored.symm.trans stored')
  · rcases mem_liveStep member with before | inserted
    · exact together.loads e before
    · have short := turn.short e inserted
      refine e.loads_iff.mpr (Or.inr ?_)
      simp only [MAXMESSLEN, HEADERSIZE, KEY_SIZE, MAX_PAYLOAD] at short ⊢
      omega

/-- A run with restarts and the run of its turns stay together. -/
theorem Together.run (together : Together s s' live) (events : List ServerEvent) :
    ∃ t answers t' answers' live', trace serverStep s events = some (t, answers) ∧
      trace storeStep s' (events.filterMap ServerEvent.served) = some (t', answers') ∧
      answers.filterMap id = answers' ∧ Together t t' live' := by
  induction events generalizing s s' live with
  | nil => exact ⟨s, [], s', [], live, rfl, rfl, rfl, together⟩
  | cons event rest ih =>
    cases event with
    | turn turn =>
      obtain ⟨next, next', answer, live', stepped, stepped', together⟩ := together.turn turn
      obtain ⟨t, answers, t', answers', last, ran, ran', same, together⟩ := ih together
      refine ⟨t, some answer :: answers, t', answer :: answers', last, ?_, ?_, ?_, together⟩
      · simp [trace, serverStep, stepped, ran]
      · simp [trace, ServerEvent.served, stepped', ran']
      · simpa using same
    | restart o usual =>
      obtain ⟨next, restarted, files, -, left⟩ := restartServer_lockstep usual together.left together.loads
      obtain ⟨t, answers, t', answers', last, ran, ran', same, together⟩ :=
        ih ⟨left, together.right, files.trans together.files, together.loads⟩
      refine ⟨t, none :: answers, t', answers', last, ?_, ?_, ?_, together⟩
      · simp [trace, serverStep, restarted, ran]
      · rw [List.filterMap_cons_none (show ServerEvent.served (.restart o usual) = none from rfl)]
        exact ran'
      · simpa using same

end Restarting

/-- In every run of turns and restarts from an empty table and an empty file, a restart sends only INSERTs of
keys that the table has, and keeps table and files; and the run answers its requests as the run of its turns
alone, and ends with the same table and the same files. -/
theorem restarts_harmless (unwritten : Byte) (events : List ServerEvent) :
    ∃ s answers s' answers', trace serverStep (.start unwritten) events = some (s, answers) ∧
      OnlyDuplicates s ∧
      (∀ o, Usual o → ∃ next, restartServer o s = some next ∧ next.link.kernel = s.link.kernel ∧
        next.files = s.files) ∧
      trace storeStep (.start unwritten) (events.filterMap ServerEvent.served) = some (s', answers') ∧
      answers.filterMap id = answers' ∧ s.link.kernel = s'.link.kernel ∧ s.files = s'.files := by
  have start : Together (.start unwritten) (.start unwritten) [] :=
    ⟨lockstep_start unwritten, lockstep_start unwritten, rfl, fun _ absurd => by cases absurd⟩
  obtain ⟨s, answers, s', answers', live, ran, ran', same, together⟩ := start.run events
  refine ⟨s, answers, s', answers', ran, together.left.onlyDuplicates, fun o usual => ?_, ran', same,
    together.left.serves.unique together.right.serves, together.files⟩
  obtain ⟨next, restarted, files, kernel, -⟩ := restartServer_lockstep usual together.left together.loads
  exact ⟨next, restarted, kernel, files⟩

end Operativsystem.Store
