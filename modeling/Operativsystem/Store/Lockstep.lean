import Operativsystem.Library.Machine
import Operativsystem.Store.StoreData

/-! # The store file and the table in lockstep

A turn of `kernel_communication` serves a request and passes it with its response to `store_data`.
The entries that are live are known from the requests and their answers alone: an INSERT that was
not answered with an error adds its entry, such a DELETE removes one. The file lists exactly these
entries, and they are the table.
-/

namespace Operativsystem.Store

open Memory Resources LList Kernel User Machine

structure StoreState where
  link : Link
  files : Files

/-- After `init_hashtable` with an empty file. -/
def StoreState.start (unwritten : Byte) : StoreState := ⟨initialLink unwritten, ⟨[], []⟩⟩

/-- The payload of a response that `read_exactly_from_kernel` has read, behind its header. -/
def responsePayload (pduReceive : Pdu) : Bytes :=
  match pduReceive.data with
  | .bytes data => data.drop HEADERSIZE
  | _ => []

/-- One turn of `kernel_communication` on a queued request, with the payload of the response. -/
def storeStep (s : StoreState) (turn : Outcomes × Request) : Option (StoreState × Bytes) := do
  let request := turn.2
  let pduSend ← copyPdu ⟨request.opCode, request.frame.length, .bytes request.frame⟩
  let (link, pduReceive) ← exchange turn.1 s.link pduSend
  let files ← storeData s.files pduSend pduReceive
  some (⟨link, files⟩, responsePayload pduReceive)

/-- A request about keys and values that fit a line. -/
inductive LineRequest where
  | init
  | insert (e : Entry)
  | get (key : LineKey)
  | delete (key : LineKey)

def LineRequest.request : LineRequest → Request
  | .init => .init
  | .insert e => .insert e.key.toKey e.text.value
  | .get key => .get key.toKey
  | .delete key => .delete key.toKey

/-- A request that may change the table. -/
def LineRequest.Changes : LineRequest → Prop
  | .insert _ | .delete _ => True
  | _ => False

/-- The live entries after a request and its answer, oldest first. -/
def liveStep (live : List Entry) (request : LineRequest) (answer : Bytes) : List Entry :=
  if Failed answer then live
  else
    match request with
    | .insert e => live ++ [e]
    | .delete key => live.filter fun e => e.key.text ≠ key.text
    | _ => live

theorem liveStep_failed {live : List Entry} {answer : Bytes} (failed : Failed answer)
    (request : LineRequest) : liveStep live request answer = live := if_pos failed

theorem liveStep_init (live : List Entry) (answer : Bytes) : liveStep live .init answer = live :=
  ite_self _

theorem liveStep_get (live : List Entry) (key : LineKey) (answer : Bytes) :
    liveStep live (.get key) answer = live := ite_self _

theorem liveStep_insert {live : List Entry} {answer : Bytes} (stored : ¬Failed answer) (e : Entry) :
    liveStep live (.insert e) answer = live ++ [e] := if_neg stored

theorem liveStep_delete {live : List Entry} {answer : Bytes} (deleted : ¬Failed answer) (key : LineKey) :
    liveStep live (.delete key) answer = live.filter fun e => e.key.text ≠ key.text := if_neg deleted

def liveAfter : List Entry → List LineRequest → List Bytes → List Entry
  | live, request :: requests, answer :: answers =>
    liveAfter (liveStep live request answer) requests answers
  | live, _, _ => live

/-- The entries as a map from key texts to what `value` makes of an entry. -/
def mapWith (value : Entry → Bytes) (live : List Entry) (key : Bytes) : Option Bytes :=
  (live.find? fun e => e.key.text = key).map value

/-- The entries as a map from key texts to values. -/
def mapOf (live : List Entry) : Bytes → Option Bytes := mapWith (fun e => e.text.value.bytes) live

/-- The table and the file hold exactly the live entries. -/
structure Lockstep (s : StoreState) (live : List Entry) : Prop where
  serves : Serves s.link (mapOf live)
  file : s.files.storeFile = live.flatMap Entry.line
  distinct : (live.map fun e => e.key.text).Nodup

section Live

variable {live : List Entry} {value : Entry → Bytes}

theorem mapWith_eq_none_iff {key : Bytes} :
    mapWith value live key = none ↔ ∀ e ∈ live, e.key.text ≠ key := by
  simp [mapWith]

/-- A fresh entry at the end. -/
theorem mapWith_append {e : Entry} (fresh : ∀ other ∈ live, other.key.text ≠ e.key.text) :
    mapWith value (live ++ [e]) = Function.update (mapWith value live) e.key.text (some (value e)) := by
  funext key
  by_cases same : key = e.key.text
  · subst same
    have absent : (live.find? fun other => other.key.text = e.key.text) = none := by simpa using fresh
    rw [Function.update_self, mapWith, List.find?_append, absent]
    simp
  · rw [Function.update_of_ne same, mapWith, List.find?_append]
    simp [mapWith, Ne.symm same]

theorem mapWith_filter (key : Bytes) :
    mapWith value (live.filter fun e => e.key.text ≠ key) =
      Function.update (mapWith value live) key none := by
  funext other
  by_cases same : other = key
  · subst same
    rw [Function.update_self, mapWith_eq_none_iff]
    intro e kept
    simpa using (List.mem_filter.mp kept).2
  · rw [Function.update_of_ne same, mapWith, List.find?_filter, mapWith]
    congr 2
    funext e
    by_cases found : e.key.text = other
    · simp [found, same]
    · simp [found]

theorem mapOf_terminated {key value : Bytes} (held : mapOf live key = some value) : 0 ∈ value := by
  obtain ⟨e, -, rfl⟩ := Option.map_eq_some_iff.mp held
  exact List.mem_append_right _ (List.mem_singleton.mpr rfl)

end Live

section Step

variable {o : Outcomes} {live : List Entry}

/-- An INSERT is answered with an error and changes nothing, or its key was fresh. -/
theorem mapStep_insert (o : Outcomes) (m : Bytes → Option Bytes) (key : Key) (value : Value) :
    (Failed (mapStep o m (.insert key value)).2 ∧ (mapStep o m (.insert key value)).1 = m) ∨
      (¬Failed (mapStep o m (.insert key value)).2 ∧ m key.text = none ∧
        (mapStep o m (.insert key value)).1 = Function.update m key.text (some value.bytes)) := by
  simp only [mapStep]
  split_ifs
  · exact Or.inl ⟨show Failed (answerText "Error when kmalloc.") by decide, rfl⟩
  · exact Or.inl ⟨show Failed (answerText "Error when insert to rhashtable.") by decide, rfl⟩
  · cases held : m key.text with
    | some stored => exact Or.inl ⟨show Failed (answerText "Error, duplicated key.") by decide, rfl⟩
    | none =>
      exact Or.inr ⟨show ¬Failed (answerText "Inserted object to rhashtable") by decide, rfl, rfl⟩

/-- A DELETE is answered with an error and changes nothing, or removes the key. -/
theorem mapStep_delete (o : Outcomes) (m : Bytes → Option Bytes) (key : Key) :
    (Failed (mapStep o m (.delete key)).2 ∧ (mapStep o m (.delete key)).1 = m) ∨
      (¬Failed (mapStep o m (.delete key)).2 ∧
        (mapStep o m (.delete key)).1 = Function.update m key.text none) := by
  simp only [mapStep]
  cases held : m key.text with
  | some stored =>
    exact Or.inr ⟨show ¬Failed (answerText "Successful deleting object from rhashtable.") by decide, rfl⟩
  | none => exact Or.inl ⟨show Failed (answerText "Error when getting object.") by decide, rfl⟩

theorem mapStep_get (o : Outcomes) (m : Bytes → Option Bytes) (key : Key) :
    (mapStep o m (.get key)).1 = m := by
  simp only [mapStep]
  split <;> rfl

/-- Where the values are terminated every answer is, so that it can be compared. -/
theorem mapStep_terminated {m : Bytes → Option Bytes} (terminated : ∀ key value, m key = some value → 0 ∈ value)
    (request : Request) : 0 ∈ (mapStep o m request).2 := by
  have text (s : String) : 0 ∈ answerText s := List.mem_append_right _ (List.mem_singleton.mpr rfl)
  cases request with
  | init => exact text _
  | insert key value =>
    simp only [mapStep]
    split_ifs
    · exact text _
    · exact text _
    · split <;> exact text _
  | get key =>
    simp only [mapStep]
    split
    · rename_i value held
      exact terminated _ _ held
    · exact text _
  | delete key =>
    simp only [mapStep]
    split <;> exact text _

theorem answer_terminated (request : Request) : 0 ∈ (mapStep o (mapOf live) request).2 :=
  mapStep_terminated (fun _ _ => mapOf_terminated) request

/-- The live entries follow the map, and no key is live twice. -/
theorem liveStep_follows (o : Outcomes) (request : LineRequest)
    (distinct : (live.map fun e => e.key.text).Nodup) :
    mapOf (liveStep live request (mapStep o (mapOf live) request.request).2) =
        (mapStep o (mapOf live) request.request).1 ∧
      ((liveStep live request (mapStep o (mapOf live) request.request).2).map
        fun e => e.key.text).Nodup := by
  cases request with
  | init =>
    rw [liveStep_init]
    exact ⟨rfl, distinct⟩
  | get key =>
    rw [liveStep_get]
    exact ⟨(mapStep_get o _ key.toKey).symm, distinct⟩
  | insert e =>
    rcases mapStep_insert o (mapOf live) e.key.toKey e.text.value with ⟨failed, same⟩ | ⟨stored, fresh, grown⟩
    · rw [LineRequest.request, same, liveStep_failed failed]
      exact ⟨rfl, distinct⟩
    · have others := mapWith_eq_none_iff.mp fresh
      rw [LineRequest.request, grown, liveStep_insert stored]
      refine ⟨mapWith_append others, ?_⟩
      rw [List.map_append, List.nodup_append]
      refine ⟨distinct, List.nodup_singleton _, ?_⟩
      intro key member other single
      obtain ⟨e', held, rfl⟩ := List.mem_map.mp member
      obtain rfl := List.mem_singleton.mp single
      exact others e' held
  | delete key =>
    rcases mapStep_delete o (mapOf live) key.toKey with ⟨failed, same⟩ | ⟨deleted, less⟩
    · rw [LineRequest.request, same, liveStep_failed failed]
      exact ⟨rfl, distinct⟩
    · rw [LineRequest.request, less, liveStep_delete deleted]
      exact ⟨mapWith_filter key.text, distinct.sublist (List.filter_sublist.map _)⟩

/-- `store_data` keeps the file at the live entries, whatever the answer is. -/
theorem storeData_follows {files : Files} (file : files.storeFile = live.flatMap Entry.line)
    (request : LineRequest) {answer : Bytes} (terminated : 0 ∈ answer) (opCode unwritten : Byte) (n m : ℕ) :
    ∃ files', storeData files ⟨opCode, n, .bytes (request.request.frame ++ [0])⟩
        ⟨KERNEL, m, .bytes (answerFrame unwritten answer)⟩ = some files' ∧
      files'.storeFile = (liveStep live request answer).flatMap Entry.line := by
  by_cases failed : Failed answer
  · rw [liveStep_failed failed]
    exact ⟨_, storeData_failed terminated failed, file⟩
  · cases request with
    | init =>
      rw [liveStep_init]
      exact ⟨_, storeData_init terminated failed, file⟩
    | get key =>
      rw [liveStep_get]
      exact ⟨_, storeData_get terminated failed, file⟩
    | insert e =>
      obtain ⟨files', stored, appended⟩ := storeData_insert e terminated failed
      refine ⟨files', stored, ?_⟩
      rw [liveStep_insert failed, appended, file, List.flatMap_append, List.flatMap_singleton]
    | delete key =>
      rw [liveStep_delete failed]
      exact storeData_delete file terminated failed

/-- The two copies of a request that a turn works with. -/
theorem copyPdu_request (request : Request) :
    copyPdu ⟨request.opCode, request.frame.length, .bytes request.frame⟩ =
      some ⟨request.opCode, request.frame.length, .bytes (request.frame ++ [0])⟩ := by
  simp [copyPdu]

/-- A turn is answered as the map answers it, and `store_data` sees the request and this answer. -/
theorem storeStep_eq {s : StoreState} {m : Bytes → Option Bytes} (usual : Usual o) (serves : Serves s.link m)
    (request : Request) : ∃ link', Serves link' (mapStep o m request).1 ∧
      storeStep s (o, request) =
        (storeData s.files ⟨request.opCode, request.frame.length, .bytes (request.frame ++ [0])⟩
          ⟨KERNEL, (mapStep o m request).2.length + HEADERSIZE,
            .bytes (answerFrame o.unwritten (mapStep o m request).2)⟩).map
          fun files => (⟨link', files⟩, (mapStep o m request).2) := by
  obtain ⟨link', exchanged, serves'⟩ := exchange_request usual serves request request.opCode [0]
  refine ⟨link', serves', ?_⟩
  simp only [storeStep, copyPdu_request, exchanged, Option.bind_eq_bind, Option.bind_some]
  cases storeData s.files _ _ <;> rfl

/-- A turn keeps table and file in lockstep. -/
theorem storeStep_lockstep {s : StoreState} (usual : Usual o) (lockstep : Lockstep s live)
    (request : LineRequest) :
    ∃ s', storeStep s (o, request.request) = some (s', (mapStep o (mapOf live) request.request).2) ∧
      Lockstep s' (liveStep live request (mapStep o (mapOf live) request.request).2) := by
  obtain ⟨link, serves, stepped⟩ := storeStep_eq usual lockstep.serves request.request
  obtain ⟨files, stored, file⟩ := storeData_follows lockstep.file request (answer_terminated request.request)
    request.request.opCode o.unwritten request.request.frame.length
    ((mapStep o (mapOf live) request.request).2.length + HEADERSIZE)
  obtain ⟨table, distinct⟩ := liveStep_follows o request lockstep.distinct
  rw [stored, Option.map_some] at stepped
  exact ⟨⟨link, files⟩, stepped, table.symm ▸ serves, file, distinct⟩

/-- The live entries determine table and file. -/
theorem Lockstep.unique {s s' : StoreState} (lockstep : Lockstep s live) (lockstep' : Lockstep s' live) :
    s.link.kernel = s'.link.kernel ∧ s.files.storeFile = s'.files.storeFile := by
  obtain ⟨ht, kernel, table⟩ := lockstep.serves.table
  obtain ⟨ht', kernel', table'⟩ := lockstep'.serves.table
  rw [kernel, kernel', table.unique table']
  exact ⟨rfl, lockstep.file.trans lockstep'.file.symm⟩

/-- The entry at the front is in the table. -/
theorem lookup_mapWith {value : Entry → Bytes} {link : Link} {e : Entry}
    (serves : Serves link (mapWith value (e :: live))) : ∃ ht, link.kernel = ⟨some ht⟩ ∧
      rhashtableLookupFast ht (padded (KEY_SIZE + 1) e.key.text) = some (entry e.key.text (value e)) := by
  obtain ⟨ht, kernel, table⟩ := serves.table
  refine ⟨ht, kernel, (table.lookup ⟨e.key.clean, e.key.fits⟩).trans ?_⟩
  simp [mapWith]

theorem Lockstep.empty_iff {s : StoreState} (lockstep : Lockstep s live) :
    s.link.kernel = ⟨some ∅⟩ ↔ live = [] := by
  constructor
  · intro empty
    cases live with
    | nil => rfl
    | cons e rest =>
      obtain ⟨ht, kernel, found⟩ := lookup_mapWith lockstep.serves
      obtain rfl : ht = ∅ := Option.some.inj (KernelState.mk.inj (kernel.symm.trans empty))
      simp [rhashtableLookupFast] at found
  · rintro rfl
    obtain ⟨ht, kernel, table⟩ := lockstep.serves.table
    rw [kernel, table.unique (show TableOf ∅ (mapOf []) from tableOf_empty)]

theorem lockstep_start (unwritten : Byte) : Lockstep (.start unwritten) [] :=
  ⟨initialLink_serves unwritten, rfl, List.nodup_nil⟩

end Step

/-- A turn in which no allocation fails but perhaps that of the new object. -/
structure Turn where
  outcomes : Outcomes
  usual : Usual outcomes
  request : LineRequest

/-- A live entry was live before or is being inserted. -/
theorem mem_liveStep {live : List Entry} {request : LineRequest} {answer : Bytes} {e : Entry}
    (member : e ∈ liveStep live request answer) : e ∈ live ∨ request = .insert e := by
  by_cases failed : Failed answer
  · rw [liveStep_failed failed] at member
    exact Or.inl member
  · cases request with
    | init => exact Or.inl (by rwa [liveStep_init] at member)
    | get key => exact Or.inl (by rwa [liveStep_get] at member)
    | insert other =>
      rw [liveStep_insert failed] at member
      rcases List.mem_append.mp member with before | single
      · exact Or.inl before
      · exact Or.inr (congrArg LineRequest.insert (List.mem_singleton.mp single).symm)
    | delete key =>
      rw [liveStep_delete failed] at member
      exact Or.inl (List.mem_of_mem_filter member)

/-- A live entry was live before or has been inserted. -/
theorem mem_liveAfter {live : List Entry} {requests : List LineRequest} {answers : List Bytes} {e : Entry}
    (member : e ∈ liveAfter live requests answers) : e ∈ live ∨ .insert e ∈ requests := by
  induction requests generalizing live answers with
  | nil => exact Or.inl (by simpa [liveAfter] using member)
  | cons request requests ih =>
    cases answers with
    | nil => exact Or.inl (by simpa [liveAfter] using member)
    | cons answer answers =>
      rcases ih member with stepped | later
      · exact (mem_liveStep stepped).imp_right fun same => List.mem_cons.mpr (Or.inl same.symm)
      · exact Or.inr (List.mem_cons_of_mem _ later)

/-- Every run goes through, and ends in lockstep with the entries that its answers make live. -/
theorem run_lockstep {s : StoreState} {live : List Entry} (lockstep : Lockstep s live)
    (turns : List Turn) : ∃ s' answers,
      trace storeStep s (turns.map fun turn => (turn.outcomes, turn.request.request)) = some (s', answers) ∧
        Lockstep s' (liveAfter live (turns.map Turn.request) answers) := by
  induction turns generalizing s live with
  | nil => exact ⟨s, [], rfl, lockstep⟩
  | cons turn rest ih =>
    obtain ⟨next, stepped, lockstep⟩ := storeStep_lockstep turn.usual lockstep turn.request
    obtain ⟨s', answers, ran, lockstep⟩ := ih lockstep
    exact ⟨s', _ :: answers, by simp [trace, stepped, ran], lockstep⟩

/-- After every run from an empty table and an empty file, the file lists the entries that are live,
oldest first and none twice, the table holds exactly these, and an INSERT or DELETE that is answered
with an error leaves both as they are. -/
theorem storeFile_lockstep (unwritten : Byte) (turns : List Turn) :
    ∃ s answers,
      trace storeStep (.start unwritten) (turns.map fun turn => (turn.outcomes, turn.request.request)) =
        some (s, answers) ∧
      let live := liveAfter [] (turns.map Turn.request) answers
      s.files.storeFile = live.flatMap Entry.line ∧ (live.map fun e => e.key.text).Nodup ∧
        (∃ ht, s.link.kernel = ⟨some ht⟩ ∧ TableOf ht (mapOf live)) ∧
        ∀ turn : Turn, turn.request.Changes → ∃ s' answer,
          storeStep s (turn.outcomes, turn.request.request) = some (s', answer) ∧
            (Failed answer → s'.link.kernel = s.link.kernel ∧ s'.files.storeFile = s.files.storeFile) := by
  obtain ⟨s, answers, ran, lockstep⟩ := run_lockstep (lockstep_start unwritten) turns
  refine ⟨s, answers, ran, lockstep.file, lockstep.distinct, lockstep.serves.table, fun turn _ => ?_⟩
  obtain ⟨s', stepped, lockstep'⟩ := storeStep_lockstep turn.usual lockstep turn.request
  refine ⟨s', _, stepped, fun failed => ?_⟩
  rw [liveStep_failed failed] at lockstep'
  exact lockstep'.unique lockstep

end Operativsystem.Store
