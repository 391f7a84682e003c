import Operativsystem.Kernel.TableMap
import Operativsystem.User.KernelCommunication

/-! # Requests as operations on a map

The store is a map from key texts to values. `mapStep` says what a request does to it and which
text answers it; the kernel handlers, reached through the server's payload, do exactly this,
whatever earlier requests have left behind the frame.
-/

namespace Operativsystem.Store

open Memory Resources Kernel User

/-- A key text: no terminator inside, and room for one in the field. -/
structure Key where
  text : Bytes
  clean : 0 ∉ text
  fits : text.length < KEY_SIZE

/-- A value that fits the payload behind the header and the key field. -/
structure Value where
  bytes : Bytes
  nonempty : bytes ≠ []
  fits : bytes.length + HEADERSIZE + KEY_SIZE ≤ MAX_PAYLOAD

inductive Request where
  | init
  | insert (key : Key) (value : Value)
  | get (key : Key)
  | delete (key : Key)

def Request.opCode : Request → Byte
  | .init => INIT
  | .insert .. => INSERT
  | .get _ => GET
  | .delete _ => DELETE

/-- The bytes of the request on the wire and in the payload. -/
def Request.frame : Request → Bytes
  | .init => [INIT, 0, 0, 0]
  | .insert key value => insertFrame key.text value.bytes
  | .get key => keyFrame GET key.text
  | .delete key => keyFrame DELETE key.text

/-- What a request does to the map and the bytes that answer it. An insertion may be turned down
because memory is short or the table reports an error. -/
def mapStep (o : Outcomes) (m : Bytes → Option Bytes) : Request → (Bytes → Option Bytes) × Bytes
  | .init => (m, answerText "Hashtable already initialized.")
  | .insert key value =>
    if !o.object then (m, answerText "Error when kmalloc.")
    else if o.insertError then (m, answerText "Error when insert to rhashtable.")
    else
      match m key.text with
      | some _ => (m, answerText "Error, duplicated key.")
      | none =>
        (Function.update m key.text (some value.bytes), answerText "Inserted object to rhashtable")
  | .get key =>
    match m key.text with
    | some value => (m, value)
    | none => (m, answerText "Error when getting object.")
  | .delete key =>
    match m key.text with
    | some _ =>
      (Function.update m key.text none, answerText "Successful deleting object from rhashtable.")
    | none => (m, answerText "Error when getting object.")

theorem Request.frame_length_le (request : Request) : request.frame.length ≤ MAX_PAYLOAD := by
  cases request with
  | init => decide
  | insert key value => exact (insertFrame_length key.fits.le).trans_le value.fits
  | get key => exact (keyFrame_length key.fits.le).trans_le (by decide)
  | delete key => exact (keyFrame_length key.fits.le).trans_le (by decide)

theorem Request.head_frame (request : Request) (residue : Bytes) :
    (request.frame ++ residue).head? = some request.opCode := by
  cases request <;> rfl

section Handlers

variable {o : Outcomes} {ht : Table} {m : Bytes → Option Bytes}

/-- The handler of an INSERT request. -/
private theorem insert_request (allocated : o.value = true) (table : TableOf ht m) (key : Key)
    (value : Value) (residue : Bytes) :
    ∃ ht', readInsertStruct o ⟨some ht⟩ (insertFrame key.text value.bytes ++ residue) =
        some (⟨some ht'⟩, ⟨KERNEL, (mapStep o m (.insert key value)).2.length,
          .bytes (mapStep o m (.insert key value)).2⟩) ∧
      TableOf ht' (mapStep o m (.insert key value)).1 := by
  have isKey : IsKey key.text := ⟨key.clean, key.fits⟩
  have bound : value.bytes.length < 65536 := by
    have fits := value.fits
    simp only [MAX_PAYLOAD, HEADERSIZE, KEY_SIZE] at fits
    omega
  by_cases object : o.object = true
  · rw [readInsertStruct_eq object allocated key.clean key.fits bound]
    by_cases failed : o.insertError = true
    · exact ⟨ht, by simp [failed, mapStep, object, literalPdu],
        by simpa [failed, mapStep, object] using table⟩
    · cases held : m key.text with
      | some stored =>
        have duplicate : rhashtableLookupInsertFast ht (entry key.text value.bytes) = none := by
          have found : rhashtableLookupFast ht (padded (KEY_SIZE + 1) key.text) ≠ none := by
            simp [table.lookup isKey, held]
          exact if_pos (Option.isSome_iff_ne_none.mpr found)
        exact ⟨ht, by simp [failed, mapStep, object, held, duplicate, literalPdu],
          by simpa [failed, mapStep, object, held] using table⟩
      | none =>
        obtain ⟨ht', inserted, table'⟩ := table.insert isKey held value.bytes
        exact ⟨ht', by simp [failed, mapStep, object, held, inserted, literalPdu],
          by simpa [failed, mapStep, object, held] using table'⟩
  · rw [readInsertStruct_kmalloc (by simpa using object)]
    exact ⟨ht, by simp [mapStep, object, literalPdu], by simpa [mapStep, object] using table⟩

private theorem get_request (table : TableOf ht m) (key : Key) (residue : Bytes) :
    readGetStruct ⟨some ht⟩ (keyFrame GET key.text ++ residue) =
        some (⟨some ht⟩, ⟨KERNEL, (mapStep o m (.get key)).2.length,
          .bytes (mapStep o m (.get key)).2⟩) ∧ (mapStep o m (.get key)).1 = m := by
  have lookup := table.lookup ⟨key.clean, key.fits⟩
  cases held : m key.text with
  | some value =>
    have present := lookup.trans (congrArg (Option.map (entry key.text)) held)
    rw [readGetStruct_present key.clean key.fits present]
    exact ⟨by simp [mapStep, held], by simp [mapStep, held]⟩
  | none =>
    have absent := lookup.trans (congrArg (Option.map (entry key.text)) held)
    rw [readGetStruct_absent key.clean key.fits absent]
    exact ⟨by simp [mapStep, held, literalPdu], by simp [mapStep, held]⟩

private theorem delete_request (table : TableOf ht m) (key : Key) (residue : Bytes) :
    ∃ ht', readDeleteStruct ⟨some ht⟩ (keyFrame DELETE key.text ++ residue) =
        some (⟨some ht'⟩, ⟨KERNEL, (mapStep o m (.delete key)).2.length,
          .bytes (mapStep o m (.delete key)).2⟩) ∧
      TableOf ht' (mapStep o m (.delete key)).1 := by
  have isKey : IsKey key.text := ⟨key.clean, key.fits⟩
  have lookup := table.lookup isKey
  cases held : m key.text with
  | some value =>
    have present := lookup.trans (congrArg (Option.map (entry key.text)) held)
    rw [readDeleteStruct_present key.clean key.fits present]
    refine ⟨rhashtableRemoveFast ht (padded (KEY_SIZE + 1) key.text), ?_, ?_⟩
    · simp [mapStep, held, literalPdu]
    · simpa [mapStep, held] using table.remove isKey
  | none =>
    have absent := lookup.trans (congrArg (Option.map (entry key.text)) held)
    rw [readDeleteStruct_absent key.clean key.fits absent]
    exact ⟨ht, by simp [mapStep, held, literalPdu], by simpa [mapStep, held] using table⟩

/-- What the handlers respond to a request, and what they make of the table. -/
theorem readExactlyFromUser_request (response : o.response = true) (allocated : o.value = true)
    (table : TableOf ht m) (request : Request) (residue : Bytes) :
    ∃ ht', readExactlyFromUser o ⟨some ht⟩ (request.frame ++ residue) =
        some (⟨some ht'⟩, some ⟨KERNEL, (mapStep o m request).2.length, .bytes (mapStep o m request).2⟩) ∧
      TableOf ht' (mapStep o m request).1 := by
  have head := request.head_frame residue
  cases request with
  | init =>
    have handled : switchOpCode o ⟨some ht⟩ INIT ((Request.init).frame ++ residue) =
      some (⟨some ht⟩, literalPdu "Hashtable already initialized.") := readInitStruct_again (o := o)
    refine ⟨ht, ?_, table⟩
    rw [readExactlyFromUser_of response head handled]
    simp only [mapStep, literalPdu]
  | insert key value =>
    obtain ⟨ht', handled, table'⟩ := insert_request allocated table key value residue
    exact ⟨ht', readExactlyFromUser_of response head handled, table'⟩
  | get key =>
    obtain ⟨handled, same⟩ := get_request (o := o) table key residue
    exact ⟨ht, readExactlyFromUser_of response head handled, same.symm ▸ table⟩
  | delete key =>
    obtain ⟨ht', handled, table'⟩ := delete_request (o := o) table key residue
    exact ⟨ht', readExactlyFromUser_of response head handled, table'⟩

end Handlers

/-- No value is longer than a request can carry. -/
def Short (m : Bytes → Option Bytes) : Prop :=
  ∀ key value, m key = some value → value.length + HEADERSIZE + KEY_SIZE ≤ MAX_PAYLOAD

theorem Short.update {m : Bytes → Option Bytes} (short : Short m) (key : Bytes) {stored : Option Bytes}
    (fits : ∀ value, stored = some value → value.length + HEADERSIZE + KEY_SIZE ≤ MAX_PAYLOAD) :
    Short (Function.update m key stored) := by
  intro other value held
  by_cases same : other = key
  · rw [same, Function.update_self] at held
    exact fits value held
  · exact short other value (by rwa [Function.update_of_ne same] at held)

theorem Short.mapStep {o : Outcomes} {m : Bytes → Option Bytes} (short : Short m) (request : Request) :
    Short (mapStep o m request).1 := by
  cases request with
  | init => exact short
  | insert key value =>
    simp only [Store.mapStep]
    split_ifs
    · exact short
    · exact short
    · split
      · exact short
      · exact short.update key.text fun stored same => Option.some.inj same ▸ value.fits
  | get key =>
    simp only [Store.mapStep]
    split <;> exact short
  | delete key =>
    simp only [Store.mapStep]
    split
    · exact short.update key.text fun stored absurd => by cases absurd
    · exact short

/-- Every answer fits the payload behind its header. -/
theorem Short.answer {o : Outcomes} {m : Bytes → Option Bytes} (short : Short m) (request : Request) :
    (Store.mapStep o m request).2.length + HEADERSIZE ≤ MAX_PAYLOAD := by
  cases request with
  | init => exact show (answerText "Hashtable already initialized.").length + HEADERSIZE ≤ _ by decide
  | insert key value =>
    simp only [Store.mapStep]
    split_ifs
    · exact show (answerText "Error when kmalloc.").length + HEADERSIZE ≤ _ by decide
    · exact show (answerText "Error when insert to rhashtable.").length + HEADERSIZE ≤ _ by decide
    · split
      · exact show (answerText "Error, duplicated key.").length + HEADERSIZE ≤ _ by decide
      · exact show (answerText "Inserted object to rhashtable").length + HEADERSIZE ≤ _ by decide
  | get key =>
    simp only [Store.mapStep]
    split
    · rename_i value held
      have fits := short key.text value held
      simp only [KEY_SIZE] at fits ⊢
      omega
    · exact show (answerText "Error when getting object.").length + HEADERSIZE ≤ _ by decide
  | delete key =>
    simp only [Store.mapStep]
    split
    · exact show (answerText "Successful deleting object from rhashtable.").length + HEADERSIZE ≤ _ by
        decide
    · exact show (answerText "Error when getting object.").length + HEADERSIZE ≤ _ by decide

/-- The link serves the map: its module holds the table of the map. -/
structure Serves (link : Link) (m : Bytes → Option Bytes) : Prop where
  table : ∃ ht, link.kernel = ⟨some ht⟩ ∧ TableOf ht m
  short : Short m

/-- An exchange serves a request as the map does, over any residue of earlier requests. -/
theorem exchange_request {o : Outcomes} (usual : Usual o) {link : Link}
    {m : Bytes → Option Bytes} (serves : Serves link m) (request : Request) (opCode : Byte)
    (rest : Bytes) :
    ∃ link', exchange o link ⟨opCode, request.frame.length, .bytes (request.frame ++ rest)⟩ =
        some (link', ⟨KERNEL, (mapStep o m request).2.length + HEADERSIZE,
          .bytes (answerFrame o.unwritten (mapStep o m request).2)⟩) ∧
      Serves link' (mapStep o m request).1 := by
  obtain ⟨ht, kernel, table⟩ := serves.table
  obtain ⟨ht', responded, table'⟩ := readExactlyFromUser_request usual.response usual.value table
    request (link.nlhUserSend.1.drop request.frame.length)
  exact ⟨_, exchange_eq rest request.frame_length_le usual.buffer usual.skb (serves.short.answer request)
    (by rw [kernel]; exact responded), ⟨ht', rfl, table'⟩, serves.short.mapStep request⟩

/-- The same for a request whose answer is not read. -/
theorem transact_request {o : Outcomes} (usual : Usual o) {link : Link} {m : Bytes → Option Bytes}
    (serves : Serves link m) (request : Request) (rest : Bytes) :
    ∃ link', transact o link (request.frame ++ rest) request.frame.length = some link' ∧
      Serves link' (mapStep o m request).1 := by
  obtain ⟨ht, kernel, table⟩ := serves.table
  obtain ⟨ht', responded, table'⟩ := readExactlyFromUser_request usual.response usual.value table
    request (link.nlhUserSend.1.drop request.frame.length)
  exact ⟨_, transact_eq rest request.frame_length_le usual.buffer usual.skb
    (by rw [kernel]; exact responded), ⟨ht', rfl, table'⟩, serves.short.mapStep request⟩

theorem initialLink_serves (unwritten : Byte) : Serves (initialLink unwritten) fun _ => none :=
  ⟨⟨∅, rfl, tableOf_empty⟩, fun _ _ absurd => by cases absurd⟩

/-- `init_hashtable` leaves the empty table. -/
theorem initHashtable_serves (unwritten : Byte) :
    ∃ link, initHashtable (.smooth unwritten) = some link ∧ Serves link fun _ => none :=
  ⟨_, initHashtable_eq unwritten, initialLink_serves unwritten⟩

end Operativsystem.Store
