import Mathlib.Data.Finmap
import Operativsystem.Resources.PduUser

/-! # The netlink handler of the kernel module

The module keeps objects in an `rhashtable` that compares the first 64 bytes of their keys; it is
modelled as a finite map from these bytes, with an insertion that may fail. The request is the
whole payload that user space sent, of which the handlers know no length. `Outcomes` says what the
allocators and the table return while one request is served. An access outside an allocation, or a
NULL that is followed, is `none`.
-/

namespace Operativsystem.Kernel

open Memory Resources

structure RhashObject where
  key : Bytes
  dataBytes : ℕ
  data : Bytes
deriving DecidableEq

/-- The entries of the table under the 64 bytes that `my_compare_function` compares. -/
abbrev Table := Finmap fun _ : Bytes => RhashObject

def rhashtableLookupFast (ht : Table) (key : Bytes) : Option RhashObject :=
  ht.lookup (key.take KEY_SIZE)

def rhashtableRemoveFast (ht : Table) (key : Bytes) : Table := ht.erase (key.take KEY_SIZE)

/-- `rhashtable_lookup_insert_fast`; `none` is -EEXIST. -/
def rhashtableLookupInsertFast (ht : Table) (obj : RhashObject) : Option Table :=
  if (rhashtableLookupFast ht obj.key).isSome then none
  else some (ht.insert (obj.key.take KEY_SIZE) obj)

/-- `ht` is there once `rhashtable_init` has succeeded, which `hashtable_initialized` records. -/
structure KernelState where
  ht : Option Table
deriving DecidableEq

structure Outcomes where
  response : Bool
  object : Bool
  value : Bool
  buffer : Bool
  skb : Bool
  initError : Bool
  insertError : Bool
  /-- The fourth byte of the response header, which nobody writes. -/
  unwritten : Byte

/-- Every allocation succeeds and the table reports no error of its own. -/
def Outcomes.smooth (unwritten : Byte) : Outcomes :=
  ⟨true, true, true, true, true, false, false, unwritten⟩

@[simp] theorem Outcomes.smooth_unwritten (unwritten : Byte) :
    (Outcomes.smooth unwritten).unwritten = unwritten := rfl

/-- Allocations succeed, except perhaps that of a new object. -/
structure Usual (o : Outcomes) : Prop where
  response : o.response = true
  value : o.value = true
  buffer : o.buffer = true
  skb : o.skb = true

/-- A response that points to a string literal. -/
def literal (text : String) : Option Pdu := do
  let data := ascii text ++ [0]
  let len ← strnlen MAX_PAYLOAD data
  some ⟨KERNEL, len + 1, .bytes data⟩

/-- The key that every handler copies: a zeroed array, the text at `request + HEADERSIZE` up to
its terminator, and a final zero byte. -/
def readKey (request : Bytes) : Option Bytes := do
  let field := request.drop HEADERSIZE
  let len ← strlen field
  let key ← memcpy (calloc (KEY_SIZE + 1)) 0 field len
  memcpy key KEY_SIZE [0] 1

def readDeleteStruct (k : KernelState) (request : Bytes) : Option (KernelState × Pdu) := do
  let key ← readKey request
  let ht ← k.ht
  match rhashtableLookupFast ht key with
  | none =>
    let response ← literal "Error when getting object."
    some (k, response)
  | some obj => -- the object was found, so removing it reports no error
    let response ← literal "Successful deleting object from rhashtable."
    some (⟨some (rhashtableRemoveFast ht obj.key)⟩, response)

def readGetStruct (k : KernelState) (request : Bytes) : Option (KernelState × Pdu) := do
  let key ← readKey request
  let ht ← k.ht
  match rhashtableLookupFast ht key with
  | none =>
    let response ← literal "Error when getting object."
    some (k, response)
  | some obj =>
    if obj.key.take KEY_SIZE = key.take KEY_SIZE then
      some (k, ⟨KERNEL, obj.dataBytes, .bytes obj.data⟩)
    else
      let response ← literal "Error, key does not match..."
      some (k, response)

/-- `kmalloc` and `memcpy`; a failed allocation is written to all the same. -/
def copyValue (o : Outcomes) (src : Bytes) (n : ℕ) : Option Bytes :=
  if o.value then memcpy (calloc n) 0 src n else none

def readInsertStruct (o : Outcomes) (k : KernelState) (request : Bytes) : Option (KernelState × Pdu) :=
  if o.object then do
    let dataBytes ← read16 request 1
    let key ← readKey request
    let data ← copyValue o (request.drop (HEADERSIZE + KEY_SIZE)) dataBytes
    let ht ← k.ht
    if o.insertError then
      let response ← literal "Error when insert to rhashtable."
      some (k, response)
    else
      match rhashtableLookupInsertFast ht ⟨key, dataBytes, data⟩ with
      | none =>
        let response ← literal "Error, duplicated key."
        some (k, response)
      | some ht =>
        let response ← literal "Inserted object to rhashtable"
        some (⟨some ht⟩, response)
  else do
    let response ← literal "Error when kmalloc."
    some (k, response)

def readInitStruct (o : Outcomes) (k : KernelState) : Option (KernelState × Pdu) :=
  if k.ht.isSome then do
    let response ← literal "Hashtable already initialized."
    some (k, response)
  else if o.initError then do
    let response ← literal "Unable to initialize hashtable."
    some (k, response)
  else do
    let response ← literal "Initialized hashtable."
    some (⟨some ∅⟩, response)

/-- The `switch` of `read_exactly_from_user`. -/
def switchOpCode (o : Outcomes) (k : KernelState) (opCode : Byte) (request : Bytes) :
    Option (KernelState × Pdu) :=
  if opCode = INIT then readInitStruct o k
  else if opCode = INSERT then readInsertStruct o k request
  else if opCode = GET then readGetStruct k request
  else if opCode = DELETE then readDeleteStruct k request
  else do
    let response ← literal "Error wrong OP_code to kernel"
    some (k, response)

/-- `read_exactly_from_user`; no response when it cannot be allocated. -/
def readExactlyFromUser (o : Outcomes) (k : KernelState) (request : Bytes) :
    Option (KernelState × Option Pdu) :=
  if o.response then do
    let opCode ← request.head?
    let (k, response) ← switchOpCode o k opCode request
    some (k, some response)
  else some (k, none)

def pduToBufferKernel (o : Outcomes) (pdu : Pdu) : Option Bytes :=
  match pdu.data with
  | .bytes data =>
    if o.buffer ∧ pdu.dataBytes ≤ data.length then
      some (pdu.opCode :: le16Bytes pdu.dataBytes ++ o.unwritten :: data.take pdu.dataBytes)
    else none
  | _ => none

/-- `work_handler`: the payload of the answer, if one is sent. -/
def workHandler (o : Outcomes) (k : KernelState) (request : Bytes) : Option (KernelState × Option Bytes) := do
  let (k, response) ← readExactlyFromUser o k request
  match response with
  | none => some (k, none)
  | some response =>
    let responseBuffer ← pduToBufferKernel o response
    some (k, if o.skb then some responseBuffer else none)

/-- A text with its terminator. -/
def answerText (text : String) : Bytes := ascii text ++ [0]

/-- The response that points to a literal. -/
def literalPdu (text : String) : Pdu := ⟨KERNEL, (answerText text).length, .bytes (answerText text)⟩

theorem literal_eq {text : String} (clean : 0 ∉ ascii text) (fits : (ascii text).length < MAX_PAYLOAD) :
    literal text = some (literalPdu text) := by
  simp [literal, literalPdu, answerText, strnlen_text clean fits]

/-- What the table keeps for a key text and its value. -/
def entry (key value : Bytes) : RhashObject := ⟨padded (KEY_SIZE + 1) key, value.length, value⟩

theorem take_padded {key : Bytes} (fits : key.length ≤ KEY_SIZE) :
    (padded (KEY_SIZE + 1) key).take KEY_SIZE = padded KEY_SIZE key := by
  rw [padded, padded, List.take_append, List.take_of_length_le fits]
  congr 1
  rw [calloc, List.take_replicate, calloc]
  congr 1
  omega

/-- A text that is at most as long as the field, whatever the bytes behind its terminator are. -/
theorem readKey_text {request text rest : Bytes} (field : request.drop HEADERSIZE = text ++ 0 :: rest)
    (clean : 0 ∉ text) (fits : text.length ≤ KEY_SIZE) :
    readKey request = some (padded (KEY_SIZE + 1) text) := by
  have copied : memcpy (calloc (KEY_SIZE + 1)) 0 (text ++ 0 :: rest) text.length =
      some (padded (KEY_SIZE + 1) text) := by
    simpa using memcpy_field [] [] (0 :: rest) (show text.length ≤ KEY_SIZE + 1 by omega)
  have parts : padded (KEY_SIZE + 1) text = padded KEY_SIZE text ++ [0] ++ [] := by
    rw [padded, padded, show KEY_SIZE + 1 - text.length = KEY_SIZE - text.length + 1 by omega, calloc_add]
    simp [calloc]
  have ended : memcpy (padded (KEY_SIZE + 1) text) KEY_SIZE [0] 1 = some (padded (KEY_SIZE + 1) text) := by
    exact (memcpy_parts parts (padded_length fits) rfl le_rfl).trans (by rw [parts]; rfl)
  simp only [readKey, field, strlen_text clean, copied, ended, Option.bind_eq_bind, Option.bind_some]

/-- A key text in its field, whatever the bytes behind the field are. -/
theorem readKey_padded {header key rest : Bytes} (header4 : header.length = HEADERSIZE)
    (clean : 0 ∉ key) (fits : key.length < KEY_SIZE) :
    readKey (header ++ padded KEY_SIZE key ++ rest) = some (padded (KEY_SIZE + 1) key) := by
  have field : (header ++ padded KEY_SIZE key ++ rest).drop HEADERSIZE =
      key ++ 0 :: (calloc (KEY_SIZE - key.length - 1) ++ rest) := by
    rw [List.append_assoc, ← header4, List.drop_left, padded_eq fits]
    simp
  exact readKey_text field clean fits.le

section Requests

variable {o : Outcomes} {ht : Table} {key value residue : Bytes}

theorem readKey_keyFrame (opCode : Byte) (clean : 0 ∉ key) (fits : key.length < KEY_SIZE) :
    readKey (keyFrame opCode key ++ residue) = some (padded (KEY_SIZE + 1) key) :=
  readKey_padded (show [opCode, 0, 0, 0].length = HEADERSIZE from rfl) clean fits

theorem readKey_insertFrame (clean : 0 ∉ key) (fits : key.length < KEY_SIZE) :
    readKey (insertFrame key value ++ residue) = some (padded (KEY_SIZE + 1) key) := by
  have split : insertFrame key value ++ residue = [INSERT, lowByte value.length,
      highByte value.length, 0] ++ padded KEY_SIZE key ++ (value ++ residue) := by
    simp [insertFrame]
  rw [split]
  exact readKey_padded rfl clean fits

/-- Once there is a response, the handler of the opcode fills it. -/
theorem readExactlyFromUser_of {k k' : KernelState} {opCode : Byte} {request : Bytes} {pdu : Pdu}
    (allocated : o.response = true) (head : request.head? = some opCode)
    (handled : switchOpCode o k opCode request = some (k', pdu)) :
    readExactlyFromUser o k request = some (k', some pdu) := by
  simp only [readExactlyFromUser, allocated, if_true, head, handled, Option.bind_eq_bind,
    Option.bind_some]

theorem readDeleteStruct_absent (clean : 0 ∉ key) (fits : key.length < KEY_SIZE)
    (absent : rhashtableLookupFast ht (padded (KEY_SIZE + 1) key) = none) :
    readDeleteStruct ⟨some ht⟩ (keyFrame DELETE key ++ residue) =
      some (⟨some ht⟩, literalPdu "Error when getting object.") := by
  simp only [readDeleteStruct, readKey_keyFrame DELETE clean fits, absent,
    literal_eq (show 0 ∉ ascii "Error when getting object." by decide) (by decide),
    Option.bind_eq_bind, Option.bind_some]

theorem readDeleteStruct_present (clean : 0 ∉ key) (fits : key.length < KEY_SIZE)
    (present : rhashtableLookupFast ht (padded (KEY_SIZE + 1) key) = some (entry key value)) :
    readDeleteStruct ⟨some ht⟩ (keyFrame DELETE key ++ residue) =
      some (⟨some (rhashtableRemoveFast ht (padded (KEY_SIZE + 1) key))⟩,
        literalPdu "Successful deleting object from rhashtable.") := by
  simp only [readDeleteStruct, readKey_keyFrame DELETE clean fits, present, entry,
    literal_eq (show 0 ∉ ascii "Successful deleting object from rhashtable." by decide) (by decide),
    Option.bind_eq_bind, Option.bind_some]

theorem readGetStruct_absent (clean : 0 ∉ key) (fits : key.length < KEY_SIZE)
    (absent : rhashtableLookupFast ht (padded (KEY_SIZE + 1) key) = none) :
    readGetStruct ⟨some ht⟩ (keyFrame GET key ++ residue) =
      some (⟨some ht⟩, literalPdu "Error when getting object.") := by
  simp only [readGetStruct, readKey_keyFrame GET clean fits, absent,
    literal_eq (show 0 ∉ ascii "Error when getting object." by decide) (by decide),
    Option.bind_eq_bind, Option.bind_some]

theorem readGetStruct_present (clean : 0 ∉ key) (fits : key.length < KEY_SIZE)
    (present : rhashtableLookupFast ht (padded (KEY_SIZE + 1) key) = some (entry key value)) :
    readGetStruct ⟨some ht⟩ (keyFrame GET key ++ residue) =
      some (⟨some ht⟩, ⟨KERNEL, value.length, .bytes value⟩) := by
  simp only [readGetStruct, readKey_keyFrame GET clean fits, present, entry, Option.bind_eq_bind,
    Option.bind_some, if_true]

/-- The object of an INSERT: the key text that is found, the length of the header and so many bytes. -/
theorem readInsertStruct_of {request rest : Bytes} (object : o.object = true) (allocated : o.value = true)
    (length : read16 request 1 = some value.length) (copied : readKey request = some (padded (KEY_SIZE + 1) key))
    (body : request.drop (HEADERSIZE + KEY_SIZE) = value ++ rest) :
    readInsertStruct o ⟨some ht⟩ request =
      some (if o.insertError then (⟨some ht⟩, literalPdu "Error when insert to rhashtable.")
        else match rhashtableLookupInsertFast ht (entry key value) with
          | none => (⟨some ht⟩, literalPdu "Error, duplicated key.")
          | some ht => (⟨some ht⟩, literalPdu "Inserted object to rhashtable")) := by
  have stored : copyValue o (value ++ rest) value.length = some value := by
    rw [copyValue, if_pos allocated, memcpy_front (by simp) (by simp)]
    simp [calloc]
  simp only [readInsertStruct, object, if_true, length, copied, body, stored, Option.bind_eq_bind,
    Option.bind_some,
    literal_eq (show 0 ∉ ascii "Error when insert to rhashtable." by decide) (by decide),
    literal_eq (show 0 ∉ ascii "Error, duplicated key." by decide) (by decide),
    literal_eq (show 0 ∉ ascii "Inserted object to rhashtable" by decide) (by decide)]
  have made : ⟨padded (KEY_SIZE + 1) key, value.length, value⟩ = entry key value := rfl
  rw [made]
  split_ifs
  · rfl
  · cases rhashtableLookupInsertFast ht (entry key value) <;> rfl

/-- The object that an INSERT request makes: its key text and exactly its value, whatever the bytes
behind the frame are. -/
theorem readInsertStruct_eq (object : o.object = true) (allocated : o.value = true) (clean : 0 ∉ key)
    (fits : key.length < KEY_SIZE) (bound : value.length < 65536) :
    readInsertStruct o ⟨some ht⟩ (insertFrame key value ++ residue) =
      some (if o.insertError then (⟨some ht⟩, literalPdu "Error when insert to rhashtable.")
        else match rhashtableLookupInsertFast ht (entry key value) with
          | none => (⟨some ht⟩, literalPdu "Error, duplicated key.")
          | some ht => (⟨some ht⟩, literalPdu "Inserted object to rhashtable")) :=
  readInsertStruct_of object allocated (insertFrame_read16 bound residue) (readKey_insertFrame clean fits)
    (insertFrame_drop fits.le residue)

theorem readInsertStruct_kmalloc (failed : o.object = false) (k : KernelState) (request : Bytes) :
    readInsertStruct o k request = some (k, literalPdu "Error when kmalloc.") := by
  simp [readInsertStruct, failed, literal_eq (show 0 ∉ ascii "Error when kmalloc." by decide) (by decide)]

theorem readInitStruct_again : readInitStruct o ⟨some ht⟩ =
    some (⟨some ht⟩, literalPdu "Hashtable already initialized.") := by
  simp [readInitStruct,
    literal_eq (show 0 ∉ ascii "Hashtable already initialized." by decide) (by decide)]

end Requests

/-- The answer that the kernel puts on the wire. -/
def answerFrame (unwritten : Byte) (content : Bytes) : Bytes :=
  KERNEL :: lowByte content.length :: highByte content.length :: unwritten :: content

theorem answerFrame_length (unwritten : Byte) (content : Bytes) :
    (answerFrame unwritten content).length = content.length + HEADERSIZE := rfl

theorem workHandler_eq {o : Outcomes} {k kernel : KernelState} {request content : Bytes}
    (buffer : o.buffer = true) (skb : o.skb = true)
    (responded : readExactlyFromUser o k request =
      some (kernel, some ⟨KERNEL, content.length, .bytes content⟩)) :
    workHandler o k request = some (kernel, some (answerFrame o.unwritten content)) := by
  have framed : pduToBufferKernel o ⟨KERNEL, content.length, .bytes content⟩ =
      some (answerFrame o.unwritten content) := by
    simp [pduToBufferKernel, buffer, answerFrame, le16Bytes]
  simp only [workHandler, responded, framed, skb, if_true, Option.bind_eq_bind, Option.bind_some]

end Operativsystem.Kernel
