import Operativsystem.Resources.LinkedList

/-! # Building frames in user space

A frame starts with a header of four bytes: the opcode, a 16-bit length and an unused byte. The
buffers are zeroed before they are filled, so a key that is copied up to its terminator leaves
the rest of its 64-byte field zero.
-/

namespace Operativsystem.Resources

open Memory

abbrev HEADERSIZE : ℕ := 4

abbrev KEY_SIZE : ℕ := 64

abbrev MAX_PAYLOAD : ℕ := 1024

abbrev MAXMESSLEN : ℕ := 50

abbrev INIT : Byte := 11

abbrev INSERT : Byte := 12

abbrev GET : Byte := 13

abbrev DELETE : Byte := 14

abbrev KERNEL : Byte := 15

abbrev USER : Byte := 16

abbrev JOIN : Byte := 17

abbrev QUIT : Byte := 18

structure InsertStruct where
  opCode : Byte
  key : Bytes
  dataBytes : ℕ
  data : Bytes

/-- `GET_struct` and `DELETE_struct`, which have the same members. -/
structure KeyStruct where
  opCode : Byte
  key : Bytes

def createInitBuffer : Option Bytes := memcpy (calloc HEADERSIZE) 0 [INIT] 1

/-- The common text of `create_GET_buffer` and `create_DELETE_buffer`. -/
def createKeyBuffer (opCode : Byte) (s : KeyStruct) : Option Bytes := do
  let buffer ← memcpy (calloc (HEADERSIZE + KEY_SIZE)) 0 [opCode] 1
  let len ← strlen s.key
  memcpy buffer HEADERSIZE s.key len

def createGetBuffer (s : KeyStruct) : Option Bytes := createKeyBuffer GET s

def createDeleteBuffer (s : KeyStruct) : Option Bytes := createKeyBuffer DELETE s

/-- `create_INSERT_buffer`. A key field without a terminator is followed by the padding byte of
the structure, which `calloc` has zeroed. -/
def createInsertBuffer (s : InsertStruct) : Option Bytes := do
  let buffer ← memcpy (calloc (s.dataBytes + HEADERSIZE + KEY_SIZE)) 0 [s.opCode] 1
  let buffer ← memcpy buffer 1 (le16Bytes s.dataBytes) 2
  let len ← strlen (s.key ++ [0])
  let buffer ← memcpy buffer HEADERSIZE s.key len
  memcpy buffer (HEADERSIZE + KEY_SIZE) s.data s.dataBytes

/-- What `PDU_to_buffer_user` is given: an opcode and the structure that belongs to it. -/
inductive UserStruct where
  | init
  | insert (s : InsertStruct)
  | get (s : KeyStruct)
  | delete (s : KeyStruct)

def pduToBufferUser : UserStruct → Option Bytes
  | .init => createInitBuffer
  | .insert s => createInsertBuffer s
  | .get s => createGetBuffer s
  | .delete s => createDeleteBuffer s

def createQuitPdu : Option Pdu := do
  let data ← memcpy (calloc HEADERSIZE) 0 [QUIT] 1
  some ⟨USER, HEADERSIZE, .bytes data⟩

/-- `send_pdu`: the bytes that `send` puts on the connection. -/
def sendPdu (pdu : Pdu) : Option Bytes :=
  match pdu.data with
  | .bytes content => if pdu.dataBytes ≤ content.length then some (content.take pdu.dataBytes) else none
  | _ => none

/-- The frame of a request that only names a key. -/
def keyFrame (opCode : Byte) (key : Bytes) : Bytes := opCode :: 0 :: 0 :: 0 :: padded KEY_SIZE key

/-- The frame that stores `value` under `key`. -/
def insertFrame (key value : Bytes) : Bytes :=
  INSERT :: lowByte value.length :: highByte value.length :: 0 :: padded KEY_SIZE key ++ value

/-- Copying a text of the field to the front of a zeroed field. -/
theorem memcpy_field (pre post rest : Bytes) {text : Bytes} {n : ℕ} (fits : text.length ≤ n) :
    memcpy (pre ++ calloc n ++ post) pre.length (text ++ rest) text.length =
      some (pre ++ padded n text ++ post) := by
  have parts : pre ++ calloc n ++ post =
      pre ++ calloc text.length ++ (calloc (n - text.length) ++ post) := by
    rw [show n = text.length + (n - text.length) by omega, calloc_add]
    simp
  rw [memcpy_parts parts rfl (calloc_length _) (by simp)]
  simp [padded]

/-- The first 64 bytes that the callers copy from a key: the text, its terminator, and whatever
the caller's memory holds behind it. -/
theorem createKeyBuffer_text {opCode first : Byte} {key junk : Bytes} (clean : 0 ∉ key)
    (fits : key.length ≤ KEY_SIZE) :
    createKeyBuffer opCode ⟨first, key ++ 0 :: junk⟩ = some (keyFrame opCode key) := by
  have header : memcpy (calloc (HEADERSIZE + KEY_SIZE)) 0 [opCode] 1 =
      some ([opCode, 0, 0, 0] ++ calloc KEY_SIZE ++ []) := rfl
  simp only [createKeyBuffer, header, strlen_text clean, Option.bind_eq_bind, Option.bind_some]
  exact (memcpy_field [opCode, 0, 0, 0] [] (0 :: junk) fits).trans (by simp [keyFrame])

/-- The INSERT buffer of a key field that holds a text, its terminator and any bytes behind it,
or a text that fills the field. -/
theorem createInsertBuffer_text {key field value extra : Bytes} (clean : 0 ∉ key)
    (fits : key.length ≤ KEY_SIZE) (text : ∃ junk, field ++ [0] = key ++ 0 :: junk) :
    createInsertBuffer ⟨INSERT, field, value.length, value ++ extra⟩ =
      some (insertFrame key value) := by
  obtain ⟨junk, text⟩ := text
  obtain ⟨rest, fieldEq⟩ : ∃ rest, field = key ++ rest := by
    have cut := congrArg (List.take field.length) text
    have bound : key.length ≤ field.length := by
      have := congrArg List.length text
      simp only [List.length_append, List.length_cons, List.length_nil] at this
      omega
    refine ⟨(0 :: junk).take (field.length - key.length), ?_⟩
    simpa [List.take_append, List.take_of_length_le bound] using cut
  have zeroed : calloc (value.length + HEADERSIZE + KEY_SIZE) =
      [0] ++ ([0, 0] ++ ([0] ++ (calloc KEY_SIZE ++ calloc value.length))) := by
    rw [show value.length + HEADERSIZE + KEY_SIZE = 4 + KEY_SIZE + value.length by
      simp only [HEADERSIZE]; omega, calloc_add,
      calloc_add]
    rfl
  have opcode : memcpy (calloc (value.length + HEADERSIZE + KEY_SIZE)) 0 [INSERT] 1 =
      some ([INSERT] ++ [0, 0] ++ ([0] ++ (calloc KEY_SIZE ++ calloc value.length))) := by
    rw [zeroed]
    exact memcpy_parts (show [0] ++ _ = [] ++ [0] ++ _ from rfl) rfl rfl (by simp)
  have length : memcpy ([INSERT] ++ [0, 0] ++ ([0] ++ (calloc KEY_SIZE ++ calloc value.length))) 1
      (le16Bytes value.length) 2 = some ([INSERT, lowByte value.length, highByte value.length, 0] ++
        calloc KEY_SIZE ++ calloc value.length) :=
    (memcpy_parts rfl rfl rfl (by simp [le16Bytes])).trans (by simp [le16Bytes])
  have keyed := memcpy_field [INSERT, lowByte value.length, highByte value.length, 0]
    (calloc value.length) rest fits
  have stored : memcpy ([INSERT, lowByte value.length, highByte value.length, 0] ++
      padded KEY_SIZE key ++ calloc value.length) (HEADERSIZE + KEY_SIZE) (value ++ extra)
        value.length = some (insertFrame key value) := by
    rw [memcpy_parts (List.append_nil _).symm
      (by rw [List.length_append, padded_length fits]; rfl) (by simp) (by simp)]
    simp [insertFrame]
  simp only [createInsertBuffer, opcode, length, text, strlen_text clean, Option.bind_eq_bind,
    Option.bind_some]
  rw [fieldEq]
  exact (congrArg (Option.bind · _) keyed).trans stored

theorem keyFrame_length {opCode : Byte} {key : Bytes} (fits : key.length ≤ KEY_SIZE) :
    (keyFrame opCode key).length = HEADERSIZE + KEY_SIZE := by
  simp [keyFrame, padded_length fits, HEADERSIZE, KEY_SIZE]

theorem insertFrame_length {key value : Bytes} (fits : key.length ≤ KEY_SIZE) :
    (insertFrame key value).length = value.length + HEADERSIZE + KEY_SIZE := by
  simp only [insertFrame, List.length_cons, List.length_append, padded_length fits, HEADERSIZE]
  omega

/-- The length field of an INSERT frame. -/
theorem insertFrame_read16 {key value : Bytes} (bound : value.length < 65536) (rest : Bytes) :
    read16 (insertFrame key value ++ rest) 1 = some value.length := by
  simp [read16, insertFrame, le16_bytes, u16_of_lt bound]

/-- The key field of the frame. -/
theorem insertFrame_key {key value : Bytes} (fits : key.length ≤ KEY_SIZE) (rest : Bytes) :
    ((insertFrame key value ++ rest).drop HEADERSIZE).take KEY_SIZE = padded KEY_SIZE key := by
  change (padded KEY_SIZE key ++ value ++ rest).take KEY_SIZE = padded KEY_SIZE key
  rw [List.append_assoc]
  exact List.take_left' (padded_length fits)

/-- The value of an INSERT frame. -/
theorem insertFrame_drop {key value : Bytes} (fits : key.length ≤ KEY_SIZE) (rest : Bytes) :
    (insertFrame key value ++ rest).drop (HEADERSIZE + KEY_SIZE) = value ++ rest := by
  have front : (INSERT :: lowByte value.length :: highByte value.length :: 0 ::
      padded KEY_SIZE key).length = HEADERSIZE + KEY_SIZE := by
    simp only [List.length_cons, padded_length fits]
    rfl
  rw [insertFrame, ← front, List.append_assoc, List.drop_left]

end Operativsystem.Resources
