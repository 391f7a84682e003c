import Operativsystem.Resources.PduUser

/-! # Requests as the client builds them

Each builder copies 64 bytes of the caller's memory into the key member, so the caller must own
that many readable bytes. Only the text before the first terminator reaches the frame.
-/

namespace Operativsystem.Client

open Memory Resources

def createInitToServer : Option Pdu := do
  let buffer ← pduToBufferUser .init
  some ⟨USER, HEADERSIZE, .bytes buffer⟩

/-- `dataBytes` is the 16-bit parameter of the source. -/
def createInsertToServer (key data1 : Bytes) (dataBytes : ℕ) : Option Pdu := do
  let keyMember ← memcpy (calloc KEY_SIZE) 0 key KEY_SIZE
  let data ← memcpy (calloc dataBytes) 0 data1 dataBytes
  let action ← pduToBufferUser (.insert ⟨INSERT, keyMember, dataBytes, data⟩)
  some ⟨USER, u16 (dataBytes + HEADERSIZE + KEY_SIZE), .bytes action⟩

def createGetToServer (key : Bytes) : Option Pdu := do
  let keyMember ← memcpy (calloc KEY_SIZE) 0 key KEY_SIZE
  let action ← pduToBufferUser (.get ⟨GET, keyMember⟩)
  some ⟨USER, HEADERSIZE + KEY_SIZE, .bytes action⟩

def createDeleteToServer (key : Bytes) : Option Pdu := do
  let keyMember ← memcpy (calloc KEY_SIZE) 0 key KEY_SIZE
  let action ← pduToBufferUser (.delete ⟨DELETE, keyMember⟩)
  some ⟨USER, HEADERSIZE + KEY_SIZE, .bytes action⟩

/-- The caller's memory from the key on: the text, its terminator and whatever lies behind it,
at least 64 readable bytes in all. -/
structure KeyArgument (key : Bytes) where
  junk : Bytes
  readable : KEY_SIZE ≤ (key ++ 0 :: junk).length

def KeyArgument.memory {key : Bytes} (arg : KeyArgument key) : Bytes := key ++ 0 :: arg.junk

/-- The key member holds the text, its terminator and what the copy found behind it. -/
theorem KeyArgument.member {key : Bytes} (arg : KeyArgument key) (fits : key.length < KEY_SIZE) :
    ∃ junk, memcpy (calloc KEY_SIZE) 0 arg.memory KEY_SIZE = some (key ++ 0 :: junk) := by
  refine ⟨arg.junk.take (KEY_SIZE - key.length - 1), ?_⟩
  rw [memory, memcpy_front arg.readable (by simp)]
  have split : KEY_SIZE - key.length = KEY_SIZE - key.length - 1 + 1 := by omega
  rw [List.take_append, List.take_of_length_le fits.le, split, List.take_succ_cons]
  simp

theorem createInitToServer_eq :
    createInitToServer = some ⟨USER, HEADERSIZE, .bytes [INIT, 0, 0, 0]⟩ := rfl

variable {key : Bytes}

theorem createGetToServer_eq (arg : KeyArgument key) (clean : 0 ∉ key) (fits : key.length < KEY_SIZE) :
    createGetToServer arg.memory = some ⟨USER, HEADERSIZE + KEY_SIZE, .bytes (keyFrame GET key)⟩ := by
  obtain ⟨junk, copied⟩ := arg.member fits
  simp only [createGetToServer, copied, pduToBufferUser, createGetBuffer, Option.bind_eq_bind,
    Option.bind_some, createKeyBuffer_text clean fits.le]

theorem createDeleteToServer_eq (arg : KeyArgument key) (clean : 0 ∉ key)
    (fits : key.length < KEY_SIZE) : createDeleteToServer arg.memory =
      some ⟨USER, HEADERSIZE + KEY_SIZE, .bytes (keyFrame DELETE key)⟩ := by
  obtain ⟨junk, copied⟩ := arg.member fits
  simp only [createDeleteToServer, copied, pduToBufferUser, createDeleteBuffer, Option.bind_eq_bind,
    Option.bind_some, createKeyBuffer_text clean fits.le]

/-- Only the text of the key and the announced bytes of the value reach the INSERT frame. -/
theorem createInsertToServer_eq (arg : KeyArgument key) (clean : 0 ∉ key)
    (fits : key.length < KEY_SIZE) (value extra : Bytes) :
    createInsertToServer arg.memory (value ++ extra) value.length =
      some ⟨USER, u16 (value.length + HEADERSIZE + KEY_SIZE), .bytes (insertFrame key value)⟩ := by
  obtain ⟨junk, copied⟩ := arg.member fits
  have stored : memcpy (calloc value.length) 0 (value ++ extra) value.length = some (value ++ []) := by
    rw [memcpy_front (by simp) (by simp)]
    simp [calloc]
  have built : createInsertBuffer ⟨INSERT, key ++ 0 :: junk, value.length, value ++ []⟩ =
    some (insertFrame key value) := createInsertBuffer_text clean fits.le ⟨junk ++ [0], by simp⟩
  simp only [createInsertToServer, copied, stored, pduToBufferUser, built, Option.bind_eq_bind,
    Option.bind_some]

end Operativsystem.Client
