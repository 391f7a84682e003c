import Operativsystem.Kernel.NetlinkKernel

/-! # The memory that kmalloc returns

`kmalloc` does not clear the memory it returns. Here every allocation of a request starts with contents of its
own, and the handlers write what they write. All of it is overwritten before it is read, except for the byte of
the response buffer that `PDU_to_buffer_kernel` steps over.
-/

namespace Operativsystem.Kernel

open Memory Resources

/-- What the allocations of one request hold at first: the response, the new object, the memory for its value,
the response buffer and the outgoing message. -/
structure Contents where
  response : Pdu
  obj : RhashObject
  keyArray : obj.key.length = KEY_SIZE + 1
  value : ℕ → Byte
  buffer : ℕ → Byte
  skb : ℕ → Byte

def kmalloc (contents : ℕ → Byte) (n : ℕ) : Bytes := (List.range n).map contents

namespace Contents

/-- The assignments to the members of the response. -/
def respond (c : Contents) (data : PduData) (dataBytes : ℕ) : Pdu :=
  { c.response with opCode := KERNEL, data := data, dataBytes := dataBytes }

def literal (c : Contents) (text : String) : Option Pdu := do
  let data := ascii text ++ [0]
  let len ← strnlen MAX_PAYLOAD data
  some (c.respond (.bytes data) (len + 1))

def readDeleteStruct (c : Contents) (k : KernelState) (request : Bytes) : Option (KernelState × Pdu) := do
  let key ← readKey request
  let ht ← k.ht
  match rhashtableLookupFast ht key with
  | none =>
    let response ← c.literal "Error when getting object."
    some (k, response)
  | some obj =>
    let response ← c.literal "Successful deleting object from rhashtable."
    some (⟨some (rhashtableRemoveFast ht obj.key)⟩, response)

def readGetStruct (c : Contents) (k : KernelState) (request : Bytes) : Option (KernelState × Pdu) := do
  let key ← readKey request
  let ht ← k.ht
  match rhashtableLookupFast ht key with
  | none =>
    let response ← c.literal "Error when getting object."
    some (k, response)
  | some obj =>
    if obj.key.take KEY_SIZE = key.take KEY_SIZE then some (k, c.respond (.bytes obj.data) obj.dataBytes)
    else
      let response ← c.literal "Error, key does not match..."
      some (k, response)

/-- The key of a new object: `memset`, the copy of the text and the final zero byte. -/
def fillKey (c : Contents) (request : Bytes) : Option Bytes := do
  let key ← memcpy c.obj.key 0 (calloc (KEY_SIZE + 1)) (KEY_SIZE + 1)
  let field := request.drop HEADERSIZE
  let len ← strlen field
  let key ← memcpy key 0 field len
  memcpy key KEY_SIZE [0] 1

def copyValue (c : Contents) (o : Outcomes) (src : Bytes) (n : ℕ) : Option Bytes :=
  if o.value then memcpy (kmalloc c.value n) 0 src n else none

def readInsertStruct (c : Contents) (o : Outcomes) (k : KernelState) (request : Bytes) :
    Option (KernelState × Pdu) :=
  if o.object then do
    let dataBytes ← read16 request 1
    let key ← c.fillKey request
    let data ← c.copyValue o (request.drop (HEADERSIZE + KEY_SIZE)) dataBytes
    let obj := { c.obj with dataBytes := dataBytes, key := key, data := data }
    let ht ← k.ht
    if o.insertError then
      let response ← c.literal "Error when insert to rhashtable."
      some (k, response)
    else
      match rhashtableLookupInsertFast ht obj with
      | none =>
        let response ← c.literal "Error, duplicated key."
        some (k, response)
      | some ht =>
        let response ← c.literal "Inserted object to rhashtable"
        some (⟨some ht⟩, response)
  else do
    let response ← c.literal "Error when kmalloc."
    some (k, response)

def readInitStruct (c : Contents) (o : Outcomes) (k : KernelState) : Option (KernelState × Pdu) :=
  if k.ht.isSome then do
    let response ← c.literal "Hashtable already initialized."
    some (k, response)
  else if o.initError then do
    let response ← c.literal "Unable to initialize hashtable."
    some (k, response)
  else do
    let response ← c.literal "Initialized hashtable."
    some (⟨some ∅⟩, response)

def switchOpCode (c : Contents) (o : Outcomes) (k : KernelState) (opCode : Byte) (request : Bytes) :
    Option (KernelState × Pdu) :=
  if opCode = INIT then c.readInitStruct o k
  else if opCode = INSERT then c.readInsertStruct o k request
  else if opCode = GET then c.readGetStruct k request
  else if opCode = DELETE then c.readDeleteStruct k request
  else do
    let response ← c.literal "Error wrong OP_code to kernel"
    some (k, response)

def readExactlyFromUser (c : Contents) (o : Outcomes) (k : KernelState) (request : Bytes) :
    Option (KernelState × Option Pdu) :=
  if o.response then do
    let opCode ← request.head?
    let (k, response) ← c.switchOpCode o k opCode request
    some (k, some response)
  else some (k, none)

/-- The pointer moves by three bytes behind the length, of which two were written. -/
def pduToBufferKernel (c : Contents) (o : Outcomes) (pdu : Pdu) : Option Bytes :=
  match pdu.data with
  | .bytes data =>
    if o.buffer then do
      let responseBuffer := kmalloc c.buffer (pdu.dataBytes + HEADERSIZE)
      let responseBuffer ← memcpy responseBuffer 0 [pdu.opCode] 1
      let responseBuffer ← memcpy responseBuffer 1 (le16Bytes pdu.dataBytes) 2
      memcpy responseBuffer HEADERSIZE data pdu.dataBytes
    else none
  | _ => none

def workHandler (c : Contents) (o : Outcomes) (k : KernelState) (request : Bytes) :
    Option (KernelState × Option Bytes) := do
  let (k, response) ← c.readExactlyFromUser o k request
  match response with
  | none => some (k, none)
  | some response =>
    let responseBuffer ← c.pduToBufferKernel o response
    let msgSize := response.dataBytes + HEADERSIZE
    if o.skb then
      let message ← memcpy (kmalloc c.skb msgSize) 0 responseBuffer msgSize
      some (k, some message)
    else some (k, none)

end Contents

section Overwritten

variable {c : Contents} {o : Outcomes} {k : KernelState} {request : Bytes}

theorem kmalloc_length (contents : ℕ → Byte) (n : ℕ) : (kmalloc contents n).length = n := by
  rw [kmalloc, List.length_map, List.length_range]

/-- The response buffer starts with the four bytes of the header. -/
theorem kmalloc_header (contents : ℕ → Byte) (n : ℕ) : kmalloc contents (n + HEADERSIZE) =
    contents 0 :: contents 1 :: contents 2 :: contents 3 :: kmalloc (fun i => contents (4 + i)) n := by
  rw [kmalloc, Nat.add_comm, List.range_add, List.map_append, List.map_map]
  rfl

/-- A copy over a whole allocation leaves nothing of what it held. -/
theorem memcpy_whole {dst dst' src : Bytes} {n : ℕ} (length : dst.length = n) (length' : dst'.length = n) :
    memcpy dst 0 src n = memcpy dst' 0 src n := by
  simp only [memcpy, length, length', List.take_zero, List.drop_eq_nil_of_le, Nat.zero_add, le_refl]

theorem Contents.literal_eq (text : String) : c.literal text = Kernel.literal text := rfl

theorem Contents.fillKey_eq : c.fillKey request = readKey request := by
  have cleared : memcpy c.obj.key 0 (calloc (KEY_SIZE + 1)) (KEY_SIZE + 1) = some (calloc (KEY_SIZE + 1)) := by
    rw [memcpy_front (calloc_length _).ge c.keyArray.ge, List.drop_eq_nil_of_le c.keyArray.le, List.append_nil]
    rfl
  simp only [fillKey, cleared, readKey, Option.bind_eq_bind, Option.bind_some]

theorem Contents.copyValue_eq (src : Bytes) (n : ℕ) : c.copyValue o src n = Kernel.copyValue o src n := by
  rw [copyValue, Kernel.copyValue, memcpy_whole (kmalloc_length _ n) (calloc_length n)]

theorem Contents.switchOpCode_eq (opCode : Byte) :
    c.switchOpCode o k opCode request = Kernel.switchOpCode o k opCode request := by
  have inserted : c.readInsertStruct o k request = Kernel.readInsertStruct o k request := by
    simp only [readInsertStruct, fillKey_eq, copyValue_eq]
    rfl
  rw [switchOpCode, Kernel.switchOpCode, inserted]
  rfl

theorem Contents.readExactlyFromUser_eq (unwritten : Byte) : c.readExactlyFromUser o k request =
    Kernel.readExactlyFromUser { o with unwritten := unwritten } k request := by
  simp only [readExactlyFromUser, switchOpCode_eq]
  rfl

/-- The fourth byte of the response is what the buffer held. -/
theorem Contents.pduToBufferKernel_eq (pdu : Pdu) :
    c.pduToBufferKernel o pdu = Kernel.pduToBufferKernel { o with unwritten := c.buffer 3 } pdu := by
  obtain ⟨opCode, n, data⟩ := pdu
  cases data with
  | bytes data =>
    let header := [opCode, lowByte n, highByte n, c.buffer 3]
    let behind := kmalloc (fun i => c.buffer (4 + i)) n
    have framed : c.pduToBufferKernel o ⟨opCode, n, .bytes data⟩ =
        if o.buffer then memcpy (header ++ behind) HEADERSIZE data n else none := by
      simp [pduToBufferKernel, kmalloc_header, memcpy, le16Bytes, header, behind]
    rw [framed, Kernel.pduToBufferKernel]
    by_cases room : n ≤ data.length
    · have filled : memcpy (header ++ behind) HEADERSIZE data n = some (header ++ data.take n ++ []) :=
        memcpy_parts (List.append_nil _).symm rfl (kmalloc_length _ n) room
      rw [filled]
      simp [room, header, le16Bytes]
    · simp [memcpy, room]
  | join idLen clientId => rfl
  | quit sock => rfl

theorem pduToBufferKernel_length {pdu : Pdu} {buffer : Bytes}
    (framed : Kernel.pduToBufferKernel o pdu = some buffer) :
    buffer.length = pdu.dataBytes + HEADERSIZE := by
  obtain ⟨opCode, n, data⟩ := pdu
  cases data with
  | bytes data =>
    obtain ⟨⟨-, room⟩, same⟩ := Option.ite_none_right_eq_some.mp framed
    cases same
    simp [le16Bytes, List.length_take_of_le room, HEADERSIZE]
  | join idLen clientId => cases framed
  | quit sock => cases framed

/-- All that is left of the contents is one byte of the response buffer. -/
theorem Contents.workHandler_eq (c : Contents) (o : Outcomes) (k : KernelState) (request : Bytes) :
    c.workHandler o k request = Kernel.workHandler { o with unwritten := c.buffer 3 } k request := by
  simp only [workHandler, Kernel.workHandler, readExactlyFromUser_eq (c.buffer 3), pduToBufferKernel_eq,
    Option.bind_eq_bind]
  refine Option.bind_congr fun ⟨k', response⟩ _ => ?_
  cases response with
  | none => rfl
  | some pdu =>
    refine Option.bind_congr fun buffer framed => ?_
    have length := pduToBufferKernel_length framed
    have copied : memcpy (kmalloc c.skb (pdu.dataBytes + HEADERSIZE)) 0 buffer (pdu.dataBytes + HEADERSIZE) =
        some buffer := by
      rw [memcpy_front length.ge (kmalloc_length _ _).ge, List.take_of_length_le length.le,
        List.drop_eq_nil_of_le (kmalloc_length _ _).le, List.append_nil]
    simp only [copied, Option.bind_some]
    split_ifs <;> rfl

end Overwritten

end Operativsystem.Kernel
