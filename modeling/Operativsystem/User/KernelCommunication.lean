import Operativsystem.Kernel.NetlinkKernel
import Operativsystem.Resources.Frames

/-! # The exchange between the server and the kernel module

`nlh_user_send` and `nlh_user_receive` are allocated once and never cleared: every message
overwrites the front of a payload and keeps what lies behind it. The server sends its whole
payload, so the kernel sees a request and the tail of earlier ones.
-/

namespace Operativsystem.User

open Memory Resources Kernel

/-- The payload of a netlink message. -/
abbrev Payload := { bytes : Bytes // bytes.length = MAX_PAYLOAD }

namespace Payload

def zeroed : Payload := ⟨calloc MAX_PAYLOAD, calloc_length _⟩

/-- `memcpy(NLMSG_DATA(nlh), src, n)`. -/
def memcpy (payload : Payload) (src : Bytes) (n : ℕ) : Option Payload :=
  match copied : Memory.memcpy payload.1 0 src n with
  | some bytes => some ⟨bytes, (memcpy_length copied).trans payload.2⟩
  | none => none

/-- `recvmsg`: the message lands at the front; what does not fit is cut off. -/
def recvmsg (payload : Payload) (message : Bytes) : Payload :=
  ⟨message.take MAX_PAYLOAD ++ payload.1.drop message.length, by
    rw [List.length_append, List.length_take, List.length_drop, payload.2]
    omega⟩

end Payload

/-- The kernel module and the two payloads of the server. -/
structure Link where
  kernel : KernelState
  nlhUserSend : Payload
  nlhUserReceive : Payload

def readExactlyFromKernel (payload : Payload) : Option Pdu := do
  let msgSize ← read16 payload.1 1
  let data ← memcpy (calloc (msgSize + HEADERSIZE)) 0 payload.1 (msgSize + HEADERSIZE)
  some ⟨KERNEL, u16 (msgSize + HEADERSIZE), .bytes data⟩

/-- Copy a request into the payload, send it and receive the answer. `recvmsg` does not return
when no answer is sent. -/
def transact (o : Outcomes) (link : Link) (data : Bytes) (dataBytes : ℕ) : Option Link := do
  let nlhUserSend ← link.nlhUserSend.memcpy data dataBytes
  let (kernel, answer) ← workHandler o link.kernel nlhUserSend.1
  let message ← answer
  some ⟨kernel, nlhUserSend, link.nlhUserReceive.recvmsg message⟩

/-- One turn of `kernel_communication`, up to the answer. -/
def exchange (o : Outcomes) (link : Link) (pduSend : Pdu) : Option (Link × Pdu) :=
  match pduSend.data with
  | .bytes data => do
    let link ← transact o link data pduSend.dataBytes
    let pduReceive ← readExactlyFromKernel link.nlhUserReceive
    some (link, pduReceive)
  | _ => none

/-- `init_hashtable` on a fresh module, up to the loading of stored values. -/
def initHashtable (o : Outcomes) : Option Link := do
  let data ← memcpy (calloc HEADERSIZE) 0 [INIT] 1
  transact o ⟨⟨none⟩, .zeroed, .zeroed⟩ data HEADERSIZE

/-- The payload after a request of `n` bytes was copied into it. -/
def Payload.overlay (payload : Payload) (own : Bytes) (fits : own.length ≤ MAX_PAYLOAD) : Payload :=
  ⟨own ++ payload.1.drop own.length, by
    rw [List.length_append, List.length_drop, payload.2]
    omega⟩

theorem Payload.memcpy_eq (payload : Payload) {own : Bytes} (rest : Bytes)
    (fits : own.length ≤ MAX_PAYLOAD) :
    payload.memcpy (own ++ rest) own.length = some (payload.overlay own fits) := by
  have copied : Memory.memcpy payload.1 0 (own ++ rest) own.length =
      some (own ++ payload.1.drop own.length) := by
    rw [memcpy_front (by simp) (by rw [payload.2]; exact fits), List.take_left]
  rw [Payload.memcpy]
  split
  · rename_i bytes again
    obtain rfl := Option.some.inj (again.symm.trans copied)
    rfl
  · rename_i none
    cases none.symm.trans copied

/-- A copy into the payload reads within the source, writes within the payload, and keeps what lies behind. -/
theorem Payload.memcpy_some {payload payload' : Payload} {src : Bytes} {n : ℕ}
    (copied : payload.memcpy src n = some payload') :
    n ≤ src.length ∧ n ≤ MAX_PAYLOAD ∧ payload'.1 = src.take n ++ payload.1.drop n := by
  rw [Payload.memcpy] at copied
  split at copied
  · rename_i bytes written
    cases copied
    simp only [Memory.memcpy, Option.ite_none_right_eq_some, Option.some.injEq, payload.2, Nat.zero_add,
      List.take_zero, List.nil_append] at written
    exact ⟨written.1.1, written.1.2, written.2.symm⟩
  · cases copied

/-- An answer that fits the receive payload is read back whole. -/
theorem readExactlyFromKernel_eq (payload : Payload) (unwritten : Byte) {content : Bytes}
    (short : content.length + HEADERSIZE ≤ MAX_PAYLOAD) :
    readExactlyFromKernel (payload.recvmsg (answerFrame unwritten content)) =
      some ⟨KERNEL, content.length + HEADERSIZE, .bytes (answerFrame unwritten content)⟩ := by
  have size := answerFrame_length unwritten content
  have landed : (payload.recvmsg (answerFrame unwritten content)).1 =
      answerFrame unwritten content ++ payload.1.drop (content.length + HEADERSIZE) := by
    change (answerFrame unwritten content).take MAX_PAYLOAD ++ _ = _
    rw [List.take_of_length_le (size.trans_le short), size]
  have small : content.length < 65536 := by
    simp only [MAX_PAYLOAD, HEADERSIZE] at short
    omega
  have length : read16 (payload.recvmsg (answerFrame unwritten content)).1 1 = some content.length := by
    rw [landed]
    simp [answerFrame, read16, le16_bytes, u16_of_lt small]
  have copied : Memory.memcpy (calloc (content.length + HEADERSIZE)) 0
      (payload.recvmsg (answerFrame unwritten content)).1 (content.length + HEADERSIZE) =
        some (answerFrame unwritten content) := by
    rw [landed, memcpy_front (by simp [size]) (by simp), ← size, List.take_left]
    simp [size, calloc]
  have kept : u16 (content.length + HEADERSIZE) = content.length + HEADERSIZE := by
    apply u16_of_lt
    simp only [MAX_PAYLOAD, HEADERSIZE] at short ⊢
    omega
  simp only [readExactlyFromKernel, length, copied, kept, Option.bind_eq_bind, Option.bind_some]

section Exchange

variable {o : Outcomes} {link : Link} {own content : Bytes} {kernel : KernelState}

/-- A transaction in which the kernel responds: the payload keeps the tail of the requests before. -/
theorem transact_eq (rest : Bytes) (fits : own.length ≤ MAX_PAYLOAD) (buffer : o.buffer = true)
    (skb : o.skb = true)
    (responded : readExactlyFromUser o link.kernel (link.nlhUserSend.overlay own fits).1 =
      some (kernel, some ⟨KERNEL, content.length, .bytes content⟩)) :
    transact o link (own ++ rest) own.length =
      some ⟨kernel, link.nlhUserSend.overlay own fits,
        link.nlhUserReceive.recvmsg (answerFrame o.unwritten content)⟩ := by
  simp only [transact, Payload.memcpy_eq _ rest fits, workHandler_eq buffer skb responded,
    Option.bind_eq_bind, Option.bind_some]

/-- An exchange in which the kernel responds: the response arrives behind its header. -/
theorem exchange_eq {opCode : Byte} (rest : Bytes) (fits : own.length ≤ MAX_PAYLOAD)
    (buffer : o.buffer = true) (skb : o.skb = true)
    (short : content.length + HEADERSIZE ≤ MAX_PAYLOAD)
    (responded : readExactlyFromUser o link.kernel (link.nlhUserSend.overlay own fits).1 =
      some (kernel, some ⟨KERNEL, content.length, .bytes content⟩)) :
    exchange o link ⟨opCode, own.length, .bytes (own ++ rest)⟩ =
      some (⟨kernel, link.nlhUserSend.overlay own fits,
          link.nlhUserReceive.recvmsg (answerFrame o.unwritten content)⟩,
        ⟨KERNEL, content.length + HEADERSIZE, .bytes (answerFrame o.unwritten content)⟩) := by
  simp only [exchange, transact_eq rest fits buffer skb responded, readExactlyFromKernel_eq _ _ short,
    Option.bind_eq_bind, Option.bind_some]

end Exchange

/-- The first INIT request makes an empty table, whatever the payloads hold. -/
private theorem transact_init (unwritten : Byte) (nlhUserSend nlhUserReceive : Payload)
    (fits : [INIT, 0, 0, 0].length ≤ MAX_PAYLOAD) :
    transact (.smooth unwritten) ⟨⟨none⟩, nlhUserSend, nlhUserReceive⟩ [INIT, 0, 0, 0] HEADERSIZE =
      some ⟨⟨some ∅⟩, nlhUserSend.overlay [INIT, 0, 0, 0] fits,
        nlhUserReceive.recvmsg (answerFrame unwritten (answerText "Initialized hashtable."))⟩ := by
  have head : (nlhUserSend.overlay [INIT, 0, 0, 0] fits).1.head? = some INIT := rfl
  have handled : switchOpCode (.smooth unwritten) ⟨none⟩ INIT
      (nlhUserSend.overlay [INIT, 0, 0, 0] fits).1 =
        some (⟨some ∅⟩, literalPdu "Initialized hashtable.") := by
    simp [switchOpCode, readInitStruct, Outcomes.smooth,
      literal_eq (show 0 ∉ ascii "Initialized hashtable." by decide) (by decide)]
  have responded := readExactlyFromUser_of rfl head handled
  exact @transact_eq (.smooth unwritten) ⟨⟨none⟩, nlhUserSend, nlhUserReceive⟩
    [INIT, 0, 0, 0] (answerText "Initialized hashtable.") ⟨some ∅⟩ [] fits rfl rfl responded

/-- The link that `init_hashtable` leaves: an empty table and cleared payloads behind the messages. -/
def initialLink (unwritten : Byte) : Link :=
  ⟨⟨some ∅⟩, Payload.zeroed.overlay [INIT, 0, 0, 0] (by decide),
    Payload.zeroed.recvmsg (answerFrame unwritten (answerText "Initialized hashtable."))⟩

theorem initHashtable_eq (unwritten : Byte) :
    initHashtable (.smooth unwritten) = some (initialLink unwritten) := by
  have header : memcpy (calloc HEADERSIZE) 0 [INIT] 1 = some [INIT, 0, 0, 0] := rfl
  simp only [initHashtable, header, Option.bind_eq_bind, Option.bind_some]
  exact transact_init unwritten .zeroed .zeroed (by decide)

end Operativsystem.User
