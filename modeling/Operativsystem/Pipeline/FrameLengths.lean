import Operativsystem.Client.Requests
import Operativsystem.Resources.Streams
import Operativsystem.Store.Restart

/-! # The lengths of frames

`data_bytes` has sixteen bits and is to hold the length of a value together with what stands in front of it.
The client, the reader of the server, the loader and the reader of the kernel's messages add these up in an
`int` and store the sum in `data_bytes`; only `create_INSERT_buffer` keeps it in a `size_t`. A value that is
so long that the sum does not fit wraps around on both ends of the connection.
-/

namespace Operativsystem.Pipeline

open Memory Resources Kernel User Client Store

/-- `read_exactly_from_kernel` on a message buffer of any size. -/
def readMessage (mem : Bytes) : Option Pdu := do
  let msgSize ← read16 mem 1
  let data ← memcpy (calloc (msgSize + HEADERSIZE)) 0 mem (msgSize + HEADERSIZE)
  some ⟨KERNEL, u16 (msgSize + HEADERSIZE), .bytes data⟩

theorem readExactlyFromKernel_message (payload : Payload) :
    readExactlyFromKernel payload = readMessage payload.1 := rfl

/-- An INSERT frame with a value of `n` bytes. -/
structure InsertBytes (n : ℕ) where
  pad : Byte
  key : Bytes
  value : Bytes
  field : key.length = KEY_SIZE
  length : value.length = n

def InsertBytes.encode {n : ℕ} (frame : InsertBytes n) : Bytes :=
  INSERT :: lowByte n :: highByte n :: frame.pad :: frame.key ++ frame.value

/-- The PDU announces all of its data: the value and what stands in front of it. -/
def Announces (n : ℕ) (pdu : Pdu) : Prop :=
  pdu.dataBytes = n + HEADERSIZE + KEY_SIZE ∧
    ∃ frame, pdu.data = .bytes frame ∧ frame.length = n + HEADERSIZE + KEY_SIZE ∧ sendPdu pdu = some frame

/-- The client announces its frame, and `send_pdu` sends all of it. -/
def ClientSends (n : ℕ) : Prop :=
  ∀ key data1 pdu, createInsertToServer key data1 n = some pdu → Announces n pdu

/-- The loader announces the frame of a line. -/
def LoaderSends (n : ℕ) : Prop :=
  ∀ line insertStruct pdu, loadStruct line = some insertStruct → insertStruct.dataBytes = n →
    loadPdu line = some (some pdu) → Announces n pdu

/-- The reader of the server consumes the frame, where no `recv` fails and none is cut short; and the value
that is copied later lies inside the data. -/
def ServerReads (n : ℕ) : Prop :=
  ∀ (frame : InsertBytes n) (rest : Bytes) script middle script', peekFull script = some middle →
    takeFull (n + HEADERSIZE + KEY_SIZE) middle = some script' → ∃ data,
      readInsert ⟨frame.encode ++ rest, script⟩ =
        some (⟨INSERT, n + HEADERSIZE + KEY_SIZE, .bytes data⟩, ⟨rest, script'⟩) ∧
      memcpy (calloc n) 0 (data.drop (HEADERSIZE + KEY_SIZE)) n = some frame.value

/-- The PDU of a message of the kernel announces the message and its header. -/
def KernelAnswers (m : ℕ) : Prop :=
  ∀ mem pdu, read16 mem 1 = some m → readMessage mem = some pdu → pdu.dataBytes = m + HEADERSIZE

section Lengths

variable {n m : ℕ}

theorem u16_eq_iff {total : ℕ} : u16 total = total ↔ total < 65536 :=
  ⟨fun same => same ▸ u16_lt total, u16_of_lt⟩

theorem createInsertBuffer_length {s : InsertStruct} {buffer : Bytes}
    (built : createInsertBuffer s = some buffer) :
    buffer.length = s.dataBytes + HEADERSIZE + KEY_SIZE := by
  simp only [createInsertBuffer, Option.bind_eq_bind, Option.bind_eq_some_iff] at built
  obtain ⟨first, opCode, second, length, _, -, third, key, value⟩ := built
  rw [memcpy_length value, memcpy_length key, memcpy_length length, memcpy_length opCode, calloc_length]

/-- A PDU with an INSERT buffer announces it exactly if its length fits. -/
theorem announces_iff {s : InsertStruct} {buffer : Bytes} (built : createInsertBuffer s = some buffer) :
    Announces s.dataBytes ⟨USER, u16 (s.dataBytes + HEADERSIZE + KEY_SIZE), .bytes buffer⟩ ↔
      s.dataBytes + HEADERSIZE + KEY_SIZE < 65536 := by
  have length := createInsertBuffer_length built
  constructor
  · exact fun announces => u16_eq_iff.mp announces.1
  · intro fits
    refine ⟨u16_of_lt fits, buffer, rfl, length, ?_⟩
    simp [sendPdu, u16_of_lt fits, length]

/-- The PDU of the client is made of an INSERT buffer. -/
theorem createInsertToServer_cases {key data1 : Bytes} {pdu : Pdu}
    (built : createInsertToServer key data1 n = some pdu) : ∃ s buffer, s.dataBytes = n ∧
      createInsertBuffer s = some buffer ∧ pdu = ⟨USER, u16 (n + HEADERSIZE + KEY_SIZE), .bytes buffer⟩ := by
  simp only [createInsertToServer, Option.bind_eq_bind, Option.bind_eq_some_iff, Option.some.injEq] at built
  obtain ⟨keyMember, -, data, -, action, filled, rfl⟩ := built
  exact ⟨_, action, rfl, filled, rfl⟩

theorem clientSends_iff : ClientSends n ↔ n + HEADERSIZE + KEY_SIZE < 65536 := by
  constructor
  · intro sends
    have sent := @createInsertToServer_eq [] ⟨calloc 63, by decide⟩ (by simp) (by decide) (calloc n) []
    rw [calloc_length] at sent
    exact u16_eq_iff.mp (sends _ _ _ sent).1
  · intro fits key data1 pdu built
    obtain ⟨s, buffer, rfl, filled, rfl⟩ := createInsertToServer_cases built
    exact (announces_iff filled).mpr fits

/-- The PDU of a line is made of the buffer of its structure. -/
theorem loadPdu_cases {line : Bytes} {s : InsertStruct} {pdu : Pdu} (struct : loadStruct line = some s)
    (loaded : loadPdu line = some (some pdu)) : ∃ buffer, createInsertBuffer s = some buffer ∧
      pdu = ⟨USER, u16 (s.dataBytes + HEADERSIZE + KEY_SIZE), .bytes buffer⟩ := by
  simp only [loadPdu, struct, Option.bind_eq_bind, Option.bind_some] at loaded
  split_ifs at loaded
  · obtain ⟨buffer, filled, same⟩ := Option.bind_eq_some_iff.mp loaded
    cases same
    exact ⟨buffer, filled, rfl⟩
  · cases loaded

/-- A line whose value takes `n + 1` bytes with its terminator. -/
def lineOf (n : ℕ) : Bytes := [107] ++ colon :: List.replicate n 97

theorem valueLength_lineOf (n : ℕ) : colon ∈ cstr (lineOf (n + 1) ++ [0]) ∧
    valueLength (lineOf (n + 1)) = u16 (n + 1 + 1) := by
  have whole : colon ∉ List.replicate (n + 1) (97 : Byte) := fun member =>
    absurd (List.eq_of_mem_replicate member) (by decide)
  have clean : 0 ∉ lineOf (n + 1) := by
    simp only [lineOf, List.singleton_append, List.mem_cons, not_or]
    exact ⟨by decide, by decide, fun member => absurd (List.eq_of_mem_replicate member) (by decide)⟩
  have second : valueField (lineOf (n + 1)) = List.replicate (n + 1) 97 := by
    rw [valueField, cstr_text clean, lineOf, (firstField_append (by decide) (by decide) _).2,
      firstField_whole whole]
  refine ⟨?_, ?_⟩
  · rw [cstr_text clean]
    simp [lineOf]
  · rw [valueLength, second, if_neg (by simp), List.length_replicate]

theorem loaderSends_iff (hn : n < 65536) : LoaderSends n ↔ n + HEADERSIZE + KEY_SIZE < 65536 := by
  constructor
  · intro sends
    rcases Nat.lt_or_ge n 2 with small | large
    · simp only [HEADERSIZE, KEY_SIZE]
      omega
    · obtain ⟨k, rfl⟩ : ∃ k, n = k + 1 + 1 := ⟨n - 2, by omega⟩
      obtain ⟨matched, length⟩ := valueLength_lineOf k
      rw [u16_of_lt hn] at length
      have loaded := loadPdu_eq (lineOf (k + 1))
      rw [if_pos matched, loadedValue_length, length] at loaded
      exact u16_eq_iff.mp (sends _ _ _ (loadStruct_eq (lineOf (k + 1))) length loaded).1
  · rintro fits line s pdu struct rfl loaded
    obtain ⟨buffer, filled, rfl⟩ := loadPdu_cases struct loaded
    exact (announces_iff filled).mpr fits

/-- What the server makes of an uncut frame has the wrapped length. -/
theorem readInsert_dataBytes {lo hi pad : Byte} {body : Bytes} {pdu : Pdu} {next : Connection}
    (ran : readInsert ⟨INSERT :: lo :: hi :: pad :: body, []⟩ = some (pdu, next)) :
    pdu.dataBytes = u16 (le16 lo hi + HEADERSIZE + KEY_SIZE) := by
  simp only [readInsert, readInto_header, header_read, Option.bind_eq_bind, Option.bind_some,
    Option.bind_eq_some_iff, if_true] at ran
  obtain ⟨⟨data, last⟩, -, same⟩ := ran
  cases same
  rfl

theorem serverReads_iff (hn : n < 65536) : ServerReads n ↔ n + HEADERSIZE + KEY_SIZE < 65536 := by
  have size : le16 (lowByte n) (highByte n) = n := by rw [le16_bytes, u16_of_lt hn]
  constructor
  · intro reads
    obtain ⟨data, ran, -⟩ := reads ⟨0, calloc KEY_SIZE, calloc n, calloc_length _, calloc_length _⟩ [] [] [] []
      rfl (by simp [takeFull])
    have announced := readInsert_dataBytes ran
    rw [size] at announced
    exact u16_eq_iff.mp announced.symm
  · intro fits frame rest script middle script' peeked full
    have width : frame.encode.length = n + HEADERSIZE + KEY_SIZE := by
      simp only [InsertBytes.encode, List.length_cons, List.length_append, frame.field, frame.length, HEADERSIZE]
      omega
    have read := @readInsert_frame script middle script' frame.encode rest frame.pad
      (frame.key ++ frame.value) n peeked full fits rfl width
    rw [width] at read
    refine ⟨frame.encode, read, ?_⟩
    have body : frame.encode.drop (HEADERSIZE + KEY_SIZE) = frame.value := by
      have front : (INSERT :: lowByte n :: highByte n :: frame.pad :: frame.key).length =
          HEADERSIZE + KEY_SIZE := by
        simp only [List.length_cons, frame.field]
        rfl
      rw [InsertBytes.encode, ← front, List.drop_left]
    rw [body, memcpy_front frame.length.ge (by simp), List.take_of_length_le frame.length.le]
    simp [calloc]

theorem kernelAnswers_iff (hm : m < 65536) : KernelAnswers m ↔ m + HEADERSIZE < 65536 := by
  constructor
  · intro answers
    have size : read16 (answerFrame 0 (calloc m)) 1 = some m := by
      rw [answerFrame, calloc_length]
      exact (read16_word rfl).trans (by rw [le16_bytes, u16_of_lt hm])
    have available : m + HEADERSIZE ≤ (answerFrame 0 (calloc m)).length := by
      rw [answerFrame_length, calloc_length]
    have copied := memcpy_front available (calloc_length (m + HEADERSIZE)).ge
    have read : readMessage (answerFrame 0 (calloc m)) =
        some ⟨KERNEL, u16 (m + HEADERSIZE), .bytes ((answerFrame 0 (calloc m)).take (m + HEADERSIZE) ++
          (calloc (m + HEADERSIZE)).drop (m + HEADERSIZE))⟩ := by
      simp only [readMessage, size, copied, Option.bind_eq_bind, Option.bind_some]
    exact u16_eq_iff.mp (answers _ _ size read)
  · intro fits mem pdu size read
    simp only [readMessage, size, Option.bind_eq_bind, Option.bind_some, Option.bind_eq_some_iff] at read
    obtain ⟨data, -, same⟩ := read
    cases same
    exact u16_of_lt fits

end Lengths

/-- For every value length and every message size, the lengths are right exactly if both sums fit sixteen bits. -/
theorem lengths_unwrapped (n m : ℕ) (hn : n < 65536) (hm : m < 65536) :
    (ClientSends n ∧ ServerReads n ∧ LoaderSends n ∧ KernelAnswers m) ↔
      n + HEADERSIZE + KEY_SIZE < 65536 ∧ m + HEADERSIZE < 65536 := by
  rw [clientSends_iff, serverReads_iff hn, loaderSends_iff hn, kernelAnswers_iff hm]
  tauto

theorem lengths_unwrapped_small :
    ClientSends 956 ∧ ServerReads 956 ∧ LoaderSends 956 ∧ KernelAnswers 1020 :=
  (lengths_unwrapped 956 1020 (by decide) (by decide)).mpr ⟨by decide, by decide⟩

/-- A value of 65468 bytes: the client sends nothing of its frame, the server takes nothing of it, and the loader
announces nothing; and a message of 65532 bytes is announced as empty. -/
theorem lengths_wrapped :
    ¬ClientSends 65468 ∧ ¬ServerReads 65468 ∧ ¬LoaderSends 65468 ∧ ¬KernelAnswers 65532 ∧
      createInsertToServer (calloc 64) (calloc 65468) 65468 =
        some ⟨USER, 0, .bytes (insertFrame [] (calloc 65468))⟩ := by
  refine ⟨?_, ?_, ?_, ?_, ?_⟩
  · rw [clientSends_iff]
    decide
  · rw [serverReads_iff (by decide)]
    decide
  · rw [loaderSends_iff (by decide)]
    decide
  · rw [kernelAnswers_iff (by decide)]
    decide
  · have sent := @createInsertToServer_eq [] ⟨calloc 63, by decide⟩ (by simp) (by decide) (calloc 65468) []
    rw [calloc_length, List.append_nil] at sent
    exact sent

end Operativsystem.Pipeline
