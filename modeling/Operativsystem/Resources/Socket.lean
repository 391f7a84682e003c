import Operativsystem.Resources.PduUser

/-! # Receiving PDUs from a stream socket

A connection holds the bytes that have been sent and not yet consumed, and a script of how the
next `recv` calls behave: each delivers at least one pending byte or fails. A call beyond the end
of the script delivers all it is asked for. The read loops store the result of `recv` in a
`size_t`, so a failure counts as a full read, and each call of a loop writes to the start of the
buffer. A loop that can never end is `none`.
-/

namespace Operativsystem.Resources

open Memory

/-- How one `recv` behaves: it delivers at most `limit + 1` bytes, or returns -1. -/
inductive RecvChoice where
  | deliver (limit : ℕ)
  | fail
deriving DecidableEq, Repr

structure Connection where
  pending : Bytes
  script : List RecvChoice
deriving DecidableEq, Repr

/-- What `receive_pdu` returns: a PDU, the sentinel -100 or NULL. -/
inductive Received where
  | pdu (value : Pdu)
  | endOfStream
  | null
deriving DecidableEq, Repr

/-- The bytes that remain pending after `count` bytes were delivered. -/
def remaining (peek : Bool) (count : ℕ) (pending : Bytes) : Bytes :=
  if peek then pending else pending.drop count

/-- `while (nread < asked) nread = recv(sock, buffer, asked, flags)`, once it has been entered. -/
def readLoop (asked : ℕ) (peek : Bool) : List RecvChoice → Bytes → Bytes → Option (Bytes × Connection)
  | [], pending, buffer =>
    if asked ≤ pending.length then
      some (pending.take asked ++ buffer.drop asked, ⟨remaining peek asked pending, []⟩)
    else none -- fewer bytes than asked for, on every further call
  | .fail :: script, pending, buffer => some (buffer, ⟨pending, script⟩)
  | .deliver limit :: script, pending, buffer =>
    let got := pending.take (min asked (limit + 1))
    let buffer := got ++ buffer.drop got.length
    let pending := remaining peek got.length pending
    if got.length < asked then readLoop asked peek script pending buffer
    else some (buffer, ⟨pending, script⟩)

/-- A read loop that starts with `nread = 0`. -/
def readInto (asked : ℕ) (peek : Bool) (buffer : Bytes) (conn : Connection) :
    Option (Bytes × Connection) :=
  if asked = 0 then some (buffer, conn) else readLoop asked peek conn.script conn.pending buffer

/-- `read_QUIT`: only the socket number is kept. -/
def readQuit (sock : ℕ) (conn : Connection) : Option (Pdu × Connection) := do
  let (_, conn) ← readInto HEADERSIZE false (calloc HEADERSIZE) conn
  some (⟨QUIT, 0, .quit (u16 sock)⟩, conn)

def readJoin (conn : Connection) : Option (Pdu × Connection) := do
  let (header, conn) ← readInto HEADERSIZE false (calloc HEADERSIZE) conn
  let nameLen ← read16 header 1
  let (clientId, conn) ← readInto nameLen false (calloc (nameLen + 1)) conn
  some (⟨JOIN, nameLen, .join nameLen clientId⟩, conn)

/-- `read_KERNEL`: the payload, in a buffer that is longer by the size of a pointer. -/
def readKernel (conn : Connection) : Option (Pdu × Connection) := do
  let (header, conn) ← readInto HEADERSIZE false (calloc HEADERSIZE) conn
  let msgSize ← read16 header 1
  let (data, conn) ← readInto msgSize false (calloc (msgSize + 8)) conn
  some (⟨KERNEL, msgSize, .bytes data⟩, conn)

def readInit (conn : Connection) : Option (Pdu × Connection) := do
  let (header, conn) ← readInto HEADERSIZE false (calloc HEADERSIZE) conn
  let data ← memcpy (calloc HEADERSIZE) 0 header HEADERSIZE
  some (⟨INIT, HEADERSIZE, .bytes data⟩, conn)

/-- `read_INSERT`: peek at the header for the length, then read the whole frame. -/
def readInsert (conn : Connection) : Option (Pdu × Connection) := do
  let (header, conn) ← readInto HEADERSIZE true (calloc HEADERSIZE) conn
  let messLen ← read16 header 1
  let dataBytes := u16 (messLen + HEADERSIZE + KEY_SIZE)
  let (pdu, conn) ← readInto dataBytes false (calloc dataBytes) conn
  some (⟨INSERT, dataBytes, .bytes pdu⟩, conn)

/-- The common text of `read_GET` and `read_DELETE`. -/
def readKeyRequest (opCode : Byte) (conn : Connection) : Option (Pdu × Connection) := do
  let dataBytes := HEADERSIZE + KEY_SIZE
  let (pdu, conn) ← readInto dataBytes false (calloc dataBytes) conn
  some (⟨opCode, dataBytes, .bytes pdu⟩, conn)

def readGet (conn : Connection) : Option (Pdu × Connection) := readKeyRequest GET conn

def readDelete (conn : Connection) : Option (Pdu × Connection) := readKeyRequest DELETE conn

def received (result : Option (Pdu × Connection)) : Option (Received × Connection) :=
  result.map fun (pdu, conn) => (.pdu pdu, conn)

def readExactly (sock : ℕ) (opCode : Byte) (conn : Connection) : Option (Received × Connection) :=
  if opCode = INIT then received (readInit conn)
  else if opCode = INSERT then received (readInsert conn)
  else if opCode = GET then received (readGet conn)
  else if opCode = DELETE then received (readDelete conn)
  else if opCode = KERNEL then received (readKernel conn)
  else if opCode = JOIN then received (readJoin conn)
  else if opCode = QUIT then received (readQuit sock conn)
  else some (.null, conn)

/-- The peeking loop of `receive_pdu`: the opcode, or what the function returns at once. -/
def peekOpCode : List RecvChoice → Bytes → Option ((Byte ⊕ Received) × Connection)
  | script, [] =>
    match script with
    | .fail :: script => some (.inr .null, ⟨[], script⟩)
    | script => some (.inr .endOfStream, ⟨[], script.tail⟩)
  | [], b :: pending =>
    if HEADERSIZE ≤ (b :: pending).length then some (.inl b, ⟨b :: pending, []⟩) else none
  | .fail :: script, b :: pending => some (.inr .null, ⟨b :: pending, script⟩)
  | .deliver limit :: script, b :: pending =>
    if min (limit + 1) (b :: pending).length < HEADERSIZE then peekOpCode script (b :: pending)
    else some (.inl b, ⟨b :: pending, script⟩)

def receivePdu (sock : ℕ) (conn : Connection) : Option (Received × Connection) := do
  let (peeked, conn) ← peekOpCode conn.script conn.pending
  match peeked with
  | .inl opCode => readExactly sock opCode conn
  | .inr result => some (result, conn)

/-- Successive calls of `receive_pdu` on one connection. -/
def receiveMany (sock : ℕ) : ℕ → Connection → Option (List Received × Connection)
  | 0, conn => some ([], conn)
  | calls + 1, conn => do
    let (result, conn) ← receivePdu sock conn
    let (results, conn) ← receiveMany sock calls conn
    some (result :: results, conn)

theorem readLoop_length {asked : ℕ} {peek : Bool} {script : List RecvChoice}
    {pending buffer out : Bytes} {next : Connection} (room : asked ≤ buffer.length)
    (ran : readLoop asked peek script pending buffer = some (out, next)) :
    out.length = buffer.length := by
  induction script generalizing pending buffer with
  | nil =>
    simp only [readLoop, Option.ite_none_right_eq_some, Option.some.injEq] at ran
    obtain ⟨enough, same⟩ := ran
    obtain ⟨rfl, -⟩ := Prod.mk.inj same
    simp only [List.length_append, List.length_take, List.length_drop]
    omega
  | cons choice script ih =>
    cases choice with
    | fail => rw [(Prod.mk.inj (Option.some.inj ran)).1]
    | deliver limit =>
      have kept : (pending.take (min asked (limit + 1)) ++
          buffer.drop (pending.take (min asked (limit + 1))).length).length = buffer.length := by
        simp only [List.length_append, List.length_take, List.length_drop]
        omega
      simp only [readLoop] at ran
      split at ran
      · exact (ih (by omega) ran).trans kept
      · rw [← (Prod.mk.inj (Option.some.inj ran)).1, kept]

theorem readInto_length {asked : ℕ} {peek : Bool} {buffer out : Bytes} {conn next : Connection}
    (room : asked ≤ buffer.length) (ran : readInto asked peek buffer conn = some (out, next)) :
    out.length = buffer.length := by
  rw [readInto] at ran
  split at ran
  · rw [(Prod.mk.inj (Option.some.inj ran)).1]
  · exact readLoop_length room ran

/-- Which reader answered. -/
theorem readExactly_cases {sock : ℕ} {opCode : Byte} {conn next : Connection} {result : Received}
    (ran : readExactly sock opCode conn = some (result, next)) :
    result = .null ∧ next = conn ∨ ∃ pdu, result = .pdu pdu ∧
      (readInit conn = some (pdu, next) ∨ readInsert conn = some (pdu, next) ∨
        readGet conn = some (pdu, next) ∨ readDelete conn = some (pdu, next) ∨
        readKernel conn = some (pdu, next) ∨ readJoin conn = some (pdu, next) ∨
        readQuit sock conn = some (pdu, next)) := by
  have unpack {answer : Option (Pdu × Connection)} (ran : received answer = some (result, next)) :
      ∃ pdu, result = .pdu pdu ∧ answer = some (pdu, next) := by
    obtain ⟨⟨pdu, last⟩, answered, same⟩ := Option.map_eq_some_iff.mp ran
    obtain ⟨rfl, rfl⟩ := Prod.mk.inj same
    exact ⟨pdu, rfl, answered⟩
  rw [readExactly] at ran
  by_cases valid : opCode ∈ [INIT, INSERT, GET, DELETE, KERNEL, JOIN, QUIT]
  · right
    split_ifs at ran <;> first
      | (obtain ⟨pdu, rfl, answered⟩ := unpack ran
         exact ⟨pdu, rfl, by simp [answered]⟩)
      | simp_all
  · simp only [List.mem_cons, List.not_mem_nil, or_false, not_or] at valid
    simp only [valid, if_false, Option.some.injEq, Prod.mk.injEq] at ran
    exact Or.inl ⟨ran.1.symm, ran.2.symm⟩

/-- The peeking loop returns no PDU itself. -/
theorem peekOpCode_not_pdu {script : List RecvChoice} {pending : Bytes} {result : Received}
    {next : Connection} (ran : peekOpCode script pending = some (.inr result, next)) (pdu : Pdu) :
    result ≠ .pdu pdu := by
  induction script with
  | nil =>
    cases pending <;> simp [peekOpCode] at ran
    simp [← ran.1]
  | cons choice script ih =>
    cases pending with
    | nil => cases choice <;> simp [peekOpCode] at ran <;> simp [← ran.1]
    | cons b pending =>
      cases choice with
      | fail =>
        simp only [peekOpCode, Option.some.injEq, Prod.mk.injEq, Sum.inr.injEq] at ran
        simp [← ran.1]
      | deliver limit =>
        rw [peekOpCode] at ran
        split at ran
        · exact ih ran
        · simp at ran

/-- A PDU comes from one of the readers. -/
theorem receivePdu_pdu {sock : ℕ} {conn next : Connection} {pdu : Pdu}
    (ran : receivePdu sock conn = some (.pdu pdu, next)) :
    ∃ opCode mid, readExactly sock opCode mid = some (.pdu pdu, next) := by
  simp only [receivePdu, Option.bind_eq_bind, Option.bind_eq_some_iff] at ran
  obtain ⟨⟨opCode | result, mid⟩, peek, read⟩ := ran
  · exact ⟨opCode, mid, read⟩
  · exact absurd (Prod.mk.inj (Option.some.inj read)).1 (peekOpCode_not_pdu peek pdu)

end Operativsystem.Resources
