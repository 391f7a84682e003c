import Operativsystem.Resources.Frames

/-! # The readers as two loops

Every reader runs one `recv` loop for what it asks for first and, if that announces more, a second one. A
`Reader` holds what distinguishes them, so that a fact about all of them is proved once.
-/

namespace Operativsystem.Resources

open Memory

/-- The length in a header. -/
def announced (header : Bytes) : ℕ := (read16 header 1).getD 0

/-- The bytes that are asked for first, whether they are only peeked at, the bytes that are asked for then, the
bytes that the second buffer has to spare, and the PDU of the two buffers. -/
structure Reader where
  asked : ℕ
  peek : Bool
  body : Bytes → ℕ
  spare : ℕ
  pdu : ℕ → Bytes → Bytes → Pdu

/-- A reader, with a way to run its loops. -/
def Reader.run (loop : ℕ → Bool → Bytes → Connection → Option (Bytes × Connection)) (r : Reader) (sock : ℕ)
    (conn : Connection) : Option (Pdu × Connection) := do
  let (header, conn) ← loop r.asked r.peek (calloc r.asked) conn
  let (body, conn) ← loop (r.body header) false (calloc (r.body header + r.spare)) conn
  some (r.pdu sock header body, conn)

def initReader : Reader := ⟨HEADERSIZE, false, fun _ => 0, 0, fun _ header _ => ⟨INIT, HEADERSIZE, .bytes header⟩⟩

def insertReader : Reader :=
  ⟨HEADERSIZE, true, fun header => u16 (announced header + HEADERSIZE + KEY_SIZE), 0,
    fun _ header body => ⟨INSERT, u16 (announced header + HEADERSIZE + KEY_SIZE), .bytes body⟩⟩

def keyReader (opCode : Byte) : Reader :=
  ⟨HEADERSIZE + KEY_SIZE, false, fun _ => 0, 0, fun _ pdu _ => ⟨opCode, HEADERSIZE + KEY_SIZE, .bytes pdu⟩⟩

def kernelReader : Reader :=
  ⟨HEADERSIZE, false, announced, 8, fun _ header body => ⟨KERNEL, announced header, .bytes body⟩⟩

def joinReader : Reader :=
  ⟨HEADERSIZE, false, announced, 1, fun _ header body => ⟨JOIN, announced header, .join (announced header) body⟩⟩

def quitReader : Reader := ⟨HEADERSIZE, false, fun _ => 0, 0, fun sock _ _ => ⟨QUIT, 0, .quit (u16 sock)⟩⟩

/-- The `switch` of `read_exactly`. -/
def readerOf (opCode : Byte) : Option Reader :=
  if opCode = INIT then some initReader
  else if opCode = INSERT then some insertReader
  else if opCode = GET then some (keyReader GET)
  else if opCode = DELETE then some (keyReader DELETE)
  else if opCode = KERNEL then some kernelReader
  else if opCode = JOIN then some joinReader
  else if opCode = QUIT then some quitReader
  else none

section Runs

variable {sock : ℕ} {conn next : Connection} {opCode : Byte} {r : Reader}

theorem read16_announced {header : Bytes} (width : header.length = HEADERSIZE) :
    read16 header 1 = some (announced header) := by
  obtain ⟨lo, hi, tail, word⟩ := @exists_word header 1 (by rw [width]; decide)
  rw [announced, read16_word word]
  rfl

theorem readInto_zero (peek : Bool) (buffer : Bytes) (conn : Connection) :
    readInto 0 peek buffer conn = some (buffer, conn) := if_pos rfl

theorem readInto_header_length {peek : Bool} {header : Bytes}
    (ran : readInto HEADERSIZE peek (calloc HEADERSIZE) conn = some (header, next)) :
    header.length = HEADERSIZE := (readInto_length (by simp) ran).trans (calloc_length _)

/-- A reader whose first loop reads a header. -/
theorem run_header {peek : Bool} {body : Bytes → ℕ} {spare : ℕ} {pdu : ℕ → Bytes → Bytes → Pdu}
    {answer : Bytes × Connection → Option (Pdu × Connection)}
    (same : ∀ header conn, header.length = HEADERSIZE → answer (header, conn) =
      (readInto (body header) false (calloc (body header + spare)) conn).bind
        fun result => some (pdu sock header result.1, result.2)) :
    (readInto HEADERSIZE peek (calloc HEADERSIZE) conn).bind answer =
      Reader.run readInto ⟨HEADERSIZE, peek, body, spare, pdu⟩ sock conn := by
  rw [Reader.run]
  cases ran : readInto HEADERSIZE peek (calloc HEADERSIZE) conn with
  | none => rfl
  | some result => exact same result.1 result.2 (readInto_header_length ran)

theorem readInit_run (sock : ℕ) (conn : Connection) : readInit conn = initReader.run readInto sock conn := by
  refine run_header fun header conn width => ?_
  have copied : memcpy (calloc HEADERSIZE) 0 header HEADERSIZE = some header := by
    rw [memcpy_front width.ge (by simp), List.take_of_length_le width.le]
    simp [calloc]
  simp only [copied, readInto_zero, Option.bind_eq_bind, Option.bind_some]

theorem readInsert_run (sock : ℕ) (conn : Connection) :
    readInsert conn = insertReader.run readInto sock conn := by
  refine run_header fun header conn width => ?_
  simp only [read16_announced width, Option.bind_eq_bind, Option.bind_some]
  rfl

theorem readKeyRequest_run (opCode : Byte) (sock : ℕ) (conn : Connection) :
    readKeyRequest opCode conn = (keyReader opCode).run readInto sock conn := by
  rw [readKeyRequest, Reader.run]
  refine Option.bind_congr fun result _ => ?_
  simp only [keyReader, readInto_zero, Option.bind_eq_bind, Option.bind_some]

theorem readKernel_run (sock : ℕ) (conn : Connection) :
    readKernel conn = kernelReader.run readInto sock conn := by
  refine run_header fun header conn width => ?_
  simp only [read16_announced width, Option.bind_eq_bind, Option.bind_some]

theorem readJoin_run (sock : ℕ) (conn : Connection) : readJoin conn = joinReader.run readInto sock conn := by
  refine run_header fun header conn width => ?_
  simp only [read16_announced width, Option.bind_eq_bind, Option.bind_some]

theorem readQuit_run (sock : ℕ) (conn : Connection) :
    readQuit sock conn = quitReader.run readInto sock conn := by
  refine run_header fun header conn _ => ?_
  rw [readInto_zero]
  rfl

/-- `read_exactly` runs the reader of the opcode. -/
theorem readExactly_run (sock : ℕ) (opCode : Byte) (conn : Connection) :
    readExactly sock opCode conn =
      (readerOf opCode).elim (some (.null, conn)) fun r => received (r.run readInto sock conn) := by
  rw [readExactly, readerOf]
  split_ifs
  · exact congrArg received (readInit_run sock conn)
  · exact congrArg received (readInsert_run sock conn)
  · exact congrArg received (readKeyRequest_run GET sock conn)
  · exact congrArg received (readKeyRequest_run DELETE sock conn)
  · exact congrArg received (readKernel_run sock conn)
  · exact congrArg received (readJoin_run sock conn)
  · exact congrArg received (readQuit_run sock conn)
  · rfl

/-- The PDU of a reader has the opcode of the reader. -/
theorem readerOf_opCode (found : readerOf opCode = some r) (header body : Bytes) :
    (r.pdu sock header body).opCode = opCode := by
  rw [readerOf] at found
  split_ifs at found with init insert get delete kernel join quit
  · cases found
    exact init.symm
  · cases found
    exact insert.symm
  · cases found
    exact get.symm
  · cases found
    exact delete.symm
  · cases found
    exact kernel.symm
  · cases found
    exact join.symm
  · cases found
    exact quit.symm

/-- Only JOIN has a JOIN record for its data. -/
theorem readerOf_join (found : readerOf JOIN = some r) (header body : Bytes) :
    r.pdu sock header body = ⟨JOIN, announced header, .join (announced header) body⟩ := by
  have join : readerOf JOIN = some joinReader := by simp [readerOf, JOIN, INIT, INSERT, GET, DELETE, KERNEL]
  cases join.symm.trans found
  rfl

/-- A reader whose loops return has made its PDU. -/
theorem Reader.run_pdu {pdu : Pdu} (ran : r.run readInto sock conn = some (pdu, next)) :
    ∃ header mid body, readInto r.asked r.peek (calloc r.asked) conn = some (header, mid) ∧
      readInto (r.body header) false (calloc (r.body header + r.spare)) mid = some (body, next) ∧
      pdu = r.pdu sock header body := by
  obtain ⟨⟨header, mid⟩, first, ran⟩ := Option.bind_eq_some_iff.mp ran
  obtain ⟨⟨body, last⟩, second, same⟩ := Option.bind_eq_some_iff.mp ran
  cases same
  exact ⟨header, mid, body, first, second, rfl⟩

/-- A reader in which both loops fail at once. -/
theorem Reader.run_fail (r : Reader) (sock : ℕ) (pending : Bytes) :
    ∃ header body next, r.run readInto sock ⟨pending, [.fail, .fail]⟩ = some (r.pdu sock header body, next) := by
  have returns (asked : ℕ) (peek : Bool) (buffer : Bytes) (script : List RecvChoice) :
      ∃ next, readInto asked peek buffer ⟨pending, .fail :: script⟩ = some (buffer, next) ∧
        (next = ⟨pending, .fail :: script⟩ ∨ next = ⟨pending, script⟩) := by
    by_cases empty : asked = 0
    · exact ⟨_, if_pos empty, .inl rfl⟩
    · exact ⟨_, if_neg empty, .inr rfl⟩
  obtain ⟨mid, first, place⟩ := returns r.asked r.peek (calloc r.asked) [.fail]
  obtain ⟨script, rfl⟩ : ∃ script, mid = ⟨pending, .fail :: script⟩ := by
    rcases place with rfl | rfl
    · exact ⟨[.fail], rfl⟩
    · exact ⟨[], rfl⟩
  obtain ⟨next, second, -⟩ := returns (r.body (calloc r.asked)) false
    (calloc (r.body (calloc r.asked) + r.spare)) script
  refine ⟨calloc r.asked, calloc (r.body (calloc r.asked) + r.spare), next, ?_⟩
  simp only [Reader.run, first, second, Option.bind_eq_bind, Option.bind_some]

end Runs

section Receive

variable {sock : ℕ} {conn next : Connection} {script : List RecvChoice} {pending : Bytes}

/-- The peeks end with the first byte of a whole header. -/
theorem peekOpCode_inl {opCode : Byte} (ran : peekOpCode script pending = some (.inl opCode, next)) :
    pending.head? = some opCode ∧ HEADERSIZE ≤ pending.length ∧ next.pending = pending ∧
      peekFull script = some next.script := by
  induction script with
  | nil =>
    cases pending with
    | nil => simp [peekOpCode] at ran
    | cons b pending =>
      simp only [peekOpCode, Option.ite_none_right_eq_some, Option.some.injEq] at ran
      obtain ⟨enough, same⟩ := ran
      cases same
      exact ⟨rfl, enough, rfl, rfl⟩
  | cons choice script ih =>
    cases pending with
    | nil => cases choice <;> simp [peekOpCode] at ran
    | cons b pending =>
      cases choice with
      | fail => simp [peekOpCode] at ran
      | deliver limit =>
        rw [peekOpCode] at ran
        split_ifs at ran with short
        · obtain ⟨head, enough, kept, full⟩ := ih ran
          have cut : ¬HEADERSIZE ≤ limit + 1 := by omega
          exact ⟨head, enough, kept, (if_neg cut).trans full⟩
        · cases ran
          have whole : HEADERSIZE ≤ limit + 1 ∧ HEADERSIZE ≤ (opCode :: pending).length := by omega
          exact ⟨rfl, whole.2, rfl, if_pos whole.1⟩

/-- Peeks that are answered in full end with the first byte. -/
theorem peekOpCode_full {left : List RecvChoice} (full : peekFull script = some left) {opCode : Byte}
    (head : pending.head? = some opCode) (enough : HEADERSIZE ≤ pending.length) :
    peekOpCode script pending = some (.inl opCode, ⟨pending, left⟩) := by
  obtain ⟨rest, rfl⟩ := List.head?_eq_some_iff.mp head
  induction script with
  | nil =>
    cases full
    exact if_pos enough
  | cons choice script ih =>
    cases choice with
    | fail => cases full
    | deliver limit =>
      rw [peekFull] at full
      rw [peekOpCode]
      split_ifs at full with whole
      · cases full
        exact if_neg (by omega)
      · rw [if_pos (by omega), ih full]

/-- The peeks end at the end of the stream, or with a failure. -/
theorem peekOpCode_inr {result : Received} (ran : peekOpCode script pending = some (.inr result, next)) :
    next.pending = pending ∧
      (result = .endOfStream ∧ pending = [] ∧ script.head? ≠ some .fail ∨
        result = .null ∧ (pending = [] → script.head? = some .fail) ∧
          (HEADERSIZE ≤ pending.length → peekFull script = none)) := by
  induction script with
  | nil =>
    cases pending with
    | nil =>
      cases ran
      exact ⟨rfl, .inl ⟨rfl, rfl, by simp⟩⟩
    | cons b pending => simp [peekOpCode] at ran
  | cons choice script ih =>
    cases pending with
    | nil =>
      cases choice with
      | fail =>
        cases ran
        exact ⟨rfl, .inr ⟨rfl, fun _ => rfl, fun absurd => by simp [HEADERSIZE] at absurd⟩⟩
      | deliver limit =>
        cases ran
        exact ⟨rfl, .inl ⟨rfl, rfl, by simp⟩⟩
    | cons b pending =>
      cases choice with
      | fail =>
        cases ran
        exact ⟨rfl, .inr ⟨rfl, fun absurd => by simp at absurd, fun _ => rfl⟩⟩
      | deliver limit =>
        rw [peekOpCode] at ran
        split_ifs at ran with short
        · obtain ⟨kept, ⟨-, impossible, -⟩ | ⟨null, -, none⟩⟩ := ih ran
          · cases impossible
          · refine ⟨kept, .inr ⟨null, fun absurd => by simp at absurd, fun enough => ?_⟩⟩
            have cut : ¬HEADERSIZE ≤ limit + 1 := by omega
            exact (if_neg cut).trans (none enough)
        · cases ran

/-- The stream starts with the opcode of a whole header, and the peeks deliver it. -/
def Heard (conn : Connection) (r : Reader) : Prop :=
  HEADERSIZE ≤ conn.pending.length ∧ (peekFull conn.script).isSome ∧ conn.pending.head?.bind readerOf = some r

/-- What `receive_pdu` returns: a PDU of the reader that the opcode names, the sentinel at the end of the
stream, or else NULL, for which nothing has been consumed. -/
inductive Receives (sock : ℕ) (conn : Connection) (result : Received) (next : Connection) : Prop where
  | pdu (r : Reader) (script : List RecvChoice) (header body : Bytes) (heard : Heard conn r)
      (peeked : peekFull conn.script = some script)
      (ran : r.run readInto sock ⟨conn.pending, script⟩ = some (r.pdu sock header body, next))
      (same : result = .pdu (r.pdu sock header body))
  | endOfStream (empty : conn.pending = []) (usual : conn.script.head? ≠ some .fail) (kept : next.pending = [])
      (same : result = .endOfStream)
  | null (kept : next.pending = conn.pending) (failed : conn.pending = [] → conn.script.head? = some .fail)
      (unheard : ∀ r, ¬Heard conn r) (same : result = .null)

theorem receivePdu_receives {result : Received} (ran : receivePdu sock conn = some (result, next)) :
    Receives sock conn result next := by
  obtain ⟨⟨opCode | early, mid⟩, peek, read⟩ := Option.bind_eq_some_iff.mp ran
  · obtain ⟨head, enough, kept, full⟩ := peekOpCode_inl peek
    have opened : conn.pending.head?.bind readerOf = readerOf opCode := by rw [head, Option.bind_some]
    simp only [readExactly_run] at read
    cases found : readerOf opCode with
    | none =>
      rw [found] at read
      cases read
      refine .null kept (fun empty => ?_) (fun r heard => ?_) rfl
      · rw [empty] at head
        cases head
      · rw [Heard, opened, found] at heard
        cases heard.2.2
    | some r =>
      rw [found] at read
      obtain ⟨⟨pdu, last⟩, ran, same⟩ := Option.map_eq_some_iff.mp read
      cases same
      obtain ⟨header, after, body, first, second, rfl⟩ := r.run_pdu ran
      have place : mid = ⟨conn.pending, mid.script⟩ := by rw [← kept]
      rw [place] at ran
      exact .pdu r mid.script header body ⟨enough, by rw [full]; rfl, opened.trans found⟩ full ran rfl
  · cases read
    obtain ⟨kept, ⟨rfl, empty, usual⟩ | ⟨rfl, failed, none⟩⟩ := peekOpCode_inr peek
    · exact .endOfStream empty usual (kept.trans empty) rfl
    · refine .null kept failed (fun r heard => ?_) rfl
      rw [Heard, none heard.1] at heard
      exact absurd heard.2.1 (by simp)

/-- Where a reader is heard, `receive_pdu` runs it. -/
theorem receivePdu_heard {r : Reader} (heard : Heard conn r) (peeked : peekFull conn.script = some script)
    (sock : ℕ) : receivePdu sock conn = received (r.run readInto sock ⟨conn.pending, script⟩) := by
  obtain ⟨enough, -, opened⟩ := heard
  obtain ⟨opCode, head, found⟩ := Option.bind_eq_some_iff.mp opened
  simp only [receivePdu, peekOpCode_full peeked head enough, Option.bind_eq_bind, Option.bind_some,
    readExactly_run, found, Option.elim_some]

end Receive

end Operativsystem.Resources
