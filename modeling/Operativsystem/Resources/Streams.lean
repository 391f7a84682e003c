import Operativsystem.Resources.Frames

/-! # The front of a stream that is delivered whole

Where every `recv` delivers what it is asked for, a call of `receive_pdu` that returns a PDU has found
a frame in front of the stream. There are two exceptions: a KERNEL header may announce more bytes than
a frame of the kernel has, and an INSERT header may announce a value that makes `data_bytes` wrap
around, so that the reader takes too few bytes.
-/

namespace Operativsystem.Resources

open Memory

/-- A KERNEL header with the payload that it announces. -/
def KernelFirst (pending : Bytes) : Prop :=
  ∃ lo hi pad body, pending = KERNEL :: lo :: hi :: pad :: body ∧ le16 lo hi ≤ body.length

/-- An INSERT header whose frame is longer than `data_bytes` can say, with the bytes that it says. -/
def OverlongFirst (pending : Bytes) : Prop :=
  ∃ lo hi pad body, pending = INSERT :: lo :: hi :: pad :: body ∧
    65536 ≤ le16 lo hi + HEADERSIZE + KEY_SIZE ∧ u16 (le16 lo hi + HEADERSIZE + KEY_SIZE) ≤ pending.length

/-- A read loop that gets what it asks for, or never ends. -/
theorem readInto_whole {asked : ℕ} {peek : Bool} {buffer pending : Bytes} :
    readInto asked peek buffer ⟨pending, []⟩ =
      if asked ≤ pending.length then
        some (pending.take asked ++ buffer.drop asked, ⟨remaining peek asked pending, []⟩)
      else none := by
  by_cases empty : asked = 0
  · subst empty
    cases peek <;> simp [readInto, remaining]
  · rw [readInto, if_neg empty, readLoop]

/-- What the reader has taken, once it returns. -/
theorem readInto_enough {asked : ℕ} {peek : Bool} {buffer pending out : Bytes} {next : Connection}
    (ran : readInto asked peek buffer ⟨pending, []⟩ = some (out, next)) :
    asked ≤ pending.length ∧ out = pending.take asked ++ buffer.drop asked ∧
      next = ⟨remaining peek asked pending, []⟩ := by
  rw [readInto_whole, Option.ite_none_right_eq_some] at ran
  obtain ⟨enough, same⟩ := ran
  obtain ⟨rfl, rfl⟩ := Prod.mk.inj (Option.some.inj same)
  exact ⟨enough, rfl, rfl⟩

section Headers

variable {lo hi pad : Byte} {body : Bytes}

theorem header_read (opCode : Byte) : read16 [opCode, lo, hi, pad] 1 = some (le16 lo hi) := rfl

theorem readInto_header (opCode : Byte) (peek : Bool) :
    readInto HEADERSIZE peek (calloc HEADERSIZE) ⟨opCode :: lo :: hi :: pad :: body, []⟩ =
      some ([opCode, lo, hi, pad], ⟨if peek then opCode :: lo :: hi :: pad :: body else body, []⟩) := by
  rw [readInto_whole, if_pos (by simp [HEADERSIZE])]
  cases peek <;> simp [remaining, calloc, HEADERSIZE]

/-- The bytes behind a header that are long enough for a field. -/
theorem exists_field {n : ℕ} (enough : n ≤ body.length) :
    ∃ field rest, body = field ++ rest ∧ field.length = n :=
  ⟨body.take n, body.drop n, (List.take_append_drop n body).symm, List.length_take_of_le enough⟩

variable {next : Connection} {pdu : Pdu}

/-- On a whole header, `receive_pdu` calls the reader of its opcode. -/
theorem receivePdu_reader (sock : ℕ) (opCode : Byte) :
    receivePdu sock ⟨opCode :: lo :: hi :: pad :: body, []⟩ =
      readExactly sock opCode ⟨opCode :: lo :: hi :: pad :: body, []⟩ := by
  simp [receivePdu, peekOpCode, HEADERSIZE]

/-- A PDU comes from a reader, which starts at a whole header. -/
theorem receivePdu_header {sock : ℕ} {pending : Bytes}
    (ran : receivePdu sock ⟨pending, []⟩ = some (.pdu pdu, next)) :
    ∃ opCode lo hi pad body, pending = opCode :: lo :: hi :: pad :: body ∧
      readExactly sock opCode ⟨opCode :: lo :: hi :: pad :: body, []⟩ = some (.pdu pdu, next) := by
  rcases pending with _ | ⟨opCode, _ | ⟨lo, _ | ⟨hi, _ | ⟨pad, body⟩⟩⟩⟩
  iterate 4 simp [receivePdu, peekOpCode, HEADERSIZE] at ran
  exact ⟨opCode, lo, hi, pad, body, rfl, receivePdu_reader sock opCode ▸ ran⟩

theorem readKernel_front (ran : readKernel ⟨KERNEL :: lo :: hi :: pad :: body, []⟩ = some (pdu, next)) :
    le16 lo hi ≤ body.length := by
  simp only [readKernel, readInto_header, header_read, Option.bind_eq_bind, Option.bind_some,
    Option.bind_eq_some_iff] at ran
  obtain ⟨⟨data, last⟩, read, -⟩ := ran
  exact (readInto_enough read).1

theorem readJoin_front (ran : readJoin ⟨JOIN :: lo :: hi :: pad :: body, []⟩ = some (pdu, next)) :
    le16 lo hi ≤ body.length := by
  simp only [readJoin, readInto_header, header_read, Option.bind_eq_bind, Option.bind_some,
    Option.bind_eq_some_iff] at ran
  obtain ⟨⟨name, last⟩, read, -⟩ := ran
  exact (readInto_enough read).1

theorem readKeyRequest_front {opCode : Byte}
    (ran : readKeyRequest opCode ⟨opCode :: lo :: hi :: pad :: body, []⟩ = some (pdu, next)) :
    KEY_SIZE ≤ body.length := by
  simp only [readKeyRequest, Option.bind_eq_bind, Option.bind_eq_some_iff] at ran
  obtain ⟨⟨data, last⟩, read, -⟩ := ran
  have enough := (readInto_enough read).1
  simp only [List.length_cons, HEADERSIZE] at enough
  omega

theorem readInsert_front (ran : readInsert ⟨INSERT :: lo :: hi :: pad :: body, []⟩ = some (pdu, next)) :
    u16 (le16 lo hi + HEADERSIZE + KEY_SIZE) ≤ (INSERT :: lo :: hi :: pad :: body).length := by
  simp only [readInsert, readInto_header, header_read, Option.bind_eq_bind, Option.bind_some,
    Option.bind_eq_some_iff, if_true] at ran
  obtain ⟨⟨data, last⟩, read, -⟩ := ran
  exact (readInto_enough read).1

theorem exists_insert (fits : le16 lo hi + HEADERSIZE + KEY_SIZE < 65536)
    (enough : le16 lo hi + HEADERSIZE + KEY_SIZE ≤ (INSERT :: lo :: hi :: pad :: body).length) :
    ∃ frame rest, frame.opCode ≠ KERNEL ∧ INSERT :: lo :: hi :: pad :: body = Frame.encode frame ++ rest := by
  simp only [List.length_cons, HEADERSIZE] at enough
  obtain ⟨key, behind, rfl, field⟩ := @exists_field body KEY_SIZE (by omega)
  rw [List.length_append] at enough
  obtain ⟨value, rest, rfl, size⟩ := @exists_field behind (le16 lo hi) (by omega)
  refine ⟨.insert pad key value field (size ▸ fits), rest, show INSERT ≠ KERNEL by decide, ?_⟩
  simp [Frame.encode, size]

theorem exists_join (enough : le16 lo hi ≤ body.length) :
    ∃ frame rest, frame.opCode ≠ KERNEL ∧ JOIN :: lo :: hi :: pad :: body = Frame.encode frame ++ rest := by
  obtain ⟨name, rest, rfl, size⟩ := exists_field enough
  refine ⟨.join pad name (size ▸ le16_lt lo hi), rest, show JOIN ≠ KERNEL by decide, ?_⟩
  simp [Frame.encode, size]

end Headers

/-- Where every `recv` delivers what it is asked for, `receive_pdu` finds a frame, or one of the two
kinds of headers that do not stand for a frame of a client. -/
theorem receivePdu_front {sock : ℕ} {pending : Bytes} {pdu : Pdu} {next : Connection}
    (ran : receivePdu sock ⟨pending, []⟩ = some (.pdu pdu, next)) :
    (∃ frame rest, frame.opCode ≠ KERNEL ∧ pending = Frame.encode frame ++ rest) ∨
      KernelFirst pending ∨ OverlongFirst pending := by
  obtain ⟨opCode, lo, hi, pad, body, rfl, read⟩ := receivePdu_header ran
  have unpack {answer : Option (Pdu × Connection)} (answered : received answer = some (.pdu pdu, next)) :
      answer = some (pdu, next) := by
    obtain ⟨⟨value, last⟩, answered, same⟩ := Option.map_eq_some_iff.mp answered
    cases same
    exact answered
  simp only [readExactly] at read
  split_ifs at read with init insert get delete kernel join quit
  · subst init
    exact .inl ⟨.init lo hi pad, body, show INIT ≠ KERNEL by decide, rfl⟩
  · subst insert
    have enough := readInsert_front (unpack read)
    rcases lt_or_ge (le16 lo hi + HEADERSIZE + KEY_SIZE) 65536 with fits | overlong
    · rw [u16_of_lt fits] at enough
      exact .inl (exists_insert fits enough)
    · exact .inr (.inr ⟨lo, hi, pad, body, rfl, overlong, enough⟩)
  · subst get
    obtain ⟨key, rest, rfl, field⟩ := exists_field (readKeyRequest_front (unpack read))
    exact .inl ⟨.get lo hi pad key field, rest, show GET ≠ KERNEL by decide, rfl⟩
  · subst delete
    obtain ⟨key, rest, rfl, field⟩ := exists_field (readKeyRequest_front (unpack read))
    exact .inl ⟨.delete lo hi pad key field, rest, show DELETE ≠ KERNEL by decide, rfl⟩
  · subst kernel
    exact .inr (.inl ⟨lo, hi, pad, body, rfl, readKernel_front (unpack read)⟩)
  · subst join
    exact .inl (exists_join (readJoin_front (unpack read)))
  · subst quit
    exact .inl ⟨.quit lo hi pad, body, show QUIT ≠ KERNEL by decide, rfl⟩
  · cases read

/-- A KERNEL header yields its payload, without the header. -/
theorem receivePdu_kernelFirst (sock : ℕ) {lo hi pad : Byte} {body : Bytes} (enough : le16 lo hi ≤ body.length) :
    ∃ data, receivePdu sock ⟨KERNEL :: lo :: hi :: pad :: body, []⟩ =
      some (.pdu ⟨KERNEL, le16 lo hi, .bytes data⟩, ⟨body.drop (le16 lo hi), []⟩) := by
  have payload : readInto (le16 lo hi) false (calloc (le16 lo hi + 8)) ⟨body, []⟩ = some
      (body.take (le16 lo hi) ++ (calloc (le16 lo hi + 8)).drop (le16 lo hi), ⟨body.drop (le16 lo hi), []⟩) := by
    rw [readInto_whole, if_pos enough]
    rfl
  have read : readKernel ⟨KERNEL :: lo :: hi :: pad :: body, []⟩ = some (⟨KERNEL, le16 lo hi,
      .bytes (body.take (le16 lo hi) ++ (calloc (le16 lo hi + 8)).drop (le16 lo hi))⟩,
        ⟨body.drop (le16 lo hi), []⟩) := by
    rw [readKernel, readInto_header]
    simp only [header_read, Option.bind_eq_bind, Option.bind_some, Bool.false_eq_true, if_false, payload]
  exact ⟨_, (receivePdu_reader sock KERNEL).trans (congrArg received read)⟩

/-- An overlong INSERT yields the bytes that are left of its length. -/
theorem receivePdu_overlongFirst (sock : ℕ) {lo hi pad : Byte} {body : Bytes}
    (enough : u16 (le16 lo hi + HEADERSIZE + KEY_SIZE) ≤ (INSERT :: lo :: hi :: pad :: body).length) :
    receivePdu sock ⟨INSERT :: lo :: hi :: pad :: body, []⟩ =
      some (.pdu ⟨INSERT, u16 (le16 lo hi + HEADERSIZE + KEY_SIZE), .bytes
          ((INSERT :: lo :: hi :: pad :: body).take (u16 (le16 lo hi + HEADERSIZE + KEY_SIZE)))⟩,
        ⟨(INSERT :: lo :: hi :: pad :: body).drop (u16 (le16 lo hi + HEADERSIZE + KEY_SIZE)), []⟩) := by
  generalize request : INSERT :: lo :: hi :: pad :: body = pending at enough ⊢
  generalize wrapped : u16 (le16 lo hi + HEADERSIZE + KEY_SIZE) = dataBytes at enough ⊢
  have front : readInto dataBytes false (calloc dataBytes) ⟨pending, []⟩ =
      some (pending.take dataBytes, ⟨pending.drop dataBytes, []⟩) := by
    rw [readInto_whole, if_pos enough]
    simp [remaining, calloc]
  have read : readInsert ⟨pending, []⟩ =
      some (⟨INSERT, dataBytes, .bytes (pending.take dataBytes)⟩, ⟨pending.drop dataBytes, []⟩) := by
    rw [readInsert, ← request, readInto_header]
    simp only [header_read, Option.bind_eq_bind, Option.bind_some, if_true, wrapped, request, front]
  rw [← request, receivePdu_reader, request]
  exact congrArg received read

/-- What one PDU takes off the front of a stream: a frame, a KERNEL header with its payload, or as much of an
overlong INSERT as its length still says. -/
inductive Takes : Bytes → Bytes → Prop
  | frame (frame : Frame) (rest : Bytes) : Takes (frame.encode ++ rest) rest
  | kernel {lo hi pad : Byte} {body : Bytes} (enough : le16 lo hi ≤ body.length) :
    Takes (KERNEL :: lo :: hi :: pad :: body) (body.drop (le16 lo hi))
  | overlong {lo hi pad : Byte} {body : Bytes} (wraps : 65536 ≤ le16 lo hi + HEADERSIZE + KEY_SIZE)
      (enough : u16 (le16 lo hi + HEADERSIZE + KEY_SIZE) ≤ (INSERT :: lo :: hi :: pad :: body).length) :
    Takes (INSERT :: lo :: hi :: pad :: body)
      ((INSERT :: lo :: hi :: pad :: body).drop (u16 (le16 lo hi + HEADERSIZE + KEY_SIZE)))

section Takes

variable {sock : ℕ} {pending rest : Bytes} {pdu : Pdu} {next : Connection}

theorem Takes.suffix (takes : Takes pending rest) : rest <:+ pending := by
  cases takes with
  | frame frame rest => exact List.suffix_append _ _
  | kernel enough => exact (List.drop_suffix _ _).trans ⟨[_, _, _, _], rfl⟩
  | overlong wraps enough => exact List.drop_suffix _ _

theorem Takes.receivePdu (takes : Takes pending rest) (sock : ℕ) :
    ∃ pdu, Resources.receivePdu sock ⟨pending, []⟩ = some (.pdu pdu, ⟨rest, []⟩) := by
  cases takes with
  | frame frame rest => exact ⟨_, receivePdu_frame sock frame rest⟩
  | kernel enough =>
    obtain ⟨data, received⟩ := receivePdu_kernelFirst sock enough
    exact ⟨_, received⟩
  | overlong wraps enough => exact ⟨_, receivePdu_overlongFirst sock enough⟩

theorem receivePdu_takes (ran : receivePdu sock ⟨pending, []⟩ = some (.pdu pdu, next)) :
    Takes pending next.pending ∧ next.script = [] := by
  rcases receivePdu_front ran with ⟨frame, rest, -, rfl⟩ | ⟨lo, hi, pad, body, rfl, enough⟩ |
    ⟨lo, hi, pad, body, rfl, wraps, enough⟩
  · cases (receivePdu_frame sock frame rest).symm.trans ran
    exact ⟨.frame frame rest, rfl⟩
  · obtain ⟨data, received⟩ := @receivePdu_kernelFirst sock _ _ pad _ enough
    cases received.symm.trans ran
    exact ⟨.kernel enough, rfl⟩
  · cases (receivePdu_overlongFirst sock enough).symm.trans ran
    exact ⟨.overlong wraps enough, rfl⟩

end Takes

end Operativsystem.Resources
