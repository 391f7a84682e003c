import Operativsystem.Resources.Readers

/-! # The calls of `recv`

The read loops, call by call and with a bound on the number of calls. A loop returns within some number of
calls exactly if one of its calls fails, since -1 is a huge `size_t`, or one that may deliver all that is
asked for finds as many bytes: no sum of short deliveries ends it, and neither does the end of the stream.
-/

namespace Operativsystem.Resources

open Memory

/-- What -1 becomes in a `size_t`. -/
abbrev SIZE_MAX : ℕ := 2 ^ 64 - 1

/-- One `recv`: the value that is stored in `nread`, the bytes that are written, and the connection after it.
When nothing is pending the value is 0. -/
def recv (asked : ℕ) (peek : Bool) (conn : Connection) : ℕ × Bytes × Connection :=
  match conn.script with
  | [] =>
    let got := conn.pending.take asked
    (got.length, got, ⟨remaining peek got.length conn.pending, []⟩)
  | .fail :: script => (SIZE_MAX, [], ⟨conn.pending, script⟩)
  | .deliver limit :: script =>
    let got := conn.pending.take (min asked (limit + 1))
    (got.length, got, ⟨remaining peek got.length conn.pending, script⟩)

/-- `while (nread < asked) nread = recv(sock, buffer, asked, flags)` with at most `calls` calls. -/
def recvLoop (asked : ℕ) (peek : Bool) : ℕ → ℕ → Bytes → Connection → Option (Bytes × Connection)
  | 0, nread, buffer, conn => if nread < asked then none else some (buffer, conn)
  | calls + 1, nread, buffer, conn =>
    if nread < asked then
      let (nread, got, conn) := recv asked peek conn
      recvLoop asked peek calls nread (got ++ buffer.drop got.length) conn
    else some (buffer, conn)

/-- The peeking loop of `receive_pdu` with at most `calls` calls. -/
def peekWithin : ℕ → Connection → Option ((Byte ⊕ Received) × Connection)
  | 0, _ => none
  | calls + 1, conn =>
    let (nread, got, conn) := recv HEADERSIZE true conn
    if nread = 0 then some (.inr .endOfStream, conn)
    else if nread = SIZE_MAX then some (.inr .null, conn)
    else if nread < HEADERSIZE then peekWithin calls conn
    else got.head?.map fun opCode => (.inl opCode, conn)

/-- A reader in whose loops at most `calls` calls each are made. -/
def Reader.runWithin (calls : ℕ) (r : Reader) : ℕ → Connection → Option (Pdu × Connection) :=
  r.run fun asked peek buffer conn => recvLoop asked peek calls 0 buffer conn

/-- `receive_pdu`, in each loop of which at most `calls` calls of `recv` are made. -/
def receivePduWithin (calls sock : ℕ) (conn : Connection) : Option (Received × Connection) := do
  let (peeked, conn) ← peekWithin calls conn
  match peeked with
  | .inr result => some (result, conn)
  | .inl opCode =>
    (readerOf opCode).elim (some (.null, conn)) fun r => received (r.runWithin calls sock conn)

section Loops

variable {asked : ℕ} {peek : Bool} {calls more nread : ℕ} {buffer pending : Bytes} {conn : Connection}
  {script : List RecvChoice} {out : Bytes × Connection}

/-- A loop that returns makes no further calls. -/
theorem recvLoop_mono (ran : recvLoop asked peek calls nread buffer conn = some out) (le : calls ≤ more) :
    recvLoop asked peek more nread buffer conn = some out := by
  induction calls generalizing more nread buffer conn with
  | zero =>
    simp only [recvLoop, Option.ite_none_left_eq_some] at ran
    cases more with
    | zero => rw [recvLoop, if_neg ran.1, ran.2]
    | succ more => rw [recvLoop, if_neg ran.1, ran.2]
  | succ calls ih =>
    obtain ⟨more, rfl⟩ : ∃ n, more = n + 1 := ⟨more - 1, by omega⟩
    rw [recvLoop] at ran ⊢
    split_ifs at ran ⊢ with short
    · exact ih ran (by omega)
    · exact ran

/-- Past the script, a loop that finds too few bytes goes on for ever. -/
theorem recvLoop_starved (short : pending.length < asked) (calls : ℕ) {nread : ℕ} (unfinished : nread < asked) :
    recvLoop asked peek calls nread buffer ⟨pending, []⟩ = none := by
  induction calls generalizing nread buffer pending with
  | zero => exact if_pos unfinished
  | succ calls ih =>
    have got : pending.take asked = pending := List.take_of_length_le short.le
    have fewer : (remaining peek pending.length pending).length < asked := by
      cases peek <;> simp only [remaining] <;> simp <;> omega
    simp only [recvLoop, if_pos unfinished, recv, got]
    exact ih fewer short

/-- At least one call may be allowed. -/
theorem recvLoop_exists_succ : (∃ calls, recvLoop asked peek calls nread buffer conn = some out) ↔
    ∃ calls, recvLoop asked peek (calls + 1) nread buffer conn = some out :=
  ⟨fun ⟨calls, ran⟩ => ⟨calls, recvLoop_mono ran (Nat.le_succ _)⟩, fun ⟨calls, ran⟩ => ⟨calls + 1, ran⟩⟩

theorem recvLoop_done (enough : asked ≤ nread) :
    (∃ calls, recvLoop asked peek calls nread buffer conn = some out) ↔ (buffer, conn) = out := by
  have returned (calls : ℕ) : recvLoop asked peek calls nread buffer conn = some (buffer, conn) := by
    cases calls <;> exact if_neg enough.not_gt
  simp only [returned, Option.some.injEq, exists_const]

/-- The loop within some number of calls is the loop that may never return. -/
theorem recvLoop_iff_readLoop (small : asked ≤ SIZE_MAX) (unfinished : nread < asked) :
    (∃ calls, recvLoop asked peek calls nread buffer ⟨pending, script⟩ = some out) ↔
      readLoop asked peek script pending buffer = some out := by
  induction script generalizing nread buffer pending with
  | nil =>
    by_cases enough : asked ≤ pending.length
    · rw [recvLoop_exists_succ]
      simp only [recvLoop, if_pos unfinished, recv, readLoop, if_pos enough, List.length_take_of_le enough]
      rw [recvLoop_done le_rfl, Option.some.injEq]
    · simp only [recvLoop_starved (not_le.mp enough) _ unfinished, readLoop, if_neg enough]
      simp
  | cons choice script ih =>
    rw [recvLoop_exists_succ]
    cases choice with
    | fail =>
      simp only [recvLoop, if_pos unfinished, recv, readLoop, List.nil_append, List.length_nil, List.drop_zero]
      rw [recvLoop_done small, Option.some.injEq]
    | deliver limit =>
      simp only [recvLoop, if_pos unfinished, recv, readLoop]
      split_ifs with short
      · exact ih short
      · rw [recvLoop_done (not_lt.mp short), Option.some.injEq]

theorem recvLoop_iff (small : asked ≤ SIZE_MAX) :
    (∃ calls, recvLoop asked peek calls 0 buffer conn = some out) ↔
      readInto asked peek buffer conn = some out := by
  by_cases empty : asked = 0
  · rw [recvLoop_done empty.le, readInto, if_pos empty, Option.some.injEq]
  · rw [readInto, if_neg empty]
    exact recvLoop_iff_readLoop small (Nat.pos_of_ne_zero empty)

end Loops

section Calls

variable {calls more sock : ℕ} {conn next : Connection} {pending : Bytes} {script : List RecvChoice}
  {peeked : Byte ⊕ Received} {r : Reader} {opCode : Byte}

theorem peekWithin_mono {out : (Byte ⊕ Received) × Connection} (ran : peekWithin calls conn = some out)
    (le : calls ≤ more) : peekWithin more conn = some out := by
  induction calls generalizing more conn with
  | zero => cases ran
  | succ calls ih =>
    obtain ⟨more, rfl⟩ : ∃ n, more = n + 1 := ⟨more - 1, by omega⟩
    rw [peekWithin] at ran ⊢
    dsimp only at ran ⊢
    split_ifs at ran ⊢ with ended failed short
    · exact ran
    · exact ran
    · exact ih ran (by omega)
    · exact ran

/-- The peeks of one, two or three bytes never end at the end of the script. -/
theorem peekWithin_starved {b : Byte} (short : (b :: pending).length < HEADERSIZE) (calls : ℕ) :
    peekWithin calls ⟨b :: pending, []⟩ = none := by
  induction calls with
  | zero => rfl
  | succ calls ih =>
    have got : (b :: pending).take HEADERSIZE = b :: pending := List.take_of_length_le short.le
    have bound : (b :: pending).length < SIZE_MAX := short.trans (by decide)
    simp only [peekWithin, recv, got, remaining, if_true, if_pos short, if_neg bound.ne, ih]
    simp

theorem peekWithin_exists_succ {out : (Byte ⊕ Received) × Connection} :
    (∃ calls, peekWithin calls conn = some out) ↔ ∃ calls, peekWithin (calls + 1) conn = some out :=
  ⟨fun ⟨calls, ran⟩ => ⟨calls, peekWithin_mono ran (Nat.le_succ _)⟩, fun ⟨calls, ran⟩ => ⟨calls + 1, ran⟩⟩

/-- A peek that delivers `count` bytes is the last one if it delivers a header. -/
theorem peekWithin_deliver {b : Byte} {limit count : ℕ}
    (delivered : ((b :: pending).take (min HEADERSIZE (limit + 1))).length = count) (calls : ℕ) :
    peekWithin (calls + 1) ⟨b :: pending, .deliver limit :: script⟩ =
      if count < HEADERSIZE then peekWithin calls ⟨b :: pending, script⟩
      else some (.inl b, ⟨b :: pending, script⟩) := by
  have header : HEADERSIZE = 4 := rfl
  have bounds := delivered
  rw [List.length_take, List.length_cons] at bounds
  have positive : count ≠ 0 := by omega
  have small : count ≠ SIZE_MAX := by
    simp only [SIZE_MAX]
    omega
  have head : ((b :: pending).take (min HEADERSIZE (limit + 1))).head? = some b := by
    rw [List.head?_take, if_neg (by omega)]
    rfl
  simp only [peekWithin, recv, delivered, if_neg positive, if_neg small, remaining, if_true, head,
    Option.map_some]

theorem peekWithin_iff :
    (∃ calls, peekWithin calls ⟨pending, script⟩ = some (peeked, next)) ↔
      peekOpCode script pending = some (peeked, next) := by
  induction script with
  | nil =>
    cases pending with
    | nil =>
      rw [peekWithin_exists_succ]
      simp [peekWithin, recv, peekOpCode, remaining]
    | cons b pending =>
      by_cases enough : HEADERSIZE ≤ (b :: pending).length
      · have got : ((b :: pending).take HEADERSIZE).length = HEADERSIZE := List.length_take_of_le enough
        have positive : HEADERSIZE ≠ 0 := by decide
        have small : HEADERSIZE ≠ SIZE_MAX := by decide
        rw [peekWithin_exists_succ]
        simp only [peekWithin, recv, got, if_neg positive, if_neg small, lt_irrefl, if_false, peekOpCode,
          if_pos enough, remaining, if_true, exists_const]
        rfl
      · simp only [peekWithin_starved (not_le.mp enough), peekOpCode, if_neg enough]
        simp
  | cons choice script ih =>
    rw [peekWithin_exists_succ]
    cases choice with
    | fail =>
      cases pending <;> simp [peekWithin, recv, peekOpCode]
    | deliver limit =>
      cases pending with
      | nil => simp [peekWithin, recv, peekOpCode, remaining]
      | cons b pending =>
        have same : min (min HEADERSIZE (limit + 1)) (b :: pending).length < HEADERSIZE ↔
            min (limit + 1) (b :: pending).length < HEADERSIZE := by omega
        simp only [peekWithin_deliver rfl, peekOpCode, List.length_take, same]
        split_ifs
        · exact ih
        · simp

/-- The loops of a reader ask for no more than a `size_t` can count. -/
theorem readerOf_small (found : readerOf opCode = some r) :
    r.asked ≤ SIZE_MAX ∧ ∀ header, r.body header ≤ SIZE_MAX := by
  have length (header : Bytes) : announced header ≤ SIZE_MAX := by
    rw [announced]
    cases word : read16 header 1 with
    | none => exact Nat.zero_le _
    | some n => exact (read16_lt word).le.trans (by decide)
  have sum (n : ℕ) : u16 n ≤ SIZE_MAX := (u16_lt n).le.trans (by decide)
  rw [readerOf] at found
  split_ifs at found <;> cases found
  all_goals first
    | exact ⟨by decide, fun _ => Nat.zero_le _⟩
    | exact ⟨by decide, length⟩
    | exact ⟨by decide, fun _ => sum _⟩

theorem Reader.runWithin_mono {result : Pdu × Connection} (ran : r.runWithin calls sock conn = some result)
    (le : calls ≤ more) : r.runWithin more sock conn = some result := by
  obtain ⟨_, headed, ran⟩ := Option.bind_eq_some_iff.mp ran
  obtain ⟨_, filled, same⟩ := Option.bind_eq_some_iff.mp ran
  exact Option.bind_eq_some_iff.mpr ⟨_, recvLoop_mono headed le,
    Option.bind_eq_some_iff.mpr ⟨_, recvLoop_mono filled le, same⟩⟩

/-- The two loops of a reader within some number of calls. -/
theorem readerWithin_iff (found : readerOf opCode = some r) {result : Pdu × Connection} :
    (∃ calls, r.runWithin calls sock conn = some result) ↔ r.run readInto sock conn = some result := by
  obtain ⟨first, second⟩ := readerOf_small found
  simp only [Reader.runWithin, Reader.run, Option.bind_eq_bind, Option.bind_eq_some_iff]
  constructor
  · rintro ⟨calls, ⟨header, mid⟩, headed, ⟨body, last⟩, filled, same⟩
    exact ⟨_, (recvLoop_iff first).mp ⟨calls, headed⟩, _, (recvLoop_iff (second header)).mp ⟨calls, filled⟩, same⟩
  · rintro ⟨⟨header, mid⟩, headed, ⟨body, last⟩, filled, same⟩
    obtain ⟨calls, headed⟩ := (recvLoop_iff first).mpr headed
    obtain ⟨more, filled⟩ := (recvLoop_iff (second header)).mpr filled
    exact ⟨max calls more, _, recvLoop_mono headed (le_max_left ..), _,
      recvLoop_mono filled (le_max_right ..), same⟩

/-- `receive_pdu` within some number of calls is the function that may never return. -/
theorem receivePduWithin_iff {result : Received} :
    (∃ calls, receivePduWithin calls sock conn = some (result, next)) ↔
      receivePdu sock conn = some (result, next) := by
  constructor
  · rintro ⟨calls, ran⟩
    obtain ⟨⟨peeked, mid⟩, peeks, read⟩ := Option.bind_eq_some_iff.mp ran
    refine Option.bind_eq_some_iff.mpr ⟨_, peekWithin_iff.mp ⟨calls, peeks⟩, ?_⟩
    cases peeked with
    | inr early => exact read
    | inl opCode =>
      simp only [readExactly_run] at read ⊢
      cases found : readerOf opCode with
      | none => simpa [found] using read
      | some r =>
        rw [found] at read
        obtain ⟨result, read, same⟩ := Option.map_eq_some_iff.mp read
        exact Option.map_eq_some_iff.mpr ⟨result, (readerWithin_iff found).mp ⟨calls, read⟩, same⟩
  · intro ran
    obtain ⟨⟨peeked, mid⟩, peeks, read⟩ := Option.bind_eq_some_iff.mp ran
    obtain ⟨calls, peeks⟩ := peekWithin_iff.mpr peeks
    cases peeked with
    | inr early => exact ⟨calls, Option.bind_eq_some_iff.mpr ⟨_, peeks, read⟩⟩
    | inl opCode =>
      simp only [readExactly_run] at read
      cases found : readerOf opCode with
      | none => exact ⟨calls, Option.bind_eq_some_iff.mpr ⟨_, peeks, by simpa [found] using read⟩⟩
      | some r =>
        rw [found] at read
        obtain ⟨result, read, same⟩ := Option.map_eq_some_iff.mp read
        obtain ⟨more, read⟩ := (readerWithin_iff found).mpr read
        refine ⟨max calls more, Option.bind_eq_some_iff.mpr ⟨_, peekWithin_mono peeks (le_max_left ..), ?_⟩⟩
        simp only [found, Option.elim_some]
        exact Option.map_eq_some_iff.mpr ⟨result, Reader.runWithin_mono read (le_max_right ..), same⟩

end Calls

end Operativsystem.Resources
