import Operativsystem.Resources.Frames

/-! # Streams that are delivered in pieces

The readers write every piece to the start of the buffer and count only the last piece, so a
stream is decoded faithfully when no consuming call of a reader is cut short. `Uncut` says this of
a script against the frames that it delivers: peeks may be short, and `receive_pdu` may fail
before it has seen a header, but the loops of the readers are answered in full. Where no call
fails, the condition is also necessary: a loop that is cut short consumes bytes of the frames
behind it.
-/

namespace Operativsystem.Resources

open Memory

/-- The script after `receive_pdu` has seen a header: short peeks are repeated by the function
and failures by its caller. -/
def afterPeeks : List RecvChoice → List RecvChoice
  | [] => []
  | .fail :: script => afterPeeks script
  | .deliver limit :: script => if HEADERSIZE ≤ limit + 1 then script else afterPeeks script

/-- No call of a reader's loops fails, and none that consumes bytes is cut short. -/
def Uncut : List Frame → List RecvChoice → Prop
  | [], _ => True
  | frame :: frames, script =>
    ∃ script', answered frame.loops (afterPeeks script) = some script' ∧ Uncut frames script'

def NoFail (script : List RecvChoice) : Prop := .fail ∉ script

/-- The PDUs among the results of `receive_pdu`. -/
def pdus (results : List Received) : List Pdu :=
  results.filterMap fun
    | .pdu value => some value
    | _ => none

/-- Whatever is returned is the PDUs of the frames in order, and repeated calls reach the end of
the stream with all of them. -/
def Faithful (sock : ℕ) (frames : List Frame) (script : List RecvChoice) : Prop :=
  (∀ k results conn, receiveMany sock k ⟨frames.flatMap Frame.encode, script⟩ = some (results, conn) →
    pdus results <+: frames.map (Frame.pdu sock)) ∧
  ∃ k results conn, receiveMany sock k ⟨frames.flatMap Frame.encode, script⟩ = some (results, conn) ∧
    .endOfStream ∈ results ∧ pdus results = frames.map (Frame.pdu sock)

theorem receiveMany_succ {sock k : ℕ} {conn last : Connection} {results : List Received}
    (ran : receiveMany sock (k + 1) conn = some (results, last)) :
    ∃ result next rest, receivePdu sock conn = some (result, next) ∧
      receiveMany sock k next = some (rest, last) ∧ results = result :: rest := by
  simp only [receiveMany, Option.bind_eq_bind, Option.bind_eq_some_iff] at ran
  obtain ⟨⟨result, next⟩, first, ⟨rest, last'⟩, others, same⟩ := ran
  obtain ⟨rfl, rfl⟩ := Prod.mk.inj (Option.some.inj same)
  exact ⟨result, next, rest, first, others, rfl⟩

/-- A call on a stream with a frame in front fails before it has seen the header, or goes on to
read the frame. -/
theorem receivePdu_cases (sock : ℕ) (frame : Frame) (rest : Bytes) (script : List RecvChoice) :
    (∃ script', receivePdu sock ⟨frame.encode ++ rest, script⟩ =
        some (.null, ⟨frame.encode ++ rest, script'⟩) ∧
      afterPeeks script' = afterPeeks script ∧ script'.length < script.length) ∨
    receivePdu sock ⟨frame.encode ++ rest, script⟩ =
      readExactly sock frame.opCode ⟨frame.encode ++ rest, afterPeeks script⟩ := by
  obtain ⟨a, b, c, body, encoded⟩ := frame.encode_eq
  simp only [encoded, List.cons_append]
  have enough : HEADERSIZE ≤ (frame.opCode :: a :: b :: c :: (body ++ rest)).length := by
    simp only [List.length_cons, HEADERSIZE]
    omega
  induction script with
  | nil =>
    right
    simp only [receivePdu, peekOpCode, if_pos enough, Option.bind_eq_bind, Option.bind_some, afterPeeks]
  | cons choice script ih =>
    cases choice with
    | fail => exact Or.inl ⟨script, rfl, rfl, Nat.lt_succ_self _⟩
    | deliver limit =>
      by_cases full : HEADERSIZE ≤ limit + 1
      · right
        simp only [receivePdu, peekOpCode, afterPeeks, if_pos full,
          if_neg (not_lt.mpr (le_min full enough)), Option.bind_eq_bind, Option.bind_some]
      · have short : min (limit + 1) (frame.opCode :: a :: b :: c :: (body ++ rest)).length <
          HEADERSIZE := lt_of_le_of_lt (min_le_left ..) (not_le.mp full)
        simp only [receivePdu, peekOpCode, afterPeeks, if_pos short, if_neg full] at ih ⊢
        refine ih.imp ?_ id
        rintro ⟨script', failed, same, fewer⟩
        exact ⟨script', failed, same, fewer.trans (Nat.lt_succ_self _)⟩

/-- At the end of the stream no PDU is returned and nothing appears. -/
theorem receivePdu_ended (sock : ℕ) (script : List RecvChoice) :
    ∃ script', receivePdu sock ⟨[], script⟩ = some (.null, ⟨[], script'⟩) ∧
        script'.length < script.length ∨
      receivePdu sock ⟨[], script⟩ = some (.endOfStream, ⟨[], script'⟩) := by
  rcases script with _ | ⟨_ | _, script⟩
  · exact ⟨[], Or.inr rfl⟩
  · exact ⟨script, Or.inr rfl⟩
  · exact ⟨script, Or.inl ⟨rfl, Nat.lt_succ_self _⟩⟩

section Sufficient

variable {sock : ℕ}

theorem pdus_prefix {frames : List Frame} {script : List RecvChoice} (uncut : Uncut frames script)
    {k : ℕ} {results : List Received} {conn : Connection}
    (ran : receiveMany sock k ⟨frames.flatMap Frame.encode, script⟩ = some (results, conn)) :
    pdus results <+: frames.map (Frame.pdu sock) := by
  induction k generalizing frames script results with
  | zero =>
    obtain rfl : [] = results := (Prod.mk.inj (Option.some.inj ran)).1
    exact List.nil_prefix
  | succ k ih =>
    obtain ⟨result, next, rest, first, others, rfl⟩ := receiveMany_succ ran
    cases frames with
    | nil =>
      obtain ⟨script', ⟨ended, -⟩ | ended⟩ := receivePdu_ended sock script
      all_goals
        obtain ⟨rfl, rfl⟩ := Prod.mk.inj (Option.some.inj (first.symm.trans ended))
        have stillUncut : Uncut [] script' := trivial
        have inOrder := ih stillUncut others
        exact inOrder
    | cons frame frames =>
      obtain ⟨script', full, uncutRest⟩ := uncut
      rcases receivePdu_cases sock frame (frames.flatMap Frame.encode) script with
        ⟨retry, failed, same, -⟩ | read
      · obtain ⟨rfl, rfl⟩ := Prod.mk.inj (Option.some.inj (first.symm.trans failed))
        have stillUncut : Uncut (frame :: frames) retry := ⟨script', same ▸ full, uncutRest⟩
        have inOrder := ih stillUncut others
        exact inOrder
      · rw [readExactly_frame sock frame _ full] at read
        obtain ⟨rfl, rfl⟩ := Prod.mk.inj (Option.some.inj (first.symm.trans read))
        exact (List.cons_prefix_cons).mpr ⟨rfl, ih uncutRest others⟩

/-- One more call in front of a session. -/
theorem receiveMany_cons {k : ℕ} {conn next last : Connection} {result : Received}
    {results : List Received} (first : receivePdu sock conn = some (result, next))
    (others : receiveMany sock k next = some (results, last)) :
    receiveMany sock (k + 1) conn = some (result :: results, last) := by
  simp only [receiveMany, first, others, Option.bind_eq_bind, Option.bind_some]

theorem session_ended (script : List RecvChoice) : ∃ k results conn,
    receiveMany sock k ⟨[], script⟩ = some (results, conn) ∧ .endOfStream ∈ results ∧
      pdus results = [] := by
  induction script with
  | nil => exact ⟨1, [.endOfStream], ⟨[], []⟩, rfl, by simp, rfl⟩
  | cons choice script ih =>
    cases choice with
    | deliver limit => exact ⟨1, [.endOfStream], ⟨[], script⟩, rfl, by simp, rfl⟩
    | fail =>
      obtain ⟨k, results, conn, others, ended, nothing⟩ := ih
      exact ⟨k + 1, .null :: results, conn, receiveMany_cons rfl others, by simp [ended], nothing⟩

/-- An uncut stream is decoded to its end. -/
theorem session_complete {frames : List Frame} {script : List RecvChoice}
    (uncut : Uncut frames script) : ∃ k results conn,
      receiveMany sock k ⟨frames.flatMap Frame.encode, script⟩ = some (results, conn) ∧
        .endOfStream ∈ results ∧ pdus results = frames.map (Frame.pdu sock) := by
  induction frames generalizing script with
  | nil => exact session_ended script
  | cons frame frames ih =>
    obtain ⟨script', full, uncutRest⟩ := uncut
    obtain ⟨k, results, conn, others, ended, decoded⟩ := ih uncutRest
    have read := readExactly_frame sock frame (frames.flatMap Frame.encode) full
    -- failures before the header only lengthen the session
    induction h : script.length using Nat.strong_induction_on generalizing script with
    | _ n again =>
      rcases receivePdu_cases sock frame (frames.flatMap Frame.encode) script with
        ⟨retry, failed, same, fewer⟩ | direct
      · obtain ⟨k, results, conn, others, ended, decoded⟩ :=
          again retry.length (h ▸ fewer) (same ▸ full) (same ▸ read) rfl
        exact ⟨k + 1, .null :: results, conn, receiveMany_cons failed others, by simp [ended], decoded⟩
      · exact ⟨k + 1, _, conn, receiveMany_cons (direct.trans read) others, by simp [ended],
          congrArg (frame.pdu sock :: ·) decoded⟩

end Sufficient

theorem faithful_of_uncut (sock : ℕ) {frames : List Frame} {script : List RecvChoice}
    (uncut : Uncut frames script) : Faithful sock frames script :=
  ⟨fun _ _ _ ran => pdus_prefix uncut ran, session_complete uncut⟩

/-- The bytes that loops consume when they are answered in full. -/
def wireSize (loops : List RecvLoop) : ℕ :=
  (loops.map fun
    | .peek => 0
    | .take asked => asked).sum

/-- Loops that took a connection from `conn` to `next` consumed at least what they asked for, and
exactly that only if no call was cut short. -/
structure Spent (loops : List RecvLoop) (conn next : Connection) : Prop where
  clean : NoFail next.script
  atLeast : next.pending.length + wireSize loops ≤ conn.pending.length
  exact : conn.pending.length ≤ next.pending.length + wireSize loops →
    answered loops conn.script = some next.script ∧
      next.pending = conn.pending.drop (wireSize loops)

theorem answered_append (first second : List RecvLoop) (script : List RecvChoice) :
    answered (first ++ second) script = (answered first script).bind (answered second) := by
  induction first generalizing script with
  | nil => rfl
  | cons loop first ih =>
    cases loop <;> simp only [List.cons_append, answered, Option.bind_assoc, ih]

theorem wireSize_append (first second : List RecvLoop) :
    wireSize (first ++ second) = wireSize first + wireSize second := by
  simp [wireSize]

theorem Spent.append {first second : List RecvLoop} {conn mid next : Connection}
    (left : Spent first conn mid) (right : Spent second mid next) :
    Spent (first ++ second) conn next := by
  have leftLeast := left.atLeast
  have rightLeast := right.atLeast
  refine ⟨right.clean, ?_, ?_⟩
  · rw [wireSize_append]
    omega
  · intro tight
    rw [wireSize_append] at tight ⊢
    obtain ⟨leftFull, leftPending⟩ := left.exact (by omega)
    obtain ⟨rightFull, rightPending⟩ := right.exact (by omega)
    refine ⟨by rw [answered_append, leftFull, Option.bind_some, rightFull], ?_⟩
    rw [rightPending, leftPending, List.drop_drop]

/-- The loops behind a PDU, from what the PDU says. -/
def Pdu.loops (pdu : Pdu) : List RecvLoop :=
  if pdu.opCode = INSERT then [.peek, .take pdu.dataBytes]
  else if pdu.opCode = JOIN ∨ pdu.opCode = KERNEL then [.take HEADERSIZE, .take pdu.dataBytes]
  else if pdu.opCode = QUIT then [.take HEADERSIZE]
  else [.take pdu.dataBytes]

theorem Frame.wireSize_loops (frame : Frame) : wireSize frame.loops = frame.encode.length := by
  cases frame <;>
    simp_all [wireSize, Frame.loops, Frame.encode, HEADERSIZE, KEY_SIZE] <;> omega

theorem Frame.pdu_loops (sock : ℕ) (frame : Frame) : (frame.pdu sock).loops = frame.loops := by
  have size := frame.wireSize_loops
  cases frame with
  | init => rfl
  | insert => exact congrArg (fun n => [RecvLoop.peek, .take n]) (size.symm.trans (by simp [wireSize, loops]))
  | get => exact congrArg (fun n => [RecvLoop.take n]) size.symm
  | delete => exact congrArg (fun n => [RecvLoop.take n]) size.symm
  | join => rfl
  | kernel => rfl
  | quit => rfl

section Necessary

variable {asked : ℕ} {script : List RecvChoice} {pending buffer out : Bytes} {next : Connection}

theorem NoFail.tail {choice : RecvChoice} (clean : NoFail (choice :: script)) : NoFail script :=
  fun failing => clean (List.mem_cons_of_mem _ failing)

theorem readLoop_spent (positive : asked ≠ 0) (clean : NoFail script)
    (ran : readLoop asked false script pending buffer = some (out, next)) :
    Spent [.take asked] ⟨pending, script⟩ next := by
  have size : wireSize [.take asked] = asked := by simp [wireSize]
  induction script generalizing pending buffer with
  | nil =>
    simp only [readLoop, Option.ite_none_right_eq_some, Option.some.injEq] at ran
    obtain ⟨enough, same⟩ := ran
    obtain ⟨-, rfl⟩ := Prod.mk.inj same
    refine ⟨clean, ?_, fun _ => ⟨by simp [answered, takeFull, positive], by simp [remaining, size]⟩⟩
    simp only [remaining, size, Bool.false_eq_true, if_false, List.length_drop]
    omega
  | cons choice script ih =>
    cases choice with
    | fail => simp [NoFail] at clean
    | deliver limit =>
      have delivered : (pending.take (min asked (limit + 1))).length =
        min (min asked (limit + 1)) pending.length := List.length_take
      simp only [readLoop, remaining, Bool.false_eq_true, if_false] at ran
      split at ran
      · -- a short call is followed by one that asks for everything again
        have later := ih clean.tail ran
        have least := later.atLeast
        simp only [size, List.length_drop] at least ⊢
        refine ⟨later.clean, ?_, fun tight => ?_⟩
        · change next.pending.length + wireSize [.take asked] ≤ pending.length
          omega
        · change pending.length ≤ next.pending.length + wireSize [.take asked] at tight
          omega
      · rename_i whole
        obtain ⟨-, rfl⟩ := Prod.mk.inj (Option.some.inj ran)
        have enough : asked ≤ limit + 1 := by omega
        have width : (pending.take (min asked (limit + 1))).length = asked := by omega
        refine ⟨clean.tail, ?_, fun _ => ⟨?_, by rw [size, width]⟩⟩
        · simp only [size, List.length_drop]
          omega
        · simp [answered, takeFull, positive, enough]

theorem readInto_spent {conn : Connection} (clean : NoFail conn.script)
    (ran : readInto asked false buffer conn = some (out, next)) :
    Spent [.take asked] conn next := by
  by_cases empty : asked = 0
  · simp only [readInto, empty, if_true, Option.some.injEq] at ran
    obtain ⟨-, rfl⟩ := Prod.mk.inj ran
    refine ⟨clean, by simp [wireSize, empty], fun _ => ?_⟩
    simp [answered, takeFull, wireSize, empty]
  · rw [readInto, if_neg empty] at ran
    exact readLoop_spent empty clean ran

theorem peekLoop_spent (clean : NoFail script)
    (ran : readLoop HEADERSIZE true script pending buffer = some (out, next)) :
    HEADERSIZE ≤ pending.length ∧ Spent [.peek] ⟨pending, script⟩ next := by
  induction script generalizing buffer with
  | nil =>
    simp only [readLoop, Option.ite_none_right_eq_some, Option.some.injEq] at ran
    obtain ⟨-, rfl⟩ := Prod.mk.inj ran.2
    exact ⟨ran.1, clean, le_rfl, fun _ => ⟨rfl, rfl⟩⟩
  | cons choice script ih =>
    cases choice with
    | fail => simp [NoFail] at clean
    | deliver limit =>
      have delivered : (pending.take (min HEADERSIZE (limit + 1))).length =
        min (min HEADERSIZE (limit + 1)) pending.length := List.length_take
      simp only [readLoop, remaining, if_true] at ran
      split at ran
      · rename_i short
        obtain ⟨enough, later⟩ := ih clean.tail ran
        have cut : ¬HEADERSIZE ≤ limit + 1 := by omega
        refine ⟨enough, later.clean, later.atLeast, fun tight => ⟨?_, (later.exact tight).2⟩⟩
        simpa [answered, peekFull, cut] using (later.exact tight).1
      · rename_i whole
        obtain ⟨-, rfl⟩ := Prod.mk.inj (Option.some.inj ran)
        have enough : HEADERSIZE ≤ limit + 1 := by omega
        exact ⟨by omega, clean.tail, le_rfl, fun _ => ⟨by simp [answered, peekFull, enough], rfl⟩⟩

variable {conn : Connection} {pdu : Pdu}

theorem readInit_spent (clean : NoFail conn.script) (ran : readInit conn = some (pdu, next)) :
    Spent pdu.loops conn next := by
  simp only [readInit, Option.bind_eq_bind, Option.bind_eq_some_iff] at ran
  obtain ⟨⟨header, mid⟩, read, data, copied, same⟩ := ran
  obtain ⟨rfl, rfl⟩ := Prod.mk.inj (Option.some.inj same)
  exact readInto_spent clean read

theorem readQuit_spent {sock : ℕ} (clean : NoFail conn.script)
    (ran : readQuit sock conn = some (pdu, next)) : Spent pdu.loops conn next := by
  simp only [readQuit, Option.bind_eq_bind, Option.bind_eq_some_iff] at ran
  obtain ⟨⟨header, mid⟩, read, same⟩ := ran
  obtain ⟨rfl, rfl⟩ := Prod.mk.inj (Option.some.inj same)
  exact readInto_spent clean read

theorem readKeyRequest_spent {opCode : Byte} (request : opCode = GET ∨ opCode = DELETE)
    (clean : NoFail conn.script) (ran : readKeyRequest opCode conn = some (pdu, next)) :
    Spent pdu.loops conn next := by
  simp only [readKeyRequest, Option.bind_eq_bind, Option.bind_eq_some_iff] at ran
  obtain ⟨⟨body, mid⟩, read, same⟩ := ran
  obtain ⟨rfl, rfl⟩ := Prod.mk.inj (Option.some.inj same)
  rcases request with rfl | rfl <;> exact readInto_spent clean read

theorem readJoin_spent (clean : NoFail conn.script) (ran : readJoin conn = some (pdu, next)) :
    Spent pdu.loops conn next := by
  simp only [readJoin, Option.bind_eq_bind, Option.bind_eq_some_iff] at ran
  obtain ⟨⟨header, mid⟩, read, nameLen, length, ⟨name, last⟩, body, same⟩ := ran
  obtain ⟨rfl, rfl⟩ := Prod.mk.inj (Option.some.inj same)
  have headed := readInto_spent clean read
  exact headed.append (readInto_spent headed.clean body)

theorem readKernel_spent (clean : NoFail conn.script) (ran : readKernel conn = some (pdu, next)) :
    Spent pdu.loops conn next := by
  simp only [readKernel, Option.bind_eq_bind, Option.bind_eq_some_iff] at ran
  obtain ⟨⟨header, mid⟩, read, msgSize, length, ⟨data, last⟩, body, same⟩ := ran
  obtain ⟨rfl, rfl⟩ := Prod.mk.inj (Option.some.inj same)
  have headed := readInto_spent clean read
  exact headed.append (readInto_spent headed.clean body)

theorem readInsert_spent (clean : NoFail conn.script) (ran : readInsert conn = some (pdu, next)) :
    Spent pdu.loops conn next := by
  simp only [readInsert, Option.bind_eq_bind, Option.bind_eq_some_iff] at ran
  obtain ⟨⟨header, mid⟩, read, messLen, length, ⟨data, last⟩, body, same⟩ := ran
  obtain ⟨rfl, rfl⟩ := Prod.mk.inj (Option.some.inj same)
  rw [readInto, if_neg (by decide)] at read
  have headed := (peekLoop_spent clean read).2
  exact headed.append (readInto_spent headed.clean body)

/-- What the reader of a PDU took from the connection. -/
theorem readExactly_spent {sock : ℕ} {opCode : Byte} {result : Received} (clean : NoFail conn.script)
    (ran : readExactly sock opCode conn = some (result, next)) :
    result = .null ∧ next = conn ∨ ∃ pdu, result = .pdu pdu ∧ Spent pdu.loops conn next := by
  rcases readExactly_cases ran with none | ⟨pdu, rfl, read | read | read | read | read | read | read⟩
  · exact Or.inl none
  · exact Or.inr ⟨pdu, rfl, readInit_spent clean read⟩
  · exact Or.inr ⟨pdu, rfl, readInsert_spent clean read⟩
  · exact Or.inr ⟨pdu, rfl, readKeyRequest_spent (Or.inl rfl) clean read⟩
  · exact Or.inr ⟨pdu, rfl, readKeyRequest_spent (Or.inr rfl) clean read⟩
  · exact Or.inr ⟨pdu, rfl, readKernel_spent clean read⟩
  · exact Or.inr ⟨pdu, rfl, readJoin_spent clean read⟩
  · exact Or.inr ⟨pdu, rfl, readQuit_spent clean read⟩

/-- Peeking consumes nothing. -/
theorem peekOpCode_pending {peeked : Byte ⊕ Received} (clean : NoFail script)
    (ran : peekOpCode script pending = some (peeked, next)) :
    next.pending = pending ∧ NoFail next.script := by
  cases pending with
  | nil =>
    rcases script with _ | ⟨_ | _, script⟩
    · obtain ⟨rfl, rfl⟩ := Prod.mk.inj (Option.some.inj ran)
      exact ⟨rfl, clean⟩
    · obtain ⟨rfl, rfl⟩ := Prod.mk.inj (Option.some.inj ran)
      exact ⟨rfl, clean.tail⟩
    · simp [NoFail] at clean
  | cons b pending =>
    induction script with
    | nil =>
      simp only [peekOpCode, Option.ite_none_right_eq_some, Option.some.injEq] at ran
      obtain ⟨rfl, rfl⟩ := Prod.mk.inj ran.2
      exact ⟨rfl, clean⟩
    | cons choice script ih =>
      cases choice with
      | fail => simp [NoFail] at clean
      | deliver limit =>
        rw [peekOpCode] at ran
        split at ran
        · exact ih clean.tail ran
        · obtain ⟨rfl, rfl⟩ := Prod.mk.inj (Option.some.inj ran)
          exact ⟨rfl, clean.tail⟩

/-- The bytes that one result stands for were consumed. -/
theorem receivePdu_spent {sock : ℕ} {result : Received} (clean : NoFail conn.script)
    (ran : receivePdu sock conn = some (result, next)) :
    NoFail next.script ∧
      next.pending.length + ((pdus [result]).map fun pdu => wireSize pdu.loops).sum ≤
        conn.pending.length := by
  simp only [receivePdu, Option.bind_eq_bind, Option.bind_eq_some_iff] at ran
  obtain ⟨⟨peeked, mid⟩, peek, read⟩ := ran
  obtain ⟨same, cleanMid⟩ := peekOpCode_pending clean peek
  rw [← same]
  rcases peeked with opCode | answer
  · rcases readExactly_spent cleanMid read with ⟨rfl, rfl⟩ | ⟨pdu, rfl, spent⟩
    · exact ⟨cleanMid, by simp [pdus]⟩
    · exact ⟨spent.clean, by simpa [pdus] using spent.atLeast⟩
  · obtain ⟨rfl, rfl⟩ := Prod.mk.inj (Option.some.inj read)
    cases answer with
    | pdu value => exact absurd rfl (peekOpCode_not_pdu peek value)
    | endOfStream => exact ⟨cleanMid, by simp [pdus]⟩
    | null => exact ⟨cleanMid, by simp [pdus]⟩

/-- The bytes that the PDUs of a session stand for were all consumed. -/
theorem receiveMany_spent {sock k : ℕ} {results : List Received} (clean : NoFail conn.script)
    (ran : receiveMany sock k conn = some (results, next)) :
    next.pending.length + ((pdus results).map fun pdu => wireSize pdu.loops).sum ≤
      conn.pending.length := by
  induction k generalizing conn results with
  | zero =>
    obtain ⟨rfl, rfl⟩ := Prod.mk.inj (Option.some.inj ran)
    simp [pdus]
  | succ k ih =>
    obtain ⟨result, mid, rest, first, others, rfl⟩ := receiveMany_succ ran
    obtain ⟨cleanMid, spent⟩ := receivePdu_spent clean first
    have later := ih cleanMid others
    have split : pdus (result :: rest) = pdus [result] ++ pdus rest := by cases result <;> rfl
    rw [split, List.map_append, List.sum_append]
    omega

theorem NoFail.afterPeeks (clean : NoFail script) : NoFail (afterPeeks script) := by
  induction script with
  | nil => exact clean
  | cons choice script ih =>
    cases choice with
    | fail => simp [NoFail] at clean
    | deliver limit =>
      rw [Resources.afterPeeks]
      split
      · exact clean.tail
      · exact ih clean.tail

theorem wireSize_frames (sock : ℕ) (frames : List Frame) :
    ((frames.map (Frame.pdu sock)).map fun pdu => wireSize pdu.loops).sum =
      (frames.flatMap Frame.encode).length := by
  simp [List.length_flatMap, Function.comp_def, Frame.pdu_loops, Frame.wireSize_loops]

/-- The opcode of a frame has a reader. -/
theorem readExactly_opCode (sock : ℕ) (frame : Frame) (conn : Connection) :
    ∃ answer, readExactly sock frame.opCode conn = received answer := by
  cases frame <;> exact ⟨_, rfl⟩

/-- A session without failures that returns the PDUs of the stream was not cut: the PDUs behind a
frame need all the bytes behind it. -/
theorem uncut_of_pdus {sock k : ℕ} {frames : List Frame} {results : List Received}
    (clean : NoFail script)
    (ran : receiveMany sock k ⟨frames.flatMap Frame.encode, script⟩ = some (results, next))
    (decoded : pdus results = frames.map (Frame.pdu sock)) : Uncut frames script := by
  induction k generalizing frames script results with
  | zero =>
    obtain rfl : [] = results := (Prod.mk.inj (Option.some.inj ran)).1
    obtain rfl : frames = [] := List.map_eq_nil_iff.mp decoded.symm
    trivial
  | succ k ih =>
    obtain ⟨result, mid, rest, first, others, rfl⟩ := receiveMany_succ ran
    cases frames with
    | nil => trivial
    | cons frame frames =>
      have cleanMid := (receivePdu_spent clean first).1
      rcases receivePdu_cases sock frame (frames.flatMap Frame.encode) script with
        ⟨retry, failed, same, -⟩ | read
      · obtain ⟨rfl, rfl⟩ := Prod.mk.inj (Option.some.inj (first.symm.trans failed))
        have uncut : Uncut (frame :: frames) retry := ih cleanMid others decoded
        simpa only [Uncut, same] using uncut
      · obtain ⟨answer, reader⟩ := readExactly_opCode sock frame
          ⟨frame.encode ++ frames.flatMap Frame.encode, afterPeeks script⟩
        have took := read.symm.trans first
        obtain ⟨pdu, rfl⟩ : ∃ pdu, result = .pdu pdu := by
          obtain ⟨⟨pdu, last⟩, -, same⟩ := Option.map_eq_some_iff.mp (reader.symm.trans took)
          exact ⟨pdu, (Prod.mk.inj same).1.symm⟩
        obtain ⟨rfl, decodedRest⟩ : pdu = frame.pdu sock ∧ pdus rest = frames.map (Frame.pdu sock) :=
          List.cons.inj decoded
        obtain ⟨absurd, -⟩ | ⟨_, same, spent⟩ := readExactly_spent clean.afterPeeks took
        · cases absurd
        obtain rfl := Received.pdu.inj same
        have needed := receiveMany_spent cleanMid others
        rw [decodedRest, wireSize_frames] at needed
        rw [Frame.pdu_loops] at spent
        obtain ⟨full, pending⟩ := spent.exact (by
          rw [Frame.wireSize_loops]
          dsimp only
          rw [List.length_append]
          omega)
        have remainder : mid.pending = frames.flatMap Frame.encode := by
          rw [pending, Frame.wireSize_loops, List.drop_left]
        obtain ⟨left, script'⟩ := mid
        obtain rfl : left = frames.flatMap Frame.encode := remainder
        exact ⟨script', full, ih cleanMid others decodedRest⟩

end Necessary

/-- Streams are decoded faithfully when their scripts leave the readers' loops uncut, and as long
as no call fails only then. -/
theorem uncut_decoding (sock : ℕ) (frames : List Frame) (script : List RecvChoice) :
    (Uncut frames script → Faithful sock frames script) ∧
      (NoFail script → (Faithful sock frames script ↔ Uncut frames script)) := by
  refine ⟨faithful_of_uncut sock, fun clean => ⟨fun faithful => ?_, faithful_of_uncut sock⟩⟩
  obtain ⟨k, results, conn, ran, -, decoded⟩ := faithful.2
  exact uncut_of_pdus clean ran decoded

theorem uncut_decoding_two :
    Faithful 5 [.init 0 0 0, .quit 0 0 0] [.deliver 1, .deliver 3, .deliver 3, .fail] ∧
      ¬Faithful 5 [.init 0 0 0, .quit 0 0 0] [.deliver 3, .deliver 1] := by
  refine ⟨(uncut_decoding 5 _ _).1 ⟨[.fail], rfl, [], rfl, trivial⟩, fun faithful => ?_⟩
  have uncut := ((uncut_decoding 5 _ [.deliver 3, .deliver 1]).2 (by simp [NoFail])).mp faithful
  obtain ⟨script', full, -⟩ := uncut
  cases full

/-- An INIT header that arrives in two pieces is overwritten by the next frame. -/
theorem cut_header_not_faithful :
    ¬∀ sock frames script, Faithful sock frames script := by
  intro faithful
  have ran : receiveMany 5 1 ⟨[Frame.init 0 0 0, .quit 0 0 0].flatMap Frame.encode,
      [.deliver 3, .deliver 1]⟩ =
        some ([.pdu ⟨INIT, 4, .bytes [0, 0, QUIT, 0]⟩], ⟨[0, 0], []⟩) := by decide
  have returned := (faithful _ _ _).1 _ _ _ ran
  revert returned
  decide

end Operativsystem.Resources
