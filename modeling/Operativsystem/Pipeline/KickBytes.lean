import Operativsystem.Client.ClientListen
import Operativsystem.Pipeline.MapMachine

/-! # Which frames kick a client

`client_listen` compares the first byte of the data with QUIT. The data of a QUIT frame is a record that
starts with its opcode, but that of a KERNEL frame is the bare payload: a stored value whose first byte is
that of QUIT kicks every client that receives it.
-/

namespace Operativsystem.Pipeline

open Memory Resources Machine User Client Kernel

/-- What the server sends to a client: an answer of the kernel with a value that a client has stored, or
QUIT. -/
inductive ServerFrame where
  | response (value : Bytes) (unwritten : Byte) (nonempty : value ≠ [])
    (fits : value.length + HEADERSIZE + KEY_SIZE ≤ MAX_PAYLOAD)
  | quit

/-- The bytes that the server sends, and the payload that a message of the kernel lands in. -/
def serverSends : Payload → List ServerFrame → Option Bytes
  | _, [] => some []
  | nlhUserReceive, .response value unwritten _ _ :: later => do
    let message ← pduToBufferKernel (.smooth unwritten) ⟨KERNEL, value.length, .bytes value⟩
    let nlhUserReceive := nlhUserReceive.recvmsg message
    let pduReceive ← readExactlyFromKernel nlhUserReceive
    let sent ← sendPdu pduReceive
    let rest ← serverSends nlhUserReceive later
    some (sent ++ rest)
  | nlhUserReceive, .quit :: later => do
    let quit ← createQuitPdu
    let sent ← sendPdu quit
    let rest ← serverSends nlhUserReceive later
    some (sent ++ rest)

/-- The frame on the wire. -/
def ServerFrame.frame : ServerFrame → Frame
  | .response value unwritten _ fits =>
    .kernel unwritten value (by
      simp only [HEADERSIZE, KEY_SIZE, MAX_PAYLOAD] at fits ⊢
      omega)
  | .quit => .quit 0 0 0

/-- Each call of `receive_pdu` gets its frame: no call of its peeks fails, and the loops of the reader are
answered in full. -/
def Delivered : List Frame → List RecvChoice → Prop
  | [], _ => True
  | frame :: frames, script =>
    ∃ peeked left, peekFull script = some peeked ∧ answered frame.loops peeked = some left ∧ Delivered frames left

/-- In every run, the turn that receives a frame leaves the loop as kicked if and only if it is a QUIT frame. -/
def OnlyQuitKicks (clientServer : ℕ) (nlhUserReceive : Payload) (frames : List ServerFrame) : Prop :=
  ∀ stream, serverSends nlhUserReceive frames = some stream →
    ∀ script, Delivered (frames.map ServerFrame.frame) script →
      ∀ calls c c', run (clientListen clientServer) (.start stream script) calls = some c →
        clientListen clientServer c () = some c' →
          ∀ f, frames[c.results.length]? = some f → (c'.listen = .kicked ↔ f = .quit)

/-- No value that is sent before the first QUIT frame starts with the byte of QUIT. -/
def KickFree (frames : List ServerFrame) : Prop :=
  ∀ front value unwritten nonempty fits rest, frames = front ++ .response value unwritten nonempty fits :: rest →
    .quit ∉ front → value.head? ≠ some QUIT

/-- The first byte of the data is that of QUIT. -/
def ServerFrame.Kicks : ServerFrame → Prop
  | .response value _ _ _ => value.head? = some QUIT
  | .quit => True

section Sending

/-- The server passes on the frames of the kernel, whatever its payload holds. -/
theorem serverSends_eq (nlhUserReceive : Payload) (frames : List ServerFrame) :
    serverSends nlhUserReceive frames = some ((frames.map ServerFrame.frame).flatMap Frame.encode) := by
  induction frames generalizing nlhUserReceive with
  | nil => rfl
  | cons f later ih =>
    cases f with
    | response value unwritten nonempty fits =>
      have message : pduToBufferKernel (.smooth unwritten) ⟨KERNEL, value.length, .bytes value⟩ =
          some (answerFrame unwritten value) := by
        simp [pduToBufferKernel, Outcomes.smooth, answerFrame, le16Bytes]
      have short : value.length + HEADERSIZE ≤ MAX_PAYLOAD := by omega
      have relayed := readExactlyFromKernel_eq nlhUserReceive unwritten short
      have sent := sendPdu_whole KERNEL (answerFrame unwritten value)
      rw [answerFrame_length] at sent
      simp only [serverSends, message, relayed, sent, ih, Option.bind_eq_bind, Option.bind_some]
      rfl
    | quit =>
      have sent : createQuitPdu.bind sendPdu = some [QUIT, 0, 0, 0] := rfl
      obtain ⟨quit, created, sent⟩ := Option.bind_eq_some_iff.mp sent
      simp only [serverSends, created, sent, ih, Option.bind_eq_bind, Option.bind_some]
      rfl

theorem delivered_nil (frames : List Frame) : Delivered frames [] := by
  induction frames with
  | nil => trivial
  | cons frame frames ih => exact ⟨[], [], rfl, answered_nil _, ih⟩

end Sending

section Receiving

variable {clientServer : ℕ} {frames front rest : List ServerFrame} {f : ServerFrame} {c c' : ClientListener}

theorem receivePdu_delivered (sock : ℕ) (frame : Frame) (later : Bytes) {script peeked left : List RecvChoice}
    (full : peekFull script = some peeked) (given : answered frame.loops peeked = some left) :
    receivePdu sock ⟨frame.encode ++ later, script⟩ = some (.pdu (frame.pdu sock), ⟨later, left⟩) := by
  obtain ⟨a, b, c, body, encoded⟩ := frame.encode_eq
  have read := readExactly_frame sock frame later given
  have head : (frame.encode ++ later).head? = some frame.opCode := by rw [encoded]; rfl
  have enough : HEADERSIZE ≤ (frame.encode ++ later).length := by
    simp only [encoded, List.cons_append, List.length_cons, HEADERSIZE]
    omega
  simp only [receivePdu, peekOpCode_full full head enough, Option.bind_eq_bind, Option.bind_some, read]

/-- The byte that the client looks at. -/
theorem firstByte_frame (f : ServerFrame) (sock : ℕ) :
    ∃ opCode, firstByte (f.frame.pdu sock).data = some opCode ∧ (opCode = QUIT ↔ f.Kicks) := by
  cases f with
  | response value unwritten nonempty fits =>
    obtain ⟨b, value, rfl⟩ := List.exists_cons_of_ne_nil nonempty
    exact ⟨b, rfl, by simp [ServerFrame.Kicks]⟩
  | quit => exact ⟨QUIT, rfl, by simp [ServerFrame.Kicks]⟩

/-- While the client is in its loop, it has the frames before it that it has not received, and none of the
others has kicked it. -/
structure Awaits (frames : List ServerFrame) (c : ClientListener) : Prop where
  unread : c.conn.pending = ((frames.drop c.results.length).map ServerFrame.frame).flatMap Frame.encode
  delivered : Delivered ((frames.drop c.results.length).map ServerFrame.frame) c.conn.script
  unkicked : ∀ g ∈ frames.take c.results.length, ¬g.Kicks

/-- The turn that receives a frame. -/
theorem Awaits.turn (clientServer : ℕ) (awaits : Awaits frames c) (looping : c.listen = .looping)
    (next : frames[c.results.length]? = some f) :
    ∃ c', clientListen clientServer c () = some c' ∧ c'.results.length = c.results.length + 1 ∧
      (c'.listen = .kicked ↔ f.Kicks) ∧ (¬f.Kicks → c'.listen = .looping ∧ Awaits frames c') := by
  obtain ⟨unread, delivered, unkicked⟩ := awaits
  obtain ⟨inside, rfl⟩ := List.getElem?_eq_some_iff.mp next
  have split := List.drop_eq_getElem_cons inside
  rw [split, List.map_cons] at unread delivered
  obtain ⟨peeked, left, full, given, delivered⟩ := delivered
  rw [List.flatMap_cons] at unread
  have received := receivePdu_delivered clientServer frames[c.results.length].frame
    (((frames.drop (c.results.length + 1)).map ServerFrame.frame).flatMap Frame.encode) full given
  rw [← unread] at received
  obtain ⟨opCode, read, kicks⟩ := firstByte_frame frames[c.results.length] clientServer
  simp only [clientListen, if_pos looping, ClientListener.hear, received, read, Option.bind_eq_bind,
    Option.bind_some]
  by_cases quit : opCode = QUIT
  · simp only [if_pos quit]
    exact ⟨_, rfl, by simp, by simp [← kicks, quit], fun spared => absurd (kicks.mp quit) spared⟩
  · have spared := mt kicks.mpr quit
    simp only [if_neg quit]
    refine ⟨_, rfl, by simp, by simp [spared], fun _ => ⟨rfl, ?_, ?_, ?_⟩⟩
    · simp
    · simpa using delivered
    · intro g member
      rw [List.length_append, List.length_singleton, List.take_add_one, next] at member
      rcases List.mem_append.mp member with old | new
      · exact unkicked g old
      · obtain rfl : g = _ := by simpa using new
        exact spared

/-- As long as the client is in its loop it awaits the other frames, or has received something after them. -/
theorem awaits_step (c : ClientListener) (call : Unit) (c' : ClientListener)
    (awaits : c.listen = .looping → c.results.length < frames.length + 1 → Awaits frames c)
    (stepped : clientListen clientServer c call = some c') :
    c'.listen = .looping → c'.results.length < frames.length + 1 → Awaits frames c' := by
  intro looping' few
  obtain ⟨looping, result, conn, -, heard⟩ := clientListen_cases stepped
  have grown : c'.results.length = c.results.length + 1 := by simp [hear_results heard]
  have inside : c.results.length < frames.length := by omega
  obtain ⟨c'', turned, -, kicked, later⟩ :=
    (awaits looping (by omega)).turn clientServer looping (List.getElem?_eq_getElem inside)
  cases turned.symm.trans stepped
  exact (later fun kicks => by simp [kicked.mpr kicks] at looping').2

theorem awaits_start {frames : List ServerFrame} {script : List RecvChoice}
    (delivered : Delivered (frames.map ServerFrame.frame) script) :
    Awaits frames (.start ((frames.map ServerFrame.frame).flatMap Frame.encode) script) :=
  ⟨rfl, delivered, by simp [ClientListener.start]⟩

/-- If only QUIT kicks, the frames before the first QUIT are received one after the other. -/
theorem run_front {nlhUserReceive : Payload} (right : OnlyQuitKicks clientServer nlhUserReceive frames)
    (split : frames = front ++ rest) (noQuit : .quit ∉ front) :
    ∃ c, run (clientListen clientServer) (.start ((frames.map ServerFrame.frame).flatMap Frame.encode) [])
        (List.replicate front.length ()) = some c ∧
      c.results.length = front.length ∧ c.listen = .looping ∧ Awaits frames c := by
  induction front using List.reverseRecOn generalizing rest with
  | nil => exact ⟨_, rfl, rfl, rfl, awaits_start (delivered_nil _)⟩
  | append_singleton front f ih =>
    obtain ⟨c, ran, count, looping, awaits⟩ := @ih (f :: rest) (by simp [split]) (by simp_all)
    have next : frames[c.results.length]? = some f := by simp [split, count]
    obtain ⟨c', turned, grown, kicked, later⟩ := awaits.turn clientServer looping next
    have kept : f ≠ .quit := fun same => noQuit (by simp [same])
    have decided := right _ (serverSends_eq _ _) [] (delivered_nil _) _ c c' ran turned f next
    obtain ⟨looping', awaits'⟩ := later fun kicks => kept (decided.mp (kicked.mpr kicks))
    refine ⟨c', ?_, by simp [grown, count], looping', awaits'⟩
    rw [List.length_append, List.length_singleton, List.replicate_succ', run_append ran, run_cons, turned]
    rfl

end Receiving

/-- Only QUIT kicks a client exactly if no value that is sent before the first QUIT starts with its byte. -/
theorem onlyQuitKicks_iff (clientServer : ℕ) (nlhUserReceive : Payload) (frames : List ServerFrame) :
    OnlyQuitKicks clientServer nlhUserReceive frames ↔ KickFree frames := by
  constructor
  · rintro right front value unwritten nonempty fits rest split noQuit kicks
    obtain ⟨c, ran, count, looping, awaits⟩ := run_front right split noQuit
    have next : frames[c.results.length]? = some (.response value unwritten nonempty fits) := by
      simp [split, count]
    obtain ⟨c', turned, -, kicked, -⟩ := awaits.turn clientServer looping next
    have decided := right _ (serverSends_eq _ _) [] (delivered_nil _) _ c c' ran turned _ next
    cases decided.mp (kicked.mpr kicks)
  · intro free stream sent script delivered calls c c' ran stepped f next
    cases (serverSends_eq nlhUserReceive frames).symm.trans sent
    have looping := (clientListen_cases stepped).1
    obtain ⟨inside, -⟩ := List.getElem?_eq_some_iff.mp next
    have awaits := run_invariant awaits_step (fun _ _ => awaits_start delivered) ran looping (by omega)
    obtain ⟨c'', turned, -, kicked, -⟩ := awaits.turn clientServer looping next
    cases turned.symm.trans stepped
    rw [kicked]
    refine ⟨fun kicks => ?_, fun quit => quit ▸ trivial⟩
    cases f with
    | quit => rfl
    | response value unwritten nonempty fits =>
      have split : frames = frames.take c.results.length ++ .response value unwritten nonempty fits ::
          frames.drop (c.results.length + 1) := by
        rw [← List.getElem?_eq_some_iff.mp next |>.2, ← List.drop_eq_getElem_cons inside, List.take_append_drop]
      have noQuit : .quit ∉ frames.take c.results.length := fun member => awaits.unkicked _ member trivial
      exact absurd kicks (free _ _ _ _ _ _ split noQuit)

/-- The value of one byte 18 is stored, fetched and sent to a client, which takes it for a QUIT. -/
theorem value_kicks :
    let key : Store.Key := ⟨ascii "key1", by decide, by decide⟩
    let value : Store.Value := ⟨[QUIT], by decide, by decide⟩
    let kick : ServerFrame := .response [QUIT] 0 (by decide) (by decide)
    (∃ link stored fetched, initHashtable (.smooth 0) = some link ∧
      exchange (.smooth 0) link ⟨INSERT, 69, .bytes (Store.Request.insert key value).frame⟩ = some stored ∧
      exchange (.smooth 0) stored.1 ⟨GET, 68, .bytes (Store.Request.get key).frame⟩ = some fetched ∧
      sendPdu fetched.2 = some kick.frame.encode) ∧
    ¬OnlyQuitKicks 3 .zeroed [kick] := by
  intro key value kick
  constructor
  · obtain ⟨link, started, serves⟩ := Store.initHashtable_serves 0
    obtain ⟨stored, first, serves⟩ := Store.exchange_request (smooth_usual 0) serves (.insert key value) INSERT []
    obtain ⟨fetched, second, -⟩ := Store.exchange_request (smooth_usual 0) serves (.get key) GET []
    rw [List.append_nil] at first second
    refine ⟨link, _, _, started, first, second, ?_⟩
    rfl
  · intro right
    have turned : clientListen 3 (.start kick.frame.encode []) () =
      some ⟨.kicked, 0, ⟨[], []⟩, [.pdu ⟨KERNEL, 1, .bytes (QUIT :: calloc 8)⟩]⟩ := rfl
    have sent : serverSends .zeroed [kick] = some kick.frame.encode := serverSends_eq _ _
    have decided := right _ sent [] (delivered_nil _) [] _ _ rfl turned kick rfl
    have impossible : kick = .quit := decided.mp rfl
    exact ServerFrame.noConfusion impossible

end Operativsystem.Pipeline
