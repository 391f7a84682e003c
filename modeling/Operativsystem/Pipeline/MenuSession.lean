import Operativsystem.Client.ClientSend
import Operativsystem.Pipeline.MapMachine
import Operativsystem.User.ClientSession

/-! # What the menu sends, and what the server makes of it

What the menu of the client sends is a JOIN, frames of requests and at most one QUIT, whatever is typed and
whenever the server kicks the client. If `recv` delivers what it is asked for, the thread of the server that
reads these bytes never loses its place in them, and it hands over the requests in the order in which they were
typed.
-/

namespace Operativsystem.Pipeline

open Memory Resources Machine Client User Store

/-- The frame of a request that `client_send` builds. -/
def IsRequestFrame (frame : Frame) : Prop := frame.opCode ∈ [INIT, INSERT, GET, DELETE]

/-- The bytes of one `send_pdu` are such a frame. -/
def IsRequestPdu (bytes : Bytes) : Prop := ∃ frame, IsRequestFrame frame ∧ bytes = frame.encode

/-- The bytes are frames of requests, one after the other. -/
def AreRequests (bytes : Bytes) : Prop :=
  ∃ frames : List Frame, (∀ frame ∈ frames, IsRequestFrame frame) ∧ bytes = frames.flatMap Frame.encode

theorem areRequests_flatten {pdus : List Bytes} (requests : ∀ pdu ∈ pdus, IsRequestPdu pdu) :
    AreRequests pdus.flatten := by
  induction pdus with
  | nil => exact ⟨[], nofun, rfl⟩
  | cons pdu pdus ih =>
    obtain ⟨⟨frame, request, rfl⟩, later⟩ := List.forall_mem_cons.mp requests
    obtain ⟨frames, requests', bytes⟩ := ih later
    exact ⟨frame :: frames, List.forall_mem_cons.mpr ⟨request, requests'⟩, by simp [bytes]⟩

/-- So are those that are sent before the socket is shut down. -/
theorem areRequests_beforeShut {pdus : List Bytes} (requests : ∀ pdu ∈ pdus, IsRequestPdu pdu)
    (shutAfter : Option ℕ) : AreRequests (beforeShut shutAfter pdus).flatten := by
  refine areRequests_flatten fun pdu member => requests pdu ?_
  cases shutAfter with
  | none => exact member
  | some count => exact List.mem_of_mem_take member

section Builders

variable {key data1 bytes : Bytes} {pdu : Pdu} {n : ℕ}

/-- Any field that a key request can be built from gives a frame. -/
theorem createKeyBuffer_some {opCode first : Byte} (built : createKeyBuffer opCode ⟨first, key⟩ = some bytes)
    (size : key.length = KEY_SIZE) : (cstr key).length < KEY_SIZE ∧ bytes = keyFrame opCode (cstr key) := by
  have terminated : 0 ∈ key := by
    by_contra endless
    simp only [createKeyBuffer, Option.bind_eq_bind, Option.bind_eq_some_iff] at built
    obtain ⟨header, -, length, measured, -⟩ := built
    rw [(strlen_eq_none_iff key).mpr endless] at measured
    cases measured
  obtain ⟨junk, split⟩ := cstr_split terminated
  have short : (cstr key).length < KEY_SIZE := by
    have lengths := congrArg List.length split
    simp only [List.length_append, List.length_cons] at lengths
    omega
  rw [split, createKeyBuffer_text (cstr_clean key) short.le] at built
  exact ⟨short, (Option.some.inj built).symm⟩

theorem keyFrame_sent {opCode : Byte} (known : opCode = GET ∨ opCode = DELETE) (size : key.length = KEY_SIZE)
    {first : Byte} {action : Bytes} (built : createKeyBuffer opCode ⟨first, key⟩ = some action)
    (sent : sendPdu ⟨USER, HEADERSIZE + KEY_SIZE, .bytes action⟩ = some bytes) : IsRequestPdu bytes := by
  obtain ⟨short, rfl⟩ := createKeyBuffer_some built size
  rw [← keyFrame_length short.le, sendPdu_whole] at sent
  cases sent
  have field := padded_length short.le
  rcases known with rfl | rfl
  · exact ⟨.get 0 0 0 (padded KEY_SIZE (cstr key)) field, by simp [IsRequestFrame, Frame.opCode], rfl⟩
  · exact ⟨.delete 0 0 0 (padded KEY_SIZE (cstr key)) field, by simp [IsRequestFrame, Frame.opCode], rfl⟩

theorem createGetToServer_sent (built : createGetToServer key = some pdu) (sent : sendPdu pdu = some bytes) :
    IsRequestPdu bytes := by
  obtain ⟨keyMember, copied, rest⟩ := Option.bind_eq_some_iff.mp built
  obtain ⟨action, filled, same⟩ := Option.bind_eq_some_iff.mp rest
  cases same
  exact keyFrame_sent (.inl rfl) ((memcpy_length copied).trans (calloc_length _)) filled sent

theorem createDeleteToServer_sent (built : createDeleteToServer key = some pdu)
    (sent : sendPdu pdu = some bytes) : IsRequestPdu bytes := by
  obtain ⟨keyMember, copied, rest⟩ := Option.bind_eq_some_iff.mp built
  obtain ⟨action, filled, same⟩ := Option.bind_eq_some_iff.mp rest
  cases same
  exact keyFrame_sent (.inr rfl) ((memcpy_length copied).trans (calloc_length _)) filled sent

theorem createInsertToServer_sent (built : createInsertToServer key data1 n = some pdu)
    (fits : n + HEADERSIZE + KEY_SIZE < 65536) (sent : sendPdu pdu = some bytes) : IsRequestPdu bytes := by
  obtain ⟨keyMember, copied, rest⟩ := Option.bind_eq_some_iff.mp built
  obtain ⟨data, stored, rest⟩ := Option.bind_eq_some_iff.mp rest
  obtain ⟨action, filled, same⟩ := Option.bind_eq_some_iff.mp rest
  cases same
  obtain rfl : data.length = n := (memcpy_length stored).trans (calloc_length _)
  have size : keyMember.length = KEY_SIZE := (memcpy_length copied).trans (calloc_length _)
  obtain ⟨junk, split⟩ := cstr_split (show 0 ∈ keyMember ++ [0] by simp)
  have short : (cstr (keyMember ++ [0])).length ≤ KEY_SIZE := by
    have lengths := congrArg List.length split
    simp only [List.length_append, List.length_cons, List.length_nil] at lengths
    omega
  have frame : createInsertBuffer ⟨INSERT, keyMember, data.length, data ++ []⟩ =
      some (insertFrame (cstr (keyMember ++ [0])) data) :=
    createInsertBuffer_text (cstr_clean (keyMember ++ [0])) short ⟨junk, split⟩
  rw [List.append_nil] at frame
  obtain rfl := Option.some.inj (frame.symm.trans filled)
  rw [u16_of_lt fits, ← insertFrame_length short, sendPdu_whole] at sent
  cases sent
  exact ⟨.insert 0 (padded KEY_SIZE (cstr (keyMember ++ [0]))) data (padded_length short) fits,
    by simp [IsRequestFrame, Frame.opCode], rfl⟩

theorem decimal_length_le {i digits : ℕ} (positive : 0 < digits) (small : i < 10 ^ digits) :
    (decimal i).length ≤ digits := by
  rw [decimal, ascii, List.length_map, String.length_toList]
  exact (Nat.length_repr_le_iff positive).mpr small

theorem endToEndTest_sent {behind : ℕ → Bytes} {i count : ℕ} (small : i + count ≤ 10 ^ 6) {pdus : List Bytes}
    (sent : endToEndTest behind i count = some pdus) : ∀ bytes ∈ pdus, IsRequestPdu bytes := by
  induction count generalizing i pdus with
  | zero =>
    cases sent
    exact fun _ member => absurd member List.not_mem_nil
  | succ count ih =>
    obtain ⟨pdu, built, rest⟩ := Option.bind_eq_some_iff.mp sent
    obtain ⟨first, whole, rest⟩ := Option.bind_eq_some_iff.mp rest
    obtain ⟨later, tested, same⟩ := Option.bind_eq_some_iff.mp rest
    cases same
    have digits : (decimal i).length ≤ 6 := decimal_length_le (by decide) (by omega)
    have fits : (decimal i).length + 1 + HEADERSIZE + KEY_SIZE < 65536 := by
      simp only [HEADERSIZE, KEY_SIZE]
      omega
    exact List.forall_mem_cons.mpr ⟨createInsertToServer_sent built fits whole, ih (by omega) tested⟩

end Builders

section Choices

variable {t : MenuTurn} {c : Byte} {behind stdin rest bytes : Bytes} {pdu : Pdu} {choice : Choice}

theorem chooseKey_sent {build : Bytes → Option Pdu}
    (requests : ∀ key pdu bytes, build key = some pdu → sendPdu pdu = some bytes → IsRequestPdu bytes)
    (chosen : chooseKey build behind stdin = some choice) :
    ∃ pdu rest, choice = .request pdu rest ∧ ∀ bytes, sendPdu pdu = some bytes → IsRequestPdu bytes := by
  obtain ⟨key, entered, chosen⟩ := Option.bind_eq_some_iff.mp chosen
  obtain ⟨inside, chosen⟩ := Option.ite_none_right_eq_some.mp chosen
  obtain ⟨pdu, built, same⟩ := Option.bind_eq_some_iff.mp chosen
  cases same
  exact ⟨pdu, key.stdin, rfl, fun bytes sent => requests _ _ _ built sent⟩

theorem chooseInsert_sent (chosen : chooseInsert behind stdin = some choice) :
    ∃ pdu rest, choice = .request pdu rest ∧ ∀ bytes, sendPdu pdu = some bytes → IsRequestPdu bytes := by
  obtain ⟨⟨key, data⟩, entered, chosen⟩ := Option.bind_eq_some_iff.mp chosen
  obtain ⟨inside, chosen⟩ := Option.ite_none_right_eq_some.mp chosen
  obtain ⟨length, measured, chosen⟩ := Option.bind_eq_some_iff.mp chosen
  obtain ⟨pdu, built, same⟩ := Option.bind_eq_some_iff.mp chosen
  cases same
  obtain ⟨_, -, entered⟩ := Option.bind_eq_some_iff.mp entered
  obtain ⟨_, entered, same⟩ := Option.bind_eq_some_iff.mp entered
  cases same
  have short := (strlen_lt measured).trans_eq (enter_buffer_length entered)
  have fits : length + 1 + HEADERSIZE + KEY_SIZE < 65536 := by
    simp only [MAXMESSLEN, HEADERSIZE, KEY_SIZE] at short ⊢
    omega
  exact ⟨pdu, data.stdin, rfl, fun bytes sent => createInsertToServer_sent built fits sent⟩

/-- What can be chosen: a request or many, to leave, or nothing that is sent. -/
theorem switchMessage_cases (chosen : switchMessage t c stdin = some choice) :
    (∃ pdu rest, choice = .request pdu rest ∧ ∀ bytes, sendPdu pdu = some bytes → IsRequestPdu bytes) ∨
      (∃ pdu, choice = .quit pdu ∧ sendPdu pdu = some (Frame.quit 0 0 0).encode) ∨
      (∃ pdus, choice = .test pdus ∧ ∀ bytes ∈ pdus, IsRequestPdu bytes) ∨ choice = .bad := by
  unfold switchMessage at chosen
  split_ifs at chosen
  · obtain ⟨pdu, built, same⟩ := Option.bind_eq_some_iff.mp chosen
    cases same
    refine .inl ⟨pdu, stdin, rfl, fun bytes sent => ?_⟩
    cases createInitToServer_eq.symm.trans built
    cases (sendPdu_whole USER [INIT, 0, 0, 0]).symm.trans sent
    exact ⟨.init 0 0 0, by simp [IsRequestFrame, Frame.opCode], rfl⟩
  · exact .inl (chooseInsert_sent chosen)
  · exact .inl (chooseKey_sent (fun _ _ _ => createGetToServer_sent) chosen)
  · exact .inl (chooseKey_sent (fun _ _ _ => createDeleteToServer_sent) chosen)
  · obtain ⟨pdu, built, same⟩ := Option.bind_eq_some_iff.mp chosen
    cases same
    refine .inr (.inl ⟨pdu, rfl, ?_⟩)
    cases (show createQuitPdu = some ⟨USER, HEADERSIZE, .bytes [QUIT, 0, 0, 0]⟩ from rfl).symm.trans built
    rfl
  · obtain ⟨bytes, tested, same⟩ := Option.bind_eq_some_iff.mp chosen
    cases same
    exact .inr (.inr (.inl ⟨bytes, rfl, endToEndTest_sent (by decide) tested⟩))
  · obtain ⟨bytes, tested, same⟩ := Option.bind_eq_some_iff.mp chosen
    cases same
    exact .inr (.inr (.inl ⟨bytes, rfl, endToEndTest_sent (by decide) tested⟩))
  · exact .inr (.inr (.inr (Option.some.inj chosen).symm))

end Choices

/-- The client leaves with a QUIT, if it leaves by the menu and the socket has not been shut down. -/
def Parting (s : ClientSend) (last : List Frame) : Prop :=
  last = [] ∧ (s.menu = .returned → s.shut = true) ∨ last = [.quit 0 0 0] ∧ s.menu = .returned

/-- What has been sent: frames of requests, and QUIT once the loop has returned. -/
def Sent (s : ClientSend) : Prop :=
  ∃ frames last : List Frame, (∀ frame ∈ frames, IsRequestFrame frame) ∧ Parting s last ∧
    s.sent = (frames ++ last).flatMap Frame.encode

theorem again_ne_returned (choice : ℤ) : again choice ≠ .returned := by
  rw [again]
  split <;> exact Menu.noConfusion

/-- A turn that sends requests and does not return. -/
theorem Sent.send {s : ClientSend} {frames : List Frame} (requests : ∀ frame ∈ frames, IsRequestFrame frame)
    (bytes : s.sent = frames.flatMap Frame.encode) (t : MenuTurn) (stdin : Bytes) {pdus : List Bytes}
    (later : ∀ pdu ∈ pdus, IsRequestPdu pdu) (choice : ℤ) : Sent (s.send t stdin pdus (again choice)) := by
  have stays : Parting (s.send t stdin pdus (again choice)) [] :=
    .inl ⟨rfl, fun returned => absurd returned (again_ne_returned choice)⟩
  cases shut : s.shut with
  | true => exact ⟨frames, [], requests, stays, by simp [ClientSend.send, shut, bytes]⟩
  | false =>
    obtain ⟨frames', requests', more⟩ := areRequests_beforeShut later t.shutAfter
    refine ⟨frames ++ frames', [], List.forall_mem_append.mpr ⟨requests, requests'⟩, stays, ?_⟩
    simp [ClientSend.send, shut, bytes, more]

/-- A single PDU is sent before the socket is shut down, or it is lost. -/
theorem beforeShut_one (shutAfter : Option ℕ) (pdu : Bytes) :
    beforeShut shutAfter [pdu] = [pdu] ∨ shutAfter = some 0 ∧ beforeShut shutAfter [pdu] = [] := by
  rcases shutAfter with _ | _ | count
  · exact .inl rfl
  · exact .inr ⟨rfl, rfl⟩
  · exact .inl (List.take_of_length_le (Nat.succ_le_succ (Nat.zero_le count)))

/-- The turn that returns. -/
theorem Sent.quit {s : ClientSend} {frames : List Frame} (requests : ∀ frame ∈ frames, IsRequestFrame frame)
    (bytes : s.sent = frames.flatMap Frame.encode) (t : MenuTurn) (stdin : Bytes) :
    Sent (s.send t stdin [(Frame.quit 0 0 0).encode] .returned) := by
  cases shut : s.shut with
  | true =>
    have left : Parting (s.send t stdin [(Frame.quit 0 0 0).encode] .returned) [] :=
      .inl ⟨rfl, fun _ => by simp [ClientSend.send, shut]⟩
    exact ⟨frames, [], requests, left, by simp [ClientSend.send, shut, bytes]⟩
  | false =>
    rcases beforeShut_one t.shutAfter (Frame.quit 0 0 0).encode with whole | ⟨cut, lost⟩
    · exact ⟨frames, [.quit 0 0 0], requests, .inr ⟨rfl, rfl⟩,
        by simp [ClientSend.send, shut, bytes, whole]⟩
    · have left : Parting (s.send t stdin [(Frame.quit 0 0 0).encode] .returned) [] :=
        .inl ⟨rfl, fun _ => by simp [ClientSend.send, cut]⟩
      exact ⟨frames, [], requests, left, by simp [ClientSend.send, shut, bytes, lost]⟩

theorem sent_step {choice : ℤ} (s : ClientSend) (t : MenuTurn) (s' : ClientSend) (sent : Sent s)
    (stepped : clientSend choice s t = some s') : Sent s' := by
  obtain ⟨frames, last, requests, parting, bytes⟩ := sent
  simp only [clientSend, Option.ite_none_left_eq_some, not_not] at stepped
  obtain ⟨looping, stepped⟩ := stepped
  obtain rfl : last = [] := by
    rcases parting with ⟨none, -⟩ | ⟨-, returned⟩
    · exact none
    · cases looping.symm.trans returned
  rw [List.append_nil] at bytes
  have silent (stdin : Bytes) : Sent (s.send t stdin [] (again choice)) :=
    .send requests bytes t stdin (fun _ member => absurd member List.not_mem_nil) choice
  split_ifs at stepped
  · cases stepped
    exact ⟨frames, [], requests, .inl ⟨rfl, fun returned => by cases returned⟩, by simpa using bytes⟩
  · cases stepped
    exact silent _
  · obtain ⟨chosen, switched, stepped⟩ := Option.bind_eq_some_iff.mp stepped
    rcases switchMessage_cases switched with ⟨pdu, rest, rfl, whole⟩ | ⟨pdu, rfl, whole⟩ | ⟨pdus, rfl, tests⟩ | rfl
    · obtain ⟨more, written, same⟩ := Option.bind_eq_some_iff.mp stepped
      cases same
      refine .send requests bytes t rest (fun pdu member => ?_) choice
      exact List.mem_singleton.mp member ▸ whole more written
    · obtain ⟨more, written, same⟩ := Option.bind_eq_some_iff.mp stepped
      cases same
      cases whole.symm.trans written
      exact .quit requests bytes t _
    · cases stepped
      exact .send requests bytes t _ tests choice
    · cases stepped
      exact silent _

theorem sent_run {choice : ℤ} {stdin : Bytes} {turns : List MenuTurn} {s : ClientSend}
    (ran : run (clientSend choice) (.start stdin) turns = some s) : Sent s :=
  run_invariant sent_step ⟨[], [], nofun, .inl ⟨rfl, fun returned => by cases returned⟩, rfl⟩ ran

theorem handedOver_request (sock : ℕ) {frame : Frame} (request : IsRequestFrame frame) :
    handedOver sock frame = some (frame.pdu sock) := by
  refine if_neg ?_
  simp only [IsRequestFrame, List.mem_cons, List.not_mem_nil, or_false] at request
  rcases request with opCode | opCode | opCode | opCode <;> rw [opCode] <;> decide

/-- The thread of the server, with `recv` behaving as the script says, reads the stream to its end, goes on, and
has handed over these PDUs. -/
def HandsOver (sock : ℕ) (script : List RecvChoice) (stream : Bytes) (pdus : List Pdu) : Prop :=
  ∃ count t, run (listen sock) (.start stream script) (List.replicate count ()) = some t ∧
    t.listening = .looping ∧ t.conn.pending = [] ∧ t.deeds.filterMap Deed.inserted = pdus

theorem handsOver_frames (sock : ℕ) {script : List RecvChoice} (whole : Whole script) (pad : Byte) (name : Bytes)
    (fits : name.length < 65536) (frames : List Frame) :
    HandsOver sock script (Frame.encode (.join pad name fits) ++ frames.flatMap Frame.encode)
      (frames.filterMap (handedOver sock)) := by
  obtain ⟨script', received, left⟩ :=
    receivePdu_whole sock (.join pad name fits) (frames.flatMap Frame.encode) whole
  generalize stream : Frame.encode (.join pad name fits) ++ frames.flatMap Frame.encode = bytes at received ⊢
  have joined : listen sock (.start bytes script) () = _ :=
    listen_receivePdu (l := .start bytes script) (by simp [Listener.start]) received
  obtain ⟨t, ran, looping, ended, -, inserted⟩ := @run_frames sock
    ((Listener.start bytes script).act (.pdu (Frame.pdu sock (.join pad name fits)))
      ⟨frames.flatMap Frame.encode, script'⟩) [] frames
    (actOn_pdu (by simp [Listener.start]) _) (whole.suffix left) (List.append_nil _).symm
  refine ⟨frames.length + 1, t, ?_, looping, ended, inserted⟩
  rw [List.replicate_succ, run_cons, joined]
  exact ran

section Join

variable {name : Bytes}

/-- The name that a JOIN carries: the terminator is lost with the 51st character. -/
def joinName (name : Bytes) : Bytes := (name ++ [0]).take (MAXMESSLEN + 1)

theorem joinName_length (name : Bytes) : (joinName name).length = min name.length MAXMESSLEN + 1 := by
  simp only [joinName, List.length_take, List.length_append, List.length_singleton]
  omega

theorem joinName_fits (name : Bytes) : (joinName name).length < 65536 := by
  rw [joinName_length]
  simp only [MAXMESSLEN]
  omega

theorem strnlen_min (clean : 0 ∉ name) (limit : ℕ) (behind : Bytes) :
    strnlen limit (name ++ 0 :: behind) = some (min name.length limit) := by
  rcases lt_or_ge name.length limit with short | long
  · rw [strnlen_text clean short, Nat.min_eq_left short.le]
  · rw [Nat.min_eq_right long]
    induction name generalizing limit with
    | nil =>
      obtain rfl : limit = 0 := Nat.le_zero.mp long
      rfl
    | cons b name ih =>
      obtain ⟨nonzero, clean⟩ : 0 ≠ b ∧ 0 ∉ name := by simpa using clean
      cases limit with
      | zero => rfl
      | succ limit => simp [strnlen, Ne.symm nonzero, ih clean limit (Nat.le_of_succ_le_succ long)]

/-- The JOIN that goes out in front of everything else. -/
theorem setupJoinPdu_sent (clean : 0 ∉ name) (behind : Bytes) :
    (setupJoinPdu (name ++ 0 :: behind)).bind sendPdu =
      some (Frame.encode (.join 0 (joinName name) (joinName_fits name))) := by
  have length := joinName_length name
  generalize sized : min name.length MAXMESSLEN + 1 = n at length
  have copied : (name ++ 0 :: behind).take n = joinName name := by
    rw [joinName, show name ++ 0 :: behind = name ++ [0] ++ behind by simp,
      List.take_append_of_le_length (by simp [← sized]), List.take_eq_take_iff, ← sized]
    simp only [List.length_append, List.length_singleton]
    omega
  have room : n ≤ (name ++ 0 :: behind).length := by
    rw [List.length_append, List.length_cons]
    omega
  have zeros : calloc (HEADERSIZE + min name.length MAXMESSLEN + 1) = 0 :: 0 :: 0 :: 0 :: calloc n := by
    rw [Nat.add_assoc, sized, calloc_add]
    rfl
  have opCode : memcpy (0 :: 0 :: 0 :: 0 :: calloc n) 0 [JOIN] 1 = some (JOIN :: 0 :: 0 :: 0 :: calloc n) := by
    simp [memcpy]
  have size : memcpy (JOIN :: 0 :: 0 :: 0 :: calloc n) 1 (le16Bytes n) 2 =
      some (JOIN :: lowByte n :: highByte n :: 0 :: calloc n) := by
    simp [memcpy, le16Bytes]
  have text : memcpy (JOIN :: lowByte n :: highByte n :: 0 :: calloc n) HEADERSIZE (name ++ 0 :: behind) n =
      some (JOIN :: lowByte n :: highByte n :: 0 :: joinName name) := by
    rw [memcpy_parts (show JOIN :: lowByte n :: highByte n :: 0 :: calloc n =
      [JOIN, lowByte n, highByte n, 0] ++ calloc n ++ [] by simp)
      (show [JOIN, lowByte n, highByte n, 0].length = HEADERSIZE from rfl) (calloc_length n) room, copied]
    simp
  simp only [setupJoinPdu, strnlen_min clean, zeros, sized, opCode, size, text, Option.bind_eq_bind,
    Option.bind_some]
  rw [show HEADERSIZE + min name.length MAXMESSLEN + 1 =
      (JOIN :: lowByte n :: highByte n :: 0 :: joinName name).length by
    simp only [List.length_cons, length, HEADERSIZE]
    omega, sendPdu_whole, Frame.encode, length]

end Join

/-- Whatever is typed, and whenever the server kicks the client, the client sends its JOIN, frames of requests
and, if the user has left before the socket was shut down, one QUIT. The thread of the server reads all of it and
hands over the requests, if `recv` delivers what it is asked for. -/
theorem menu_session (sock : ℕ) (choice : ℤ) {name stdin : Bytes} (clean : 0 ∉ name) (behind : Bytes)
    {turns : List MenuTurn} {s : ClientSend} (ran : run (clientSend choice) (.start stdin) turns = some s) :
    ∃ (join : Bytes) (frames last : List Frame), (setupJoinPdu (name ++ 0 :: behind)).bind sendPdu = some join ∧
      (∀ frame ∈ frames, IsRequestFrame frame) ∧ Parting s last ∧
      s.sent = (frames ++ last).flatMap Frame.encode ∧
      ∀ script, Whole script → HandsOver sock script (join ++ s.sent) (frames.map (Frame.pdu sock)) := by
  obtain ⟨frames, last, requests, parting, bytes⟩ := sent_run ran
  refine ⟨_, frames, last, setupJoinPdu_sent clean behind, requests, parting, bytes, fun script whole => ?_⟩
  have kept : (frames ++ last).filterMap (handedOver sock) = frames.map (Frame.pdu sock) := by
    have quiet : last.filterMap (handedOver sock) = [] := by
      rcases parting with ⟨rfl, -⟩ | ⟨rfl, -⟩ <;> rfl
    rw [List.filterMap_append, quiet, List.append_nil, ← List.filterMap_eq_map]
    exact List.filterMap_congr fun frame member => handedOver_request sock (requests frame member)
  rw [bytes, ← kept]
  exact handsOver_frames sock whole 0 (joinName name) (joinName_fits name) _

/-- An INIT and the way out, and the server kicks the client in between: the QUIT is lost. -/
theorem menu_session_kicked : ∃ (join : Bytes) (frames last : List Frame),
    (setupJoinPdu [97, 0]).bind sendPdu = some join ∧ (∀ frame ∈ frames, IsRequestFrame frame) ∧
    Parting ⟨[], [INIT, 0, 0, 0], true, .returned⟩ last ∧
    [INIT, 0, 0, 0] = (frames ++ last).flatMap Frame.encode ∧
    ∀ script, Whole script → HandsOver 5 script (join ++ [INIT, 0, 0, 0]) (frames.map (Frame.pdu 5)) :=
  menu_session 5 0 (show 0 ∉ [97] by decide) []
    (show run (clientSend 0) (.start [49, 10, 53, 10])
        [⟨false, none, 0, [], fun _ => []⟩, ⟨false, some 0, 0, [], fun _ => []⟩] =
      some ⟨[], [INIT, 0, 0, 0], true, .returned⟩ by decide)

end Operativsystem.Pipeline
