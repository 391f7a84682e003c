import Operativsystem.Resources.Returning
import Operativsystem.Resources.Streams
import Operativsystem.User.Listener

/-! # What the thread of a client sends to the kernel

`client_listener` takes the first PDU as its JOIN, whatever it is, and then appends to `sender_list` whatever
`receive_pdu` returns, except QUIT and JOIN. The bytes of the client are delivered whole, so `receive_pdu`
fails again and again where it has failed once. A KERNEL frame goes to the kernel as well, and so does the
beginning of an INSERT whose frame is longer than `data_bytes` can say.
-/

namespace Operativsystem.User

open Memory Resources Machine

/-- The lengths and the first byte of a request. -/
structure IsRequest (pdu : Pdu) (data : Bytes) : Prop where
  first : data.head? = some pdu.opCode
  size : pdu.dataBytes = data.length
  shape : pdu.opCode = INIT ∧ pdu.dataBytes = 4 ∨
    (pdu.opCode = GET ∨ pdu.opCode = DELETE) ∧ pdu.dataBytes = 68 ∨
    pdu.opCode = INSERT ∧ ∃ length, read16 data 1 = some length ∧ pdu.dataBytes = 68 + length

/-- The PDU is a request, and its data the bytes of the stream from where its turn began to read. -/
def IsSlice (stream front : Bytes) (pdu : Pdu) : Prop :=
  ∃ before data rest, stream = before ++ front ∧ front = data ++ rest ∧ pdu.data = .bytes data ∧
    IsRequest pdu data

/-- Whatever is inserted in a session is a request from the stream. -/
def OnlyRequests (sock : ℕ) (stream : Bytes) : Prop :=
  ∀ calls l, run (listen sock) (.start stream []) calls = some l →
    ∀ d ∈ l.deeds, ∀ pdu, d.inserted = some pdu → IsSlice stream d.front pdu

/-- Behind the first PDU and any frames, the stream goes on neither with a KERNEL header and its payload
nor with an INSERT whose frame is longer than 65535 bytes. -/
def FreeOfOthers (stream : Bytes) : Prop :=
  ∀ behind (frames : List Frame) rest, Takes stream behind → behind = frames.flatMap Frame.encode ++ rest →
    ¬KernelFirst rest ∧ ¬OverlongFirst rest

/-- What the loop appends of a frame. -/
def handedOver (sock : ℕ) (frame : Frame) : Option Pdu :=
  if frame.opCode = QUIT ∨ frame.opCode = JOIN then none else some (frame.pdu sock)

section Turns

variable {sock : ℕ} {l l' : Listener} {frame : Frame} {rest : Bytes}

theorem Frame.pdu_opCode (sock : ℕ) (frame : Frame) : (frame.pdu sock).opCode = frame.opCode := by
  cases frame <;> rfl

theorem inserted_frame (sock : ℕ) (frame : Frame) (front : Bytes) :
    Deed.inserted ⟨(actOn .looping (.pdu (frame.pdu sock))).1, front, .pdu (frame.pdu sock)⟩ =
      handedOver sock frame := by
  simp only [actOn, Frame.pdu_opCode, handedOver]
  by_cases quit : frame.opCode = QUIT
  · simp [quit, Deed.inserted]
  · by_cases join : frame.opCode = JOIN
    · simp [join, Deed.inserted, JOIN, QUIT]
    · simp [quit, join, Deed.inserted]

theorem actOn_pdu {listening : Listening} (going : listening ≠ .left) (pdu : Pdu) :
    (actOn listening (.pdu pdu)).2 = .looping := by
  cases listening with
  | waiting => rfl
  | looping =>
    simp only [actOn]
    split_ifs <;> rfl
  | left => exact absurd rfl going

/-- A turn of the loop reads one frame, and inserts it or not. -/
theorem listen_frame (looping : l.listening = .looping) (whole : Whole l.conn.script)
    (front : l.conn.pending = frame.encode ++ rest) :
    ∃ t, listen sock l () = some t ∧ t.listening = .looping ∧ t.conn.pending = rest ∧
      t.conn.script <:+ l.conn.script ∧
      t.deeds.filterMap Deed.inserted = l.deeds.filterMap Deed.inserted ++ (handedOver sock frame).toList := by
  obtain ⟨script', received, left⟩ := receivePdu_whole sock frame rest whole
  rw [← front] at received
  refine ⟨_, listen_receivePdu (by simp [looping]) received, actOn_pdu (by simp [looping]) _, rfl, left, ?_⟩
  rw [Listener.act, List.filterMap_append, looping]
  simp only [List.filterMap_cons, inserted_frame, List.filterMap_nil]
  cases handedOver sock frame <;> rfl

/-- The turns that read some frames. -/
theorem run_frames (frames : List Frame) (looping : l.listening = .looping) (whole : Whole l.conn.script)
    (front : l.conn.pending = frames.flatMap Frame.encode ++ rest) :
    ∃ t, run (listen sock) l (List.replicate frames.length ()) = some t ∧ t.listening = .looping ∧
      t.conn.pending = rest ∧ t.conn.script <:+ l.conn.script ∧
      t.deeds.filterMap Deed.inserted =
        l.deeds.filterMap Deed.inserted ++ frames.filterMap (handedOver sock) := by
  induction frames generalizing l with
  | nil => exact ⟨l, rfl, looping, front, List.suffix_rfl, by simp⟩
  | cons frame frames ih =>
    rw [List.flatMap_cons, List.append_assoc] at front
    obtain ⟨middle, turned, looping', behind, left, inserted⟩ := listen_frame looping whole front
    obtain ⟨t, ran, looping'', reached, left', later⟩ := ih looping' (whole.suffix left) behind
    refine ⟨t, ?_, looping'', reached, left'.trans left, ?_⟩
    · rw [List.length_cons, List.replicate_succ, run_cons, turned]
      exact ran
    · rw [later, inserted, List.append_assoc]
      cases handed : handedOver sock frame <;> simp [handed]

/-- The frame of a request is one. -/
theorem Frame.pdu_isRequest (sock : ℕ) (kernel : frame.opCode ≠ KERNEL) (quit : frame.opCode ≠ QUIT)
    (join : frame.opCode ≠ JOIN) :
    (frame.pdu sock).data = .bytes frame.encode ∧ IsRequest (frame.pdu sock) frame.encode := by
  cases frame with
  | init a b c => exact ⟨rfl, rfl, rfl, .inl ⟨rfl, rfl⟩⟩
  | insert pad key value field fits =>
    refine ⟨rfl, rfl, rfl, .inr (.inr ⟨rfl, value.length, ?_, ?_⟩)⟩
    · simp [read16, Frame.encode, le16_bytes, u16_of_lt (show value.length < 65536 by omega)]
    · simp only [Frame.pdu, Frame.encode, List.length_cons, List.length_append, field]
  | get a b c key field =>
    refine ⟨rfl, rfl, rfl, .inr (.inl ⟨.inl rfl, ?_⟩)⟩
    simp only [Frame.pdu, Frame.encode, List.length_cons, field]
  | delete a b c key field =>
    refine ⟨rfl, rfl, rfl, .inr (.inl ⟨.inr rfl, ?_⟩)⟩
    simp only [Frame.pdu, Frame.encode, List.length_cons, field]
  | join pad name fits => exact absurd rfl join
  | kernel pad payload fits => exact absurd rfl kernel
  | quit a b c => exact absurd rfl quit

/-- Where the session is in its stream: at its start, or behind the first PDU and the frames that were read since
then. -/
structure Reads (stream : Bytes) (l : Listener) : Prop where
  whole : l.conn.script = []
  place : l.listening = .waiting ∧ l.conn.pending = stream ∨
    l.listening = .looping ∧ (∃ behind, ∃ frames : List Frame, Takes stream behind ∧
      behind = frames.flatMap Frame.encode ++ l.conn.pending) ∨ l.listening = .left
  slices : ∀ d ∈ l.deeds, ∀ pdu, d.inserted = some pdu → IsSlice stream d.front pdu

theorem reads_start (stream : Bytes) : Reads stream (.start stream []) :=
  ⟨rfl, .inl ⟨rfl, rfl⟩, fun _ member => absurd member List.not_mem_nil⟩

/-- In its loop, a session of a stream that is free of others reads a frame. -/
theorem Reads.reads_frame {stream : Bytes} (free : FreeOfOthers stream) (reads : Reads stream l)
    (looping : l.listening = .looping) {pdu : Pdu} {conn : Connection}
    (received : receivePdu sock l.conn = some (.pdu pdu, conn)) :
    ∃ behind, ∃ frames : List Frame, ∃ frame, Takes stream behind ∧
      behind = frames.flatMap Frame.encode ++ (Frame.encode frame ++ conn.pending) ∧
      l.conn.pending = frame.encode ++ conn.pending ∧ pdu = frame.pdu sock ∧ frame.opCode ≠ KERNEL := by
  have delivered : l.conn = ⟨l.conn.pending, []⟩ := by rw [← reads.whole]
  rw [delivered] at received
  obtain ⟨behind, frames, takes, split⟩ : ∃ behind, ∃ frames : List Frame, Takes stream behind ∧
      behind = frames.flatMap Frame.encode ++ l.conn.pending := by
    rcases reads.place with ⟨waiting, -⟩ | ⟨-, place⟩ | left
    · cases looping.symm.trans waiting
    · exact place
    · cases looping.symm.trans left
  obtain ⟨noKernel, noOverlong⟩ := free behind frames l.conn.pending takes split
  rcases receivePdu_front received with ⟨frame, rest, request, front⟩ | kernel | overlong
  · have arrived := receivePdu_frame sock frame rest
    rw [← front] at arrived
    cases arrived.symm.trans received
    exact ⟨behind, frames, frame, takes, front ▸ split, front, rfl, request⟩
  · exact absurd kernel noKernel
  · exact absurd overlong noOverlong

/-- What a turn inserts is the frame that it has read. -/
theorem Reads.slice {stream : Bytes} (free : FreeOfOthers stream) (reads : Reads stream l)
    (looping : l.listening = .looping) {pdu : Pdu} {conn : Connection}
    (received : receivePdu sock l.conn = some (.pdu pdu, conn)) (quit : pdu.opCode ≠ QUIT)
    (join : pdu.opCode ≠ JOIN) : IsSlice stream l.conn.pending pdu := by
  obtain ⟨behind, frames, frame, takes, split, front, rfl, request⟩ := reads.reads_frame free looping received
  rw [Frame.pdu_opCode] at quit join
  obtain ⟨data, isRequest⟩ := Frame.pdu_isRequest sock request quit join
  obtain ⟨before, cut⟩ := takes.suffix
  refine ⟨before ++ frames.flatMap Frame.encode, frame.encode, conn.pending, ?_, front, data, isRequest⟩
  rw [front, List.append_assoc, ← split, cut]

/-- Each call keeps the place in the stream. -/
theorem reads_step {stream : Bytes} (free : FreeOfOthers stream) (l : Listener) (call : Unit) (l' : Listener)
    (reads : Reads stream l) (stepped : listen sock l call = some l') : Reads stream l' := by
  obtain ⟨going, result, conn, received, rfl⟩ := listen_cases stepped
  have whole : conn.script = [] := by
    have shorter := (receivePdu_shrinks received).2
    rw [reads.whole] at shorter
    exact List.length_eq_zero_iff.mp (Nat.le_zero.mp shorter)
  refine ⟨whole, ?_, fun d member pdu inserted => ?_⟩
  · rcases reads.place with ⟨waiting, unread⟩ | ⟨looping, -⟩ | left
    · cases result with
      | pdu pdu =>
        have delivered : l.conn = ⟨stream, []⟩ := by rw [← unread, ← reads.whole]
        rw [delivered] at received
        exact .inr (.inl ⟨actOn_pdu going pdu, conn.pending, [], (receivePdu_takes received).1, rfl⟩)
      | endOfStream => exact .inr (.inr (by rw [Listener.act, waiting]; rfl))
      | null =>
        rcases receivePdu_receives received with ⟨_, _, _, _, _, _, _, same⟩ | ⟨_, _, _, same⟩ | ⟨kept, -, -, -⟩
        · cases same
        · cases same
        · exact .inl ⟨by rw [Listener.act, waiting]; rfl, kept.trans unread⟩
    · cases result with
      | pdu pdu =>
        obtain ⟨behind, frames, frame, takes, split, -, -, -⟩ := reads.reads_frame free looping received
        refine .inr (.inl ⟨actOn_pdu going pdu, behind, frames ++ [frame], takes, split.trans ?_⟩)
        rw [List.flatMap_append, List.flatMap_singleton, List.append_assoc]
        rfl
      | endOfStream => exact .inr (.inr (by rw [Listener.act, looping]; rfl))
      | null => exact .inr (.inr (by rw [Listener.act, looping]; rfl))
    · exact absurd left going
  · rcases List.mem_append.mp member with old | new
    · exact reads.slices d old pdu inserted
    · obtain rfl := List.mem_singleton.mp new
      obtain ⟨looping, rfl, quit, join⟩ := inserted_act inserted going
      exact reads.slice free looping received quit join

/-- A session comes behind its first PDU and any frames that follow it. -/
theorem run_stream (sock : ℕ) {stream behind : Bytes} (takes : Takes stream behind) (frames : List Frame)
    (split : behind = frames.flatMap Frame.encode ++ rest) :
    ∃ calls t, run (listen sock) (.start stream []) calls = some t ∧ t.listening = .looping ∧
      t.conn = ⟨rest, []⟩ := by
  obtain ⟨pdu, received⟩ := takes.receivePdu sock
  have first : listen sock (.start stream []) () = _ :=
    listen_receivePdu (l := .start stream []) (by simp [Listener.start]) received
  obtain ⟨t, ran, looping, reached, left, -⟩ := @run_frames sock
    ((Listener.start stream []).act (.pdu pdu) ⟨behind, []⟩) rest frames
    (actOn_pdu (by simp [Listener.start]) pdu) whole_nil split
  refine ⟨() :: List.replicate frames.length (), t, ?_, looping, ?_⟩
  · rw [run_cons, first]
    exact ran
  · rw [← reached, ← List.suffix_nil.mp left]

theorem not_isRequest_overlong {lo hi pad : Byte} {body : Bytes}
    (overlong : 65536 ≤ le16 lo hi + HEADERSIZE + KEY_SIZE)
    (isRequest : IsRequest ⟨INSERT, u16 (le16 lo hi + HEADERSIZE + KEY_SIZE),
      .bytes ((INSERT :: lo :: hi :: pad :: body).take (u16 (le16 lo hi + HEADERSIZE + KEY_SIZE)))⟩
        ((INSERT :: lo :: hi :: pad :: body).take (u16 (le16 lo hi + HEADERSIZE + KEY_SIZE)))) : False := by
  have wrapped := u16_lt (le16 lo hi + HEADERSIZE + KEY_SIZE)
  have sizes : HEADERSIZE + KEY_SIZE = 68 := rfl
  rcases isRequest.shape with ⟨impossible, -⟩ | ⟨impossible | impossible, -⟩ | ⟨-, length, read, size⟩
  · exact absurd (show INSERT = INIT from impossible) (by decide)
  · exact absurd (show INSERT = GET from impossible) (by decide)
  · exact absurd (show INSERT = DELETE from impossible) (by decide)
  · dsimp only at size
    have long : u16 (le16 lo hi + HEADERSIZE + KEY_SIZE) = 64 + length + 1 + 1 + 1 + 1 := by omega
    rw [long] at read
    simp only [List.take_succ_cons, read16, List.drop_succ_cons, List.drop_zero, Option.some.injEq] at read
    omega

theorem not_isRequest_kernel {size : ℕ} {data : PduData} {slice : Bytes}
    (isRequest : IsRequest ⟨KERNEL, size, data⟩ slice) : False := by
  rcases isRequest.shape with ⟨impossible, -⟩ | ⟨impossible | impossible, -⟩ | ⟨impossible, -⟩
  · exact absurd (show KERNEL = INIT from impossible) (by decide)
  · exact absurd (show KERNEL = GET from impossible) (by decide)
  · exact absurd (show KERNEL = DELETE from impossible) (by decide)
  · exact absurd (show KERNEL = INSERT from impossible) (by decide)

/-- A session that inserts only requests never meets one of the two headers: the turn that reads it would
insert what follows. -/
theorem freeOfOthers_of_onlyRequests {stream : Bytes} (only : OnlyRequests sock stream) :
    FreeOfOthers stream := by
  intro behind frames rest takes split
  obtain ⟨calls, t, ran, looping, place⟩ := run_stream sock takes frames split
  have inserts {pdu : Pdu} {next : Connection} (received : receivePdu sock ⟨rest, []⟩ = some (.pdu pdu, next))
      (quit : pdu.opCode ≠ QUIT) (join : pdu.opCode ≠ JOIN) :
      ∃ data, pdu.data = .bytes data ∧ IsRequest pdu data := by
    rw [← place] at received
    have turn := listen_receivePdu (by simp [looping]) received
    have ran' := (run_append ran [()]).trans ((run_cons _ _ _ []).trans (congrArg (Option.bind · _) turn))
    have inserted : Deed.inserted ⟨(actOn t.listening (.pdu pdu)).1, t.conn.pending, .pdu pdu⟩ = some pdu := by
      simp [looping, actOn, quit, join, Deed.inserted]
    obtain ⟨before, data, behind, -, -, same, isRequest⟩ :=
      only _ _ ran' _ (List.mem_append_right _ (List.mem_singleton.mpr rfl)) pdu inserted
    exact ⟨data, same, isRequest⟩
  constructor
  · rintro ⟨lo, hi, pad, body, rfl, enough⟩
    obtain ⟨data, received⟩ := @receivePdu_kernelFirst sock _ _ pad _ enough
    obtain ⟨slice, -, isRequest⟩ :=
      inserts received (show KERNEL ≠ QUIT by decide) (show KERNEL ≠ JOIN by decide)
    exact not_isRequest_kernel isRequest
  · rintro ⟨lo, hi, pad, body, rfl, overlong, enough⟩
    obtain ⟨slice, same, isRequest⟩ := inserts (receivePdu_overlongFirst sock enough)
      (show INSERT ≠ QUIT by decide) (show INSERT ≠ JOIN by decide)
    cases same
    exact not_isRequest_overlong overlong isRequest

end Turns

/-- Only requests from its stream reach the kernel from a client exactly if, behind its first PDU, no frame of
the stream is a KERNEL frame or an INSERT that is longer than 65535 bytes. -/
theorem onlyRequests_iff (sock : ℕ) (stream : Bytes) : OnlyRequests sock stream ↔ FreeOfOthers stream := by
  refine ⟨freeOfOthers_of_onlyRequests, fun free calls l ran => ?_⟩
  exact (run_invariant (reads_step free) (reads_start stream) ran).slices

/-- A KERNEL frame is inserted without its header, and of an INSERT that announces 65468 bytes nothing. -/
theorem others_inserted :
    ¬OnlyRequests 5 [JOIN, 0, 0, 0, KERNEL, 0, 0, 0] ∧
      ¬OnlyRequests 5 [JOIN, 0, 0, 0, INSERT, 188, 255, 0] := by
  constructor
  · intro only
    have ran : run (listen 5) (.start [JOIN, 0, 0, 0, KERNEL, 0, 0, 0] []) [(), ()] =
        some ⟨.looping, ⟨[], []⟩, [⟨.join, [JOIN, 0, 0, 0, KERNEL, 0, 0, 0], .pdu ⟨JOIN, 0, .join 0 [0]⟩⟩,
          ⟨.insertlast, [KERNEL, 0, 0, 0], .pdu ⟨KERNEL, 0, .bytes (calloc 8)⟩⟩]⟩ := by decide
    obtain ⟨-, data, -, -, -, -, isRequest⟩ := only _ _ ran _ (List.mem_pair.mpr (.inr rfl)) _ rfl
    exact not_isRequest_kernel isRequest
  · intro only
    have ran : run (listen 5) (.start [JOIN, 0, 0, 0, INSERT, 188, 255, 0] []) [(), ()] =
        some ⟨.looping, ⟨[INSERT, 188, 255, 0], []⟩,
          [⟨.join, [JOIN, 0, 0, 0, INSERT, 188, 255, 0], .pdu ⟨JOIN, 0, .join 0 [0]⟩⟩,
            ⟨.insertlast, [INSERT, 188, 255, 0], .pdu ⟨INSERT, 0, .bytes []⟩⟩]⟩ := by decide
    obtain ⟨-, data, -, -, -, same, isRequest⟩ := only _ _ ran _ (List.mem_pair.mpr (.inr rfl)) _ rfl
    cases same
    exact absurd isRequest.first (by decide)

/-- The first PDU need not be a JOIN: behind a GET the KERNEL frame is inserted too. -/
example : (run (listen 5) (.start (GET :: 0 :: 0 :: 0 :: padded KEY_SIZE [107] ++ [KERNEL, 0, 0, 0]) [])
    [(), ()]).map (·.deeds.filterMap Deed.inserted) = some [⟨KERNEL, 0, .bytes (calloc 8)⟩] := rfl

end Operativsystem.User
