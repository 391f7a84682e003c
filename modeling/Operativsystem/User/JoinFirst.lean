import Operativsystem.User.Listener

/-! # A session starts with JOIN

Only the decoder of JOIN makes a `JOIN_struct`, but `client_JOIN` returns any PDU, and the sentinel too.
A session is right if its stream starts with a JOIN header, and also if nothing is ever decoded from the
stream: it ends within a header, or its first byte is no opcode.
-/

namespace Operativsystem.User

open Memory Resources Machine

/-- The PDU was decoded from a JOIN frame. -/
def Deed.FromJoin (d : Deed) : Prop :=
  d.front.head? = some JOIN ∧ ∃ dataBytes idLen clientId, d.result = .pdu ⟨JOIN, dataBytes, .join idLen clientId⟩

/-- Only JOIN frames are used or freed as JOIN, and nothing is inserted before the first of them. -/
structure StartsWithJoin (deeds : List Deed) : Prop where
  used : ∀ d ∈ deeds, d.act = .join ∨ d.act = .discardJoin → d.FromJoin
  preceded : ∀ before d after, deeds = before ++ d :: after → d.act = .insertlast → ∃ e ∈ before, e.FromJoin

/-- The stream is not empty, and its first header, if it has one, is that of a JOIN frame or no header of a
frame. -/
def JoinFirst (stream : Bytes) : Prop :=
  stream ≠ [] ∧ (HEADERSIZE ≤ stream.length →
    ∀ opCode, stream.head? = some opCode → opCode = JOIN ∨ readerOf opCode = none)

section Sessions

variable {sock : ℕ} {stream : Bytes} {l l' : Listener} {deeds : List Deed} {d : Deed}

theorem startsWithJoin_nil : StartsWithJoin [] := ⟨by simp, by simp⟩

/-- A deed that uses no other frame as JOIN and comes after a JOIN if it inserts. -/
theorem StartsWithJoin.append (starts : StartsWithJoin deeds)
    (used : d.act = .join ∨ d.act = .discardJoin → d.FromJoin)
    (preceded : d.act = .insertlast → ∃ e ∈ deeds, e.FromJoin) : StartsWithJoin (deeds ++ [d]) := by
  constructor
  · intro e member uses
    rcases List.mem_append.mp member with old | new
    · exact starts.used e old uses
    · obtain rfl := List.mem_singleton.mp new
      exact used uses
  · intro before e after split inserts
    rcases List.eq_nil_or_concat after with rfl | ⟨after, last, rfl⟩
    · obtain ⟨rfl, same⟩ := List.append_inj' split rfl
      obtain rfl := List.head_eq_of_cons_eq same
      exact preceded inserts
    · have split : deeds ++ [d] = (before ++ e :: after) ++ [last] := by simpa using split
      exact starts.preceded before e after (List.append_inj' split rfl).1 inserts

/-- A PDU with the opcode of JOIN was decoded from a JOIN frame. -/
theorem fromJoin_of_heard {conn : Connection} {r : Reader} {header body : Bytes} (heard : Heard conn r)
    (join : (r.pdu sock header body).opCode = JOIN) (act : Act) :
    Deed.FromJoin ⟨act, conn.pending, .pdu (r.pdu sock header body)⟩ := by
  obtain ⟨opCode, head, found⟩ := Option.bind_eq_some_iff.mp heard.2.2
  obtain rfl : opCode = JOIN := (readerOf_opCode found header body).symm.trans join
  exact ⟨head, _, _, _, congrArg Received.pdu (readerOf_join found header body)⟩

/-- Before its JOIN the session has decoded nothing; after it, a JOIN frame. -/
def Opened (stream : Bytes) (l : Listener) : Prop :=
  StartsWithJoin l.deeds ∧
    (l.listening = .waiting ∧ l.conn.pending = stream ∨ l.listening ≠ .waiting ∧ ∃ e ∈ l.deeds, e.FromJoin)

/-- The first PDU of a stream that starts with JOIN. -/
theorem Opened.join (first : JoinFirst stream) (starts : StartsWithJoin l.deeds)
    (waiting : l.listening = .waiting)
    (unread : l.conn.pending = stream) (stepped : listen sock l () = some l') : Opened stream l' := by
  obtain ⟨-, result, conn, received, rfl⟩ := listen_cases stepped
  rcases receivePdu_receives received with ⟨r, script, header, body, heard, -, -, rfl⟩ | ⟨empty, -, -, -⟩ |
    ⟨kept, -, -, rfl⟩
  · have front := heard
    rw [Heard, unread] at front
    obtain ⟨opCode, head, found⟩ := Option.bind_eq_some_iff.mp front.2.2
    rcases first.2 front.1 opCode head with rfl | unknown
    · have joined : Deed.FromJoin ⟨.join, l.conn.pending, .pdu (r.pdu sock header body)⟩ :=
        fromJoin_of_heard heard (readerOf_opCode found header body) .join
      simp only [Listener.act, waiting, actOn]
      exact ⟨starts.append (fun _ => joined) (by simp), .inr ⟨by simp, _, List.mem_concat_self, joined⟩⟩
    · cases unknown.symm.trans found
  · exact absurd (unread ▸ empty) first.1
  · simp only [Listener.act, waiting, actOn]
    exact ⟨starts.append (by simp) (by simp), .inl ⟨rfl, kept.trans unread⟩⟩

/-- Later, `client_listener` frees as JOIN what has the opcode of JOIN. -/
theorem Opened.later (starts : StartsWithJoin l.deeds) (looping : l.listening = .looping)
    (joined : ∃ e ∈ l.deeds, e.FromJoin) (stepped : listen sock l () = some l') : Opened stream l' := by
  obtain ⟨-, result, conn, received, rfl⟩ := listen_cases stepped
  obtain ⟨e, member, fromJoin⟩ := joined
  have after : ∃ e' ∈ (l.act result conn).deeds, e'.FromJoin := ⟨e, List.mem_append_left _ member, fromJoin⟩
  refine ⟨starts.append (fun uses => ?_) fun _ => ⟨e, member, fromJoin⟩, .inr ⟨?_, after⟩⟩
  · simp only [looping, actOn] at uses ⊢
    rcases receivePdu_receives received with ⟨r, script, header, body, heard, -, -, rfl⟩ | ⟨-, -, -, rfl⟩ |
      ⟨-, -, -, rfl⟩
    · refine fromJoin_of_heard heard ?_ _
      by_contra other
      dsimp only at uses
      split_ifs at uses <;> simp at uses
    · simp at uses
    · simp at uses
  · intro waiting
    rw [Listener.act, actOn_waiting_iff, looping] at waiting
    cases waiting.1

theorem opened_step (first : JoinFirst stream) (l : Listener) (call : Unit) (l' : Listener)
    (opened : Opened stream l) (stepped : listen sock l call = some l') : Opened stream l' := by
  obtain ⟨starts, ⟨waiting, unread⟩ | ⟨entered, joined⟩⟩ := opened
  · exact .join first starts waiting unread stepped
  · refine .later starts ?_ joined stepped
    have going := (listen_cases stepped).1
    cases place : l.listening with
    | waiting => exact absurd place entered
    | looping => rfl
    | left => exact absurd place going

/-- The empty stream ends where the JOIN should be. -/
theorem listen_empty (sock : ℕ) :
    run (listen sock) (.start [] []) [()] = some ⟨.left, ⟨[], []⟩, [⟨.join, [], .endOfStream⟩]⟩ := rfl

/-- Any header of a frame can make a PDU, since a `recv` that fails ends a loop. -/
theorem listen_any {opCode : Byte} {r : Reader} (sock : ℕ) (head : stream.head? = some opCode)
    (enough : HEADERSIZE ≤ stream.length) (found : readerOf opCode = some r) :
    ∃ header body conn, run (listen sock) (.start stream [.deliver 3, .fail, .fail]) [()] =
      some ⟨.looping, conn, [⟨.join, stream, .pdu (r.pdu sock header body)⟩]⟩ := by
  obtain ⟨header, body, conn, ran⟩ := r.run_fail sock stream
  refine ⟨header, body, conn, ?_⟩
  have heard : Heard ⟨stream, [.deliver 3, .fail, .fail]⟩ r :=
    ⟨enough, rfl, by rw [head, Option.bind_some, found]⟩
  have received := receivePdu_heard heard rfl sock
  rw [ran] at received
  rw [run_cons, listen_receivePdu (by simp [Listener.start]) received]
  rfl

/-- A session that uses only JOIN frames as JOIN starts with one. -/
theorem joinFirst_of_starts (starts : ∀ script calls l,
    run (listen sock) (.start stream script) calls = some l → StartsWithJoin l.deeds) : JoinFirst stream := by
  constructor
  · rintro rfl
    have joined := (starts _ _ _ (listen_empty sock)).used _ (List.mem_singleton_self _) (.inl rfl)
    cases joined.1
  · intro enough opCode head
    by_contra! other
    obtain ⟨join, known⟩ := other
    obtain ⟨r, found⟩ := Option.ne_none_iff_exists'.mp known
    obtain ⟨header, body, conn, ran⟩ := listen_any sock head enough found
    have joined := (starts _ _ _ ran).used _ (List.mem_singleton_self _) (.inl rfl)
    exact join (Option.some.inj (head.symm.trans joined.1))

end Sessions

/-- However the stream is cut and interrupted, a session uses only JOIN frames as JOIN, and inserts requests
only behind one, exactly if nothing but a JOIN can be decoded at the front of the stream. -/
theorem session_starts_with_join (sock : ℕ) (stream : Bytes) :
    (∀ script calls l, run (listen sock) (.start stream script) calls = some l → StartsWithJoin l.deeds) ↔
      JoinFirst stream := by
  refine ⟨joinFirst_of_starts, fun first script calls l ran => ?_⟩
  have opened : Opened stream (.start stream script) := ⟨startsWithJoin_nil, .inl ⟨rfl, rfl⟩⟩
  exact (run_invariant (opened_step first) opened ran).1

/-- An INIT frame is read as a JOIN, and so is the end of an empty stream. -/
theorem session_starts_otherwise :
    (∃ l, run (listen 5) (.start [INIT, 0, 0, 0] []) [()] = some l ∧ ¬StartsWithJoin l.deeds) ∧
      ∃ l, run (listen 5) (.start [] []) [()] = some l ∧ ¬StartsWithJoin l.deeds := by
  constructor
  · refine ⟨⟨.looping, ⟨[], []⟩, [⟨.join, [INIT, 0, 0, 0], .pdu ⟨INIT, 4, .bytes [INIT, 0, 0, 0]⟩⟩]⟩, rfl, ?_⟩
    intro starts
    have joined := starts.used _ (List.mem_singleton_self _) (.inl rfl)
    exact absurd joined.1 (by decide)
  · refine ⟨_, listen_empty 5, fun starts => ?_⟩
    cases (starts.used _ (List.mem_singleton_self _) (.inl rfl)).1

end Operativsystem.User
