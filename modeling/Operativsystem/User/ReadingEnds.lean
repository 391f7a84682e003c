import Operativsystem.Resources.Returning
import Operativsystem.Resources.Streams
import Operativsystem.User.Listener

/-! # Whether the reading of a client ends

A listener thread gives its slot back at the termination branch of its loop. It never comes there if a call
of `receive_pdu` does not return, if calls return for ever without consuming anything (NULL before the JOIN,
or an INSERT whose wrapped length is 0), or if the thread uses the sentinel or NULL as a PDU.
-/

namespace Operativsystem.User

open Memory Resources Machine

/-- The thread has taken the termination branch. -/
def Leaves (l : Listener) : Prop :=
  l.listening = .left ∧ l.deeds.getLast?.map Deed.act = some .leave

/-- The calls of `receive_pdu` return one after the other until the thread leaves. -/
def ReadingEnds (sock : ℕ) (stream : Bytes) (script : List RecvChoice) : Prop :=
  ∃ calls l, run (listen sock) (.start stream script) calls = some l ∧ Leaves l

/-- All that is asked for is delivered, but nothing is consumed: before its JOIN the thread sees an opcode that
no reader knows, or in its loop an INSERT whose length wraps to 0. -/
def StandsStill (l : Listener) : Prop :=
  l.conn.script = [] ∧ HEADERSIZE ≤ l.conn.pending.length ∧
    (l.listening = .waiting ∧ l.conn.pending.head?.bind readerOf = none ∨
      l.listening = .looping ∧ l.conn.pending.head? = some INSERT ∧
        u16 (announced l.conn.pending + HEADERSIZE + KEY_SIZE) = 0)

/-- The next call returns, does not do so for ever without progress, does not find the end of the stream before
the JOIN, and in the loop it finds that end or makes a PDU. -/
structure Goes (l : Listener) : Prop where
  served : CallServed l.conn
  moves : ¬StandsStill l
  joined : l.listening = .waiting → l.conn.pending = [] → l.conn.script.head? = some .fail
  decoded : l.listening = .looping →
    l.conn.pending = [] ∧ l.conn.script.head? ≠ some .fail ∨ ∃ r, Heard l.conn r

def Listening.distance : Listening → ℕ
  | .waiting => 2
  | .looping => 1
  | .left => 0

/-- What is left of the stream and of the script, and of the way to the end of the thread. -/
def Listener.size (l : Listener) : ℕ :=
  l.conn.pending.length + l.conn.script.length + l.listening.distance

section Whole

variable {sock : ℕ} {pending : Bytes} {opCode : Byte} {r : Reader} {pdu : Pdu} {next : Connection}

/-- Only the reader of INSERT peeks. -/
theorem readerOf_peek (found : readerOf opCode = some r) :
    0 < r.asked ∧ (r.peek = false ∨ opCode = INSERT ∧ r = insertReader) := by
  rw [readerOf] at found
  split_ifs at found with init insert <;> cases found
  · exact ⟨by decide, .inl rfl⟩
  · exact ⟨by decide, .inr ⟨insert, rfl⟩⟩
  all_goals exact ⟨by decide, .inl rfl⟩

theorem announced_take (enough : HEADERSIZE ≤ pending.length) :
    announced (pending.take HEADERSIZE) = announced pending := by
  rcases pending with _ | ⟨a, _ | ⟨b, _ | ⟨c, _ | ⟨d, pending⟩⟩⟩⟩
  iterate 4 exact absurd enough (by simp [HEADERSIZE])
  rfl

/-- On a connection that delivers what it is asked for, a PDU consumes bytes or is an INSERT of length 0. -/
theorem run_consumes (found : readerOf opCode = some r)
    (ran : r.run readInto sock ⟨pending, []⟩ = some (pdu, next)) :
    next.pending.length < pending.length ∨
      opCode = INSERT ∧ u16 (announced pending + HEADERSIZE + KEY_SIZE) = 0 := by
  obtain ⟨header, mid, body, first, second, -⟩ := r.run_pdu ran
  obtain ⟨positive, taken | ⟨rfl, rfl⟩⟩ := readerOf_peek found
  · obtain ⟨enough, -, rfl⟩ := readInto_enough first
    have fewer := (readInto_shrinks second).pending
    rw [taken, remaining_length] at fewer
    simp only [Bool.false_eq_true, if_false] at fewer
    exact .inl (by omega)
  · obtain ⟨enough, read, rfl⟩ := readInto_enough first
    obtain ⟨enough', -, rfl⟩ := readInto_enough second
    have header' : header = pending.take HEADERSIZE := by
      rw [read]
      simp [insertReader, calloc]
    have body' : insertReader.body header = u16 (announced pending + HEADERSIZE + KEY_SIZE) := by
      rw [header']
      exact congrArg (fun n => u16 (n + HEADERSIZE + KEY_SIZE)) (announced_take enough)
    have kept : (remaining insertReader.peek insertReader.asked pending) = pending := if_pos rfl
    rw [body', kept] at enough'
    rw [body', kept, remaining_length]
    rcases Nat.eq_zero_or_pos (u16 (announced pending + HEADERSIZE + KEY_SIZE)) with zero | positive
    · exact .inr ⟨rfl, zero⟩
    · simp only [Bool.false_eq_true, if_false]
      exact .inl (by omega)

/-- Where no reader knows the opcode, a call returns NULL and leaves everything as it is. -/
theorem receivePdu_unknown (sock : ℕ) (enough : HEADERSIZE ≤ pending.length)
    (unknown : pending.head?.bind readerOf = none) :
    receivePdu sock ⟨pending, []⟩ = some (.null, ⟨pending, []⟩) := by
  obtain ⟨b, rest, rfl⟩ := List.exists_cons_of_length_pos (Nat.lt_of_lt_of_le (by decide) enough)
  have none : readerOf b = none := unknown
  simp only [receivePdu, peekOpCode, if_pos enough, readExactly_run, none, Option.bind_eq_bind, Option.bind_some,
    Option.elim_none]

/-- An INSERT whose length wraps to 0 becomes an empty PDU, and stays where it is. -/
theorem receivePdu_wrapped (sock : ℕ) (enough : HEADERSIZE ≤ pending.length) (head : pending.head? = some INSERT)
    (wrapped : u16 (announced pending + HEADERSIZE + KEY_SIZE) = 0) :
    receivePdu sock ⟨pending, []⟩ = some (.pdu ⟨INSERT, 0, .bytes []⟩, ⟨pending, []⟩) := by
  have found : readerOf INSERT = some insertReader := rfl
  have heard : Heard ⟨pending, []⟩ insertReader := ⟨enough, rfl, by rw [head, Option.bind_some, found]⟩
  have header : readInto HEADERSIZE true (calloc HEADERSIZE) ⟨pending, []⟩ =
      some (pending.take HEADERSIZE, ⟨pending, []⟩) := by
    rw [readInto_whole, if_pos enough]
    simp [calloc, remaining]
  rw [receivePdu_heard heard rfl]
  simp only [Reader.run, insertReader, header, announced_take enough, wrapped, readInto_zero, Option.bind_eq_bind,
    Option.bind_some]
  rfl

end Whole

section Threads

variable {sock : ℕ} {l l' t : Listener} {calls : List Unit}

/-- At the end of the thread nothing follows. -/
theorem run_left (left : l.listening = .left) (ran : run (listen sock) l calls = some t) : t = l := by
  cases calls with
  | nil => exact (Option.some.inj ran).symm
  | cons call calls =>
    have ended : listen sock l call = none := if_pos left
    simp [run_cons, ended] at ran

/-- A thread that stands still does so for ever. -/
theorem standsStill_step (l : Listener) (call : Unit) (l' : Listener) (still : StandsStill l)
    (stepped : listen sock l call = some l') : StandsStill l' := by
  obtain ⟨-, result, conn, received, rfl⟩ := listen_cases stepped
  obtain ⟨listening, ⟨pending, script⟩, deeds⟩ := l
  obtain ⟨rfl, enough, ⟨rfl, unknown⟩ | ⟨rfl, head, wrapped⟩⟩ := still
  · cases (receivePdu_unknown sock enough unknown).symm.trans received
    exact ⟨rfl, enough, .inl ⟨rfl, unknown⟩⟩
  · cases (receivePdu_wrapped sock enough head wrapped).symm.trans received
    exact ⟨rfl, enough, .inr ⟨rfl, head, wrapped⟩⟩

/-- A step that ends the thread elsewhere than in the termination branch. -/
theorem not_leaves_act {result : Received} {conn : Connection} (ended : (actOn l.listening result).2 = .left)
    (act : (actOn l.listening result).1 ≠ .leave) (ran : run (listen sock) (l.act result conn) calls = some t) :
    ¬Leaves t := by
  obtain rfl := run_left ended ran
  rintro ⟨-, last⟩
  simp only [Listener.act, List.getLast?_concat, Option.map_some, Option.some.injEq] at last
  exact act last

/-- From any other state the thread never comes to its termination branch. -/
theorem stuck (going : l.listening ≠ .left) (stops : ¬Goes l) (calls : List Unit) (t : Listener)
    (ran : run (listen sock) l calls = some t) : ¬Leaves t := by
  by_cases still : StandsStill l
  · have still' : StandsStill t := run_invariant standsStill_step still ran
    rintro ⟨left, -⟩
    rcases still'.2.2 with ⟨place, -⟩ | ⟨place, -⟩ <;> cases place.symm.trans left
  cases calls with
  | nil =>
    cases ran
    exact fun leaves => going leaves.1
  | cons call calls =>
    obtain ⟨l', stepped, ran⟩ := Option.bind_eq_some_iff.mp ran
    obtain ⟨-, result, conn, received, rfl⟩ := listen_cases stepped
    have served := (callServed_iff sock l.conn).mp (Option.isSome_of_eq_some received)
    have pending {r : Reader} (heard : Heard l.conn r) : l.conn.pending ≠ [] := fun empty => by
      have enough := heard.1
      simp [empty, HEADERSIZE] at enough
    cases place : l.listening with
    | left => exact absurd place going
    | waiting =>
      have sentinel : l.conn.pending = [] ∧ l.conn.script.head? ≠ some .fail := by
        by_contra other
        exact stops ⟨served, still, fun _ empty => by_contra fun usual => other ⟨empty, usual⟩, by simp [place]⟩
      rcases receivePdu_receives received with ⟨r, -, -, -, heard, -, -, -⟩ | ⟨-, -, -, rfl⟩ | ⟨-, failed, -, -⟩
      · exact absurd sentinel.1 (pending heard)
      · exact not_leaves_act (by simp [place, actOn]) (by simp [place, actOn]) ran
      · exact absurd (failed sentinel.1) sentinel.2
    | looping =>
      have neither : ¬(l.conn.pending = [] ∧ l.conn.script.head? ≠ some .fail ∨ ∃ r, Heard l.conn r) :=
        fun decoded => stops ⟨served, still, by simp [place], fun _ => decoded⟩
      rcases receivePdu_receives received with
        ⟨r, -, -, -, heard, -, -, -⟩ | ⟨empty, usual, -, -⟩ | ⟨-, -, -, rfl⟩
      · exact absurd (.inr ⟨r, heard⟩) neither
      · exact absurd (.inl ⟨empty, usual⟩) neither
      · exact not_leaves_act (by simp [place, actOn]) (by simp [place, actOn]) ran

theorem actOn_distance {listening : Listening} (going : listening ≠ .left) (result : Received) :
    (actOn listening result).2.distance ≤ listening.distance := by
  cases listening with
  | left => exact absurd rfl going
  | waiting => cases result <;> simp [actOn, Listening.distance]
  | looping =>
    cases result <;> simp only [actOn] <;> try split_ifs
    all_goals simp [Listening.distance]

/-- NULL from a connection that delivers what it is asked for stands for an opcode that no reader knows. -/
theorem receivePdu_null {conn next : Connection} (whole : conn.script = [])
    (received : receivePdu sock conn = some (.null, next)) :
    HEADERSIZE ≤ conn.pending.length ∧ conn.pending.head?.bind readerOf = none := by
  rcases receivePdu_receives received with
    ⟨r, script, header, body, -, -, -, impossible⟩ | ⟨-, -, -, impossible⟩ | ⟨-, failed, unheard, -⟩
  · cases impossible
  · cases impossible
  · have enough : HEADERSIZE ≤ conn.pending.length := by
      rcases (callServed_iff sock conn).mp (Option.isSome_of_eq_some received) with empty | ⟨peeks, -⟩
      · cases (congrArg List.head? whole).symm.trans (failed empty)
      · rcases peeks with impossible | ⟨limits, later, split, fails | ⟨-, enough⟩⟩
        · cases impossible
        · rw [whole, eq_comm, List.append_eq_nil_iff] at split
          rw [split.2] at fails
          cases fails
        · exact (Nat.le_add_right ..).trans enough
    refine ⟨enough, Option.eq_none_iff_forall_ne_some.mpr fun r found => unheard r ⟨enough, ?_, found⟩⟩
    rw [whole]
    rfl

/-- A call that returns leaves less to be done, unless the thread stands still. -/
theorem act_smaller {result : Received} {conn : Connection} (going : l.listening ≠ .left)
    (moves : ¬StandsStill l) (received : receivePdu sock l.conn = some (result, conn)) :
    (l.act result conn).size < l.size := by
  obtain ⟨pending, script⟩ := receivePdu_shrinks received
  have nearer := actOn_distance going result
  simp only [Listener.size, Listener.act]
  by_cases silent : l.conn.script.length = 0
  · have whole := List.length_eq_zero_iff.mp silent
    have further : (actOn l.listening result).2.distance < l.listening.distance ∨
        conn.pending.length < l.conn.pending.length := by
      cases place : l.listening with
      | left => exact absurd place going
      | waiting =>
        cases result with
        | pdu pdu => exact .inl (by simp [actOn, Listening.distance])
        | endOfStream => exact .inl (by simp [actOn, Listening.distance])
        | null =>
          obtain ⟨enough, unknown⟩ := receivePdu_null whole received
          exact absurd ⟨whole, enough, .inl ⟨place, unknown⟩⟩ moves
      | looping =>
        rcases receivePdu_receives received with
          ⟨r, left, header, body, heard, peeked, ran, rfl⟩ | ⟨-, -, -, rfl⟩ | ⟨-, -, -, rfl⟩
        · rw [whole] at peeked
          cases peeked
          obtain ⟨opCode, head, found⟩ := Option.bind_eq_some_iff.mp heard.2.2
          rcases run_consumes found ran with fewer | ⟨rfl, wrapped⟩
          · exact .inr fewer
          · exact absurd ⟨whole, heard.1, .inr ⟨place, head, wrapped⟩⟩ moves
        · exact .inl (by simp [actOn, Listening.distance])
        · exact .inl (by simp [actOn, Listening.distance])
    omega
  · omega

/-- From these states the thread gets on. -/
theorem advance (l : Listener) (going : l.listening ≠ .left) (goes : Goes l) :
    ∃ l', listen sock l () = some l' ∧ l'.size < l.size ∧ (l'.listening = .left → Leaves l') := by
  obtain ⟨⟨result, conn⟩, received⟩ := Option.isSome_iff_exists.mp ((callServed_iff sock l.conn).mpr goes.served)
  refine ⟨l.act result conn, listen_receivePdu going received, act_smaller going goes.moves received,
    fun left => ?_⟩
  have act : (actOn l.listening result).1 = .leave := by
    have ended : (actOn l.listening result).2 = .left := left
    cases place : l.listening with
    | left => exact absurd place going
    | waiting =>
      rw [place] at ended
      rcases receivePdu_receives received with
        ⟨r, script, header, body, -, -, -, rfl⟩ | ⟨empty, usual, -, -⟩ | ⟨-, -, -, rfl⟩
      · simp [actOn] at ended
      · exact absurd (goes.joined place empty) usual
      · simp [actOn] at ended
    | looping =>
      rw [place] at ended
      rcases receivePdu_receives received with
        ⟨r, script, header, body, -, -, -, rfl⟩ | ⟨-, -, -, rfl⟩ | ⟨-, failed, unheard, rfl⟩
      · simp only [actOn] at ended
        split_ifs at ended
      · rfl
      · rcases goes.decoded place with ⟨empty, usual⟩ | ⟨r, heard⟩
        · exact absurd (failed empty) usual
        · exact absurd heard (unheard r)
  exact ⟨left, by simp [Listener.act, act]⟩

/-- The reading of a client ends exactly if the thread gets on from every state that it reaches. -/
theorem readingEnds_iff (sock : ℕ) (stream : Bytes) (script : List RecvChoice) :
    ReadingEnds sock stream script ↔
      ∀ calls l, run (listen sock) (.start stream script) calls = some l → l.listening ≠ .left → Goes l :=
  reaches_iff Listener.size advance (fun _ going stops => stuck going stops) (fun _ left => if_pos left)
    (fun _ leaves => leaves.1) (by simp [Listener.start])

end Threads

/-- Each call of `receive_pdu` returns within some number of calls of `recv` exactly if its loops are served,
and a listener thread comes to its termination branch exactly if it gets on from every state it reaches. -/
theorem reading_ends (sock : ℕ) :
    (∀ conn, (∃ calls, (receivePduWithin calls sock conn).isSome) ↔ CallServed conn) ∧
      ∀ stream script, ReadingEnds sock stream script ↔
        ∀ calls l, run (listen sock) (.start stream script) calls = some l → l.listening ≠ .left → Goes l := by
  refine ⟨fun conn => ?_, readingEnds_iff sock⟩
  rw [← callServed_iff sock]
  simp only [Option.isSome_iff_exists, Prod.exists]
  constructor
  · rintro ⟨calls, result, next, ran⟩
    exact ⟨result, next, receivePduWithin_iff.mp ⟨calls, ran⟩⟩
  · rintro ⟨result, next, ran⟩
    obtain ⟨calls, ran⟩ := receivePduWithin_iff.mpr ran
    exact ⟨calls, result, next, ran⟩

/-- Neither a part of a header nor a GET without its key lets a call return, and the thread of a client that
has sent them does not end. -/
theorem reading_stuck :
    (∀ calls, receivePduWithin calls 5 ⟨[JOIN], []⟩ = none) ∧
      (∀ calls, receivePduWithin calls 5 ⟨[GET, 0, 0, 0], []⟩ = none) ∧
        ¬ReadingEnds 5 [JOIN] [] ∧ ¬ReadingEnds 5 [JOIN, 0, 0, 0, GET, 0, 0, 0] [] := by
  have never (conn : Connection) (returns : receivePdu 5 conn = none) (calls : ℕ) :
      receivePduWithin calls 5 conn = none := by
    by_contra some
    obtain ⟨⟨result, next⟩, ran⟩ := Option.ne_none_iff_exists'.mp some
    cases returns.symm.trans (receivePduWithin_iff.mp ⟨calls, ran⟩)
  have unserved {conn : Connection} (returns : receivePdu 5 conn = none) : ¬CallServed conn := fun served => by
    have some := (callServed_iff 5 conn).mpr served
    rw [returns] at some
    cases some
  refine ⟨never _ rfl, never _ rfl, ?_, ?_⟩
  · rw [readingEnds_iff]
    exact fun goes => unserved rfl (goes [] _ rfl (by decide)).served
  · rw [readingEnds_iff]
    exact fun goes => unserved rfl (goes [()] _ rfl (by decide)).served

end Operativsystem.User
