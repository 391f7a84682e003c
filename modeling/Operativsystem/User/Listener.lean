import Operativsystem.Library.Machine
import Operativsystem.Resources.Readers
import Operativsystem.User.SenderList

/-! # The turns of a listener thread

The thread of a client calls `receive_pdu` again and again: `client_JOIN` until the result is not NULL,
then the loop of `client_listener`. A `Deed` is what the thread does with one result. The stream of the
client may be cut and interrupted in any way.
-/

namespace Operativsystem.User

open Memory Resources Machine

/-- Where `client_listener` is: before its JOIN, in its loop, or at its end. -/
inductive Listening where
  | waiting
  | looping
  | left
deriving DecidableEq, Repr

/-- What the thread does with a result: call again, use its data as a `JOIN_struct`, free it as QUIT or as
JOIN, append it to `sender_list`, take the termination branch, or read an opcode through NULL. -/
inductive Act where
  | retry
  | join
  | discardQuit
  | discardJoin
  | insertlast
  | leave
  | follow
deriving DecidableEq, Repr

/-- `client_JOIN` and the use of its result, or one turn of the loop. Nobody tests the opcode of the first PDU,
so the thread goes on behind any PDU that it has used as a JOIN. The sentinel has no data, so nothing comes
after its use. -/
def actOn : Listening → Received → Act × Listening
  | .waiting, .null => (.retry, .waiting)
  | .waiting, .pdu _ => (.join, .looping)
  | .waiting, .endOfStream => (.join, .left)
  | _, .endOfStream => (.leave, .left)
  | _, .null => (.follow, .left)
  | _, .pdu pdu =>
    if pdu.opCode = QUIT then (.discardQuit, .looping)
    else if pdu.opCode = JOIN then (.discardJoin, .looping)
    else (.insertlast, .looping)

/-- One use of a result, with the bytes that were pending at the call. -/
structure Deed where
  act : Act
  front : Bytes
  result : Received
deriving DecidableEq

/-- The PDU that is appended to `sender_list`. -/
def Deed.inserted (d : Deed) : Option Pdu :=
  match d.act, d.result with
  | .insertlast, .pdu pdu => some pdu
  | _, _ => none

structure Listener where
  listening : Listening
  conn : Connection
  deeds : List Deed
deriving DecidableEq

def Listener.start (stream : Bytes) (script : List RecvChoice) : Listener := ⟨.waiting, ⟨stream, script⟩, []⟩

/-- The listener after a call of `receive_pdu`. -/
def Listener.act (l : Listener) (result : Received) (conn : Connection) : Listener :=
  ⟨(actOn l.listening result).2, conn, l.deeds ++ [⟨(actOn l.listening result).1, l.conn.pending, result⟩]⟩

/-- One call of `receive_pdu`, which may never return. -/
def listen (sock : ℕ) (l : Listener) (_ : Unit) : Option Listener :=
  if l.listening = .left then none
  else (receivePdu sock l.conn).map fun (result, conn) => l.act result conn

section Turns

variable {sock : ℕ} {l l' : Listener} {result : Received} {conn : Connection}

theorem listen_cases (stepped : listen sock l () = some l') :
    l.listening ≠ .left ∧
      ∃ result conn, receivePdu sock l.conn = some (result, conn) ∧ l' = l.act result conn := by
  simp only [listen, Option.ite_none_left_eq_some] at stepped
  obtain ⟨going, stepped⟩ := stepped
  obtain ⟨⟨result, conn⟩, received, rfl⟩ := Option.map_eq_some_iff.mp stepped
  exact ⟨going, result, conn, received, rfl⟩

theorem listen_receivePdu (going : l.listening ≠ .left)
    (received : receivePdu sock l.conn = some (result, conn)) :
    listen sock l () = some (l.act result conn) := by
  rw [listen, if_neg going, received]
  rfl

/-- The loop appends what `clientListener` says. -/
theorem actOn_insertlast {pdu : Pdu} :
    clientListener result = some (.insertlast pdu) ↔
      result = .pdu pdu ∧ (actOn .looping result).1 = .insertlast := by
  cases result with
  | endOfStream => simp [clientListener]
  | null => simp [clientListener]
  | pdu value =>
    simp only [clientListener, actOn, Received.pdu.injEq]
    split_ifs <;> simp

/-- A turn appends what `clientListener` says. -/
theorem inserted_act {front : Bytes} {pdu : Pdu} {listening : Listening}
    (inserted : Deed.inserted ⟨(actOn listening result).1, front, result⟩ = some pdu)
    (going : listening ≠ .left) :
    listening = .looping ∧ result = .pdu pdu ∧ pdu.opCode ≠ QUIT ∧ pdu.opCode ≠ JOIN := by
  cases listening with
  | left => exact absurd rfl going
  | waiting => cases result <;> simp [Deed.inserted, actOn] at inserted
  | looping =>
    cases result with
    | pdu value =>
      simp only [Deed.inserted, actOn] at inserted
      by_cases quit : value.opCode = QUIT
      · simp [quit] at inserted
      · by_cases join : value.opCode = JOIN
        · simp [join, JOIN, QUIT] at inserted
        · simp only [if_neg quit, if_neg join, Option.some.injEq] at inserted
          exact inserted ▸ ⟨rfl, rfl, quit, join⟩
    | endOfStream => simp [Deed.inserted] at inserted
    | null => simp [Deed.inserted] at inserted

/-- The thread waits until a result is not NULL, and comes to the loop with the first PDU. -/
theorem actOn_waiting_iff {listening : Listening} :
    (actOn listening result).2 = .waiting ↔ listening = .waiting ∧ result = .null := by
  cases listening <;> cases result <;> simp only [actOn] <;> try split_ifs
  all_goals simp

end Turns

end Operativsystem.User
