import Operativsystem.Library.Machine
import Operativsystem.Resources.Readers

/-! # What the client does with a PDU

`client_listen` copies the first byte that the data of the PDU points to, whatever `receive_pdu` has
returned, and leaves its loop if that byte is QUIT. It takes no notice of the opcode of the PDU.
-/

namespace Operativsystem.Client

open Memory Resources Machine

/-- The byte that `data` points to; both records start with their opcode. -/
def firstByte : PduData → Option Byte
  | .bytes content => content.head?
  | .join .. => some JOIN
  | .quit .. => some QUIT

/-- Where `client_listen` is: in its loop, behind it, or at a sentinel or NULL that it follows. -/
inductive Listen where
  | looping
  | kicked
  | following
deriving DecidableEq, Repr

/-- Besides the connection and `num_receive`: the results of the calls of `receive_pdu`. -/
structure ClientListener where
  listen : Listen
  numReceive : ℕ
  conn : Connection
  results : List Received
deriving DecidableEq

def ClientListener.start (stream : Bytes) (script : List RecvChoice) : ClientListener :=
  ⟨.looping, 0, ⟨stream, script⟩, []⟩

/-- The turn that has received a result. -/
def ClientListener.hear (c : ClientListener) (result : Received) (conn : Connection) : Option ClientListener :=
  match result with
  | .pdu pdu => do
    let opCode ← firstByte pdu.data
    if opCode = QUIT then some ⟨.kicked, c.numReceive, conn, c.results ++ [result]⟩
    else some ⟨.looping, c.numReceive + 1, conn, c.results ++ [result]⟩
  | _ => some ⟨.following, c.numReceive, conn, c.results ++ [result]⟩

/-- One turn of the loop; `receive_pdu` may never return. -/
def clientListen (clientServer : ℕ) (c : ClientListener) (_ : Unit) : Option ClientListener :=
  if c.listen = .looping then do
    let (result, conn) ← receivePdu clientServer c.conn
    c.hear result conn
  else none

section Turns

variable {clientServer : ℕ} {c c' : ClientListener} {result : Received} {conn : Connection}

theorem clientListen_cases (stepped : clientListen clientServer c () = some c') :
    c.listen = .looping ∧ ∃ result conn, receivePdu clientServer c.conn = some (result, conn) ∧
      c.hear result conn = some c' := by
  simp only [clientListen, Option.ite_none_right_eq_some] at stepped
  obtain ⟨looping, stepped⟩ := stepped
  obtain ⟨⟨result, conn⟩, received, heard⟩ := Option.bind_eq_some_iff.mp stepped
  exact ⟨looping, result, conn, received, heard⟩

theorem hear_results (heard : c.hear result conn = some c') : c'.results = c.results ++ [result] := by
  cases result with
  | pdu pdu =>
    obtain ⟨opCode, -, heard⟩ := Option.bind_eq_some_iff.mp heard
    split_ifs at heard <;> cases heard <;> rfl
  | endOfStream => exact Option.some.inj heard ▸ rfl
  | null => exact Option.some.inj heard ▸ rfl

end Turns

end Operativsystem.Client
