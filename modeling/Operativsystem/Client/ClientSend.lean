import Operativsystem.Client.Prompts
import Operativsystem.Client.Requests
import Operativsystem.Library.Machine

/-! # The menu of the client

`client_send` reads a line of the menu with `fgets`, then the lines that its choice asks for, and sends one
request; it goes on until `close_client` is set or the user leaves. The condition of its loop compares a
variable that is never given a value. What is sent goes to the server one PDU after the other, so the bytes are
collected here. When the server has kicked the client, `client_listen` shuts the socket down, at any time, and
what is sent after that is lost.
-/

namespace Operativsystem.Client

open Memory Resources

/-- The characters that `fgets` stores before the terminator, at most `limit`, and what is left of the input. -/
def fgets : ℕ → Bytes → Bytes × Bytes
  | 0, stdin => ([], stdin)
  | _ + 1, [] => ([], [])
  | limit + 1, c :: stdin =>
    if c = newline then ([c], stdin)
    else
      let (line, rest) := fgets limit stdin
      (c :: line, rest)

/-- Where `client_send` is: in its loop, returned from `case '5'`, or behind the loop. -/
inductive Menu where
  | looping
  | returned
  | left
deriving DecidableEq, Repr

structure ClientSend where
  stdin : Bytes
  sent : Bytes
  shut : Bool
  menu : Menu
deriving DecidableEq

def ClientSend.start (stdin : Bytes) : ClientSend := ⟨stdin, [], false, .looping⟩

/-- What a turn meets: whether `client_listen` has set `close_client` at its test; after how many PDUs of this
turn the socket is shut down, if it is; the first character that `message` holds, which is given no value; and
what lies in memory behind `key` and, in the tests, behind the key that is made from a number. -/
structure MenuTurn where
  closeClient : Bool
  shutAfter : Option ℕ
  message : Byte
  behind : Bytes
  behindTest : ℕ → Bytes

/-- `sprintf(key, "%d", i)`. -/
def decimal (i : ℕ) : Bytes := ascii i.repr

/-- The loops of `end_2_end_test_1` and `end_2_end_test_2`: this many INSERTs, from a number on. -/
def endToEndTest (behind : ℕ → Bytes) : ℕ → ℕ → Option (List Bytes)
  | _, 0 => some []
  | i, count + 1 => do
    let pduSend ← createInsertToServer (decimal i ++ 0 :: behind i) (decimal i ++ [0]) ((decimal i).length + 1)
    let bytes ← sendPdu pduSend
    let later ← endToEndTest behind (i + 1) count
    some (bytes :: later)

/-- What a choice of the menu comes to. -/
inductive Choice where
  | request (pdu : Pdu) (stdin : Bytes)
  | quit (pdu : Pdu)
  | test (pdus : List Bytes)
  | bad

/-- A prompt whose loop has stayed in its array. -/
def Prompt.Inside (p : Prompt) : Prop := ∀ i ∈ p.stores, i < MAXMESSLEN + 1

instance (p : Prompt) : Decidable p.Inside := inferInstanceAs (Decidable (∀ i ∈ p.stores, i < MAXMESSLEN + 1))

/-- `case '3'` and `case '4'`: a key, and the request that is built from it. -/
def chooseKey (build : Bytes → Option Pdu) (behind stdin : Bytes) : Option Choice := do
  let key ← enter stdin.length stdin
  if key.Inside then do
    let pdu ← build (key.buffer ++ behind)
    some (.request pdu key.stdin)
  else none

/-- `case '2'`. -/
def chooseInsert (behind stdin : Bytes) : Option Choice := do
  let (key, data) ← enterInsert stdin.length stdin
  if key.Inside ∧ data.Inside then do
    let length ← strlen data.buffer
    let pdu ← createInsertToServer (key.buffer ++ behind) data.buffer (length + 1)
    some (.request pdu data.stdin)
  else none

/-- `switch (message[0])`. `TEST_INT_INSERT`, in `case '6'`, copies four bytes into a variable of two. -/
def switchMessage (t : MenuTurn) (c : Byte) (stdin : Bytes) : Option Choice :=
  if c = 49 then do
    let pdu ← createInitToServer
    some (.request pdu stdin)
  else if c = 50 then chooseInsert t.behind stdin
  else if c = 51 then chooseKey createGetToServer t.behind stdin
  else if c = 52 then chooseKey createDeleteToServer t.behind stdin
  else if c = 53 then do
    let pdu ← createQuitPdu
    some (.quit pdu)
  else if c = 54 then none
  else if c = 55 then do
    let pdus ← endToEndTest t.behindTest 0 1000000
    some (.test pdus)
  else if c = 56 then do
    let pdus ← endToEndTest t.behindTest 10000 10000
    some (.test pdus)
  else some .bad

/-- `while (choice != 5)`, with the value that happens to be in `choice`. -/
def again (choice : ℤ) : Menu := if choice = 5 then .left else .looping

/-- `fgets(message, MAXMESSLEN, stdin)`: the first character. At the end of the input `message` stays as it is. -/
def fgetsMessage (t : MenuTurn) (stdin : Bytes) : Byte × Bytes :=
  match fgets (MAXMESSLEN - 1) stdin with
  | ([], rest) => (t.message, rest)
  | (c :: _, rest) => (c, rest)

/-- The PDUs that are sent before the socket is shut down. -/
def beforeShut : Option ℕ → List Bytes → List Bytes
  | none, pdus => pdus
  | some count, pdus => pdus.take count

/-- The end of a turn that calls `send_pdu` with these bytes; nobody looks at what it returns. -/
def ClientSend.send (s : ClientSend) (t : MenuTurn) (stdin : Bytes) (pdus : List Bytes) (menu : Menu) :
    ClientSend where
  stdin := stdin
  sent := if s.shut then s.sent else s.sent ++ (beforeShut t.shutAfter pdus).flatten
  shut := s.shut || t.shutAfter.isSome
  menu := menu

/-- One turn of the loop. -/
def clientSend (choice : ℤ) (s : ClientSend) (t : MenuTurn) : Option ClientSend :=
  if s.menu ≠ .looping then none
  else if t.closeClient then some { s with menu := .left }
  else
    let (c, stdin) := fgetsMessage t s.stdin
    if c = newline then some (s.send t stdin [] (again choice))
    else do
      match ← switchMessage t c stdin with
      | .request pdu rest => do
        let bytes ← sendPdu pdu
        some (s.send t rest [bytes] (again choice))
      | .quit pdu => do
        let bytes ← sendPdu pdu
        some (s.send t stdin [bytes] .returned)
      | .test pdus => some (s.send t stdin pdus (again choice))
      | .bad => some (s.send t stdin [] (again choice))

/-- `setupJOINPDU`: at most 50 characters of the name, and the byte behind them. -/
def setupJoinPdu (clientname : Bytes) : Option Pdu := do
  let length ← strnlen MAXMESSLEN clientname
  let data ← memcpy (calloc (HEADERSIZE + length + 1)) 0 [JOIN] 1
  let data ← memcpy data 1 (le16Bytes (length + 1)) 2
  let data ← memcpy data HEADERSIZE clientname (length + 1)
  some ⟨USER, HEADERSIZE + length + 1, .bytes data⟩

/-- A line that fits is read as a whole. -/
theorem fgets_line {line : Bytes} {limit : ℕ} (unbroken : newline ∉ line) (fits : line.length < limit)
    (rest : Bytes) : fgets limit (line ++ newline :: rest) = (line ++ [newline], rest) := by
  induction line generalizing limit with
  | nil =>
    obtain ⟨limit, rfl⟩ := Nat.exists_eq_succ_of_ne_zero (Nat.ne_zero_of_lt fits)
    simp [fgets]
  | cons c line ih =>
    obtain ⟨limit, rfl⟩ := Nat.exists_eq_succ_of_ne_zero (Nat.ne_zero_of_lt fits)
    obtain ⟨different, unbroken⟩ : newline ≠ c ∧ newline ∉ line := by simpa using unbroken
    simp [fgets, Ne.symm different, ih unbroken (Nat.succ_lt_succ_iff.mp fits)]

@[simp] theorem Prompt.store_buffer_length (p : Prompt) : p.store.buffer.length = p.buffer.length :=
  List.length_set

/-- No loop changes the size of its array. -/
theorem loop_buffer_length {fuel : ℕ} {p q : Prompt} (looped : p.loop fuel = some q) :
    q.buffer.length = p.buffer.length := by
  induction fuel generalizing p with
  | zero =>
    simp only [Prompt.loop, Option.ite_none_left_eq_some] at looped
    rw [Option.some.inj looped.2]
  | succ fuel ih =>
    simp only [Prompt.loop] at looped
    split at looped
    · rw [ih looped, Prompt.turn]
      simp only
      split <;> simp
    · rw [Option.some.inj looped]

theorem enter_buffer_length {fuel : ℕ} {stdin : Bytes} {p : Prompt} (entered : enter fuel stdin = some p) :
    p.buffer.length = MAXMESSLEN + 1 := by
  rw [loop_buffer_length entered, Prompt.start]
  simp

end Operativsystem.Client
