import Mathlib.Logic.Function.Basic
import Operativsystem.Library.Machine
import Operativsystem.Store.StoreData

/-! # Two threads that talk to the kernel

`kernel_communication` and `test_function` share `nlh_user_send`, `nlh_user_receive` and the socket
pair, without a lock, and neither looks at what `recvmsg` returns. Each turn of a thread has a number;
the numbers of the answers in the socket and the log of what the kernel has received are history, no
step depends on them. The kernel answers every message once and in order, so its handling is part of
`sendmsg`, which copies the payload.
-/

namespace Operativsystem.User.Pairing

open Memory Resources Kernel Machine Store

inductive Caller where
  | kernelCommunication
  | testFunction
deriving DecidableEq, Repr

def Caller.other : Caller → Caller
  | .kernelCommunication => .testFunction
  | .testFunction => .kernelCommunication

/-- A request on its way through a thread. -/
structure Turn where
  number : ℕ
  pduSend : Pdu

/-- What a thread does next. -/
inductive Pc where
  | idle
  | copying (turn : Turn)
  | sending (turn : Turn)
  | receiving (turn : Turn)
  | reading (turn : Turn)
  | storing (turn : Turn) (pduReceive : Pdu)
  | broadcasting (turn : Turn) (pduReceive : Pdu)

/-- A message that the kernel has received, how it stood then, and its answer. -/
structure Exchange where
  number : ℕ
  outcomes : Outcomes
  before : KernelState
  request : Bytes
  answer : Bytes

/-- A call of `store_data`, or a broadcast, with the request and the response it uses. -/
structure Use where
  turn : Turn
  pduReceive : Pdu

structure State where
  kernel : KernelState
  nlhUserSend : Payload
  nlhUserReceive : Payload
  answers : List (ℕ × Bytes)
  files : Files
  tests : ℕ
  turns : ℕ
  pc : Caller → Pc
  exchanges : List Exchange
  uses : List Use

/-- How often `test_function` goes round its loop. -/
abbrev TESTS : ℕ := 500000

/-- After `init_hashtable`, whatever it left; no test has been started. -/
def State.start (link : Link) (files : Files) : State :=
  ⟨link.kernel, link.nlhUserSend, link.nlhUserReceive, [], files, TESTS, 0, fun _ => .idle, [], []⟩

/-- The request that `test_function` builds in its round `i`. -/
def testPdu (i : ℕ) : Option Pdu := do
  let key := ascii ("MMMMMMMMMMM MMMMMMMMMMMMMMMMMMMMM" ++ toString i)
  let data := ascii "AAAAAAAAAAAAAAAAAAAAAAAAAAAAAAAAA AAAAAAAAAAAAAAAAAAAAAAAAAAAAAA"
  let field ← memcpy (calloc KEY_SIZE) 0 key key.length
  let insertStruct : InsertStruct := ⟨INSERT, field, data.length + 1, data ++ [0]⟩
  let action ← pduToBufferUser (.insert insertStruct)
  some ⟨USER, insertStruct.dataBytes + HEADERSIZE + KEY_SIZE, .bytes action⟩

def State.goto (s : State) (who : Caller) (pc : Pc) : State := { s with pc := Function.update s.pc who pc }

/-- The thread starts a turn with a request. -/
def State.begin (s : State) (who : Caller) (pduSend : Pdu) : State :=
  { s.goto who (.copying ⟨s.turns, pduSend⟩) with turns := s.turns + 1 }

/-- The next step of a turn; `received` is whether `recvmsg` succeeds. -/
def advance (s : State) (who : Caller) (o : Outcomes) (received : Bool) : Option State :=
  match s.pc who with
  | .idle => none
  | .copying turn =>
    match turn.pduSend.data with
    | .bytes data => (s.nlhUserSend.memcpy data turn.pduSend.dataBytes).map fun payload =>
      { s.goto who (.sending turn) with nlhUserSend := payload }
    | _ => none
  | .sending turn => do
    let (kernel, answer) ← workHandler o s.kernel s.nlhUserSend.1
    let message ← answer
    some { s.goto who (.receiving turn) with
      kernel := kernel
      answers := s.answers ++ [(turn.number, message)]
      exchanges := s.exchanges ++ [⟨turn.number, o, s.kernel, s.nlhUserSend.1, message⟩] }
  | .receiving turn =>
    if received then
      match s.answers with
      | [] => none
      | (_, message) :: rest => some { s.goto who (.reading turn) with
        answers := rest, nlhUserReceive := s.nlhUserReceive.recvmsg message }
    else some (s.goto who (.reading turn))
  | .reading turn => (readExactlyFromKernel s.nlhUserReceive).map fun pduReceive =>
    s.goto who (.storing turn pduReceive)
  | .storing turn pduReceive => (storeData s.files turn.pduSend pduReceive).map fun files =>
    match who with
    | .kernelCommunication => { s.goto who (.broadcasting turn pduReceive) with
      files := files, uses := s.uses ++ [⟨turn, pduReceive⟩] }
    | .testFunction => { s.goto who .idle with files := files, uses := s.uses ++ [⟨turn, pduReceive⟩] }
  | .broadcasting turn pduReceive =>
    some { s.goto who .idle with uses := s.uses ++ [⟨turn, pduReceive⟩] }

/-- `kernel_communication` takes a request from `sender_list`, the command `test` starts
`test_function`, which starts the next round of its loop, or a thread makes the next step of its turn. -/
inductive Event where
  | take (pduSend : Pdu)
  | command
  | round
  | advance (who : Caller) (o : Outcomes) (received : Bool)

/-- Whether the thread is between two turns. -/
def Pc.isIdle : Pc → Bool
  | .idle => true
  | _ => false

def step (s : State) : Event → Option State
  | .take pduSend =>
    if (s.pc .kernelCommunication).isIdle then some (s.begin .kernelCommunication pduSend) else none
  | .command => if (s.pc .testFunction).isIdle ∧ s.tests = TESTS then some { s with tests := 0 } else none
  | .round =>
    if (s.pc .testFunction).isIdle ∧ s.tests < TESTS then
      (testPdu s.tests).map fun pduSend => { s.begin .testFunction pduSend with tests := s.tests + 1 }
    else none
  | .advance who o received => advance s who o received

/-- The bytes of a request that are copied. -/
def ownBytes (pdu : Pdu) : Bytes :=
  match pdu.data with
  | .bytes data => data.take pdu.dataBytes
  | _ => []

/-- The kernel has received a message with the bytes of the turn's request at its front, and gave this
answer. -/
def AnswerTo (turn : Turn) (x : Exchange) : Prop :=
  x.number = turn.number ∧ x.request.take turn.pduSend.dataBytes = ownBytes turn.pduSend ∧
    ∃ kernel, workHandler x.outcomes x.before x.request = some (kernel, some x.answer)

/-- The response that is used is what `read_exactly_from_kernel` reads from the answer to the request. -/
def Paired (exchanges : List Exchange) (u : Use) : Prop :=
  ∃ x ∈ exchanges, AnswerTo u.turn x ∧
    ∃ payload : Payload, readExactlyFromKernel (payload.recvmsg x.answer) = some u.pduReceive

/-- The next step copies the request into `nlh_user_send`. -/
def Pc.copies : Pc → Bool
  | .copying _ => true
  | _ => false

/-- The request is in `nlh_user_send` and has not been sent. -/
def Pc.sends : Pc → Bool
  | .sending _ => true
  | _ => false

/-- The answer is in `nlh_user_receive` and has not been read. -/
def Pc.reads : Pc → Bool
  | .reading _ => true
  | _ => false

/-- The turn that waits for its answer. -/
def Pc.awaits : Pc → Option ℕ
  | .receiving turn => some turn.number
  | _ => none

/-- No thread overwrites `nlh_user_send` while the other one has a request in it, and every `recvmsg`
succeeds, finds the answer to the thread's own message first, and overwrites no answer that the other
thread has not read. -/
def Exclusive (s : State) : Event → Prop
  | .advance who _ received =>
    ((s.pc who).copies = true → (s.pc who.other).sends = false) ∧
    ((s.pc who).awaits.isSome = true → received = true ∧ s.answers.head?.map Prod.fst = (s.pc who).awaits ∧
      (s.pc who.other).reads = false)
  | _ => True

instance (s : State) : (e : Event) → Decidable (Exclusive s e)
  | .advance _ _ _ => inferInstanceAs (Decidable ((_ → _) ∧ (_ → _ ∧ _ ∧ _)))
  | .take _ => isTrue trivial
  | .command => isTrue trivial
  | .round => isTrue trivial

/-- The turn whose message is still to be sent or to be answered. -/
def Pc.number : Pc → Option ℕ
  | .copying turn => some turn.number
  | .sending turn => some turn.number
  | .receiving turn => some turn.number
  | _ => none

/-- What a thread relies on, by the point it has come to. -/
def Knows (s : State) : Pc → Prop
  | .idle => True
  | .copying turn => ∀ x ∈ s.exchanges, x.number ≠ turn.number
  | .sending turn => (∀ x ∈ s.exchanges, x.number ≠ turn.number) ∧
    s.nlhUserSend.1.take turn.pduSend.dataBytes = ownBytes turn.pduSend
  | .receiving turn => ∀ x ∈ s.exchanges, x.number = turn.number → AnswerTo turn x
  | .reading turn => ∃ x ∈ s.exchanges, AnswerTo turn x ∧
    ∃ payload : Payload, s.nlhUserReceive = payload.recvmsg x.answer
  | .storing turn pduReceive => Paired s.exchanges ⟨turn, pduReceive⟩
  | .broadcasting turn pduReceive => Paired s.exchanges ⟨turn, pduReceive⟩

structure Coherent (s : State) : Prop where
  knows : ∀ who, Knows s (s.pc who)
  apart : ∀ who n, (s.pc who).number = some n → (s.pc who.other).number ≠ some n
  fresh : ∀ who n, (s.pc who).number = some n → n < s.turns
  old : ∀ x ∈ s.exchanges, x.number < s.turns
  answers : ∀ a ∈ s.answers, ∃ x ∈ s.exchanges, x.number = a.1 ∧ x.answer = a.2
  uses : ∀ u ∈ s.uses, Paired s.exchanges u

theorem coherent_start (link : Link) (files : Files) : Coherent (.start link files) := by
  constructor <;> simp [State.start, Knows, Pc.number]

section Steps

variable {s s' : State}

theorem Paired.mono {exchanges exchanges' : List Exchange} {u : Use} (paired : Paired exchanges u)
    (kept : exchanges ⊆ exchanges') : Paired exchanges' u := by
  obtain ⟨x, member, rest⟩ := paired
  exact ⟨x, kept member, rest⟩

@[simp] theorem Caller.other_other (who : Caller) : who.other.other = who := by cases who <;> rfl

theorem Caller.other_ne (who : Caller) : who.other ≠ who := by cases who <;> simp [other]

theorem Caller.eq_or (who who' : Caller) : who' = who ∨ who' = who.other := by
  cases who <;> cases who' <;> simp [other]

/-- What a thread knows is not touched by exchanges of the other one. -/
theorem Knows.frame {pc : Pc} (knows : Knows s pc) (kept : s.exchanges ⊆ s'.exchanges)
    (added : ∀ x ∈ s'.exchanges, x ∈ s.exchanges ∨ pc.number ≠ some x.number)
    (send : pc.sends = true → s'.nlhUserSend = s.nlhUserSend)
    (receive : pc.reads = true → s'.nlhUserReceive = s.nlhUserReceive) : Knows s' pc := by
  cases pc with
  | idle => trivial
  | copying turn =>
    intro x member
    rcases added x member with old | other
    · exact knows x old
    · exact fun same => other (congrArg some same.symm)
  | sending turn =>
    obtain ⟨unsent, copied⟩ := knows
    refine ⟨fun x member => ?_, by rwa [send rfl]⟩
    rcases added x member with old | other
    · exact unsent x old
    · exact fun same => other (congrArg some same.symm)
  | receiving turn =>
    intro x member same
    rcases added x member with old | other
    · exact knows x old same
    · exact absurd (congrArg some same.symm) other
  | reading turn =>
    obtain ⟨x, member, answer, payload, landed⟩ := knows
    exact ⟨x, kept member, answer, payload, by rw [receive rfl, landed]⟩
  | storing turn pduReceive => exact Paired.mono knows kept
  | broadcasting turn pduReceive => exact Paired.mono knows kept

/-- A step within a turn. -/
theorem Coherent.move (coherent : Coherent s) {who : Caller} {pc : Pc}
    (pcs : s'.pc = Function.update s.pc who pc) (turns : s'.turns = s.turns)
    (kept : s.exchanges ⊆ s'.exchanges)
    (added : ∀ x ∈ s'.exchanges, x ∈ s.exchanges ∨ (s.pc who).number = some x.number)
    (send : (s.pc who.other).sends = true → s'.nlhUserSend = s.nlhUserSend)
    (receive : (s.pc who.other).reads = true → s'.nlhUserReceive = s.nlhUserReceive)
    (number : ∀ n, pc.number = some n → (s.pc who).number = some n) (knows : Knows s' pc)
    (answers : ∀ a ∈ s'.answers, a ∈ s.answers ∨ ∃ x ∈ s'.exchanges, x.number = a.1 ∧ x.answer = a.2)
    (uses : ∀ u ∈ s'.uses, u ∈ s.uses ∨ Paired s'.exchanges u) : Coherent s' := by
  have own : s'.pc who = pc := by rw [pcs, Function.update_self]
  have rest : s'.pc who.other = s.pc who.other := by rw [pcs, Function.update_of_ne who.other_ne]
  have stays (x : Exchange) (member : x ∈ s'.exchanges) :
      x ∈ s.exchanges ∨ (s.pc who.other).number ≠ some x.number :=
    (added x member).imp_right (coherent.apart who x.number)
  constructor
  · intro who'
    rcases who.eq_or who' with rfl | rfl
    · rwa [own]
    · rw [rest]
      exact (coherent.knows who.other).frame kept stays send receive
  · intro who' n same
    rcases who.eq_or who' with rfl | rfl
    · rw [own] at same
      rw [rest]
      exact coherent.apart _ n (number n same)
    · rw [rest] at same
      rw [Caller.other_other, own]
      intro same'
      exact coherent.apart who n (number n same') same
  · intro who' n same
    rw [turns]
    rcases who.eq_or who' with rfl | rfl
    · rw [own] at same
      exact coherent.fresh _ n (number n same)
    · rw [rest] at same
      exact coherent.fresh _ n same
  · intro x member
    rw [turns]
    rcases added x member with old | new
    · exact coherent.old x old
    · exact coherent.fresh who x.number new
  · intro a member
    rcases answers a member with old | new
    · obtain ⟨x, inside, same⟩ := coherent.answers a old
      exact ⟨x, kept inside, same⟩
    · exact new
  · intro u member
    exact (uses u member).elim (fun old => (coherent.uses u old).mono kept) id

/-- A new turn has a number that no message has had. -/
theorem Coherent.begin (coherent : Coherent s) (who : Caller) (pduSend : Pdu) :
    Coherent (s.begin who pduSend) := by
  have own : (s.begin who pduSend).pc who = .copying ⟨s.turns, pduSend⟩ := Function.update_self ..
  have rest : (s.begin who pduSend).pc who.other = s.pc who.other := Function.update_of_ne who.other_ne ..
  constructor
  · intro who'
    rcases who.eq_or who' with rfl | rfl
    · rw [own]
      exact fun x member => (coherent.old x member).ne
    · rw [rest]
      exact (coherent.knows who.other).frame (List.Subset.refl _) (fun _ => .inl) (fun _ => rfl) (fun _ => rfl)
  · intro who' n same
    rcases who.eq_or who' with rfl | rfl
    · rw [own] at same
      cases same
      rw [rest]
      exact fun same => lt_irrefl _ (coherent.fresh _ _ same)
    · rw [rest] at same
      rw [Caller.other_other, own]
      rintro ⟨⟩
      exact lt_irrefl _ (coherent.fresh _ _ same)
  · intro who' n same
    rcases who.eq_or who' with rfl | rfl
    · rw [own] at same
      cases same
      exact Nat.lt_succ_self _
    · rw [rest] at same
      exact (coherent.fresh _ n same).trans (Nat.lt_succ_self _)
  · exact fun x member => (coherent.old x member).trans (Nat.lt_succ_self _)
  · exact coherent.answers
  · exact coherent.uses

theorem memcpy_take {payload payload' : Payload} {src : Bytes} {n : ℕ}
    (copied : payload.memcpy src n = some payload') : payload'.1.take n = src.take n := by
  obtain ⟨available, -, written⟩ := payload.memcpy_some copied
  rw [written]
  exact List.take_left' (List.length_take_of_le available)

theorem advance_coherent (coherent : Coherent s) {who : Caller} {o : Outcomes} {received : Bool}
    (exclusive : Exclusive s (.advance who o received)) (stepped : advance s who o received = some s') :
    Coherent s' := by
  obtain ⟨free, turn⟩ := exclusive
  have knows := coherent.knows who
  have same : s.exchanges ⊆ s.exchanges := List.Subset.refl _
  rw [advance] at stepped
  split at stepped
  · cases stepped
  · rename_i turn copying
    rw [copying] at free knows
    split at stepped
    · rename_i data content
      obtain ⟨payload, copied, rfl⟩ := Option.map_eq_some_iff.mp stepped
      refine coherent.move rfl rfl same (fun _ => .inl) ?_ (fun _ => rfl) ?_ ?_ (fun _ => .inl) (fun _ => .inl)
      · simp [free rfl]
      · simp [copying, Pc.number]
      · refine ⟨knows, ?_⟩
        rw [ownBytes, content]
        exact memcpy_take copied
    · cases stepped
  · rename_i turn sending
    rw [sending] at knows
    obtain ⟨unsent, copied⟩ := knows
    simp only [Option.bind_eq_bind, Option.bind_eq_some_iff] at stepped
    obtain ⟨⟨kernel, answer⟩, handled, message, rfl, same⟩ := stepped
    cases same
    refine coherent.move rfl rfl (List.subset_append_left _ _) ?_ (fun _ => rfl) (fun _ => rfl) ?_ ?_ ?_
      (fun _ => .inl)
    · intro x member
      rcases List.mem_append.mp member with old | new
      · exact .inl old
      · cases List.mem_singleton.mp new
        exact .inr (by simp [sending, Pc.number])
    · simp [sending, Pc.number]
    · intro x member number
      rcases List.mem_append.mp member with old | new
      · exact absurd number (unsent x old)
      · cases List.mem_singleton.mp new
        exact ⟨rfl, copied, kernel, handled⟩
    · intro a member
      rcases List.mem_append.mp member with old | new
      · exact .inl old
      · cases List.mem_singleton.mp new
        exact .inr ⟨_, List.mem_append_right _ (List.mem_singleton.mpr rfl), rfl, rfl⟩
  · rename_i own receiving
    rw [receiving] at knows turn
    obtain ⟨rfl, first, unread⟩ := turn rfl
    rw [if_pos rfl] at stepped
    split at stepped
    · cases stepped
    rename_i number message rest waiting
    cases stepped
    have mine : number = own.number := by simpa [waiting, Pc.awaits] using first
    obtain ⟨x, member, answered, content⟩ := coherent.answers (number, message) (by simp [waiting])
    refine coherent.move rfl rfl same (fun _ => .inl) (fun _ => rfl) ?_ nofun ?_ ?_ (fun _ => .inl)
    · simp [unread]
    · exact ⟨x, member, knows x member (answered.trans mine), s.nlhUserReceive, by rw [content]⟩
    · intro a inside
      exact .inl (by rw [waiting]; exact List.mem_cons_of_mem _ inside)
  · rename_i turn reading
    rw [reading] at knows
    obtain ⟨x, member, answer, payload, landed⟩ := knows
    obtain ⟨pduReceive, read, rfl⟩ := Option.map_eq_some_iff.mp stepped
    refine coherent.move rfl rfl same (fun _ => .inl) (fun _ => rfl) (fun _ => rfl) nofun ?_ (fun _ => .inl)
      (fun _ => .inl)
    exact ⟨x, member, answer, payload, landed ▸ read⟩
  · rename_i turn pduReceive storing
    rw [storing] at knows
    obtain ⟨files, stored, same'⟩ := Option.map_eq_some_iff.mp stepped
    have uses (u : Use) (member : u ∈ s.uses ++ [⟨turn, pduReceive⟩]) : u ∈ s.uses ∨ Paired s.exchanges u := by
      rcases List.mem_append.mp member with old | new
      · exact .inl old
      · cases List.mem_singleton.mp new
        exact .inr knows
    cases who with
    | kernelCommunication =>
      cases same'
      exact coherent.move rfl rfl same (fun _ => .inl) (fun _ => rfl) (fun _ => rfl) nofun knows
        (fun _ => .inl) uses
    | testFunction =>
      cases same'
      exact coherent.move rfl rfl same (fun _ => .inl) (fun _ => rfl) (fun _ => rfl) nofun trivial
        (fun _ => .inl) uses
  · rename_i turn pduReceive broadcasting
    rw [broadcasting] at knows
    cases stepped
    refine coherent.move rfl rfl same (fun _ => .inl) (fun _ => rfl) (fun _ => rfl) nofun trivial
      (fun _ => .inl) ?_
    intro u member
    rcases List.mem_append.mp member with old | new
    · exact .inl old
    · cases List.mem_singleton.mp new
      exact .inr knows

theorem step_coherent (s : State) (e : Event) (s' : State) (exclusive : Exclusive s e) (coherent : Coherent s)
    (stepped : step s e = some s') : Coherent s' := by
  cases e with
  | take pduSend =>
    simp only [step] at stepped
    split_ifs at stepped
    cases stepped
    exact coherent.begin _ pduSend
  | command =>
    simp only [step] at stepped
    split_ifs at stepped
    cases stepped
    exact ⟨coherent.knows, coherent.apart, coherent.fresh, coherent.old, coherent.answers, coherent.uses⟩
  | round =>
    simp only [step] at stepped
    split_ifs at stepped
    obtain ⟨pduSend, -, rfl⟩ := Option.map_eq_some_iff.mp stepped
    obtain ⟨knows, apart, fresh, old, answers, uses⟩ := coherent.begin .testFunction pduSend
    exact ⟨knows, apart, fresh, old, answers, uses⟩
  | advance who o received => exact advance_coherent coherent exclusive stepped

end Steps

/-- As long as the threads keep out of each other's way and every `recvmsg` brings the thread's own
answer, `store_data` and the broadcast get the response to the request they are called with. -/
theorem answers_paired {link : Link} {files : Files} {events : List Event} {s : State}
    (ran : run step (.start link files) events = some s)
    (exclusive : Steps step Exclusive (.start link files) events) : ∀ u ∈ s.uses, Paired s.exchanges u :=
  (run_invariant_of_steps step_coherent (coherent_start link files) exclusive ran).uses

/-- The INIT request of a client, as it comes out of `sender_list`. -/
def clientInit : Pdu := ⟨INIT, 4, .bytes [INIT, 0, 0, 0, 0]⟩

/-- A step of a turn in which nothing fails. -/
def go (who : Caller) : Event := .advance who (.smooth 0) true

/-- Both threads have a request in the kernel at the same time and take their answers in order. -/
theorem answers_paired_both :
    let events := [.take clientInit, .command, .round, go .kernelCommunication, go .kernelCommunication,
      go .testFunction, go .testFunction, go .kernelCommunication, go .kernelCommunication,
      go .testFunction, go .testFunction, go .kernelCommunication, go .testFunction, go .kernelCommunication]
    ∃ s, run step (.start (initialLink 0) ⟨[], []⟩) events = some s ∧
      s.uses.map (fun u => u.turn.number) = [0, 1, 0] ∧ ∀ u ∈ s.uses, Paired s.exchanges u := by
  intro events
  have result : (run step (.start (initialLink 0) ⟨[], []⟩) events).map
      (fun s => s.uses.map fun u => u.turn.number) = some [0, 1, 0] := by decide +kernel
  obtain ⟨s, ran, used⟩ := Option.map_eq_some_iff.mp result
  have exclusive : Steps step Exclusive (.start (initialLink 0) ⟨[], []⟩) events := by decide +kernel
  exact ⟨s, ran, used, answers_paired ran exclusive⟩

/-- The test overwrites a request that has been copied and not sent: the kernel gets the INSERT of the
test twice, and `kernel_communication` uses the answer to it for its INIT. -/
def overtaken : List Event :=
  [.take clientInit, .command, .round, go .kernelCommunication, go .testFunction, go .kernelCommunication,
    go .kernelCommunication, go .kernelCommunication, go .kernelCommunication]

/-- `recvmsg` fails, and the response before is read again. -/
def unreceived : List Event :=
  [.take clientInit, go .kernelCommunication, go .kernelCommunication,
    .advance .kernelCommunication (.smooth 0) false, go .kernelCommunication, go .kernelCommunication]

theorem answers_mixed_up :
    (∃ s, run step (.start (initialLink 0) ⟨[], []⟩) overtaken = some s ∧ ∃ u ∈ s.uses, ¬Paired s.exchanges u) ∧
    (∃ s, run step (.start (initialLink 0) ⟨[], []⟩) unreceived = some s ∧
      ∃ u ∈ s.uses, ¬Paired s.exchanges u) := by
  constructor
  · have result : (run step (.start (initialLink 0) ⟨[], []⟩) overtaken).map (fun s =>
        (s.exchanges.map fun x => x.request.take 4,
          s.uses.map fun u => (u.turn.pduSend.dataBytes, ownBytes u.turn.pduSend))) =
        some ([[INSERT, 65, 0, 0]], [(4, [INIT, 0, 0, 0])]) := by decide +kernel
    obtain ⟨s, ran, same⟩ := Option.map_eq_some_iff.mp result
    obtain ⟨requests, uses⟩ := Prod.mk.inj same
    obtain ⟨u, used, shape⟩ := List.mem_map.mp (uses ▸ List.mem_singleton.mpr rfl)
    obtain ⟨size, own⟩ := Prod.mk.inj shape
    refine ⟨s, ran, u, used, ?_⟩
    rintro ⟨x, member, ⟨-, front, -⟩, -⟩
    have sent := List.mem_map_of_mem (f := fun x : Exchange => x.request.take 4) member
    rw [size, own] at front
    rw [requests, List.mem_singleton, front] at sent
    exact absurd sent (by decide)
  · have result : (run step (.start (initialLink 0) ⟨[], []⟩) unreceived).map (fun s =>
        (s.exchanges.map fun x => x.answer, s.uses.map fun u => ownBytes u.pduReceive)) =
        some ([answerFrame 0 (answerText "Hashtable already initialized.")],
          [answerFrame 0 (answerText "Initialized hashtable.")]) := by decide +kernel
    obtain ⟨s, ran, same⟩ := Option.map_eq_some_iff.mp result
    obtain ⟨answers, uses⟩ := Prod.mk.inj same
    obtain ⟨u, used, read⟩ := List.mem_map.mp (uses ▸ List.mem_singleton.mpr rfl)
    refine ⟨s, ran, u, used, ?_⟩
    rintro ⟨x, member, -, payload, received⟩
    have answer := List.mem_map_of_mem (f := fun x : Exchange => x.answer) member
    rw [answers, List.mem_singleton] at answer
    rw [answer, readExactlyFromKernel_eq payload 0 (by decide)] at received
    rw [← Option.some.inj received] at read
    exact absurd read (by decide +kernel)

end Operativsystem.User.Pairing
