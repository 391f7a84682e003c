import Operativsystem.Kernel.Kmalloc
import Operativsystem.Kernel.OwnBytes
import Operativsystem.User.KernelCommunication

/-! # A byte of kernel memory in every answer

Requests are served one after the other, each with allocations whose contents are arbitrary. The table does not
depend on these contents, nor does any byte of an answer but one: the fourth, which is never written. It is sent
to the server, copied with the message and broadcast to all clients.
-/

namespace Operativsystem.User

open Memory Resources Kernel

/-- A well-formed request in its payload, and what the allocators return for it: the memory that the module uses
without a check is there. -/
structure Call where
  outcomes : Outcomes
  own : Bytes
  rest : Bytes
  contained : SelfContained own
  size : (own ++ rest).length = MAX_PAYLOAD
  value : outcomes.value = true
  buffer : outcomes.buffer = true

def Call.serve (call : Call) (c : Contents) (k : KernelState) : Option (KernelState × Option Bytes) :=
  c.workHandler call.outcomes k (call.own ++ call.rest)

/-- The table that calls leave; `contents` gives the allocations of each. -/
def stateAfter : (ℕ → Contents) → KernelState → List Call → Option KernelState
  | _, k, [] => some k
  | contents, k, call :: rest => do
    let k ← (call.serve (contents 0) k).map Prod.fst
    stateAfter (fun i => contents (i + 1)) k rest

/-- What is sent for any request after calls on a fresh module. -/
def answerAfter (contents : ℕ → Contents) (calls : List Call) (o : Outcomes) (request : Bytes) :
    Option (Option Bytes) := do
  let k ← stateAfter contents ⟨none⟩ calls
  ((contents calls.length).workHandler o k request).map Prod.snd

/-- The frame that `kernel_communication` sends to every client for a message. -/
def broadcastFrame (payload : Payload) (message : Bytes) : Option Bytes := do
  let pdu ← readExactlyFromKernel (payload.recvmsg message)
  sendPdu pdu

/-- What is sent for a request, and what the clients receive of it, does not depend on what the allocations of
this request and of the calls before it held. -/
def AnswersAlike (calls : List Call) (o : Outcomes) (request : Bytes) : Prop :=
  ∀ (contents contents' : ℕ → Contents) (payload : Payload),
    answerAfter contents calls o request = answerAfter contents' calls o request ∧
      (answerAfter contents calls o request).map (·.map (broadcastFrame payload)) =
        (answerAfter contents' calls o request).map (·.map (broadcastFrame payload))

section Serving

variable {o : Outcomes} {k k' : KernelState} {request : Bytes}

/-- A request crashes, is not answered, or is answered by a message in which exactly one byte is open. -/
theorem workHandler_open (o : Outcomes) (k : KernelState) (request : Bytes) :
    (∀ u, workHandler { o with unwritten := u } k request = none) ∨ ∃ k',
      ((o.response = false ∨ o.skb = false) ∧
        ∀ u, workHandler { o with unwritten := u } k request = some (k', none)) ∨
        (o.response = true ∧ o.skb = true) ∧
          ∃ head tail, ∀ u, workHandler { o with unwritten := u } k request =
            some (k', some (head ++ u :: tail)) := by
  have read (u : Byte) :
      readExactlyFromUser { o with unwritten := u } k request = readExactlyFromUser o k request := rfl
  simp only [workHandler, read, Option.bind_eq_bind]
  cases responded : readExactlyFromUser o k request with
  | none => exact .inl fun _ => rfl
  | some result =>
    obtain ⟨k', response⟩ := result
    cases response with
    | none =>
      refine .inr ⟨k', .inl ⟨.inl ?_, fun _ => rfl⟩⟩
      by_contra allocated
      rw [readExactlyFromUser, if_pos (by simpa using allocated)] at responded
      simp [Option.bind_eq_some_iff] at responded
    | some pdu =>
      obtain ⟨opCode, n, data⟩ := pdu
      cases data with
      | join idLen clientId => exact .inl fun _ => rfl
      | quit sock => exact .inl fun _ => rfl
      | bytes data =>
        by_cases framed : o.buffer = true ∧ n ≤ data.length
        · by_cases skb : o.skb = true
          · refine .inr ⟨k', .inr ⟨⟨?_, skb⟩, opCode :: le16Bytes n, data.take n, fun u => ?_⟩⟩
            · by_contra failed
              rw [readExactlyFromUser, if_neg failed] at responded
              cases responded
            · simp [pduToBufferKernel, framed, skb]
          · refine .inr ⟨k', .inl ⟨.inr (by simpa using skb), fun u => ?_⟩⟩
            simp [pduToBufferKernel, framed, skb]
        · refine .inl fun u => ?_
          simp only [Option.bind_some, pduToBufferKernel, framed, if_false, Option.bind_none]

theorem switchOpCode_fresh {opCode : Byte} {response : Pdu}
    (handled : switchOpCode o ⟨none⟩ opCode request = some (k', response)) : k' = ⟨none⟩ ∨ k' = ⟨some ∅⟩ := by
  simp only [switchOpCode, readInitStruct, readInsertStruct, readGetStruct, readDeleteStruct, Option.isSome_none,
    Option.bind_eq_bind, Option.bind_none, Bool.false_eq_true, if_false] at handled
  split_ifs at handled <;> simp only [Option.bind_eq_some_iff, reduceCtorEq, and_false, exists_false,
    Option.some.injEq, Prod.mk.injEq] at handled
  · obtain ⟨_, -, rfl, -⟩ := handled
    exact .inl rfl
  · obtain ⟨_, -, rfl, -⟩ := handled
    exact .inr rfl
  · obtain ⟨_, -, rfl, -⟩ := handled
    exact .inl rfl
  · obtain ⟨_, -, rfl, -⟩ := handled
    exact .inl rfl

/-- A module without a table stays without one or gets an empty one. -/
theorem workHandler_fresh {answer : Option Bytes} (handled : workHandler o ⟨none⟩ request = some (k', answer)) :
    k' = ⟨none⟩ ∨ k' = ⟨some ∅⟩ := by
  obtain ⟨⟨k'', response⟩, responded, handled⟩ := Option.bind_eq_some_iff.mp handled
  have same : k'' = k' := by
    cases response with
    | none => exact congrArg Prod.fst (Option.some.inj handled)
    | some pdu =>
      obtain ⟨_, -, handled⟩ := Option.bind_eq_some_iff.mp handled
      exact congrArg Prod.fst (Option.some.inj handled)
  subst same
  rw [readExactlyFromUser] at responded
  split_ifs at responded
  · simp only [Option.bind_eq_bind, Option.bind_eq_some_iff] at responded
    obtain ⟨_, -, _, switched, same⟩ := responded
    cases same
    exact switchOpCode_fresh switched
  · cases responded
    exact .inl rfl

end Serving

/-- A table that the module has is sound. -/
def Kept (k : KernelState) : Prop := k.ht.isSome → Sound k

section Calls

variable {contents : ℕ → Contents} {calls : List Call} {k k' : KernelState}

theorem Call.serve_kept (call : Call) {c : Contents} {answer : Option Bytes} (kept : Kept k)
    (served : call.serve c k = some (k', answer)) : Kept k' := by
  rw [serve, c.workHandler_eq] at served
  obtain ⟨ht⟩ := k
  cases ht with
  | none =>
    rcases workHandler_fresh served with rfl | rfl
    · exact fun absurd => by cases absurd
    · exact fun _ => sound_empty
  | some ht => exact fun _ => (workHandler_sound (kept rfl) call.size served).1

theorem stateAfter_kept (kept : Kept k) (reached : stateAfter contents k calls = some k') : Kept k' := by
  induction calls generalizing contents k with
  | nil => exact Option.some.inj reached ▸ kept
  | cons call rest ih =>
    obtain ⟨next, first, later⟩ := Option.bind_eq_some_iff.mp reached
    obtain ⟨⟨next', answer⟩, served, rfl⟩ := Option.map_eq_some_iff.mp first
    exact ih (call.serve_kept kept served) later

/-- The table does not depend on what the allocations held. -/
theorem stateAfter_contents (contents contents' : ℕ → Contents) (k : KernelState) (calls : List Call) :
    stateAfter contents k calls = stateAfter contents' k calls := by
  induction calls generalizing contents contents' k with
  | nil => rfl
  | cons call rest ih =>
    have same : (call.serve (contents 0) k).map Prod.fst = (call.serve (contents' 0) k).map Prod.fst := by
      rw [Call.serve, Call.serve, Contents.workHandler_eq, Contents.workHandler_eq]
      rcases workHandler_open call.outcomes k (call.own ++ call.rest) with
        crash | ⟨_, ⟨-, silent⟩ | ⟨-, _, _, sent⟩⟩
      · rw [crash, crash]
      · rw [silent, silent]
      · rw [sent, sent]
        rfl
    simp only [stateAfter, same, Option.bind_eq_bind]
    exact Option.bind_congr fun next _ => ih _ _ next

/-- A call that the allocators serve is answered. -/
theorem Call.answered (call : Call) (kept : Kept k) (ready : k.ht.isSome ∨ call.own.head? = some INIT)
    (response : call.outcomes.response = true) (skb : call.outcomes.skb = true) (c : Contents) :
    ∃ k' message, call.serve c k = some (k', some message) := by
  have usual : Usual { call.outcomes with unwritten := c.buffer 3 } := ⟨response, call.value, call.buffer, skb⟩
  rw [serve, c.workHandler_eq]
  by_cases table : k.ht.isSome
  · obtain ⟨k', content, served⟩ := workHandler_served usual (kept table) call.contained call.rest call.size
    exact ⟨k', _, served⟩
  · have head : (call.own ++ call.rest).head? = some INIT := by
      rw [List.head?_append, ready.resolve_left table, Option.some_or]
    obtain ⟨k', content, handled⟩ : ∃ k' content,
        switchOpCode { call.outcomes with unwritten := c.buffer 3 } k INIT (call.own ++ call.rest) =
          some (k', ⟨KERNEL, content.length, .bytes content⟩) := by
      rw [switchOpCode, if_pos rfl, readInitStruct, if_neg table]
      split_ifs
      · rw [literal_eq (by decide) (by decide)]
        exact ⟨_, _, rfl⟩
      · rw [literal_eq (by decide) (by decide)]
        exact ⟨_, _, rfl⟩
    exact ⟨k', _, workHandler_eq usual.buffer usual.skb (readExactlyFromUser_of usual.response head handled)⟩

end Calls

/-- Allocations that hold the same byte everywhere. -/
def filledWith (u : Byte) : ℕ → Contents := fun _ =>
  ⟨⟨u, u.toNat, .bytes []⟩, ⟨List.replicate (KEY_SIZE + 1) u, u.toNat, []⟩, List.length_replicate,
    fun _ => u, fun _ => u, fun _ => u⟩

section Answers

variable {contents₀ : ℕ → Contents} {calls : List Call} {k : KernelState} {o : Outcomes} {request : Bytes}

/-- One byte of what the allocations held may be left in an answer. -/
theorem answerAfter_eq (reached : stateAfter contents₀ ⟨none⟩ calls = some k) (contents : ℕ → Contents) :
    answerAfter contents calls o request =
      (workHandler { o with unwritten := (contents calls.length).buffer 3 } k request).map Prod.snd := by
  rw [answerAfter, stateAfter_contents contents contents₀, reached, ← Contents.workHandler_eq]
  rfl

theorem alike_of_unsent (reached : stateAfter contents₀ ⟨none⟩ calls = some k)
    (failed : o.response = false ∨ o.skb = false) : AnswersAlike calls o request := by
  intro contents contents' payload
  suffices same : answerAfter contents calls o request = answerAfter contents' calls o request from
    ⟨same, by rw [same]⟩
  rw [answerAfter_eq reached, answerAfter_eq reached]
  rcases workHandler_open o k request with crash | ⟨_, ⟨-, silent⟩ | ⟨⟨response, skb⟩, -⟩⟩
  · rw [crash, crash]
  · rw [silent, silent]
  · simp [response, skb] at failed

theorem not_alike_of_served (reached : stateAfter contents₀ ⟨none⟩ calls = some k) {c : Contents}
    (served : (c.workHandler o k request).isSome) (allocated : ¬(o.response = false ∨ o.skb = false)) :
    ¬AnswersAlike calls o request := by
  intro alike
  obtain ⟨same, -⟩ := alike (filledWith 0) (filledWith 1) .zeroed
  rw [answerAfter_eq reached, answerAfter_eq reached] at same
  rw [c.workHandler_eq] at served
  rcases workHandler_open o k request with crash | ⟨_, ⟨failed, -⟩ | ⟨-, head, tail, sent⟩⟩
  · rw [crash] at served
    cases served
  · exact allocated failed
  · rw [sent, sent] at same
    have message : head ++ 0 :: tail = head ++ 1 :: tail := Option.some.inj (Option.some.inj same)
    exact absurd (List.cons.inj (List.append_cancel_left message)).1 (by decide)

end Answers

/-- On every table that well-formed requests leave, the answer to a well-formed request, or to any other request
that goes through, depends on what the allocations held, unless no answer is sent. -/
theorem answers_alike_iff (calls : List Call) (contents₀ : ℕ → Contents) (k : KernelState)
    (reached : stateAfter contents₀ ⟨none⟩ calls = some k) :
    (∀ call : Call, k.ht.isSome ∨ call.own.head? = some INIT →
      (AnswersAlike calls call.outcomes (call.own ++ call.rest) ↔
        call.outcomes.response = false ∨ call.outcomes.skb = false)) ∧
      ∀ (o : Outcomes) (request : Bytes) (c : Contents), (c.workHandler o k request).isSome →
        (AnswersAlike calls o request ↔ o.response = false ∨ o.skb = false) := by
  have kept : Kept k := stateAfter_kept (fun absurd => by cases absurd) reached
  refine ⟨fun call ready => ⟨fun alike => ?_, alike_of_unsent reached⟩, fun o request c served =>
    ⟨fun alike => ?_, alike_of_unsent reached⟩⟩
  · by_contra allocated
    obtain ⟨response, skb⟩ := not_or.mp allocated
    simp only [Bool.not_eq_false] at response skb
    obtain ⟨k', message, served⟩ := call.answered kept ready response skb (contents₀ calls.length)
    exact not_alike_of_served reached (Option.isSome_of_mem served) allocated alike
  · by_contra allocated
    exact not_alike_of_served reached served allocated alike

theorem init_contained : SelfContained [INIT, 0, 0, 0] := by
  refine ⟨by decide, INIT, rfl, fun named => absurd named (by decide), fun named => absurd named (by decide)⟩

theorem init_size : ([INIT, 0, 0, 0] ++ calloc (MAX_PAYLOAD - HEADERSIZE)).length = MAX_PAYLOAD := by
  rw [List.length_append, calloc_length]
  rfl

/-- The request INIT in a payload that is empty behind it. -/
def initCall (o : Outcomes) (value : o.value = true) (buffer : o.buffer = true) : Call :=
  ⟨o, [INIT, 0, 0, 0], calloc (MAX_PAYLOAD - HEADERSIZE), init_contained, init_size, value, buffer⟩

/-- No memory for the outgoing message. -/
theorem answers_alike_unsent : AnswersAlike [initCall (.smooth 0) rfl rfl]
    { Outcomes.smooth 0 with skb := false } ([INIT, 0, 0, 0] ++ calloc (MAX_PAYLOAD - HEADERSIZE)) :=
  ((answers_alike_iff [initCall (.smooth 0) rfl rfl] (filledWith 0) ⟨some ∅⟩ (by decide +kernel)).1
    (initCall { Outcomes.smooth 0 with skb := false } rfl rfl) (.inl rfl)).mpr (.inr rfl)

/-- A second INIT request is answered, and the answer broadcast, with the byte that the buffer held. -/
theorem answers_leak : ∃ calls request message message', stateAfter (filledWith 0) ⟨none⟩ calls = some ⟨some ∅⟩ ∧
    answerAfter (filledWith 1) calls (.smooth 0) request = some (some message) ∧
      answerAfter (filledWith 2) calls (.smooth 0) request = some (some message') ∧ message ≠ message' ∧
        broadcastFrame .zeroed message = some message ∧ broadcastFrame .zeroed message' = some message' := by
  refine ⟨[initCall (.smooth 0) rfl rfl], [INIT, 0, 0, 0] ++ calloc (MAX_PAYLOAD - HEADERSIZE),
    answerFrame 1 (answerText "Hashtable already initialized."),
    answerFrame 2 (answerText "Hashtable already initialized."), ?_⟩
  refine ⟨by decide +kernel, by decide +kernel, by decide +kernel, by decide +kernel, by decide +kernel,
    by decide +kernel⟩

end Operativsystem.User
