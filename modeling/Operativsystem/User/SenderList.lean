import Operativsystem.Library.Machine
import Operativsystem.Library.Merge
import Operativsystem.Resources.ListSequence
import Operativsystem.Resources.Socket

/-! # The queue between the client threads and the kernel thread

Every `client_listener` appends the requests it receives to `sender_list`; `kernel_communication`
takes deep copies from its front. The queue holds addresses of PDUs, so the state is the pointer
list, the memory behind its data pointers, and the PDUs that the consumer has taken.
-/

namespace Operativsystem.User

open Memory Segment Resources LList Machine

/-- What `client_listener` does with a result of `receive_pdu`. -/
inductive ListenerAction where
  | leave
  | discard
  | insertlast (pdu : Pdu)

/-- One turn of the loop of `client_listener`; `none` when it follows NULL. -/
def clientListener : Received → Option ListenerAction
  | .endOfStream => some .leave
  | .null => none
  | .pdu pdu =>
    if pdu.opCode = QUIT then some .discard
    else if pdu.opCode = JOIN then some .discard
    else some (.insertlast pdu)

/-- A PDU with as many data bytes as it announces. -/
structure QueuedPdu where
  opCode : Byte
  dataBytes : ℕ
  content : Bytes
  room : dataBytes ≤ content.length

def QueuedPdu.pdu (q : QueuedPdu) : Pdu := ⟨q.opCode, q.dataBytes, .bytes q.content⟩

/-- The readers of requests allocate the bytes that they announce. -/
theorem readExactly_room {sock : ℕ} {opCode : Byte} {conn next : Connection} {pdu : Pdu}
    (read : readExactly sock opCode conn = some (.pdu pdu, next)) (notQuit : pdu.opCode ≠ QUIT)
    (notJoin : pdu.opCode ≠ JOIN) :
    ∃ content, pdu.data = .bytes content ∧ pdu.dataBytes ≤ content.length := by
  rcases readExactly_cases read with ⟨impossible, -⟩ | ⟨_, same, answered⟩
  · cases impossible
  obtain rfl := Received.pdu.inj same
  have keyRequest {request : Byte} (answered : readKeyRequest request conn = some (pdu, next)) :
      ∃ content, pdu.data = .bytes content ∧ pdu.dataBytes ≤ content.length := by
    simp only [readKeyRequest, Option.bind_eq_bind, Option.bind_eq_some_iff] at answered
    obtain ⟨⟨body, mid⟩, filled, same⟩ := answered
    obtain ⟨rfl, -⟩ := Prod.mk.inj (Option.some.inj same)
    exact ⟨body, rfl, by simp [readInto_length (by simp) filled]⟩
  rcases answered with answered | answered | answered | answered | answered | answered | answered
  · simp only [readInit, Option.bind_eq_bind, Option.bind_eq_some_iff] at answered
    obtain ⟨⟨header, mid⟩, -, data, copied, same⟩ := answered
    obtain ⟨rfl, -⟩ := Prod.mk.inj (Option.some.inj same)
    exact ⟨data, rfl, by simp [memcpy_length copied]⟩
  · simp only [readInsert, Option.bind_eq_bind, Option.bind_eq_some_iff] at answered
    obtain ⟨⟨header, mid⟩, -, messLen, -, ⟨body, last⟩, filled, same⟩ := answered
    obtain ⟨rfl, -⟩ := Prod.mk.inj (Option.some.inj same)
    exact ⟨body, rfl, by simp [readInto_length (by simp) filled]⟩
  · exact keyRequest answered
  · exact keyRequest answered
  · simp only [readKernel, Option.bind_eq_bind, Option.bind_eq_some_iff] at answered
    obtain ⟨⟨header, mid⟩, -, msgSize, -, ⟨body, last⟩, filled, same⟩ := answered
    obtain ⟨rfl, -⟩ := Prod.mk.inj (Option.some.inj same)
    exact ⟨body, rfl, by simp [readInto_length (by simp) filled]⟩
  · simp only [readJoin, Option.bind_eq_bind, Option.bind_eq_some_iff] at answered
    obtain ⟨⟨header, mid⟩, -, nameLen, -, ⟨name, last⟩, -, same⟩ := answered
    obtain ⟨rfl, -⟩ := Prod.mk.inj (Option.some.inj same)
    exact absurd rfl notJoin
  · simp only [readQuit, Option.bind_eq_bind, Option.bind_eq_some_iff] at answered
    obtain ⟨⟨header, mid⟩, -, same⟩ := answered
    obtain ⟨rfl, -⟩ := Prod.mk.inj (Option.some.inj same)
    exact absurd rfl notQuit

/-- However the stream is cut, what a listener appends has the data it announces. -/
theorem clientListener_insertlast {sock : ℕ} {conn next : Connection} {result : Received} {pdu : Pdu}
    (ran : receivePdu sock conn = some (result, next))
    (inserted : clientListener result = some (.insertlast pdu)) : ∃ q : QueuedPdu, q.pdu = pdu := by
  cases result with
  | endOfStream => simp [clientListener] at inserted
  | null => simp [clientListener] at inserted
  | pdu value =>
    simp only [clientListener] at inserted
    split_ifs at inserted with quit join
    · cases inserted
    · cases inserted
    · obtain rfl := ListenerAction.insertlast.inj (Option.some.inj inserted)
      obtain ⟨opCode, mid, read⟩ := receivePdu_pdu ran
      obtain ⟨content, data, room⟩ := readExactly_room read quit join
      exact ⟨⟨value.opCode, value.dataBytes, content, room⟩, by simp [QueuedPdu.pdu, ← data]⟩

structure Sender where
  senderList : LList Addr
  mem : Store
  taken : List Pdu

def Sender.start : Sender := ⟨llistEmpty, fun _ => none, []⟩

/-- A listener appends a PDU that it has received at a fresh address, or the consumer takes one.
The consumer waits while the queue is empty. -/
inductive SenderEvent where
  | enqueue (client : ℕ) (node pdu : Addr) (value : QueuedPdu)
  | dequeue

def senderStep (s : Sender) : SenderEvent → Option Sender
  | .enqueue _ node pdu value =>
    if (s.mem pdu).isSome then none
    else do
      let senderList ← s.senderList.llistInsertlast node pdu
      some { s with senderList, mem := s.mem.put pdu (.pdu value.pdu) }
  | .dequeue =>
    if s.senderList.llistIsEmpty then none
    else do
      let (senderList, mem, pduSend) ← s.senderList.llistRemovefirstPdu s.mem
      some ⟨senderList, mem, s.taken ++ [pduSend]⟩

/-- The PDUs that one client appended during a run, in order. -/
def sentBy (client : ℕ) : List SenderEvent → List QueuedPdu
  | [] => []
  | .enqueue sender _ _ value :: rest =>
    if sender = client then value :: sentBy client rest else sentBy client rest
  | .dequeue :: rest => sentBy client rest

/-- All PDUs that were appended, in order. -/
def sent : List SenderEvent → List QueuedPdu
  | [] => []
  | .enqueue _ _ _ value :: rest => value :: sent rest
  | .dequeue :: rest => sent rest

/-- What a PDU says: its opcode, its length and all its data bytes. -/
def message (pdu : Pdu) : Byte × ℕ × Bytes :=
  match pdu.data with
  | .bytes content => (pdu.opCode, pdu.dataBytes, content.take pdu.dataBytes)
  | _ => (pdu.opCode, pdu.dataBytes, [])

/-- The queue holds the addresses of `waiting`, and only these are allocated. -/
structure Holds (s : Sender) (cells : List (Addr × Addr)) (waiting : List QueuedPdu) : Prop where
  rep : Represents s.senderList cells
  stored : List.Forall₂ (fun cell q => s.mem cell.2 = some (.pdu q.pdu)) cells waiting
  distinct : (cells.map Prod.snd).Nodup
  owned : ∀ a, s.mem a ≠ none → a ∈ cells.map Prod.snd

theorem holds_start : Holds .start [] [] :=
  ⟨represents_empty, .nil, List.nodup_nil, fun _ present => absurd rfl present⟩

theorem copyPdu_queued (q : QueuedPdu) : ∃ copy, copyPdu q.pdu = some copy ∧
    message copy = message q.pdu := by
  refine ⟨⟨q.opCode, q.dataBytes, .bytes (q.content.take q.dataBytes ++ [0])⟩, ?_, ?_⟩
  · simp [copyPdu, QueuedPdu.pdu, q.room]
  · have width : (q.content.take q.dataBytes).length = q.dataBytes := List.length_take_of_le q.room
    simp [message, QueuedPdu.pdu, width]

theorem Holds.live {s : Sender} {cells : List (Addr × Addr)} {waiting : List QueuedPdu}
    (holds : Holds s cells waiting) : ∀ b ∈ cells.map Prod.snd, s.mem b ≠ none := by
  have stored := holds.stored
  clear holds
  induction stored with
  | nil => simp
  | cons read _ ih =>
    intro b member
    rcases List.mem_cons.mp member with rfl | member
    · simp [read]
    · exact ih b member

/-- Appending adds the PDU at the end; the other PDUs stay where they are. -/
theorem Holds.enqueue {s s' : Sender} {cells : List (Addr × Addr)} {waiting : List QueuedPdu}
    (holds : Holds s cells waiting) {client : ℕ} {a d : Addr} {q : QueuedPdu}
    (stepped : senderStep s (.enqueue client a d q) = some s') :
    Holds s' (cells ++ [(a, d)]) (waiting ++ [q]) ∧ s'.taken = s.taken := by
  simp only [senderStep] at stepped
  split at stepped
  · cases stepped
  rename_i unused
  have free : s.mem d = none := by simpa using unused
  obtain ⟨l, inserted, same⟩ := Option.bind_eq_some_iff.mp stepped
  obtain rfl := Option.some.inj same
  have fresh : Fresh s.senderList (.insertlast a d) :=
    fresh_of_listStep (show listStep s.senderList (.insertlast a d) = some l from inserted)
  obtain ⟨_, again, rep⟩ := llistInsertlast_spec holds.rep fresh d
  obtain rfl := Option.some.inj (again.symm.trans inserted)
  have outside : d ∉ cells.map Prod.snd := fun member => holds.live d member free
  refine ⟨⟨rep, ?_, ?_, ?_⟩, rfl⟩
  · refine List.rel_append (holds.stored.imp fun cell value stored => ?_)
      (.cons (by simp [Store.put]) .nil)
    have other : cell.2 ≠ d := fun same => by simp [same, free] at stored
    simpa [Store.put, other] using stored
  · rw [List.map_append, List.nodup_append]
    refine ⟨holds.distinct, List.nodup_singleton _, fun b member c single => ?_⟩
    obtain rfl : c = d := List.mem_singleton.mp single
    exact fun same => outside (same ▸ member)
  · intro b present
    by_cases same : b = d
    · simp [same]
    · have member := holds.owned b (by simpa [Store.put, same] using present)
      rw [List.map_append]
      exact List.mem_append_left _ member

/-- Taking removes the first PDU, releases it and keeps a copy that says the same. -/
theorem Holds.dequeue {s : Sender} {cell : Addr × Addr} {cells : List (Addr × Addr)} {q : QueuedPdu}
    {waiting : List QueuedPdu} (holds : Holds s (cell :: cells) (q :: waiting)) :
    ∃ s' copy, senderStep s .dequeue = some s' ∧ Holds s' cells waiting ∧
      s'.taken = s.taken ++ [copy] ∧ copyPdu q.pdu = some copy ∧ message copy = message q.pdu := by
  obtain ⟨a, d⟩ := cell
  obtain ⟨read, stored⟩ := List.forall₂_cons.mp holds.stored
  obtain ⟨copy, copied, same⟩ := copyPdu_queued q
  obtain ⟨l', rep, -, -, -, taken⟩ := removefirst_specs holds.rep
  have nonempty : s.senderList.llistIsEmpty = false := by
    simpa using mt holds.rep.toLinked.isEmpty_iff.mp (List.cons_ne_nil _ _)
  obtain ⟨outside, distinct⟩ := List.nodup_cons.mp holds.distinct
  refine ⟨⟨l', s.mem.free d, s.taken ++ [copy]⟩, copy, ?_, ⟨rep, ?_, distinct, ?_⟩, rfl, copied, same⟩
  · have found : s.mem.readPdu d = some q.pdu := by simp [Store.readPdu, read]
    simp [senderStep, nonempty, taken, found, copied]
  · have others : ∀ other ∈ cells, other.2 ≠ d := fun other member same =>
      outside (List.mem_map.mpr ⟨other, member, same⟩)
    refine ((List.forall₂_and_left _ _).mpr ⟨others, stored⟩).imp fun other value kept => ?_
    simpa [Store.free, kept.1] using kept.2
  · intro b present
    have other : b ≠ d := fun same => present (by simp [Store.free, same])
    have member := holds.owned b (by simpa [Store.free, other] using present)
    exact (List.mem_cons.mp member).resolve_left other

theorem Holds.dequeue_empty {s : Sender} (holds : Holds s [] []) : senderStep s .dequeue = none := by
  have empty : s.senderList.llistIsEmpty = true := holds.rep.toLinked.isEmpty_iff.mpr rfl
  rw [senderStep, if_pos empty]

/-- Every run: the queue holds what was sent and not yet taken, in order. -/
theorem holds_of_run {s s' : Sender} {cells : List (Addr × Addr)} {waiting : List QueuedPdu}
    (holds : Holds s cells waiting) {events : List SenderEvent}
    (ran : run senderStep s events = some s') :
    ∃ cells' waiting' copies, Holds s' cells' waiting' ∧ s'.taken = s.taken ++ copies ∧
      copies.map message ++ waiting'.map (message ·.pdu) =
        (waiting ++ sent events).map (message ·.pdu) := by
  induction events generalizing s cells waiting with
  | nil =>
    obtain rfl := Option.some.inj ran
    exact ⟨cells, waiting, [], holds, (List.append_nil _).symm, by simp [sent]⟩
  | cons event events ih =>
    obtain ⟨next, stepped, later⟩ := Option.bind_eq_some_iff.mp ran
    cases event with
    | enqueue client a d q =>
      obtain ⟨holdsNext, kept⟩ := holds.enqueue stepped
      obtain ⟨cells', waiting', copies, holds', taken, merged⟩ := ih holdsNext later
      exact ⟨cells', waiting', copies, holds', kept ▸ taken, by simpa [sent] using merged⟩
    | dequeue =>
      rcases holds.stored with _ | ⟨read, stored⟩
      · cases holds.dequeue_empty.symm.trans stepped
      · obtain ⟨_, copy, took, holdsNext, takenNext, -, same⟩ := holds.dequeue
        obtain rfl := Option.some.inj (took.symm.trans stepped)
        obtain ⟨cells', waiting', copies, holds', taken, merged⟩ := ih holdsNext later
        refine ⟨cells', waiting', copy :: copies, holds', by simp [taken, takenNext], ?_⟩
        simpa [same, sent] using merged

/-- The whole is a merge of the sequences of the clients. -/
theorem sent_merge (events : List SenderEvent) : Merge (fun client => sentBy client events) (sent events) := by
  induction events with
  | nil => exact .nil
  | cons event events ih =>
    cases event with
    | dequeue => exact ih
    | enqueue sender a d q =>
      have split : (fun client => sentBy client (.enqueue sender a d q :: events)) =
          Function.update (fun client => sentBy client events) sender (q :: sentBy sender events) := by
        funext client
        by_cases same : client = sender
        · subst same
          simp [sentBy]
        · simp [sentBy, Function.update_of_ne same, Ne.symm same]
      rw [split]
      exact .cons sender q ih

/-- In every state that any interleaving of the listeners and the consumer reaches, what has been
taken and what the queue holds are a merge of the sequences that the clients appended, unaltered.
Only the PDUs in the queue are still allocated, and while there are any the consumer can take one. -/
theorem senderList_merges {s : Sender} {events : List SenderEvent}
    (ran : run senderStep .start events = some s) :
    ∃ cells waiting, Represents s.senderList cells ∧
      List.Forall₂ (fun cell pdu => s.mem.readPdu cell.2 = some pdu) cells waiting ∧
      Merge (fun client => (sentBy client events).map (message ·.pdu))
        ((s.taken ++ waiting).map message) ∧
      (∀ a, s.mem a ≠ none ↔ a ∈ cells.map Prod.snd) ∧
      (waiting ≠ [] → (senderStep s .dequeue).isSome) := by
  obtain ⟨cells, waiting, copies, holds, taken, merged⟩ := holds_of_run holds_start ran
  refine ⟨cells, waiting.map QueuedPdu.pdu, holds.rep, ?_, ?_, fun a => ⟨holds.owned a, holds.live a⟩, ?_⟩
  · refine List.forall₂_map_right_iff.mpr (holds.stored.imp fun cell q stored => ?_)
    simp [Store.readPdu, stored]
  · have whole : (s.taken ++ waiting.map QueuedPdu.pdu).map message =
        (sent events).map (message ·.pdu) := by
      simpa [taken, Sender.start, Function.comp_def] using merged
    rw [whole]
    exact (sent_merge events).map (message ·.pdu)
  · intro nonempty
    rcases holds.stored with _ | ⟨read, stored⟩
    · exact absurd rfl nonempty
    · obtain ⟨_, copy, took, -⟩ := holds.dequeue
      exact Option.isSome_of_eq_some took

/-- Two clients and the consumer. -/
theorem senderList_merges_two :
    let first : QueuedPdu := ⟨INIT, 4, [INIT, 0, 0, 0], by decide⟩
    let second : QueuedPdu := ⟨INIT, 4, [INIT, 0, 0, 7], by decide⟩
    let events : List SenderEvent := [.enqueue 6 0 10 first, .enqueue 5 1 11 second, .dequeue]
    ∃ s, run senderStep .start events = some s ∧ ∃ cells waiting, Represents s.senderList cells ∧
      Merge (fun client => (sentBy client events).map (message ·.pdu))
        ((s.taken ++ waiting).map message) := by
  intro first second events
  obtain ⟨s, ran⟩ : ∃ s, run senderStep .start events = some s := ⟨_, rfl⟩
  obtain ⟨cells, waiting, rep, -, merge, -⟩ := senderList_merges ran
  exact ⟨s, ran, cells, waiting, rep, merge⟩

end Operativsystem.User
