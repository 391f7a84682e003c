import Operativsystem.Client.ClientListen
import Operativsystem.Pipeline.MapMachine
import Operativsystem.Server.Broadcast

/-! # All clients hear the answers in one order

Any number of clients send requests at the same time, and every answer is sent to all of them. The listener
threads append what they receive to `sender_list`; `kernel_communication` takes the requests from it one at a
time, exchanges each with the kernel module and walks the list of clients with the answer. The steps of the
clients, the listeners and `kernel_communication` interleave in any way; its test of the queue and its wait are
two steps, so that a wake-up may be lost. The order in which the requests get into the queue is the order in
which the store serves them and in which every client hears the answers.
-/

namespace Operativsystem.Pipeline

open Memory Resources Client User Kernel Store Segment Cursor LList Machine Server

/-- Where `kernel_communication` is in a turn of its loop: at its test of the queue, between the test and the
wait, in `pthread_cond_wait`, at the removal, with a request, or on its way round with the answer. -/
inductive Relay where
  | testing
  | falling
  | waiting
  | removing
  | holding (pduSend : Pdu)
  | broadcasting (pduReceive : Pdu) (pc : WalkPc)

/-- The broadcast on the condition of `sender_list`. -/
def Relay.wake : Relay → Relay
  | .waiting => .removing
  | relay => relay

/-- The clients stay connected. A connection is known by its socket number at the server: the bytes that the
server has not read from it, and the client behind it with the bytes that it has not read. -/
structure System where
  toServer : ℕ → Bytes
  toClient : ℕ → ClientListener
  sender : Sender
  link : Link
  relay : Relay

def System.start (link : Link) : System :=
  ⟨fun _ => [], fun _ => .start [] [], .start, link, .testing⟩

inductive SystemEvent where
  | clientSend (sock : ℕ) (call : ClientCall)
  | clientListener (sock : ℕ) (script : List RecvChoice) (node pdu : Addr)
  | isEmpty
  | condWait
  | removefirst
  | exchange (o : Outcomes)
  | broadcast
  | clientListen (sock : ℕ) (script : List RecvChoice)

/-- `send_pdu` of the server on a connection that takes the whole message. -/
def deliver (client : ClientListener) (sent : Bytes) : ClientListener :=
  { client with conn := push client.conn sent }

/-- The next calls of `recv` behave as the script says. -/
def recvs (client : ClientListener) (script : List RecvChoice) : ClientListener :=
  { client with conn := ⟨client.conn.pending, script⟩ }

/-- A client sends a request. -/
def System.clientSend (s : System) (sock : ℕ) (call : ClientCall) : Option System := do
  let pduSend ← call.build
  let sent ← sendPdu pduSend
  some { s with toServer := Function.update s.toServer sock (s.toServer sock ++ sent) }

/-- A listener receives a PDU, with `recv` behaving as the script says, and appends it, which wakes
`kernel_communication` if it waits. The listener waits while nothing has come. -/
def System.clientListener (s : System) (sock : ℕ) (script : List RecvChoice) (node pdu : Addr) :
    Option System := do
  let (received, conn) ← receivePdu sock ⟨s.toServer sock, script⟩
  let pduSend ← listenerPdu received
  if (s.sender.mem pdu).isSome then none
  else do
    let senderList ← s.sender.senderList.llistInsertlast node pdu
    some { s with
      toServer := Function.update s.toServer sock conn.pending
      sender := { s.sender with senderList, mem := s.sender.mem.put pdu (.pdu pduSend) }
      relay := s.relay.wake }

/-- `kernel_communication` tests the queue, without its mutex. -/
def System.isEmpty (s : System) : Option System :=
  match s.relay with
  | .testing => some { s with relay := if s.sender.senderList.llistIsEmpty then .falling else .removing }
  | _ => none

def System.condWait (s : System) : Option System :=
  match s.relay with
  | .falling => some { s with relay := .waiting }
  | _ => none

/-- `kernel_communication` takes a request. -/
def System.removefirst (s : System) : Option System :=
  match s.relay with
  | .removing => do
    let sender ← senderStep s.sender .dequeue
    let pduSend ← sender.taken.getLast?
    some { s with sender, relay := .holding pduSend }
  | _ => none

/-- The request is exchanged with the kernel module. -/
def System.exchange (s : System) (o : Outcomes) : Option System :=
  match s.relay with
  | .holding pduSend => do
    let (link, pduReceive) ← User.exchange o s.link pduSend
    some { s with link, relay := .broadcasting pduReceive .start }
  | _ => none

/-- One step of the loop that sends the answer to the clients, or its end. -/
def System.broadcast (clients : Clients) (s : System) : Option System :=
  match s.relay with
  | .broadcasting pduReceive pc =>
    if pc = .finished then some { s with relay := .testing }
    else do
      let (pc, tempSocket) ← broadcastLoop clients [] pc
      match tempSocket with
      | none => some { s with relay := .broadcasting pduReceive pc }
      | some tempSocket => do
        let sent ← sendPdu pduReceive
        some { s with
          relay := .broadcasting pduReceive pc
          toClient := Function.update s.toClient tempSocket (deliver (s.toClient tempSocket) sent) }
  | _ => none

/-- A turn of `client_listen`. It waits while nothing has come. -/
def System.clientListen (s : System) (sock : ℕ) (script : List RecvChoice) : Option System :=
  if (s.toClient sock).conn.pending = [] then none
  else do
    let client ← Client.clientListen sock (recvs (s.toClient sock) script) ()
    some { s with toClient := Function.update s.toClient sock client }

def systemStep (clients : Clients) (s : System) : SystemEvent → Option System
  | .clientSend sock call => if sock ∈ clients.cells.map Prod.snd then s.clientSend sock call else none
  | .clientListener sock script node pdu => s.clientListener sock script node pdu
  | .isEmpty => s.isEmpty
  | .condWait => s.condWait
  | .removefirst => s.removefirst
  | .exchange o => s.exchange o
  | .broadcast => s.broadcast clients
  | .clientListen sock script => s.clientListen sock script

/-- The payloads that a client has received. -/
def heard (client : ClientListener) : List Bytes := client.results.filterMap payload

/-- The requests that are sent during a run, each with the connection it is sent on. -/
def calls : List SystemEvent → List (ℕ × Request)
  | [] => []
  | .clientSend sock call :: rest => (sock, call.request) :: calls rest
  | _ :: rest => calls rest

/-- The requests of one client among those of all. -/
def requestsOf (sock : ℕ) (order : List (ℕ × Request)) : List Request :=
  (order.filter (·.1 = sock)).map Prod.snd

/-- What the allocators and the table have returned to the requests that were exchanged. -/
def outcomes : List SystemEvent → List Outcomes
  | [] => []
  | .exchange o :: rest => o :: outcomes rest
  | _ :: rest => outcomes rest

/-- The store serves one request: the byte that is left unwritten in the answer, and its content. -/
def serve (m : Bytes → Option Bytes) (x : Outcomes × Request) :
    (Bytes → Option Bytes) × (Byte × Bytes) :=
  ((mapStep x.1 m x.2).1, (x.1.unwritten, (mapStep x.1 m x.2).2))

/-- The requests of an order that have been exchanged are served one after the other. -/
def served (m : Bytes → Option Bytes) (outs : List Outcomes) (order : List (ℕ × Request)) :
    (Bytes → Option Bytes) × List (Byte × Bytes) :=
  respond serve m (outs.zip (order.map Prod.snd))

/-- No value starts with the byte that makes `client_listen` leave. -/
def KickFreeMap (m : Bytes → Option Bytes) : Prop := ∀ key value, m key = some value → value.head? ≠ some QUIT

def KickFreeRequest : Request → Prop
  | .insert _ value => value.bytes.head? ≠ some QUIT
  | _ => True

/-- Every `recv` delivers all that it is asked for, allocations succeed, except perhaps those of objects, and no
value kicks its readers. -/
def Plain : SystemEvent → Prop
  | .clientSend _ call => KickFreeRequest call.request
  | .clientListener _ script _ _ => Whole script
  | .exchange o => Usual o
  | .clientListen _ script => Whole script
  | _ => True

/-- The order explains what has happened so far: it takes up the requests of each client in the order in which
they were sent, the table is what the served requests leave, and every client has heard the answers to these
requests in this order, from the first one on. -/
structure Explains (clients : Clients) (m : Bytes → Option Bytes) (events : List SystemEvent) (s : System)
    (order : List (ℕ × Request)) : Prop where
  program : ∀ sock, requestsOf sock order <+: requestsOf sock (calls events)
  table : Serves s.link (served m (outcomes events) order).1
  answers : ∀ sock ∈ clients.cells.map Prod.snd,
    heard (s.toClient sock) <+: (served m (outcomes events) order).2.map Prod.snd

section Serving

variable {m : Bytes → Option Bytes} {o : Outcomes} {outs : List Outcomes} {order more : List (ℕ × Request)}
  {sock : ℕ} {request : Request}

private theorem zip_append_right {α β : Type*} {xs : List α} {ys : List β} (enough : xs.length ≤ ys.length)
    (zs : List β) : xs.zip (ys ++ zs) = xs.zip ys := by
  induction xs generalizing ys with
  | nil => rfl
  | cons x xs ih =>
    cases ys with
    | nil => simp at enough
    | cons y ys => simp [ih (Nat.le_of_succ_le_succ enough)]

private theorem zip_append_left {α β : Type*} {xs : List α} {ys : List β} {y : β}
    (next : ys[xs.length]? = some y) (x : α) : (xs ++ [x]).zip ys = xs.zip ys ++ [(x, y)] := by
  induction xs generalizing ys with
  | nil =>
    cases ys with
    | nil => simp at next
    | cons y' ys => simpa using next
  | cons x' xs ih =>
    cases ys with
    | nil => simp at next
    | cons y' ys => simpa using ih (by simpa using next)

/-- A request that is only queued changes nothing yet. -/
theorem served_queued (enough : outs.length ≤ order.length) :
    served m outs (order ++ more) = served m outs order := by
  rw [served, served, List.map_append, zip_append_right (by simpa using enough)]

/-- The exchange of the next request adds its answer. -/
theorem served_exchange (next : order[outs.length]? = some (sock, request)) :
    served m (outs ++ [o]) order = ((mapStep o (served m outs order).1 request).1,
      (served m outs order).2 ++ [(o.unwritten, (mapStep o (served m outs order).1 request).2)]) := by
  have next : (order.map Prod.snd)[outs.length]? = some request := by simp [next]
  rw [served, zip_append_left next, respond_append]
  rfl

theorem served_length (enough : outs.length ≤ order.length) : (served m outs order).2.length = outs.length := by
  simp [served, respond_length, enough]

theorem kickFreeMap_empty : KickFreeMap fun _ => none := fun _ _ absurd => by cases absurd

theorem KickFreeMap.mapStep (free : KickFreeMap m) (harmless : KickFreeRequest request) :
    KickFreeMap (mapStep o m request).1 := by
  have updated (key : Bytes) (stored : Option Bytes)
      (head : ∀ value, stored = some value → value.head? ≠ some QUIT) :
      KickFreeMap (Function.update m key stored) := by
    intro other value held
    by_cases same : other = key
    · rw [same, Function.update_self] at held
      exact head value held
    · exact free other value (by rwa [Function.update_of_ne same] at held)
  cases request with
  | init => exact free
  | get key =>
    simp only [Store.mapStep]
    split <;> exact free
  | insert key value =>
    simp only [Store.mapStep]
    split_ifs
    · exact free
    · exact free
    · split
      · exact free
      · exact updated _ _ fun stored same => Option.some.inj same ▸ harmless
  | delete key =>
    simp only [Store.mapStep]
    split
    · refine updated _ _ fun value held => ?_
      cases held
    · exact free

/-- No answer kicks the clients. -/
theorem KickFreeMap.answer (free : KickFreeMap m) (request : Request) :
    (Store.mapStep o m request).2.head? ≠ some QUIT := by
  cases request with
  | init => exact show (answerText "Hashtable already initialized.").head? ≠ _ by decide
  | insert key value =>
    simp only [Store.mapStep]
    split_ifs
    · exact show (answerText "Error when kmalloc.").head? ≠ _ by decide
    · exact show (answerText "Error when insert to rhashtable.").head? ≠ _ by decide
    · split
      · exact show (answerText "Error, duplicated key.").head? ≠ _ by decide
      · exact show (answerText "Inserted object to rhashtable").head? ≠ _ by decide
  | get key =>
    simp only [Store.mapStep]
    split
    · rename_i value held
      exact free key.text value held
    · exact show (answerText "Error when getting object.").head? ≠ _ by decide
  | delete key =>
    simp only [Store.mapStep]
    split
    · exact show (answerText "Successful deleting object from rhashtable.").head? ≠ _ by decide
    · exact show (answerText "Error when getting object.").head? ≠ _ by decide

end Serving

section Events

variable {sock : ℕ} {first second : List SystemEvent} {order : List (ℕ × Request)}

theorem calls_append : calls (first ++ second) = calls first ++ calls second := by
  induction first with
  | nil => rfl
  | cons e first ih =>
    cases e with
    | clientSend sock call => simp only [List.cons_append, calls, ih]
    | _ => exact ih

theorem outcomes_append : outcomes (first ++ second) = outcomes first ++ outcomes second := by
  induction first with
  | nil => rfl
  | cons e first ih =>
    cases e with
    | exchange o => simp only [List.cons_append, outcomes, ih]
    | _ => exact ih

theorem requestsOf_own (request : Request) :
    requestsOf sock (order ++ [(sock, request)]) = requestsOf sock order ++ [request] := by
  simp [requestsOf]

theorem requestsOf_other {other : ℕ} (different : other ≠ sock) (request : Request) :
    requestsOf other (order ++ [(sock, request)]) = requestsOf other order := by
  simp [requestsOf, different.symm]

theorem mem_requestsOf {request : Request} : request ∈ requestsOf sock order ↔ (sock, request) ∈ order := by
  simp only [requestsOf, List.mem_map, List.mem_filter, decide_eq_true_eq]
  constructor
  · rintro ⟨⟨client, request⟩, ⟨member, rfl⟩, rfl⟩
    exact member
  · exact fun member => ⟨(sock, request), ⟨member, rfl⟩, rfl⟩

end Events

section Broadcast

variable {clients : Clients} {pc pc' : WalkPc} {tempSocket : Option ℕ}

/-- A step of the walk sends to nobody and passes nobody, or it sends to the next client and passes it. -/
theorem broadcastLoop_passed (agrees : Agrees clients pc)
    (stepped : broadcastLoop clients [] pc = some (pc', tempSocket)) :
    (tempSocket = none ∧ ∀ a ∈ addresses clients.cells,
      (place clients.cells a < passed clients pc' ↔ place clients.cells a < passed clients pc)) ∨
    ∃ a sock, tempSocket = some sock ∧ (a, sock) ∈ clients.cells ∧
      place clients.cells a = passed clients pc ∧ passed clients pc' = passed clients pc + 1 := by
  cases pc with
  | start =>
    cases stepped
    exact .inl ⟨rfl, fun _ _ => Iff.rfl⟩
  | testing p i =>
    cases stepped
    refine .inl ⟨rfl, fun a present => ?_⟩
    by_cases more : i < clients.cells.length
    · rw [if_pos more]
      rfl
    · rw [if_neg more]
      have inside := place_lt present
      exact iff_of_true inside (by simp only [passed]; omega)
  | visiting p i =>
    obtain ⟨a, sock, front, rest, rfl, split, length, read, -⟩ := AtPlace.split agrees
    obtain ⟨rfl, rfl⟩ : .stepping (some a) i = pc' ∧ some sock = tempSocket := by
      simpa [broadcastLoop, read] using stepped
    obtain ⟨a', same, -, placed⟩ := agrees
    cases same
    exact .inr ⟨a, sock, rfl, by simp [split], placed, rfl⟩
  | stepping p i =>
    obtain ⟨q, -, rfl, rfl⟩ : ∃ q, following clients.cells p = some q ∧ .testing q (i + 1) = pc' ∧
        none = tempSocket := by simpa [broadcastLoop, walk] using stepped
    exact .inl ⟨rfl, fun _ _ => Iff.rfl⟩
  | removing p => cases stepped
  | finished => cases stepped

theorem broadcastLoop_agrees (agrees : Agrees clients pc) (searching : ∀ p, pc ≠ .removing p)
    (stepped : broadcastLoop clients [] pc = some (pc', tempSocket)) :
    Agrees clients pc' ∧ ∀ p, pc' ≠ .removing p := by
  have before : Served .empty clients pc [] := ⟨agrees, searching, Nat.zero_le _, nofun, nofun⟩
  have after := loop_served before stepped
  exact ⟨after.agrees, after.searching⟩

end Broadcast

/-- The answers that a client has been sent: all of them, or all but the one that is on its way round. -/
def due (clients : Clients) (relay : Relay) (answers : List (Byte × Bytes)) (a : Addr) : List (Byte × Bytes) :=
  match relay with
  | .broadcasting _ pc => if place clients.cells a < passed clients pc then answers else answers.dropLast
  | _ => answers

/-- A client that has been sent some answers has heard the first of them; the others wait on its connection. -/
structure HearsFirst (answers : List (Byte × Bytes)) (client : ClientListener) : Prop where
  looping : client.listen = .looping
  unheard : ∃ got rest, answers = got ++ rest ∧ heard client = got.map Prod.snd ∧
    client.numReceive = got.length ∧ client.conn.pending = rest.flatMap fun x => answerFrame x.1 x.2

/-- How many requests have been taken from the queue, and what `kernel_communication` has in its hands. -/
def InHand (clients : Clients) (outs : List Outcomes) (order : List (ℕ × Request))
    (answers : List (Byte × Bytes)) (taken : ℕ) : Relay → Prop
  | .testing | .falling | .waiting => taken = outs.length
  | .removing => taken = outs.length ∧ taken < order.length
  | .holding pduSend => taken = outs.length + 1 ∧ ∃ x, order[outs.length]? = some x ∧
      pduSend = ⟨x.2.opCode, x.2.frame.length, .bytes (x.2.frame ++ [0])⟩
  | .broadcasting pduReceive pc => taken = outs.length ∧ Agrees clients pc ∧ (∀ p, pc ≠ .removing p) ∧
      ∃ front x, answers = front ++ [x] ∧
        pduReceive = ⟨KERNEL, x.2.length + HEADERSIZE, .bytes (answerFrame x.1 x.2)⟩

/-- The PDU of a request in the queue. -/
def queued (request : Request) : QueuedPdu := ⟨request.opCode, request.frame.length, request.frame, le_rfl⟩

/-- Every request that was sent is on its connection or in the order, and every request of the order is in the
queue, in the hands of `kernel_communication`, or has been answered. -/
structure Coherent (clients : Clients) (m : Bytes → Option Bytes) (sent : List (ℕ × Request))
    (outs : List Outcomes) (order : List (ℕ × Request)) (s : System) : Prop where
  harmless : ∀ x ∈ sent, KickFreeRequest x.2
  unread : ∀ sock, ∃ unread, requestsOf sock sent = requestsOf sock order ++ unread ∧
    s.toServer sock = unread.flatMap Request.frame
  enough : outs.length ≤ order.length
  queue : ∃ cells taken, Holds s.sender cells ((order.drop taken).map fun x => queued x.2) ∧
    InHand clients outs order (served m outs order).2 taken s.relay
  serves : Serves s.link (served m outs order).1
  free : KickFreeMap (served m outs order).1
  answers : ∀ x ∈ (served m outs order).2, x.2.head? ≠ some QUIT ∧ x.2.length + HEADERSIZE ≤ MAX_PAYLOAD
  hears : ∀ a sock, (a, sock) ∈ clients.cells →
    HearsFirst (due clients s.relay (served m outs order).2 a) (s.toClient sock)

theorem coherent_start (clients : Clients) {link : Link} {m : Bytes → Option Bytes} (serves : Serves link m)
    (free : KickFreeMap m) : Coherent clients m [] [] [] (.start link) :=
  ⟨nofun, fun _ => ⟨[], rfl, rfl⟩, le_rfl, ⟨[], 0, holds_start, rfl⟩, serves, free, nofun,
    fun _ _ _ => ⟨rfl, [], [], rfl, rfl, rfl, rfl⟩⟩

section Steps

variable {clients : Clients} {m : Bytes → Option Bytes} {sent : List (ℕ × Request)} {outs : List Outcomes}
  {order : List (ℕ × Request)} {s s' : System} {sock : ℕ}

/-- The frame of a request at the front of a stream is received as its PDU. -/
theorem receivePdu_request (sock : ℕ) (request : Request) (rest : Bytes) {script : List RecvChoice}
    (whole : Whole script) : ∃ script', receivePdu sock ⟨request.frame ++ rest, script⟩ =
      some (.pdu ⟨request.opCode, request.frame.length, .bytes request.frame⟩, ⟨rest, script'⟩) := by
  obtain ⟨frame, encoded, decoded⟩ := frame_of_request request
  obtain ⟨script', received, -⟩ := receivePdu_whole sock frame rest whole
  rw [encoded, decoded] at received
  exact ⟨script', received⟩

theorem receivePdu_silent (sock : ℕ) {script : List RecvChoice} (whole : Whole script) :
    ∃ conn, receivePdu sock ⟨[], script⟩ = some (.endOfStream, conn) := by
  cases script with
  | nil => exact ⟨_, rfl⟩
  | cons choice script =>
    obtain ⟨limit, rfl, -⟩ := whole.cons
    exact ⟨_, rfl⟩

/-- A request that is only queued is not yet in anybody's hands, but it wakes the one who waits for it. -/
theorem InHand.queued {answers : List (Byte × Bytes)} {taken : ℕ} {relay : Relay}
    (inHand : InHand clients outs order answers taken relay) (enough : outs.length ≤ order.length)
    (x : ℕ × Request) : InHand clients outs (order ++ [x]) answers taken relay.wake := by
  have longer : (order ++ [x]).length = order.length + 1 := List.length_append
  cases relay with
  | holding pduSend =>
    obtain ⟨count, x, next, same⟩ := inHand
    exact ⟨count, x, by rw [List.getElem?_append_left (List.getElem?_eq_some_iff.mp next).1, next], same⟩
  | waiting =>
    obtain rfl : taken = outs.length := inHand
    exact ⟨rfl, by omega⟩
  | removing => exact ⟨inHand.1, by have := inHand.2; omega⟩
  | testing | falling | broadcasting => exact inHand

theorem InHand.taken_le {answers : List (Byte × Bytes)} {taken : ℕ} {relay : Relay}
    (inHand : InHand clients outs order answers taken relay) (enough : outs.length ≤ order.length) :
    taken ≤ order.length := by
  cases relay with
  | testing | falling | waiting => exact (show taken = outs.length from inHand).trans_le enough
  | holding pduSend =>
    obtain ⟨rfl, x, next, -⟩ := inHand
    exact (List.getElem?_eq_some_iff.mp next).1
  | removing | broadcasting => exact inHand.1.trans_le enough

theorem Coherent.clientSend (coherent : Coherent clients m sent outs order s) {call : ClientCall}
    (harmless : KickFreeRequest call.request) (stepped : s.clientSend sock call = some s') :
    Coherent clients m (sent ++ [(sock, call.request)]) outs order s' := by
  have pushed : s' = { s with
      toServer := Function.update s.toServer sock (s.toServer sock ++ call.request.frame) } := by
    simpa [System.clientSend, build_eq, sendPdu_whole] using stepped.symm
  subst pushed
  refine { coherent with harmless := ?_, unread := ?_ }
  · refine List.forall_mem_append.mpr ⟨coherent.harmless, fun x member => ?_⟩
    exact List.mem_singleton.mp member ▸ harmless
  · intro other
    obtain ⟨unread, made, pending⟩ := coherent.unread other
    by_cases own : other = sock
    · subst own
      exact ⟨unread ++ [call.request], by simp [requestsOf_own, made], by simp [pending]⟩
    · exact ⟨unread, by rw [requestsOf_other own, made],
        by simpa [Function.update_of_ne own] using pending⟩

theorem due_wake (relay : Relay) (answers : List (Byte × Bytes)) (a : Addr) :
    due clients relay.wake answers a = due clients relay answers a := by
  cases relay <;> rfl

theorem Coherent.clientListener (coherent : Coherent clients m sent outs order s) {script : List RecvChoice}
    (whole : Whole script) {node pdu : Addr} (stepped : s.clientListener sock script node pdu = some s') :
    ∃ request, Coherent clients m sent outs (order ++ [(sock, request)]) s' := by
  obtain ⟨unread, made, pending⟩ := coherent.unread sock
  obtain ⟨cells, taken, holds, inHand⟩ := coherent.queue
  cases unread with
  | nil =>
    obtain ⟨conn, silent⟩ := receivePdu_silent sock whole
    rw [show [] = s.toServer sock from pending.symm] at silent
    simp [System.clientListener, silent, listenerPdu, User.clientListener] at stepped
  | cons request unread =>
    obtain ⟨script', arrived⟩ := receivePdu_request sock request (unread.flatMap Request.frame) whole
    rw [← List.flatMap_cons, ← pending] at arrived
    simp only [System.clientListener, arrived, listenerPdu_request, Option.bind_eq_bind,
      Option.bind_some, Option.ite_none_left_eq_some] at stepped
    obtain ⟨unused, stepped⟩ := stepped
    obtain ⟨senderList, inserted, stepped⟩ := Option.bind_eq_some_iff.mp stepped
    cases stepped
    have enqueued : senderStep s.sender (.enqueue sock node pdu (queued request)) =
        some { s.sender with senderList, mem := s.sender.mem.put pdu (.pdu (queued request).pdu) } := by
      simp only [senderStep, if_neg unused, inserted]
      rfl
    obtain ⟨holds', -⟩ := holds.enqueue enqueued
    have same : served m outs (order ++ [(sock, request)]) = served m outs order := served_queued coherent.enough
    have tail : (order ++ [(sock, request)]).drop taken = order.drop taken ++ [(sock, request)] :=
      List.drop_append_of_le_length (inHand.taken_le coherent.enough)
    refine ⟨request, coherent.harmless, ?_, ?_, ⟨cells ++ [(node, pdu)], taken, ?_, ?_⟩, ?_, ?_, ?_, ?_⟩
    · intro other
      by_cases own : other = sock
      · subst own
        exact ⟨unread, by simp [requestsOf_own, made], by simp⟩
      · obtain ⟨unread, made, pending⟩ := coherent.unread other
        exact ⟨unread, by rw [requestsOf_other own, made],
          by simpa [Function.update_of_ne own] using pending⟩
    · rw [List.length_append]
      exact coherent.enough.trans (Nat.le_add_right _ _)
    · rw [tail, List.map_append]
      exact holds'
    · rw [same]
      exact inHand.queued coherent.enough _
    · rw [same]
      exact coherent.serves
    · rw [same]
      exact coherent.free
    · rw [same]
      exact coherent.answers
    · rw [same]
      exact fun a other member => (due_wake s.relay _ a).symm ▸ coherent.hears a other member

theorem Coherent.isEmpty (coherent : Coherent clients m sent outs order s) (stepped : s.isEmpty = some s') :
    Coherent clients m sent outs order s' := by
  obtain ⟨toServer, toClient, sender, link, relay⟩ := s
  obtain ⟨cells, taken, holds, inHand⟩ := coherent.queue
  cases relay with
  | testing =>
    obtain rfl : taken = outs.length := inHand
    cases stepped
    cases empty : sender.senderList.llistIsEmpty with
    | true =>
      rw [if_pos rfl]
      exact { coherent with queue := ⟨cells, _, holds, rfl⟩ }
    | false =>
      have more : outs.length < order.length := by
        by_contra none
        rw [List.drop_of_length_le (not_lt.mp none)] at holds
        cases holds.stored
        rw [holds.rep.toLinked.isEmpty_iff.mpr rfl] at empty
        cases empty
      rw [if_neg Bool.false_ne_true]
      exact { coherent with queue := ⟨cells, _, holds, rfl, more⟩ }
  | _ => cases stepped

theorem Coherent.condWait (coherent : Coherent clients m sent outs order s) (stepped : s.condWait = some s') :
    Coherent clients m sent outs order s' := by
  obtain ⟨toServer, toClient, sender, link, relay⟩ := s
  cases relay with
  | falling =>
    cases stepped
    exact { coherent with }
  | _ => cases stepped

/-- The next request of the order is taken from the queue. -/
theorem dequeue_order {sender : Sender} {cells : List (Addr × Addr)} {taken : ℕ}
    (holds : Holds sender cells ((order.drop taken).map fun x => queued x.2)) (more : taken < order.length) :
    ∃ sender' copy cells', senderStep sender .dequeue = some sender' ∧
      Holds sender' cells' ((order.drop (taken + 1)).map fun x => queued x.2) ∧
      sender'.taken.getLast? = some copy ∧
      copy = ⟨order[taken].2.opCode, order[taken].2.frame.length, .bytes (order[taken].2.frame ++ [0])⟩ := by
  have next : order.drop taken = order[taken] :: order.drop (taken + 1) := List.drop_eq_getElem_cons more
  rw [next, List.map_cons] at holds
  obtain ⟨cell, cells, rfl⟩ : ∃ cell cells', cells = cell :: cells' := by
    cases holds.stored
    exact ⟨_, _, rfl⟩
  obtain ⟨sender', copy, took, holds', appended, copied, -⟩ := holds.dequeue
  refine ⟨sender', copy, cells, took, holds', by rw [appended, List.getLast?_concat], ?_⟩
  simpa [copyPdu, queued, QueuedPdu.pdu] using copied.symm

theorem Coherent.removefirst (coherent : Coherent clients m sent outs order s)
    (stepped : s.removefirst = some s') : Coherent clients m sent outs order s' := by
  obtain ⟨toServer, toClient, sender, link, relay⟩ := s
  obtain ⟨cells, taken, holds, inHand⟩ := coherent.queue
  cases relay with
  | removing =>
    obtain ⟨rfl, more⟩ := inHand
    obtain ⟨sender', copy, cells', took, holds', last, same⟩ := dequeue_order holds more
    have moved : s' = ⟨toServer, toClient, sender', link, .holding copy⟩ := by
      simpa [System.removefirst, took, last] using stepped.symm
    subst moved
    exact { coherent with
      queue := ⟨cells', outs.length + 1, holds', rfl, _, List.getElem?_eq_getElem more, same⟩ }
  | _ => cases stepped

theorem Coherent.exchange (coherent : Coherent clients m sent outs order s) {o : Outcomes} (usual : Usual o)
    (stepped : s.exchange o = some s') : Coherent clients m sent (outs ++ [o]) order s' := by
  obtain ⟨toServer, toClient, sender, link, relay⟩ := s
  obtain ⟨cells, taken, holds, inHand⟩ := coherent.queue
  cases relay with
  | testing | falling | waiting | removing | broadcasting => cases stepped
  | holding pduSend =>
    obtain ⟨rfl, ⟨client, request⟩, next, rfl⟩ := inHand
    obtain ⟨link', exchanged, serves'⟩ := exchange_request usual coherent.serves request request.opCode [0]
    have grown : served m (outs ++ [o]) order = _ := served_exchange next
    have moved : s' = ⟨toServer, toClient, sender, link', .broadcasting
        ⟨KERNEL, (mapStep o (served m outs order).1 request).2.length + HEADERSIZE,
          .bytes (answerFrame o.unwritten (mapStep o (served m outs order).1 request).2)⟩ .start⟩ := by
      simpa [System.exchange, exchanged] using stepped.symm
    subst moved
    have harmless : KickFreeRequest request := by
      obtain ⟨unread, made, -⟩ := coherent.unread client
      refine coherent.harmless (client, request) (mem_requestsOf.mp ?_)
      rw [made]
      exact List.mem_append_left _ (mem_requestsOf.mpr (List.mem_of_getElem? next))
    refine ⟨coherent.harmless, coherent.unread, ?_, ⟨cells, outs.length + 1, holds, ?_⟩, ?_, ?_, ?_, ?_⟩
    · rw [List.length_append]
      exact (List.getElem?_eq_some_iff.mp next).1
    · exact ⟨by simp, trivial, nofun, _, _, congrArg Prod.snd grown, rfl⟩
    · rw [grown]
      exact serves'
    · rw [grown]
      exact coherent.free.mapStep harmless
    · rw [grown]
      refine List.forall_mem_append.mpr ⟨coherent.answers, fun x member => ?_⟩
      obtain rfl := List.mem_singleton.mp member
      exact ⟨coherent.free.answer request, coherent.serves.short.answer request⟩
    · intro a sock member
      have before := coherent.hears a sock member
      rw [grown]
      simpa [due, passed] using before

/-- A client that is sent one more answer. -/
theorem HearsFirst.deliver {answers : List (Byte × Bytes)} {client : ClientListener}
    (hears : HearsFirst answers client) (x : Byte × Bytes) :
    HearsFirst (answers ++ [x]) (deliver client (answerFrame x.1 x.2)) := by
  obtain ⟨got, rest, rfl, same, count, conn⟩ := hears.unheard
  exact ⟨hears.looping, got, rest ++ [x], by simp, same, count, by simp [Pipeline.deliver, push, conn]⟩

theorem Coherent.broadcast (coherent : Coherent clients m sent outs order s)
    (stepped : s.broadcast clients = some s') : Coherent clients m sent outs order s' := by
  obtain ⟨toServer, toClient, sender, link, relay⟩ := s
  obtain ⟨cells, taken, holds, inHand⟩ := coherent.queue
  cases relay with
  | testing | falling | waiting | removing | holding => cases stepped
  | broadcasting pduReceive pc =>
    obtain ⟨rfl, agrees, searching, front, x, answered, rfl⟩ := inHand
    by_cases finished : pc = .finished
    · subst finished
      obtain rfl := Option.some.inj stepped
      refine { coherent with queue := ⟨cells, _, holds, rfl⟩, hears := fun a sock member => ?_ }
      have before := coherent.hears a sock member
      simpa [due, passed, place_lt (mem_addresses member)] using before
    · simp only [System.broadcast, if_neg finished] at stepped
      obtain ⟨⟨pc', tempSocket⟩, walked, stepped⟩ := Option.bind_eq_some_iff.mp stepped
      obtain ⟨agrees', searching'⟩ := broadcastLoop_agrees agrees searching walked
      rcases broadcastLoop_passed agrees walked with ⟨rfl, same⟩ | ⟨a, sock, rfl, visited, placed, onward⟩
      · obtain rfl := Option.some.inj stepped
        refine { coherent with
          queue := ⟨cells, _, holds, rfl, agrees', searching', front, x, answered, rfl⟩
          hears := fun a sock member => ?_ }
        have before := coherent.hears a sock member
        simpa only [due, same a (mem_addresses member)] using before
      · have sent : sendPdu ⟨KERNEL, x.2.length + HEADERSIZE, .bytes (answerFrame x.1 x.2)⟩ =
            some (answerFrame x.1 x.2) := by
          rw [← answerFrame_length x.1, sendPdu_whole]
        simp only [sent, Option.bind_eq_bind, Option.bind_some, Option.some.injEq] at stepped
        subst stepped
        refine { coherent with
          queue := ⟨cells, _, holds, rfl, agrees', searching', front, x, answered, rfl⟩
          hears := fun b other member => ?_ }
        have before := coherent.hears b other member
        by_cases own : b = a
        · subst own
          obtain rfl := clients.address_inj member visited
          have sofar : due clients (.broadcasting ⟨KERNEL, x.2.length + HEADERSIZE,
              .bytes (answerFrame x.1 x.2)⟩ pc) (served m outs order).2 b = front := by
            simp [due, placed, answered]
          have now : due clients (.broadcasting ⟨KERNEL, x.2.length + HEADERSIZE,
              .bytes (answerFrame x.1 x.2)⟩ pc') (served m outs order).2 b = front ++ [x] := by
            simp [due, placed, onward, answered]
          dsimp only at before ⊢
          rw [sofar] at before
          rw [now, Function.update_self]
          exact before.deliver x
        · have apart : place clients.cells b ≠ place clients.cells a := fun same =>
            own (place_inj (mem_addresses member) same)
          have kept : place clients.cells b < passed clients pc' ↔ place clients.cells b < passed clients pc := by
            omega
          have different : other ≠ sock := fun same => own (clients.socket_inj member (same ▸ visited))
          simpa only [due, kept, Function.update_of_ne different] using before

/-- A client that has not heard everything hears the next answer. -/
theorem HearsFirst.clientListen {answers : List (Byte × Bytes)} {client : ClientListener}
    (hears : HearsFirst answers client)
    (plain : ∀ x ∈ answers, x.2.head? ≠ some QUIT ∧ x.2.length + HEADERSIZE ≤ MAX_PAYLOAD)
    (waiting : client.conn.pending ≠ []) (sock : ℕ) {script : List RecvChoice} (whole : Whole script) :
    ∃ client', Client.clientListen sock (recvs client script) () = some client' ∧ HearsFirst answers client' ∧
      client'.numReceive = client.numReceive + 1 := by
  obtain ⟨looping, got, rest, rfl, same, count, conn⟩ := hears
  cases rest with
  | nil => exact absurd (by rw [conn]; rfl) waiting
  | cons x rest =>
    obtain ⟨unwritten, content⟩ := x
    obtain ⟨harmless, short⟩ := plain (unwritten, content) (by simp)
    have fits : content.length + HEADERSIZE < 65536 := short.trans_lt (by decide)
    obtain ⟨script', arrived, -⟩ := receivePdu_whole sock (.kernel unwritten content fits)
      (rest.flatMap fun x => answerFrame x.1 x.2) whole
    have front : client.conn.pending = Frame.encode (.kernel unwritten content fits) ++
        rest.flatMap fun x => answerFrame x.1 x.2 := conn
    rw [← front] at arrived
    obtain ⟨b, first, other⟩ : ∃ b, (content ++ calloc 8).head? = some b ∧ b ≠ QUIT := by
      cases content with
      | nil => exact ⟨0, rfl, by decide⟩
      | cons b content => exact ⟨b, rfl, by simpa using harmless⟩
    have found : firstByte (Frame.pdu sock (.kernel unwritten content fits)).data = some b := first
    have read : payload (.pdu (Frame.pdu sock (.kernel unwritten content fits))) = some content := by
      simp [payload, Frame.pdu]
    refine ⟨⟨.looping, client.numReceive + 1, ⟨rest.flatMap fun x => answerFrame x.1 x.2, script'⟩,
      client.results ++ [.pdu (Frame.pdu sock (.kernel unwritten content fits))]⟩, ?_, ?_, rfl⟩
    · simp only [Client.clientListen, recvs, if_pos looping, arrived, ClientListener.hear, found,
        if_neg other, Option.bind_eq_bind, Option.bind_some]
    · refine ⟨rfl, got ++ [(unwritten, content)], rest, by simp, ?_, by simp [count], rfl⟩
      simpa [heard, read] using same

theorem due_begins (relay : Relay) (answers : List (Byte × Bytes)) (a : Addr) :
    due clients relay answers a <+: answers := by
  cases relay with
  | broadcasting pduReceive pc =>
    rw [due]
    split_ifs
    · exact List.prefix_rfl
    · exact List.dropLast_prefix _
  | _ => exact List.prefix_rfl

theorem Coherent.clientListen (coherent : Coherent clients m sent outs order s) {script : List RecvChoice}
    (whole : Whole script) (stepped : s.clientListen sock script = some s') :
    Coherent clients m sent outs order s' := by
  simp only [System.clientListen, Option.ite_none_left_eq_some] at stepped
  obtain ⟨waiting, stepped⟩ := stepped
  obtain ⟨client, turn, same⟩ := Option.bind_eq_some_iff.mp stepped
  cases same
  refine { coherent with hears := fun a other member => ?_ }
  have before := coherent.hears a other member
  by_cases own : other = sock
  · subst own
    dsimp only
    rw [Function.update_self]
    obtain ⟨client', again, hears, -⟩ := before.clientListen
      (fun x inside => coherent.answers x ((due_begins s.relay _ a).subset inside)) waiting other whole
    cases again.symm.trans turn
    exact hears
  · simpa only [Function.update_of_ne own] using before

/-- Every step keeps the order and may add one request to it. -/
theorem Coherent.step (coherent : Coherent clients m sent outs order s) {e : SystemEvent} (plain : Plain e)
    (stepped : systemStep clients s e = some s') :
    ∃ more, Coherent clients m (sent ++ calls [e]) (outs ++ outcomes [e]) (order ++ more) s' := by
  cases e with
  | clientSend sock call =>
    simp only [systemStep, Option.ite_none_right_eq_some] at stepped
    exact ⟨[], by simpa [calls, outcomes] using coherent.clientSend plain stepped.2⟩
  | clientListener sock script node pdu =>
    obtain ⟨request, later⟩ := coherent.clientListener plain stepped
    exact ⟨[(sock, request)], by simpa [calls, outcomes] using later⟩
  | isEmpty => exact ⟨[], by simpa [calls, outcomes] using coherent.isEmpty stepped⟩
  | condWait => exact ⟨[], by simpa [calls, outcomes] using coherent.condWait stepped⟩
  | removefirst => exact ⟨[], by simpa [calls, outcomes] using coherent.removefirst stepped⟩
  | exchange o => exact ⟨[], by simpa [calls, outcomes] using coherent.exchange plain stepped⟩
  | broadcast => exact ⟨[], by simpa [calls, outcomes] using coherent.broadcast stepped⟩
  | clientListen sock script => exact ⟨[], by simpa [calls, outcomes] using coherent.clientListen plain stepped⟩

/-- The order of a whole run, which prolongs the order it begins with. -/
theorem Coherent.run {done events : List SystemEvent}
    (coherent : Coherent clients m (calls done) (outcomes done) order s) (plain : ∀ e ∈ events, Plain e)
    (ran : run (systemStep clients) s events = some s') :
    ∃ more, Coherent clients m (calls (done ++ events)) (outcomes (done ++ events)) (order ++ more) s' := by
  refine run_records (P := Plain)
    (I := fun done order s => Coherent clients m (calls done) (outcomes done) order s)
    (fun done order s e s' plain coherent stepped => ?_) coherent plain ran
  obtain ⟨more, later⟩ := coherent.step plain stepped
  exact ⟨more, by simpa only [calls_append, outcomes_append] using later⟩

/-- A coherent order explains what the clients have heard. -/
theorem Coherent.explains {events : List SystemEvent}
    (coherent : Coherent clients m (calls events) (outcomes events) order s) :
    Explains clients m events s order := by
  refine ⟨fun sock => ?_, coherent.serves, fun sock member => ?_⟩
  · obtain ⟨unread, made, -⟩ := coherent.unread sock
    exact ⟨unread, made.symm⟩
  · obtain ⟨⟨a, sock⟩, present, rfl⟩ := List.mem_map.mp member
    obtain ⟨-, got, rest, split, same, -⟩ := coherent.hears a sock present
    have sofar : got <+: (served m (outcomes events) order).2 :=
      List.IsPrefix.trans ⟨rest, split.symm⟩ (due_begins s.relay _ a)
    rw [same]
    exact sofar.map Prod.snd

end Steps

/-- In every interleaving there is one order of the requests that explains what every client has heard, and it
only grows at its end: a request that is answered before another one is sent comes before it. -/
theorem answers_in_one_order {clients : Clients} {link : Link} {m : Bytes → Option Bytes}
    (serves : Serves link m) (free : KickFreeMap m) {first second : List SystemEvent} {s s' : System}
    (plain : ∀ e ∈ first ++ second, Plain e) (ran : run (systemStep clients) (.start link) first = some s)
    (ran' : run (systemStep clients) s second = some s') :
    ∃ order more, Explains clients m first s order ∧
      Explains clients m (first ++ second) s' (order ++ more) := by
  have start : Coherent clients m (calls []) (outcomes []) [] (.start link) := coherent_start clients serves free
  obtain ⟨order, coherent⟩ := start.run (fun e member => plain e (List.mem_append_left _ member)) ran
  obtain ⟨more, later⟩ := coherent.run (fun e member => plain e (List.mem_append_right _ member)) ran'
  exact ⟨order, more, coherent.explains, later.explains⟩

def zeroKey : Key := ⟨ascii "0", by decide, by decide⟩

def zeroMemory : KeyArgument zeroKey.text := ⟨calloc KEY_SIZE, by decide⟩

def zeroValue : Value := ⟨ascii "0" ++ [0], by decide, by decide⟩

/-- Both clients ask, the request of the first is taken, and that of the second waits. -/
private theorem asked_two (link : Link) : ∃ toServer sender,
    run (systemStep twoClients) (.start link)
        [.clientSend 5 (.insert zeroKey zeroMemory zeroValue []), .clientSend 6 (.get zeroKey zeroMemory),
          .clientListener 5 [] 0 10, .isEmpty, .removefirst] =
      some ⟨toServer, fun _ => .start [] [], sender, link, .holding ⟨INSERT,
        (Request.insert zeroKey zeroValue).frame.length,
        .bytes ((Request.insert zeroKey zeroValue).frame ++ [0])⟩⟩ ∧
    ∀ toClient link', ∃ s', run (systemStep twoClients) ⟨toServer, toClient, sender, link', .testing⟩
      [.clientListener 6 [] 1 11, .isEmpty, .removefirst] = some s' :=
  ⟨_, _, rfl, fun _ _ => ⟨_, rfl⟩⟩

/-- Both clients hear the answer. -/
private theorem answered_two (toServer : ℕ → Bytes) (sender : Sender) (link : Link) : ∃ toClient,
    run (systemStep twoClients) ⟨toServer, fun _ => .start [] [], sender, link, .broadcasting
        ⟨KERNEL, 34, .bytes (answerFrame 0 (answerText "Inserted object to rhashtable"))⟩ .start⟩
      (List.replicate 9 .broadcast ++ [.clientListen 5 [], .clientListen 6 []]) =
        some ⟨toServer, toClient, sender, link, .testing⟩ ∧
    heard (toClient 5) = [answerText "Inserted object to rhashtable"] ∧
    heard (toClient 6) = [answerText "Inserted object to rhashtable"] :=
  ⟨_, rfl, rfl, rfl⟩

/-- The request of the first client is served and both hear the answer, then that of the second is taken. -/
theorem answers_in_one_order_two :
    let first : List SystemEvent := [.clientSend 5 (.insert zeroKey zeroMemory zeroValue []),
        .clientSend 6 (.get zeroKey zeroMemory), .clientListener 5 [] 0 10, .isEmpty, .removefirst] ++
      .exchange (.smooth 0) :: (List.replicate 9 .broadcast ++ [.clientListen 5 [], .clientListen 6 []])
    let second : List SystemEvent := [.clientListener 6 [] 1 11, .isEmpty, .removefirst]
    ∃ s s', run (systemStep twoClients) (.start (initialLink 0)) first = some s ∧
      run (systemStep twoClients) s second = some s' ∧
      heard (s.toClient 5) = [answerText "Inserted object to rhashtable"] ∧
      heard (s.toClient 6) = [answerText "Inserted object to rhashtable"] ∧
      ∃ order more, Explains twoClients (fun _ => none) first s order ∧
        Explains twoClients (fun _ => none) (first ++ second) s' (order ++ more) := by
  intro first second
  have serves := initialLink_serves 0
  have plain : ∀ e ∈ first ++ second, Plain e := by
    intro e member
    simp only [first, second, List.cons_append, List.nil_append, List.append_assoc, List.mem_cons,
      List.mem_append, List.mem_replicate, List.not_mem_nil, or_false] at member
    rcases member with rfl | rfl | rfl | rfl | rfl | rfl | ⟨-, rfl⟩ | rfl | rfl | rfl | rfl | rfl <;>
      first | trivial | exact whole_nil | exact smooth_usual 0 | exact show zeroValue.bytes.head? ≠ _ by decide
  obtain ⟨toServer, sender, asked, takes⟩ := asked_two (initialLink 0)
  obtain ⟨link, exchanged, -⟩ := exchange_request (smooth_usual 0) serves (.insert zeroKey zeroValue) INSERT [0]
  obtain ⟨toClient, sent, five, six⟩ := answered_two toServer sender link
  obtain ⟨s', taken⟩ := takes toClient link
  have ran : run (systemStep twoClients) (.start (initialLink 0)) first =
      some ⟨toServer, toClient, sender, link, .testing⟩ := by
    refine (run_append asked _).trans ?_
    simp only [run_cons, systemStep, System.exchange, exchanged, Option.bind_eq_bind, Option.bind_some]
    exact sent
  exact ⟨_, s', ran, taken, five, six, answers_in_one_order serves kickFreeMap_empty plain ran taken⟩

end Operativsystem.Pipeline
