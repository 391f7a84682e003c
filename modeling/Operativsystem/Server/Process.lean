import Operativsystem.Resources.PduUser
import Operativsystem.Server.Clients
import Operativsystem.Server.Threads

/-! # All threads of the server process

The program of each thread with all shared lists: `accept_connections`, `join_threads`,
`close_server`, `kernel_communication` and any number of `client_listener` threads. A client is
known by its number, which stands for its socket and for its `clientThreadInfo`; the record is
released when `join_threads` takes it from `terminatedThreads`, and reading it after that is not
possible. An insertion into `sender_list` shows its two halves, the link and the broadcast, with the
mutex held in between. `pthread_cond_wait` may return on its own.
-/

namespace Operativsystem.Server.Process

open Machine Resources

/-- How far a `client_listener` has come: it receives, it has linked a PDU into `sender_list`, it has
put its record into `terminatedThreads`, it searches its entry, it has returned, it is joined. -/
inductive ListenerPc where
  | receiving
  | linked
  | announced
  | closing (pc : WalkPc)
  | returned
  | joined
deriving DecidableEq, Repr

structure Listener where
  threadNum : ℕ
  pc : ListenerPc
deriving DecidableEq, Repr

inductive AcceptPc where
  | filling (j : ℕ)
  | accepting
  | accepted
  | taking
  | holding (threadNumber : ℕ)
  | registering (threadNumber : ℕ)
  | creating (threadNumber : ℕ)
deriving DecidableEq, Repr

/-- The connection has passed the test of `closeAllClients`, and its thread has not been created. -/
def AcceptPc.admitted : AcceptPc → Bool
  | .registering _ => true
  | .creating _ => true
  | _ => false

/-- Where `close_server` is: at the test and the removal of its first loop, between the loop and
`closeAllClients = true`, in its second loop, at the last three statements. -/
inductive ClosePc where
  | idle
  | draining
  | removing
  | sending (tempSocket : ℕ)
  | flagging
  | testing
  | falling
  | waiting
  | leaving
  | wakingKernel
  | wakingJoiner
  | finished
deriving DecidableEq, Repr

/-- Where `kernel_communication` is; the exchange with the kernel belongs to `removing`. -/
inductive KernelPc where
  | looping
  | testing
  | falling
  | waiting
  | woken
  | checking
  | removing
  | broadcasting (pc : WalkPc)
  | finished
deriving DecidableEq, Repr

/-- Besides the shared data: who holds the mutex of `sender_list`, the records that have been
released, and the clients that have been sent a QUIT frame. -/
structure State where
  clients : Clients
  senderList : List Pdu
  senderMtx : Option ℕ
  availableThreads : List ℕ
  terminatedThreads : List ℕ
  clientThreads : List (Option ℕ)
  threads : List Listener
  released : List ℕ
  quits : List ℕ
  accept : AcceptPc
  joiner : JoinPc
  closer : ClosePc
  kernel : KernelPc
  closeAllClients : Bool
  exitServer : Bool

def State.start : State where
  clients := .empty
  senderList := []
  senderMtx := none
  availableThreads := []
  terminatedThreads := []
  clientThreads := List.replicate THREADS none
  threads := []
  released := []
  quits := []
  accept := .filling 0
  joiner := .testing
  closer := .idle
  kernel := .looping
  closeAllClients := false
  exitServer := false

/-- The broadcast on the condition of `availableThreads`. -/
def ClosePc.wake : ClosePc → ClosePc
  | .waiting => .testing
  | pc => pc

/-- The broadcast on the condition of `sender_list`. -/
def KernelPc.wake : KernelPc → KernelPc
  | .waiting => .woken
  | pc => pc

def State.insertAvailable (s : State) (slot : ℕ) : State :=
  { s with availableThreads := s.availableThreads ++ [slot], closer := s.closer.wake }

def State.setListener (s : State) (t : ℕ) (l : Listener) (pc : ListenerPc) : State :=
  { s with threads := s.threads.set t { l with pc := pc } }

/-- One step of `accept_connections`. -/
def acceptConnections (s : State) : Option State :=
  match s.accept with
  | .filling j =>
    if j < THREADS then some { s.insertAvailable j with accept := .filling (j + 1) }
    else some { s with accept := .accepting }
  | .accepting => some { s with accept := .accepted }
  | .accepted => -- `find_free_thread`
    if s.availableThreads = [] then some { s with accept := .accepting }
    else some { s with accept := .taking }
  | .taking =>
    match s.availableThreads with
    | [] => none
    | slot :: rest => some { s with availableThreads := rest, accept := .holding slot }
  | .holding slot =>
    if s.closeAllClients then some { s with accept := .accepting }
    else some { s with accept := .registering slot }
  | .registering slot =>
    if new : s.threads.length ∉ s.clients.cells.map Prod.snd then
      some { s with clients := s.clients.llistInsertlast s.threads.length new, accept := .creating slot }
    else none
  | .creating slot =>
    if slot < s.clientThreads.length then
      some { s with
        clientThreads := s.clientThreads.set slot (some s.threads.length)
        threads := s.threads ++ [⟨slot, .receiving⟩]
        accept := .accepting }
    else none

/-- A listener has received a request and links it into `sender_list`. -/
def insertRequest (s : State) (t : ℕ) (pdu : Pdu) : Option State :=
  match s.threads[t]? with
  | none => none
  | some l =>
    if l.pc = .receiving ∧ s.senderMtx = none then
      some { s.setListener t l .linked with senderList := s.senderList ++ [pdu], senderMtx := some t }
    else none

/-- One step of a `client_listener` that has a request in the list or whose client has left. -/
def clientListener (s : State) (t : ℕ) : Option State :=
  match s.threads[t]? with
  | none => none
  | some l =>
    match l.pc with
    | .receiving =>
      some { s.setListener t l .announced with
        terminatedThreads := t :: s.terminatedThreads, joiner := s.joiner.wake }
    | .linked => some { s.setListener t l .receiving with senderMtx := none, kernel := s.kernel.wake }
    | .announced => some { s.setListener t l (.closing .start) with joiner := s.joiner.wake }
    | .closing .finished => some (s.setListener t l .returned)
    | .closing pc => (closeConnectedClient s.clients s.released t pc).map fun (pc, clients) =>
      { s.setListener t l (.closing pc) with clients := clients }
    | .returned => none
    | .joined => none

/-- One step of `join_threads`. -/
def joinThreads (s : State) : Option State :=
  match s.joiner with
  | .testing =>
    if s.terminatedThreads = [] then some { s with joiner := .falling }
    else some { s with joiner := .removing }
  | .falling => some { s with joiner := .waiting }
  | .waiting => none
  | .woken => if s.exitServer then some { s with joiner := .finished } else some { s with joiner := .removing }
  | .removing => -- `llist_removefirst_INT` copies the number and releases the record
    match s.terminatedThreads with
    | [] => none
    | t :: rest => (s.threads[t]?).map fun l =>
      { s with terminatedThreads := rest, released := t :: s.released, joiner := .holding l.threadNum }
  | .holding slot => (s.clientThreads[slot]?).map fun thread => { s with joiner := .joining slot thread }
  | .joining slot thread =>
    match thread with
    | none => none
    | some t =>
      match s.threads[t]? with
      | none => none
      | some l =>
        if l.pc = .returned then some { s.setListener t l .joined with joiner := .inserting slot } else none
  | .inserting slot => some { s.insertAvailable slot with joiner := .testing }
  | .finished => none

/-- One step of `close_server`. -/
def closeServer (s : State) : Option State :=
  match s.closer with
  | .idle => some { s with closer := .draining }
  | .draining =>
    if s.clients.cells = [] then some { s with closer := .flagging } else some { s with closer := .removing }
  | .removing =>
    match s.clients.cells with
    | [] => none
    | (a, t) :: _ =>
      if t ∈ s.released then none else some { s with clients := s.clients.without a, closer := .sending t }
  | .sending t => some { s with quits := s.quits ++ [t], closer := .draining }
  | .flagging => some { s with closeAllClients := true, closer := .testing }
  | .testing =>
    if s.availableThreads.length < THREADS then some { s with closer := .falling }
    else some { s with closer := .leaving }
  | .falling => some { s with closer := .waiting }
  | .waiting => none
  | .leaving => some { s with exitServer := true, closer := .wakingKernel }
  | .wakingKernel => some { s with kernel := s.kernel.wake, closer := .wakingJoiner }
  | .wakingJoiner => some { s with joiner := s.joiner.wake, closer := .finished }
  | .finished => none

/-- One step of `kernel_communication`. -/
def kernelCommunication (s : State) : Option State :=
  match s.kernel with
  | .looping => if s.exitServer then some { s with kernel := .finished } else some { s with kernel := .testing }
  | .testing =>
    if s.senderList = [] then some { s with kernel := .falling } else some { s with kernel := .removing }
  | .falling => if s.senderMtx = none then some { s with kernel := .waiting } else none
  | .waiting => none
  | .woken => if s.senderMtx = none then some { s with kernel := .checking } else none
  | .checking => if s.exitServer then some { s with kernel := .finished } else some { s with kernel := .removing }
  | .removing =>
    match s.senderList with
    | [] => none
    | _ :: rest =>
      if s.senderMtx = none then some { s with senderList := rest, kernel := .broadcasting .start } else none
  | .broadcasting .finished => some { s with kernel := .looping }
  | .broadcasting pc => (broadcastLoop s.clients s.released pc).map fun (pc, _) =>
    { s with kernel := .broadcasting pc }
  | .finished => none

/-- The threads that wait on a condition. -/
inductive Waiter where
  | join
  | close
  | kernel
deriving DecidableEq, Repr

/-- A `pthread_cond_wait` that returns without a broadcast. -/
def spuriousWakeup (s : State) : Waiter → Option State
  | .join => if s.joiner = .waiting then some { s with joiner := .woken } else none
  | .close => if s.closer = .waiting then some { s with closer := .testing } else none
  | .kernel => if s.kernel = .waiting then some { s with kernel := .woken } else none

/-- The thread that moves next. -/
inductive Event where
  | accept
  | request (t : ℕ) (pdu : Pdu)
  | listener (t : ℕ)
  | join
  | close
  | kernel
  | spurious (w : Waiter)

def step (s : State) : Event → Option State
  | .accept => acceptConnections s
  | .request t pdu => insertRequest s t pdu
  | .listener t => clientListener s t
  | .join => joinThreads s
  | .close => closeServer s
  | .kernel => kernelCommunication s
  | .spurious w => spuriousWakeup s w

/-- A request for the runs below. -/
def anInit : Pdu := ⟨INIT, 4, .bytes [INIT, 0, 0, 0]⟩

/-- The first client connects and gets slot 0. -/
def firstClient : List Event := List.replicate 17 .accept

/-- The state after that, if no other thread has moved. -/
def oneClient : State where
  clients := Clients.empty.llistInsertlast 0 (by decide)
  senderList := []
  senderMtx := none
  availableThreads := [1, 2, 3, 4, 5, 6, 7, 8, 9]
  terminatedThreads := []
  clientThreads := some 0 :: List.replicate 9 none
  threads := [⟨0, .receiving⟩]
  released := []
  quits := []
  accept := .accepting
  joiner := .testing
  closer := .idle
  kernel := .looping
  closeAllClients := false
  exitServer := false

example : run step .start firstClient = some oneClient := rfl

end Operativsystem.Server.Process
