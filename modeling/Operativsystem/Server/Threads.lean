import Operativsystem.Library.Conservation

/-! # The threads of the server and their slots

`accept_connections` takes a slot for each connection and creates a listener thread in it; the
listener announces the slot when its client leaves, `join_threads` joins the thread and gives the
slot back, and `close_server` waits until all slots are back. Every thread is a program of atomic
steps (list operations, thread creation, tests of a flag), so an event only says which thread moves.
A thread in `pthread_cond_wait` moves on when an insertion or a listener broadcasts. How long
`close_server` empties its list of sockets does not matter, so that loop is one step.
-/

namespace Operativsystem.Server

open Machine

abbrev THREADS : ℕ := 10

/-- How far a `client_listener` thread has come: it receives, it has put its slot into
`terminatedThreads`, it has broadcast, it has returned, it has been joined. -/
inductive Phase where
  | running
  | announced
  | leaving
  | returned
  | joined
deriving DecidableEq, Repr

structure Listener where
  threadNum : ℕ
  phase : Phase
deriving DecidableEq, Repr

/-- Where `accept_connections` is. -/
inductive AcceptPc where
  | filling (j : ℕ)
  | accepting
  | accepted
  | taking
  | holding (threadNumber : ℕ)
  | creating (threadNumber : ℕ)
deriving DecidableEq, Repr

/-- Where `join_threads` is; `falling` is between its test of the list and its wait. -/
inductive JoinPc where
  | testing
  | falling
  | waiting
  | woken
  | removing
  | holding (threadNumber : ℕ)
  | joining (threadNumber : ℕ) (thread : Option ℕ)
  | inserting (threadNumber : ℕ)
  | finished
deriving DecidableEq, Repr

/-- Where `close_server` is. -/
inductive ClosePc where
  | idle
  | draining
  | testing
  | falling
  | waiting
  | leaving
  | broadcasting
  | finished
deriving DecidableEq, Repr

/-- The shared lists and flags, the threads, and the calls of `pthread_join` so far. A listener
thread is known by its place in `threads`; `clientThreads` holds `none` where nothing was created. -/
structure ServerState where
  availableThreads : List ℕ
  terminatedThreads : List ℕ
  clientThreads : List (Option ℕ)
  threads : List Listener
  accept : AcceptPc
  joiner : JoinPc
  closer : ClosePc
  closeAllClients : Bool
  exitServer : Bool
  joinCalls : List (Option ℕ)
deriving DecidableEq, Repr

def ServerState.start : ServerState :=
  ⟨[], [], List.replicate THREADS none, [], .filling 0, .testing, .idle, false, false, []⟩

/-- The broadcast on the condition of `terminatedThreads`. -/
def JoinPc.wake : JoinPc → JoinPc
  | .waiting => .woken
  | pc => pc

/-- The broadcast on the condition of `availableThreads`. -/
def ClosePc.wake : ClosePc → ClosePc
  | .waiting => .testing
  | pc => pc

def ServerState.insertAvailable (s : ServerState) (slot : ℕ) : ServerState :=
  { s with availableThreads := s.availableThreads ++ [slot], closer := s.closer.wake }

/-- One step of `accept_connections`, whose calls all succeed. -/
def acceptConnections (s : ServerState) : Option ServerState :=
  match s.accept with
  | .filling j =>
    if j < THREADS then some { s.insertAvailable j with accept := .filling (j + 1) }
    else some { s with accept := .accepting }
  | .accepting => some { s with accept := .accepted }
  | .accepted => -- `find_free_thread`; the connection is closed if the server is full
    if s.availableThreads = [] then some { s with accept := .accepting }
    else some { s with accept := .taking }
  | .taking =>
    match s.availableThreads with
    | [] => none
    | slot :: rest => some { s with availableThreads := rest, accept := .holding slot }
  | .holding slot => -- the slot is released here if the server is closing
    if s.closeAllClients then some { s with accept := .accepting }
    else some { s with accept := .creating slot }
  | .creating slot =>
    if slot < s.clientThreads.length then
      some { s with
        clientThreads := s.clientThreads.set slot (some s.threads.length)
        threads := s.threads ++ [⟨slot, .running⟩]
        accept := .accepting }
    else none

/-- One step of a `client_listener` towards its end. -/
def clientListener (s : ServerState) (t : ℕ) : Option ServerState :=
  match s.threads[t]? with
  | none => none
  | some l =>
    match l.phase with
    | .running =>
      some { s with
        threads := s.threads.set t { l with phase := .announced }
        terminatedThreads := l.threadNum :: s.terminatedThreads
        joiner := s.joiner.wake }
    | .announced =>
      some { s with threads := s.threads.set t { l with phase := .leaving }, joiner := s.joiner.wake }
    | .leaving => some { s with threads := s.threads.set t { l with phase := .returned } }
    | .returned => none
    | .joined => none

/-- One step of `join_threads`; `pthread_join` comes back once the thread has returned. -/
def joinThreads (s : ServerState) : Option ServerState :=
  match s.joiner with
  | .testing =>
    if s.terminatedThreads = [] then some { s with joiner := .falling }
    else some { s with joiner := .removing }
  | .falling => some { s with joiner := .waiting }
  | .waiting => none
  | .woken => if s.exitServer then some { s with joiner := .finished } else some { s with joiner := .removing }
  | .removing =>
    match s.terminatedThreads with
    | [] => none
    | slot :: rest => some { s with terminatedThreads := rest, joiner := .holding slot }
  | .holding slot =>
    match s.clientThreads[slot]? with
    | none => none
    | some thread => some { s with joiner := .joining slot thread, joinCalls := s.joinCalls ++ [thread] }
  | .joining slot thread =>
    match thread with
    | none => none
    | some t =>
      match s.threads[t]? with
      | none => none
      | some l =>
        if l.phase = .returned then
          some { s with threads := s.threads.set t { l with phase := .joined }, joiner := .inserting slot }
        else none
  | .inserting slot => some { s.insertAvailable slot with joiner := .testing }
  | .finished => none

/-- One step of `close_server`. -/
def closeServer (s : ServerState) : Option ServerState :=
  match s.closer with
  | .idle => some { s with closer := .draining }
  | .draining => some { s with closer := .testing, closeAllClients := true }
  | .testing =>
    if s.availableThreads.length < THREADS then some { s with closer := .falling }
    else some { s with closer := .leaving }
  | .falling => some { s with closer := .waiting }
  | .waiting => none
  | .leaving => some { s with closer := .broadcasting, exitServer := true }
  | .broadcasting => some { s with closer := .finished, joiner := s.joiner.wake }
  | .finished => none

/-- The thread that moves next. -/
inductive Event where
  | accept
  | listener (t : ℕ)
  | join
  | close
deriving DecidableEq, Repr

def step (s : ServerState) : Event → Option ServerState
  | .accept => acceptConnections s
  | .listener t => clientListener s t
  | .join => joinThreads s
  | .close => closeServer s

/-- The slot in the hand of `accept_connections`. -/
def AcceptPc.hand : AcceptPc → List ℕ
  | .holding slot => [slot]
  | .creating slot => [slot]
  | _ => []

/-- The slots that are still to be filled in. -/
def AcceptPc.owed : AcceptPc → List ℕ
  | .filling j => (List.range THREADS).drop j
  | _ => []

/-- The slot in the hand of `join_threads`. -/
def JoinPc.hand : JoinPc → List ℕ
  | .holding slot => [slot]
  | .joining slot _ => [slot]
  | .inserting slot => [slot]
  | _ => []

/-- The slots of the listeners that have not announced themselves. -/
def unannounced (threads : List Listener) : List ℕ :=
  (threads.filter (·.phase = .running)).map Listener.threadNum

/-- All slots, wherever they are. -/
def ServerState.slots (s : ServerState) : List ℕ :=
  s.availableThreads ++ s.accept.hand ++ unannounced s.threads ++ s.terminatedThreads ++ s.joiner.hand

def ServerState.total (s : ServerState) : List ℕ := s.accept.owed ++ s.slots

@[simp] theorem JoinPc.hand_wake (pc : JoinPc) : pc.wake.hand = pc.hand := by cases pc <;> rfl

/-- A listener that goes on after its announcement, or is joined. -/
theorem unannounced_set {threads : List Listener} {t : ℕ} {l : Listener} {phase : Phase}
    (present : threads[t]? = some l) (before : l.phase ≠ .running) (after : phase ≠ .running) :
    unannounced (threads.set t { l with phase := phase }) = unannounced threads := by
  rw [unannounced, filter_set_outside present (by simpa using before) (by simpa using after), unannounced]

/-- An announcement takes the slot from the listener. -/
theorem unannounced_announce {threads : List Listener} {t : ℕ} {l : Listener}
    (present : threads[t]? = some l) (running : l.phase = .running) : (unannounced threads).Perm
      (l.threadNum :: unannounced (threads.set t { l with phase := .announced })) := by
  have leaves := filter_set_leave (p := fun l : Listener => decide (l.phase = .running))
    (y := { l with phase := .announced }) present (by simpa using running) (by simp)
  exact leaves.map Listener.threadNum

theorem unannounced_append (threads : List Listener) (slot : ℕ) :
    unannounced (threads ++ [⟨slot, .running⟩]) = unannounced threads ++ [slot] := by
  simp [unannounced]

/-- A connection that has got a slot does not find the server closing. -/
def Admits (s : ServerState) (e : Event) : Prop :=
  ∀ slot, e = .accept → s.accept = .holding slot → s.closeAllClients = false

end Operativsystem.Server
