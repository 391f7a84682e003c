import Operativsystem.Server.Process

/-! # What one step of each thread can do

One inductive predicate for each thread whose steps touch several of the shared lists. The steps
that only move the program counter, or a number between it and the lists, are one case.
-/

namespace Operativsystem.Server.Process

open Resources

variable {s s' : State}

/-- A step of `accept_connections`. -/
inductive Accepts (s : State) : State → Prop
  | moves (availableThreads : List ℕ) (accept : AcceptPc) (closer : ClosePc)
      (closes : closer = s.closer ∨ closer = s.closer.wake)
      (admitted : accept.admitted = true → s.closeAllClients = false)
      (creating : ∀ slot, accept ≠ .creating slot)
      (taking : accept = .taking → availableThreads ≠ []) :
      Accepts s { s with availableThreads := availableThreads, accept := accept, closer := closer }
  | registers (slot : ℕ) (new : s.threads.length ∉ s.clients.cells.map Prod.snd)
      (accept : s.accept = .registering slot) :
      Accepts s { s with
        clients := s.clients.llistInsertlast s.threads.length new, accept := .creating slot }
  | creates (slot : ℕ) (accept : s.accept = .creating slot) (inside : slot < s.clientThreads.length) :
      Accepts s { s with
        clientThreads := s.clientThreads.set slot (some s.threads.length)
        threads := s.threads ++ [⟨slot, .receiving⟩]
        accept := .accepting }

theorem acceptConnections_cases (stepped : acceptConnections s = some s') : Accepts s s' := by
  have quiet {availableThreads : List ℕ} {accept : AcceptPc}
      (admitted : accept.admitted = true → s.closeAllClients = false)
      (creating : ∀ slot, accept ≠ .creating slot) (taking : accept = .taking → availableThreads ≠ []) :
      Accepts s { s with availableThreads := availableThreads, accept := accept } :=
    .moves availableThreads accept s.closer (.inl rfl) admitted creating taking
  rw [acceptConnections] at stepped
  split at stepped
  · split_ifs at stepped
    · cases stepped
      exact .moves _ _ _ (.inr rfl) nofun (by simp) (by simp)
    · cases stepped
      exact quiet nofun (by simp) (by simp)
  · cases stepped
    exact quiet nofun (by simp) (by simp)
  · split_ifs at stepped with full
    · cases stepped
      exact quiet nofun (by simp) (by simp)
    · cases stepped
      exact quiet nofun (by simp) fun _ => full
  · split at stepped
    · cases stepped
    · cases stepped
      exact quiet nofun (by simp) (by simp)
  · split_ifs at stepped with closing
    · cases stepped
      exact quiet nofun (by simp) (by simp)
    · cases stepped
      exact quiet (fun _ => by simpa using closing) (by simp) (by simp)
  · rename_i slot registering
    split_ifs at stepped with new
    cases stepped
    exact .registers slot new registering
  · rename_i slot creating
    split_ifs at stepped with inside
    cases stepped
    exact .creates slot creating inside

/-- A step of a `client_listener` other than an insertion into `sender_list`. -/
inductive Listens (s : State) (t : ℕ) (l : Listener) : State → Prop
  | announces (receiving : l.pc = .receiving) :
      Listens s t l { s.setListener t l .announced with
        terminatedThreads := t :: s.terminatedThreads, joiner := s.joiner.wake }
  | broadcasts (linked : l.pc = .linked) :
      Listens s t l { s.setListener t l .receiving with senderMtx := none, kernel := s.kernel.wake }
  | searches (announced : l.pc = .announced) :
      Listens s t l { s.setListener t l (.closing .start) with joiner := s.joiner.wake }
  | walks (pc pc' : WalkPc) (clients : Clients) (closing : l.pc = .closing pc)
      (walked : closeConnectedClient s.clients s.released t pc = some (pc', clients)) :
      Listens s t l { s.setListener t l (.closing pc') with clients := clients }
  | returns (through : l.pc = .closing .finished) : Listens s t l (s.setListener t l .returned)

theorem clientListener_cases {t : ℕ} (stepped : clientListener s t = some s') :
    ∃ l, s.threads[t]? = some l ∧ Listens s t l s' := by
  rw [clientListener] at stepped
  split at stepped
  · cases stepped
  rename_i l present
  refine ⟨l, present, ?_⟩
  split at stepped
  · rename_i receiving
    cases stepped
    exact .announces receiving
  · rename_i linked
    cases stepped
    exact .broadcasts linked
  · rename_i announced
    cases stepped
    exact .searches announced
  · rename_i through
    cases stepped
    exact .returns through
  · rename_i pc _ closing
    obtain ⟨⟨pc', clients⟩, walked, rfl⟩ := Option.map_eq_some_iff.mp stepped
    exact .walks pc pc' clients closing walked
  · cases stepped
  · cases stepped

/-- A step of `join_threads`. -/
inductive Joins (s : State) : State → Prop
  | moves (joiner : JoinPc) (still : s.joiner ≠ .removing) (woken : joiner ≠ .woken)
      (removing : joiner = .removing → s.terminatedThreads ≠ [] ∨ s.joiner = .woken ∧ s.exitServer = false) :
      Joins s { s with joiner := joiner }
  | removes (t : ℕ) (rest : List ℕ) (l : Listener) (joiner : s.joiner = .removing)
      (terminated : s.terminatedThreads = t :: rest) (present : s.threads[t]? = some l) :
      Joins s { s with
        terminatedThreads := rest, released := t :: s.released, joiner := .holding l.threadNum }
  | joins (slot t : ℕ) (l : Listener) (joiner : s.joiner = .joining slot (some t))
      (present : s.threads[t]? = some l) (returned : l.pc = .returned) :
      Joins s { s.setListener t l .joined with joiner := .inserting slot }
  | inserts (slot : ℕ) (joiner : s.joiner = .inserting slot) :
      Joins s { s.insertAvailable slot with joiner := .testing }

theorem joinThreads_cases (stepped : joinThreads s = some s') : Joins s s' := by
  rw [joinThreads] at stepped
  split at stepped
  · rename_i testing
    split_ifs at stepped with empty
    · cases stepped
      exact .moves _ (by simp [testing]) (by simp) (by simp)
    · cases stepped
      exact .moves _ (by simp [testing]) (by simp) fun _ => .inl empty
  · rename_i falling
    cases stepped
    exact .moves _ (by simp [falling]) (by simp) (by simp)
  · cases stepped
  · rename_i woken
    split_ifs at stepped with exiting
    · cases stepped
      exact .moves _ (by simp [woken]) (by simp) (by simp)
    · cases stepped
      exact .moves _ (by simp [woken]) (by simp) fun _ => .inr ⟨woken, by simpa using exiting⟩
  · rename_i removing
    split at stepped
    · cases stepped
    · rename_i t rest terminated
      obtain ⟨l, present, rfl⟩ := Option.map_eq_some_iff.mp stepped
      exact .removes t rest l removing terminated present
  · rename_i slot holding
    obtain ⟨thread, -, rfl⟩ := Option.map_eq_some_iff.mp stepped
    exact .moves _ (by simp [holding]) (by simp) (by simp)
  · rename_i slot thread joining
    split at stepped
    · cases stepped
    split at stepped
    · cases stepped
    rename_i t _ l present
    split_ifs at stepped with returned
    cases stepped
    exact .joins slot t l joining present returned
  · rename_i slot inserting
    cases stepped
    exact .inserts slot inserting
  · cases stepped

/-- A step of `close_server`. -/
inductive Closes (s : State) : State → Prop
  | starts (idle : s.closer = .idle) : Closes s { s with closer := .draining }
  | empties (draining : s.closer = .draining) (empty : s.clients.cells = []) :
      Closes s { s with closer := .flagging }
  | finds (draining : s.closer = .draining) (nonempty : s.clients.cells ≠ []) :
      Closes s { s with closer := .removing }
  | removes (a : Segment.Addr) (t : ℕ) (rest : List (Segment.Addr × ℕ)) (removing : s.closer = .removing)
      (cells : s.clients.cells = (a, t) :: rest) (live : t ∉ s.released) :
      Closes s { s with clients := s.clients.without a, closer := .sending t }
  | sends (t : ℕ) (sending : s.closer = .sending t) :
      Closes s { s with quits := s.quits ++ [t], closer := .draining }
  | flags (flagging : s.closer = .flagging) : Closes s { s with closeAllClients := true, closer := .testing }
  | waits (closer : ClosePc) (before : s.closer = .testing ∨ s.closer = .falling)
      (after : closer = .falling ∨ closer = .waiting ∨ closer = .leaving) : Closes s { s with closer := closer }
  | exits (leaving : s.closer = .leaving) : Closes s { s with exitServer := true, closer := .wakingKernel }
  | wakesKernel (waking : s.closer = .wakingKernel) :
      Closes s { s with kernel := s.kernel.wake, closer := .wakingJoiner }
  | wakesJoiner (waking : s.closer = .wakingJoiner) :
      Closes s { s with joiner := s.joiner.wake, closer := .finished }

theorem closeServer_cases (stepped : closeServer s = some s') : Closes s s' := by
  rw [closeServer] at stepped
  split at stepped
  · rename_i idle
    cases stepped
    exact .starts idle
  · rename_i draining
    split_ifs at stepped with empty
    · cases stepped
      exact .empties draining empty
    · cases stepped
      exact .finds draining empty
  · rename_i removing
    split at stepped
    · cases stepped
    · rename_i a t rest cells
      split_ifs at stepped with gone
      cases stepped
      exact .removes a t rest removing cells gone
  · rename_i t sending
    cases stepped
    exact .sends t sending
  · rename_i flagging
    cases stepped
    exact .flags flagging
  · rename_i testing
    split_ifs at stepped
    · cases stepped
      exact .waits _ (.inl testing) (by simp)
    · cases stepped
      exact .waits _ (.inl testing) (by simp)
  · rename_i falling
    cases stepped
    exact .waits _ (.inr falling) (by simp)
  · cases stepped
  · rename_i leaving
    cases stepped
    exact .exits leaving
  · rename_i waking
    cases stepped
    exact .wakesKernel waking
  · rename_i waking
    cases stepped
    exact .wakesJoiner waking
  · cases stepped

/-- `close_server` touches no thread and no list but `clients_sockets`, where it takes entries away. -/
theorem closeServer_frame (stepped : closeServer s = some s') :
    ∃ clients quits kernel joiner closer closeAllClients exitServer,
      s' = { s with
        clients := clients, quits := quits, kernel := kernel, joiner := joiner, closer := closer,
        closeAllClients := closeAllClients, exitServer := exitServer } ∧
      clients.cells ⊆ s.clients.cells ∧ (kernel = s.kernel ∨ kernel = s.kernel.wake) := by
  have same : s.clients.cells ⊆ s.clients.cells := List.Subset.refl _
  cases closeServer_cases stepped with
  | removes a =>
    have fewer : (s.clients.without a).cells ⊆ s.clients.cells := (Cursor.erase_sublist _ _).subset
    exact ⟨_, _, _, _, _, _, _, rfl, fewer, .inl rfl⟩
  | wakesKernel => exact ⟨_, _, _, _, _, _, _, rfl, same, .inr rfl⟩
  | _ => exact ⟨_, _, _, _, _, _, _, rfl, same, .inl rfl⟩

/-- `kernel_communication` only removes from `sender_list`. -/
theorem kernelCommunication_frame (stepped : kernelCommunication s = some s') :
    ∃ kernel senderList, s' = { s with kernel := kernel, senderList := senderList } := by
  rw [kernelCommunication] at stepped
  split at stepped
  · split_ifs at stepped <;> cases stepped <;> exact ⟨_, _, rfl⟩
  · split_ifs at stepped <;> cases stepped <;> exact ⟨_, _, rfl⟩
  · split_ifs at stepped
    cases stepped
    exact ⟨_, _, rfl⟩
  · cases stepped
  · split_ifs at stepped
    cases stepped
    exact ⟨_, _, rfl⟩
  · split_ifs at stepped <;> cases stepped <;> exact ⟨_, _, rfl⟩
  · split at stepped
    · cases stepped
    split_ifs at stepped
    cases stepped
    exact ⟨_, _, rfl⟩
  · cases stepped
    exact ⟨_, _, rfl⟩
  · obtain ⟨⟨pc, sock⟩, -, rfl⟩ := Option.map_eq_some_iff.mp stepped
    exact ⟨_, _, rfl⟩
  · cases stepped

/-- A spurious wake-up. -/
inductive Wakes (s : State) : Waiter → State → Prop
  | joiner (blocked : s.joiner = .waiting) : Wakes s .join { s with joiner := .woken }
  | closer (blocked : s.closer = .waiting) : Wakes s .close { s with closer := .testing }
  | kernel (blocked : s.kernel = .waiting) : Wakes s .kernel { s with kernel := .woken }

theorem spuriousWakeup_cases {w : Waiter} (stepped : spuriousWakeup s w = some s') : Wakes s w s' := by
  cases w with
  | join =>
    simp only [spuriousWakeup] at stepped
    split_ifs at stepped with blocked
    cases stepped
    exact .joiner blocked
  | close =>
    simp only [spuriousWakeup] at stepped
    split_ifs at stepped with blocked
    cases stepped
    exact .closer blocked
  | kernel =>
    simp only [spuriousWakeup] at stepped
    split_ifs at stepped with blocked
    cases stepped
    exact .kernel blocked

end Operativsystem.Server.Process
