import Operativsystem.Server.Records
import Operativsystem.Server.SlotOwner

/-! # The slots in the whole process

The process with all its lists refines the threads and their slots: a step of the process is none,
one or two steps of the smaller machine. What has been proved of the owners of the slots holds for
the process.
-/

namespace Operativsystem.Server.Process

open Machine

def ListenerPc.phase : ListenerPc → Phase
  | .receiving => .running
  | .linked => .running
  | .announced => .announced
  | .closing _ => .leaving
  | .returned => .returned
  | .joined => .joined

def Listener.slots (l : Listener) : Server.Listener := ⟨l.threadNum, l.pc.phase⟩

/-- The registration of a client is no step of the smaller machine. -/
def AcceptPc.slots : AcceptPc → Server.AcceptPc
  | .filling j => .filling j
  | .accepting => .accepting
  | .accepted => .accepted
  | .taking => .taking
  | .holding slot => .holding slot
  | .registering slot => .creating slot
  | .creating slot => .creating slot

/-- Up to the removal `join_threads` has not done anything to a slot. -/
def joinerSlots : JoinPc → JoinPc
  | .holding slot => .holding slot
  | .joining slot thread => .joining slot thread
  | .inserting slot => .inserting slot
  | _ => .testing

/-- For the slots only `closeAllClients` matters. -/
def ClosePc.slots : ClosePc → Server.ClosePc
  | .idle => .idle
  | .draining => .idle
  | .removing => .idle
  | .sending _ => .idle
  | .flagging => .idle
  | _ => .testing

/-- The number in a record. -/
def slotOf (threads : List Listener) (t : ℕ) : ℕ := (threads.map Listener.threadNum)[t]?.getD 0

def State.slots (s : State) (joinCalls : List (Option ℕ)) : ServerState where
  availableThreads := s.availableThreads
  terminatedThreads := s.terminatedThreads.map (slotOf s.threads)
  clientThreads := s.clientThreads
  threads := s.threads.map Listener.slots
  accept := s.accept.slots
  joiner := joinerSlots s.joiner
  closer := s.closer.slots
  closeAllClients := s.closeAllClients
  exitServer := false
  joinCalls := joinCalls

@[simp] theorem joinerSlots_wake (pc : JoinPc) : joinerSlots pc.wake = joinerSlots pc := by cases pc <;> rfl

@[simp] theorem joinerSlots_not_waiting (pc : JoinPc) : (joinerSlots pc).wake = joinerSlots pc := by
  cases pc <;> rfl

@[simp] theorem ClosePc.slots_wake (pc : ClosePc) : pc.wake.slots = pc.slots := by cases pc <;> rfl

@[simp] theorem ClosePc.slots_not_waiting (pc : ClosePc) : pc.slots.wake = pc.slots := by cases pc <;> rfl

section Threads

variable {threads : List Listener} {t : ℕ} {l : Listener}

theorem slotOf_present (present : threads[t]? = some l) : slotOf threads t = l.threadNum := by
  simp [slotOf, present]

theorem slotOf_set (present : threads[t]? = some l) (pc : ListenerPc) :
    slotOf (threads.set t { l with pc := pc }) = slotOf threads := by
  funext u
  have number : Listener.threadNum { l with pc := pc } = l.threadNum := rfl
  rw [slotOf, map_set_kept present number, slotOf]

theorem slotOf_concat {u : ℕ} (inside : u < threads.length) : slotOf (threads ++ [l]) u = slotOf threads u := by
  rw [slotOf, List.map_append, List.getElem?_append_left (by simpa using inside), slotOf]

/-- A step within a phase of the smaller machine. -/
theorem slots_set (present : threads[t]? = some l) {pc : ListenerPc} (phase : pc.phase = l.pc.phase) :
    (threads.set t { l with pc := pc }).map Listener.slots = threads.map Listener.slots :=
  map_set_kept present (by rw [Listener.slots, phase, Listener.slots])

end Threads

section Steps

variable {s s' : State}

/-- The answer of the smaller machine to a step. -/
def Answered (s s' : State) (calls : List (Option ℕ)) : Prop :=
  ∃ events calls', run Server.step (s.slots calls) events = some (s'.slots calls')

theorem Answered.none {calls : List (Option ℕ)} (same : s'.slots calls = s.slots calls) :
    Answered s s' calls := ⟨[], calls, by rw [same, run_nil]⟩

theorem Answered.one {calls calls' : List (Option ℕ)} {e : Server.Event}
    (taken : Server.step (s.slots calls) e = some (s'.slots calls')) : Answered s s' calls :=
  ⟨[e], calls', by rw [run_cons, taken, Option.bind_some, run_nil]⟩

theorem acceptConnections_answered (recorded : Recorded s) (calls : List (Option ℕ))
    (stepped : acceptConnections s = some s') : Answered s s' calls := by
  rw [acceptConnections] at stepped
  split at stepped
  · rename_i j filling
    split_ifs at stepped with more
    · cases stepped
      apply @Answered.one _ _ _ calls .accept
      simp [Server.step, Server.acceptConnections, State.slots, filling, AcceptPc.slots, more,
        State.insertAvailable, ServerState.insertAvailable]
    · cases stepped
      apply @Answered.one _ _ _ calls .accept
      simp [Server.step, Server.acceptConnections, State.slots, filling, AcceptPc.slots, more]
  · rename_i accepting
    cases stepped
    apply @Answered.one _ _ _ calls .accept
    simp [Server.step, Server.acceptConnections, State.slots, accepting, AcceptPc.slots]
  · rename_i accepted
    split_ifs at stepped with full
    · cases stepped
      apply @Answered.one _ _ _ calls .accept
      simp [Server.step, Server.acceptConnections, State.slots, accepted, AcceptPc.slots, full]
    · cases stepped
      apply @Answered.one _ _ _ calls .accept
      simp [Server.step, Server.acceptConnections, State.slots, accepted, AcceptPc.slots, full]
  · rename_i taking
    split at stepped
    · cases stepped
    · rename_i slot rest available
      cases stepped
      apply @Answered.one _ _ _ calls .accept
      simp [Server.step, Server.acceptConnections, State.slots, taking, AcceptPc.slots, available]
  · rename_i slot holding
    split_ifs at stepped with closing
    · cases stepped
      apply @Answered.one _ _ _ calls .accept
      simp [Server.step, Server.acceptConnections, State.slots, holding, AcceptPc.slots, closing]
    · cases stepped
      apply @Answered.one _ _ _ calls .accept
      simp [Server.step, Server.acceptConnections, State.slots, holding, AcceptPc.slots, closing]
  · rename_i slot registering
    split_ifs at stepped
    cases stepped
    apply Answered.none
    simp [State.slots, registering, AcceptPc.slots]
  · rename_i slot creating
    split_ifs at stepped with inside
    cases stepped
    apply @Answered.one _ _ _ calls .accept
    have kept : s.terminatedThreads.map (slotOf (s.threads ++ [⟨slot, .receiving⟩])) =
        s.terminatedThreads.map (slotOf s.threads) :=
      List.map_congr_left fun t member => slotOf_concat (recorded.terminated t member)
    simp [Server.step, Server.acceptConnections, State.slots, creating, AcceptPc.slots, inside, kept,
      Listener.slots, ListenerPc.phase]

theorem insertRequest_answered (calls : List (Option ℕ)) {t : ℕ} {pdu : Resources.Pdu}
    (stepped : insertRequest s t pdu = some s') : Answered s s' calls := by
  rw [insertRequest] at stepped
  split at stepped
  · cases stepped
  rename_i l present
  split_ifs at stepped with free
  cases stepped
  apply Answered.none
  have threads := @slots_set _ _ _ present .linked (by simp [free.1, ListenerPc.phase])
  simp [State.slots, State.setListener, slotOf_set present, threads]

theorem clientListener_answered (calls : List (Option ℕ)) {t : ℕ} (stepped : clientListener s t = some s') :
    Answered s s' calls := by
  obtain ⟨l, present, listens⟩ := clientListener_cases stepped
  have found : (s.threads.map Listener.slots)[t]? = some l.slots := by simp [present]
  cases listens with
  | announces receiving =>
    apply @Answered.one _ _ _ calls (.listener t)
    simp [Server.step, Server.clientListener, State.slots, State.setListener, present, receiving,
      slotOf_set present, slotOf_present present, Listener.slots, ListenerPc.phase]
  | broadcasts linked =>
    apply Answered.none
    have threads := @slots_set _ _ _ present .receiving (by simp [linked, ListenerPc.phase])
    simp [State.slots, State.setListener, slotOf_set present, threads]
  | searches announced =>
    apply @Answered.one _ _ _ calls (.listener t)
    simp [Server.step, Server.clientListener, State.slots, State.setListener, present, announced,
      slotOf_set present, Listener.slots, ListenerPc.phase]
  | walks pc pc' clients closing walked =>
    apply Answered.none
    have threads := @slots_set _ _ _ present (.closing pc') (by simp [closing, ListenerPc.phase])
    simp [State.slots, State.setListener, slotOf_set present, threads]
  | returns through =>
    apply @Answered.one _ _ _ calls (.listener t)
    simp [Server.step, Server.clientListener, State.slots, State.setListener, present, through,
      slotOf_set present, Listener.slots, ListenerPc.phase]

theorem joinThreads_answered (calls : List (Option ℕ)) (stepped : joinThreads s = some s') :
    Answered s s' calls := by
  rw [joinThreads] at stepped
  split at stepped
  · rename_i testing
    split_ifs at stepped
    · cases stepped
      exact .none (by simp [State.slots, testing, joinerSlots])
    · cases stepped
      exact .none (by simp [State.slots, testing, joinerSlots])
  · rename_i falling
    cases stepped
    exact .none (by simp [State.slots, falling, joinerSlots])
  · cases stepped
  · rename_i woken
    split_ifs at stepped
    · cases stepped
      exact .none (by simp [State.slots, woken, joinerSlots])
    · cases stepped
      exact .none (by simp [State.slots, woken, joinerSlots])
  · rename_i removing
    split at stepped
    · cases stepped
    · rename_i t rest terminated
      obtain ⟨l, present, rfl⟩ := Option.map_eq_some_iff.mp stepped
      refine ⟨[.join, .join], calls, ?_⟩
      simp [run_cons, Server.step, Server.joinThreads, State.slots, removing, joinerSlots, terminated,
        slotOf_present present]
  · rename_i slot holding
    obtain ⟨thread, stored, rfl⟩ := Option.map_eq_some_iff.mp stepped
    apply @Answered.one _ _ calls (calls ++ [thread]) .join
    simp [Server.step, Server.joinThreads, State.slots, holding, joinerSlots, stored]
  · rename_i slot thread joining
    split at stepped
    · cases stepped
    split at stepped
    · cases stepped
    rename_i t _ l present
    split_ifs at stepped with returned
    cases stepped
    apply @Answered.one _ _ calls calls .join
    simp [Server.step, Server.joinThreads, State.slots, State.setListener, joining, joinerSlots, present,
      returned, slotOf_set present, Listener.slots, ListenerPc.phase]
  · rename_i slot inserting
    cases stepped
    apply @Answered.one _ _ calls calls .join
    simp [Server.step, Server.joinThreads, State.slots, inserting, joinerSlots, State.insertAvailable,
      ServerState.insertAvailable]
  · cases stepped

theorem closeServer_answered (calls : List (Option ℕ)) (stepped : closeServer s = some s') :
    Answered s s' calls := by
  cases closeServer_cases stepped with
  | starts idle => exact .none (by simp [State.slots, idle, ClosePc.slots])
  | empties draining => exact .none (by simp [State.slots, draining, ClosePc.slots])
  | finds draining => exact .none (by simp [State.slots, draining, ClosePc.slots])
  | removes a t rest removing => exact .none (by simp [State.slots, removing, ClosePc.slots])
  | sends t sending => exact .none (by simp [State.slots, sending, ClosePc.slots])
  | flags flagging =>
    refine ⟨[.close, .close], calls, ?_⟩
    simp [run_cons, Server.step, Server.closeServer, State.slots, flagging, ClosePc.slots]
  | waits closer before after =>
    apply Answered.none
    rcases before with same | same <;> rcases after with rfl | rfl | rfl <;>
      simp [State.slots, same, ClosePc.slots]
  | exits leaving => exact .none (by simp [State.slots, leaving, ClosePc.slots])
  | wakesKernel waking => exact .none (by simp [State.slots, waking, ClosePc.slots])
  | wakesJoiner waking => exact .none (by simp [State.slots, waking, ClosePc.slots])

theorem step_answered (recorded : Recorded s) (calls : List (Option ℕ)) {e : Event}
    (stepped : step s e = some s') : Answered s s' calls := by
  cases e with
  | accept => exact acceptConnections_answered recorded calls stepped
  | request t pdu => exact insertRequest_answered calls stepped
  | listener t => exact clientListener_answered calls stepped
  | join => exact joinThreads_answered calls stepped
  | close => exact closeServer_answered calls stepped
  | kernel =>
    obtain ⟨_, _, rfl⟩ := kernelCommunication_frame stepped
    exact .none rfl
  | spurious w =>
    cases spuriousWakeup_cases stepped with
    | joiner blocked => exact .none (by simp [State.slots, blocked, joinerSlots])
    | closer blocked => exact .none (by simp [State.slots, blocked, ClosePc.slots])
    | kernel => exact .none rfl

end Steps

/-- Every run of the process is, for the slots, a run of the smaller machine. -/
theorem run_answered {events : List Event} {s : State} (ran : run step .start events = some s) :
    Recorded s ∧ ∃ events' calls, run Server.step .start events' = some (s.slots calls) := by
  have simulate (s : State) (c : ServerState) (e : Event) (s' : State)
      (related : Recorded s ∧ ∃ calls, c = s.slots calls) (stepped : step s e = some s') :
      ∃ events c', run Server.step c events = some c' ∧ Recorded s' ∧ ∃ calls, c' = s'.slots calls := by
    obtain ⟨recorded, calls, rfl⟩ := related
    obtain ⟨events, calls', ran⟩ := step_answered recorded calls stepped
    exact ⟨events, _, ran, step_recorded s e s' recorded stepped, calls', rfl⟩
  have related : Recorded .start ∧ ∃ calls, ServerState.start = State.start.slots calls :=
    ⟨recorded_start, [], rfl⟩
  obtain ⟨events', c, ran', recorded, calls, rfl⟩ := run_simulated simulate related ran
  exact ⟨recorded, events', calls, ran'⟩

end Operativsystem.Server.Process
