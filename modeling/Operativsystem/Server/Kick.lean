import Operativsystem.Server.Broadcast
import Operativsystem.Library.Conservation
import Operativsystem.Server.ProcessMoves

/-! # Everybody is kicked when the server closes

The first loop of `close_server` sends QUIT to each client in `clients_sockets` and takes it out;
after it `closeAllClients` is set, which `accept_connections` tests before it registers a client.
A connection that has passed the test is registered and gets its thread after the loop. If no
connection is between test and creation when the flag is set, nor is registered between the loop
and the flag, every client has been reached and none comes after.
-/

namespace Operativsystem.Server.Process

open Segment Cursor Machine Resources

/-- The first loop of `close_server` is over. -/
def ClosePc.Drained (pc : ClosePc) : Prop :=
  pc ≠ .idle ∧ pc ≠ .draining ∧ pc ≠ .removing ∧ ∀ t, pc ≠ .sending t

/-- `closeAllClients` has been set. -/
def ClosePc.Flagged (pc : ClosePc) : Prop := pc.Drained ∧ pc ≠ .flagging

/-- The next step puts the client into `clients_sockets`. -/
def AcceptPc.registers : AcceptPc → Bool
  | .registering _ => true
  | _ => false

/-- The listener has seen the end of its connection. -/
def Listener.Ended (l : Listener) : Prop := l.pc = .announced ∨ ∃ pc, l.pc = .closing pc

/-- No client is registered between the loop and the flag, and when the flag is set no connection is
between its test and the creation of its thread. -/
def Orderly (s : State) : Event → Prop
  | .accept => s.closer = .flagging → s.accept.registers = false
  | .close => s.closer = .flagging → s.accept.admitted = false
  | _ => True

instance (s : State) : (e : Event) → Decidable (Orderly s e)
  | .accept => inferInstanceAs (Decidable (_ → _))
  | .close => inferInstanceAs (Decidable (_ → _))
  | .request _ _ => isTrue trivial
  | .listener _ => isTrue trivial
  | .join => isTrue trivial
  | .kernel => isTrue trivial
  | .spurious _ => isTrue trivial

/-- The client has been sent a QUIT frame, or the loop has not come to it yet. -/
def QuitComing (s : State) (t : ℕ) : Prop :=
  t ∈ s.quits ∨ t ∈ s.clients.cells.map Prod.snd ∨ s.closer = .sending t

/-- The flag is set and no connection is past its test. -/
def Shut (s : State) : Prop :=
  s.closer.Flagged ∧ s.closeAllClients = true ∧ s.accept.admitted = false

/-- The position is at the entry of the client, or at a node that has been released. -/
def OwnEntry (c : Clients) (t : ℕ) (p : Ptr) : Prop :=
  ∃ b, p = some b ∧ b < c.nodes ∧ ∀ d, (b, d) ∈ c.cells → d = t

structure Chased (s : State) : Prop where
  alive : ∀ t l, s.threads[t]? = some l → l.pc = .receiving ∨ l.pc = .linked → QuitComing s t
  created : ∀ slot, s.accept = .creating slot → QuitComing s s.threads.length
  owns : ∀ t l, s.threads[t]? = some l → ∀ p, l.pc = .closing (.removing p) → OwnEntry s.clients t p
  drained : s.closer.Drained → s.clients.cells = []
  flagged : s.closer.Flagged → Shut s

@[simp] theorem ClosePc.wake_sending {pc : ClosePc} {t : ℕ} : pc.wake = .sending t ↔ pc = .sending t := by
  cases pc <;> simp [wake]

@[simp] theorem ClosePc.wake_drained {pc : ClosePc} : pc.wake.Drained ↔ pc.Drained := by
  cases pc <;> simp [wake, Drained]

@[simp] theorem ClosePc.wake_flagged {pc : ClosePc} : pc.wake.Flagged ↔ pc.Flagged := by
  cases pc <;> simp [wake, Flagged, Drained]

/-- A broadcast wakes `close_server` in its second loop only. -/
theorem ClosePc.keeps {pc pc' : ClosePc} (same : pc' = pc ∨ pc' = pc.wake) :
    (∀ t, pc' = .sending t ↔ pc = .sending t) ∧ (pc'.Drained ↔ pc.Drained) ∧ (pc'.Flagged ↔ pc.Flagged) := by
  rcases same with rfl | rfl <;> simp

theorem chased_start : Chased .start := by
  constructor
  · exact nofun
  · exact nofun
  · exact nofun
  · intro drained
    exact absurd rfl drained.1
  · intro flagged
    exact absurd rfl flagged.1.1

section Steps

variable {s s' : State}

/-- Once the flag is set with no connection past the test, no thread is created any more. -/
theorem step_shut (s : State) (e : Event) (s' : State) (shut : Shut s) (stepped : step s e = some s') :
    Shut s' ∧ s'.threads.length = s.threads.length := by
  obtain ⟨flagged, closing, past⟩ := shut
  cases e with
  | accept =>
    cases acceptConnections_cases stepped with
    | moves availableThreads accept closer closes admitted creating taking =>
      have stays : closer.Flagged := by rcases closes with rfl | rfl <;> simpa using flagged
      exact ⟨⟨stays, closing, by simpa [closing] using admitted⟩, rfl⟩
    | registers slot new accept => simp [accept, AcceptPc.admitted] at past
    | creates slot accept => simp [accept, AcceptPc.admitted] at past
  | request t pdu =>
    simp only [step, insertRequest] at stepped
    split at stepped
    · cases stepped
    split_ifs at stepped
    cases stepped
    exact ⟨⟨flagged, closing, past⟩, by simp [State.setListener]⟩
  | listener t =>
    obtain ⟨l, present, listens⟩ := clientListener_cases stepped
    cases listens <;> exact ⟨⟨flagged, closing, past⟩, by simp [State.setListener]⟩
  | join =>
    cases joinThreads_cases stepped with
    | moves => exact ⟨⟨flagged, closing, past⟩, rfl⟩
    | removes => exact ⟨⟨flagged, closing, past⟩, rfl⟩
    | joins => exact ⟨⟨flagged, closing, past⟩, by simp [State.setListener]⟩
    | inserts => exact ⟨⟨ClosePc.wake_flagged.mpr flagged, closing, past⟩, rfl⟩
  | close =>
    cases closeServer_cases stepped with
    | starts idle => exact absurd idle flagged.1.1
    | empties draining => exact absurd draining flagged.1.2.1
    | finds draining => exact absurd draining flagged.1.2.1
    | removes a t rest removing => exact absurd removing flagged.1.2.2.1
    | sends t sending => exact absurd sending (flagged.1.2.2.2 t)
    | flags flagging => exact absurd flagging flagged.2
    | waits closer before after =>
      have stays : closer.Flagged := by
        rcases after with rfl | rfl | rfl <;> simp [ClosePc.Flagged, ClosePc.Drained]
      exact ⟨⟨stays, closing, past⟩, rfl⟩
    | exits => exact ⟨⟨by simp [ClosePc.Flagged, ClosePc.Drained], closing, past⟩, rfl⟩
    | wakesKernel => exact ⟨⟨by simp [ClosePc.Flagged, ClosePc.Drained], closing, past⟩, rfl⟩
    | wakesJoiner => exact ⟨⟨by simp [ClosePc.Flagged, ClosePc.Drained], closing, past⟩, rfl⟩
  | kernel =>
    obtain ⟨_, _, rfl⟩ := kernelCommunication_frame stepped
    exact ⟨⟨flagged, closing, past⟩, rfl⟩
  | spurious w =>
    cases spuriousWakeup_cases stepped with
    | joiner => exact ⟨⟨flagged, closing, past⟩, rfl⟩
    | closer => exact ⟨⟨by simp [ClosePc.Flagged, ClosePc.Drained], closing, past⟩, rfl⟩
    | kernel => exact ⟨⟨flagged, closing, past⟩, rfl⟩

/-- Once the flag is set with no connection past the test, the number of threads stays. -/
theorem run_shut {events : List Event} (shut : Shut s) (ran : run step s events = some s') :
    s'.threads.length = s.threads.length := by
  have preserve (u : State) (e : Event) (u' : State) (inv : Shut u ∧ u.threads.length = s.threads.length)
      (stepped : step u e = some u') : Shut u' ∧ u'.threads.length = s.threads.length := by
    obtain ⟨shut', length⟩ := step_shut u e u' inv.1 stepped
    exact ⟨shut', length.trans inv.2⟩
  exact (run_invariant preserve ⟨shut, rfl⟩ ran).2

theorem acceptConnections_chased (chased : Chased s) (orderly : Orderly s .accept)
    (stepped : acceptConnections s = some s') : Chased s' := by
  cases acceptConnections_cases stepped with
  | moves availableThreads accept closer closes admitted creating taking =>
    obtain ⟨sending, drained, flagged⟩ := ClosePc.keeps closes
    have coming {t : ℕ} (coming : QuitComing s t) : QuitComing
        { s with availableThreads := availableThreads, accept := accept, closer := closer } t :=
      coming.imp_right (Or.imp_right (sending t).mpr)
    constructor
    · exact fun t l present receives => coming (chased.alive t l present receives)
    · exact fun slot same => absurd same (creating slot)
    · exact chased.owns
    · exact fun empty => chased.drained (drained.mp empty)
    · intro closed
      obtain ⟨before, closing, past⟩ := chased.flagged (flagged.mp closed)
      exact ⟨closed, closing, by simpa [closing] using admitted⟩
  | registers slot new accept =>
    have early : ¬s.closer.Drained := by
      intro drained
      have flagged : s.closer ≠ .flagging := fun same => by simpa [accept, AcceptPc.registers] using orderly same
      obtain ⟨-, -, past⟩ := chased.flagged ⟨drained, flagged⟩
      simp [accept, AcceptPc.admitted] at past
    have coming {t : ℕ} (coming : QuitComing s t) : QuitComing { s with
        clients := s.clients.llistInsertlast s.threads.length new, accept := .creating slot } t := by
      rcases coming with sent | listed | sending
      · exact .inl sent
      · refine .inr (.inl ?_)
        rw [Clients.llistInsertlast, List.map_append]
        exact List.mem_append_left _ listed
      · exact .inr (.inr sending)
    constructor
    · exact fun t l present receives => coming (chased.alive t l present receives)
    · exact fun _ _ => .inr (.inl (by simp [Clients.llistInsertlast]))
    · intro t l present p closing
      obtain ⟨b, rfl, old, own⟩ := chased.owns t l present p closing
      refine ⟨b, rfl, old.trans (Nat.lt_succ_self _), fun d member => ?_⟩
      rcases List.mem_append.mp member with inside | new
      · exact own d inside
      · cases List.mem_singleton.mp new
        exact absurd old (lt_irrefl _)
    · exact fun drained => absurd drained early
    · exact fun flagged => absurd flagged.1 early
  | creates slot accept inside =>
    have coming := chased.created slot accept
    constructor
    · exact forall_concat (fun _ => coming) chased.alive
    · exact nofun
    · exact forall_concat nofun chased.owns
    · exact chased.drained
    · intro flagged
      obtain ⟨-, -, past⟩ := chased.flagged flagged
      simp [accept, AcceptPc.admitted] at past

theorem Chased.created_set (chased : Chased s) (t : ℕ) (l : Listener) (pc : ListenerPc) (slot : ℕ)
    (creating : s.accept = .creating slot) : QuitComing s (s.setListener t l pc).threads.length := by
  rw [State.setListener, List.length_set]
  exact chased.created slot creating

theorem insertRequest_chased (chased : Chased s) {t : ℕ} {pdu : Pdu}
    (stepped : insertRequest s t pdu = some s') : Chased s' := by
  rw [insertRequest] at stepped
  split at stepped
  · cases stepped
  rename_i l present
  split_ifs at stepped with free
  cases stepped
  constructor
  · exact forall_set (fun _ => chased.alive t l present (.inl free.1)) fun u x _ => chased.alive u x
  · exact chased.created_set t l .linked
  · exact forall_set nofun fun u x _ => chased.owns u x
  · exact chased.drained
  · exact chased.flagged

/-- The removal by a listener leaves the entries of all other clients. -/
theorem removal_keeps {c c' : Clients} {t : ℕ} {p : Ptr} (own : OwnEntry c t p)
    (removed : c.llistRemove p = some c') :
    c'.nodes = c.nodes ∧ c'.cells ⊆ c.cells ∧ ∀ cell ∈ c.cells, cell.2 ≠ t → cell ∈ c'.cells := by
  obtain ⟨b, rfl, -, own⟩ := own
  by_cases present : b ∈ addresses c.cells
  · cases (Clients.llistRemove_present present).symm.trans removed
    refine ⟨rfl, (erase_sublist _ _).subset, fun cell member other => mem_erase.mpr ⟨member, ?_⟩⟩
    rintro rfl
    exact other (own cell.2 member)
  · by_cases empty : c.cells = []
    · obtain rfl : c = c' := by simpa [Clients.llistRemove, empty] using removed
      exact ⟨rfl, List.Subset.refl _, fun cell member _ => member⟩
    · simp [Clients.llistRemove, empty, present] at removed

/-- A listener goes on with its search, or removes its own entry. -/
theorem walk_chased (chased : Chased s) {t : ℕ} {l : Listener} {pc pc' : WalkPc} {clients : Clients}
    (present : s.threads[t]? = some l) (closing : l.pc = .closing pc)
    (walked : closeConnectedClient s.clients s.released t pc = some (pc', clients)) :
    Chased { s.setListener t l (.closing pc') with clients := clients } := by
  have inside : t < s.threads.length := (List.getElem?_eq_some_iff.mp present).1
  rcases closeConnectedClient_cases walked with ⟨rfl, -, finds⟩ | ⟨p, rfl, rfl, removed⟩
  · constructor
    · exact forall_set (by simp) fun u x _ => chased.alive u x
    · exact chased.created_set t l (.closing pc')
    · refine forall_set ?_ fun u x _ => chased.owns u x
      rintro p ⟨⟩
      obtain ⟨b, rfl, member⟩ := finds p rfl
      exact ⟨b, rfl, s.clients.allocated b (mem_addresses member),
        fun d member' => s.clients.address_inj member' member⟩
    · exact chased.drained
    · exact chased.flagged
  · obtain ⟨nodes, fewer, kept⟩ := removal_keeps (chased.owns t l present p closing) removed
    have coming {u : ℕ} (other : u ≠ t) (coming : QuitComing s u) : QuitComing
        { s.setListener t l (.closing .finished) with clients := clients } u := by
      rcases coming with sent | listed | sending
      · exact .inl sent
      · obtain ⟨cell, member, rfl⟩ := List.mem_map.mp listed
        exact .inr (.inl (List.mem_map_of_mem (kept cell member other)))
      · exact .inr (.inr sending)
    constructor
    · exact forall_set (by simp) fun u x other found receives => coming other (chased.alive u x found receives)
    · intro slot creating
      have created := chased.created_set t l (.closing .finished) slot creating
      refine coming ?_ created
      rw [State.setListener, List.length_set]
      exact inside.ne'
    · refine forall_set nofun fun u x _ found q removing => ?_
      obtain ⟨b, rfl, old, own⟩ := chased.owns u x found q removing
      exact ⟨b, rfl, nodes ▸ old, fun d member => own d (fewer member)⟩
    · intro drained
      have empty := chased.drained drained
      rw [empty] at fewer
      exact List.subset_nil.mp fewer
    · exact chased.flagged

theorem clientListener_chased (chased : Chased s) {t : ℕ} (stepped : clientListener s t = some s') :
    Chased s' := by
  obtain ⟨l, present, listens⟩ := clientListener_cases stepped
  cases listens with
  | announces =>
    refine ⟨?_, chased.created_set t l _, ?_, chased.drained, chased.flagged⟩
    · exact forall_set (by simp) fun u x _ => chased.alive u x
    · exact forall_set nofun fun u x _ => chased.owns u x
  | broadcasts linked =>
    refine ⟨?_, chased.created_set t l _, ?_, chased.drained, chased.flagged⟩
    · exact forall_set (fun _ => chased.alive t l present (.inr linked)) fun u x _ => chased.alive u x
    · exact forall_set nofun fun u x _ => chased.owns u x
  | searches =>
    refine ⟨?_, chased.created_set t l _, ?_, chased.drained, chased.flagged⟩
    · exact forall_set (by simp) fun u x _ => chased.alive u x
    · exact forall_set nofun fun u x _ => chased.owns u x
  | walks pc pc' clients closing walked => exact walk_chased chased present closing walked
  | returns =>
    refine ⟨?_, chased.created_set t l _, ?_, chased.drained, chased.flagged⟩
    · exact forall_set (by simp) fun u x _ => chased.alive u x
    · exact forall_set nofun fun u x _ => chased.owns u x

theorem joinThreads_chased (chased : Chased s) (stepped : joinThreads s = some s') : Chased s' := by
  cases joinThreads_cases stepped with
  | moves => exact ⟨chased.alive, chased.created, chased.owns, chased.drained, chased.flagged⟩
  | removes => exact ⟨chased.alive, chased.created, chased.owns, chased.drained, chased.flagged⟩
  | joins slot t l joiner present returned =>
    refine ⟨?_, ?_, ?_, chased.drained, chased.flagged⟩
    · exact forall_set (by simp) fun u x _ => chased.alive u x
    · exact chased.created_set t l .joined
    · exact forall_set nofun fun u x _ => chased.owns u x
  | inserts slot joiner =>
    obtain ⟨sending, drained, flagged⟩ := ClosePc.keeps (.inr (rfl : s.closer.wake = s.closer.wake))
    have coming {t : ℕ} (coming : QuitComing s t) :
        QuitComing { s.insertAvailable slot with joiner := .testing } t :=
      coming.imp_right (Or.imp_right (sending t).mpr)
    constructor
    · exact fun t l present receives => coming (chased.alive t l present receives)
    · exact fun slot creating => coming (chased.created slot creating)
    · exact chased.owns
    · exact fun empty => chased.drained (drained.mp empty)
    · exact fun closed => ⟨closed, (chased.flagged (flagged.mp closed)).2⟩

/-- Steps of `close_server`, which change neither the threads nor `accept_connections`. -/
theorem Chased.frame (chased : Chased s) (threads : s'.threads = s.threads) (accept : s'.accept = s.accept)
    (nodes : s'.clients.nodes = s.clients.nodes) (fewer : s'.clients.cells ⊆ s.clients.cells)
    (coming : ∀ t, QuitComing s t → QuitComing s' t) (drained : s'.closer.Drained → s'.clients.cells = [])
    (flagged : s'.closer.Flagged → Shut s') : Chased s' := by
  constructor
  · rw [threads]
    exact fun t l present receives => coming t (chased.alive t l present receives)
  · rw [threads, accept]
    exact fun slot creating => coming _ (chased.created slot creating)
  · rw [threads]
    intro t l present p closing
    obtain ⟨b, rfl, old, own⟩ := chased.owns t l present p closing
    exact ⟨b, rfl, nodes ▸ old, fun d member => own d (fewer member)⟩
  · exact drained
  · exact flagged

/-- Steps that move `close_server` between points at which it has no client in its hand. -/
theorem Chased.advance (chased : Chased s) (threads : s'.threads = s.threads) (accept : s'.accept = s.accept)
    (clients : s'.clients = s.clients) (quits : s'.quits = s.quits) (sending : ∀ t, s.closer ≠ .sending t)
    (drained : s'.closer.Drained → s.clients.cells = []) (flagged : s'.closer.Flagged → Shut s') :
    Chased s' := by
  refine chased.frame threads accept (by rw [clients]) (by rw [clients]; exact List.Subset.refl _) ?_
    (fun past => by rw [clients, drained past]) flagged
  rintro t (sent | listed | same)
  · exact .inl (quits ▸ sent)
  · exact .inr (.inl (clients ▸ listed))
  · exact absurd same (sending t)

/-- Steps of `close_server` after the flag has been set. -/
theorem Chased.later (chased : Chased s) (closed : s.closer.Flagged) (threads : s'.threads = s.threads)
    (accept : s'.accept = s.accept) (clients : s'.clients = s.clients) (quits : s'.quits = s.quits)
    (closing : s'.closeAllClients = s.closeAllClients) : Chased s' := by
  refine chased.advance threads accept clients quits closed.1.2.2.2 (fun _ => chased.drained closed.1) ?_
  intro flagged
  obtain ⟨-, set, past⟩ := chased.flagged closed
  exact ⟨flagged, closing.trans set, by rwa [accept]⟩

theorem closeServer_chased (chased : Chased s) (orderly : Orderly s .close)
    (stepped : closeServer s = some s') :
    Chased s' := by
  cases closeServer_cases stepped with
  | starts idle =>
    apply chased.advance <;> simp [idle, ClosePc.Drained, ClosePc.Flagged]
  | empties draining empty =>
    apply chased.advance <;> simp [draining, empty, ClosePc.Drained, ClosePc.Flagged]
  | finds draining nonempty =>
    apply chased.advance <;> simp [draining, ClosePc.Drained, ClosePc.Flagged]
  | removes a t rest removing cells live =>
    refine chased.frame rfl rfl rfl (erase_sublist _ _).subset ?_ ?_ ?_
    · rintro u (sent | listed | sending)
      · exact .inl sent
      · obtain ⟨⟨b, _⟩, member, rfl⟩ := List.mem_map.mp listed
        by_cases same : b = a
        · subst same
          have head : (b, t) ∈ s.clients.cells := by simp [cells]
          exact .inr (.inr (by rw [s.clients.address_inj member head]))
        · exact .inr (.inl (List.mem_map_of_mem (mem_erase.mpr ⟨member, same⟩)))
      · simp [removing] at sending
    · simp [ClosePc.Drained]
    · simp [ClosePc.Flagged, ClosePc.Drained]
  | sends t sending =>
    refine chased.frame rfl rfl rfl (List.Subset.refl _) ?_ ?_ ?_
    · rintro u (sent | listed | same)
      · exact .inl (List.mem_append_left _ sent)
      · exact .inr (.inl listed)
      · cases sending.symm.trans same
        exact .inl (List.mem_append_right _ (List.mem_singleton.mpr rfl))
    · simp [ClosePc.Drained]
    · simp [ClosePc.Flagged, ClosePc.Drained]
  | flags flagging =>
    have empty := chased.drained (by simp [flagging, ClosePc.Drained])
    refine chased.advance rfl rfl rfl rfl ?_ ?_ ?_
    · simp [flagging]
    · exact fun _ => empty
    · exact fun flagged => ⟨flagged, rfl, orderly flagging⟩
  | waits closer before after =>
    have closed : s.closer.Flagged := by
      rcases before with same | same <;> simp [same, ClosePc.Drained, ClosePc.Flagged]
    exact chased.later closed rfl rfl rfl rfl rfl
  | exits leaving =>
    exact chased.later (by simp [leaving, ClosePc.Drained, ClosePc.Flagged]) rfl rfl rfl rfl rfl
  | wakesKernel waking =>
    exact chased.later (by simp [waking, ClosePc.Drained, ClosePc.Flagged]) rfl rfl rfl rfl rfl
  | wakesJoiner waking =>
    exact chased.later (by simp [waking, ClosePc.Drained, ClosePc.Flagged]) rfl rfl rfl rfl rfl

theorem step_chased (s : State) (e : Event) (s' : State) (orderly : Orderly s e) (chased : Chased s)
    (stepped : step s e = some s') : Chased s' := by
  cases e with
  | accept => exact acceptConnections_chased chased orderly stepped
  | request t pdu => exact insertRequest_chased chased stepped
  | listener t => exact clientListener_chased chased stepped
  | join => exact joinThreads_chased chased stepped
  | close => exact closeServer_chased chased orderly stepped
  | kernel =>
    obtain ⟨_, _, rfl⟩ := kernelCommunication_frame stepped
    exact ⟨chased.alive, chased.created, chased.owns, chased.drained, chased.flagged⟩
  | spurious w =>
    cases spuriousWakeup_cases stepped with
    | joiner => exact ⟨chased.alive, chased.created, chased.owns, chased.drained, chased.flagged⟩
    | kernel => exact ⟨chased.alive, chased.created, chased.owns, chased.drained, chased.flagged⟩
    | closer blocked =>
      exact chased.later (by simp [blocked, ClosePc.Drained, ClosePc.Flagged]) rfl rfl rfl rfl rfl

end Steps

/-- While `close_server` is in its second loop, every client whose listener is alive has been sent QUIT
or has ended the connection, and from then on no listener thread is created. -/
theorem everybody_kicked {events : List Event} {s : State} (ran : run step .start events = some s)
    (orderly : Steps step Orderly .start events)
    (waits : s.closer = .testing ∨ s.closer = .falling ∨ s.closer = .waiting) :
    (∀ t l, s.threads[t]? = some l → l.pc ≠ .returned → l.pc ≠ .joined → t ∈ s.quits ∨ l.Ended) ∧
    ∀ later s', run step s later = some s' → s'.threads.length = s.threads.length := by
  have chased : Chased s := run_invariant_of_steps step_chased chased_start orderly ran
  have flagged : s.closer.Flagged := by
    rcases waits with same | same | same <;> simp [same, ClosePc.Flagged, ClosePc.Drained]
  constructor
  · intro t l present returned joined
    have reached (receives : l.pc = .receiving ∨ l.pc = .linked) : t ∈ s.quits := by
      rcases chased.alive t l present receives with sent | listed | sending
      · exact sent
      · simp [chased.drained flagged.1] at listed
      · exact absurd sending (flagged.1.2.2.2 t)
    cases pc : l.pc with
    | receiving => exact .inl (reached (.inl pc))
    | linked => exact .inl (reached (.inr pc))
    | announced => exact .inr (.inl pc)
    | closing search => exact .inr (.inr ⟨search, pc⟩)
    | returned => exact absurd pc returned
    | joined => exact absurd pc joined
  · intro later s' ran'
    exact run_shut (chased.flagged flagged) ran'

/-- The first client is connected when the server starts to close. -/
theorem everybody_kicked_one_client :
    let events := firstClient ++ List.replicate 6 Event.close
    ∃ s, run step .start events = some s ∧ s.closer = .testing ∧ s.quits = [0] ∧
      ∀ later s', run step s later = some s' → s'.threads.length = 1 := by
  intro events
  have ran : run step .start events = some { oneClient with
    clients := oneClient.clients.without 0, quits := [0], closer := .testing, closeAllClients := true } := rfl
  have orderly : Steps step Orderly .start events := by decide +kernel
  obtain ⟨-, stays⟩ := everybody_kicked ran orderly (.inl rfl)
  exact ⟨_, ran, rfl, rfl, stays⟩

/-- A connection passes the test of `closeAllClients`, `close_server` goes through its first loop and
sets the flag, and then the client is registered and gets its thread: `close_server` waits for a
client that is not told to leave. -/
theorem late_client_not_kicked :
    ∃ s s', run step .start (List.replicate 15 Event.accept ++ List.replicate 4 Event.close) = some s ∧
      s.closer = .falling ∧ s.threads.length = 0 ∧
      run step s [.accept, .accept, .close] = some s' ∧ s'.closer = .waiting ∧
      s'.threads = [⟨0, .receiving⟩] ∧ s'.quits = [] := by
  have ran : run step .start (List.replicate 15 Event.accept ++ List.replicate 4 Event.close) = some
      { State.start with
        availableThreads := [1, 2, 3, 4, 5, 6, 7, 8, 9], accept := .registering 0, closer := .falling,
        closeAllClients := true } := rfl
  exact ⟨_, _, ran, rfl, rfl, rfl, rfl, rfl, rfl⟩

end Operativsystem.Server.Process
