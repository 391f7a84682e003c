import Operativsystem.Server.ProcessSlots

/-! # Removals from the four lists

Each thread tests its list outside the mutex and removes the first node later. On `availableThreads`,
`terminatedThreads` and `sender_list` the tester is the only remover, so it relies on its wake-up:
a broadcast comes with an element or with `exitServer`, a spurious return with neither. On
`clients_sockets` the listeners remove too, and one may take the last entry after the test.
-/

namespace Operativsystem.Server.Process

open Machine Resources

/-- A removal that is under way finds its list nonempty. -/
structure Supplied (s : State) : Prop where
  available : s.accept = .taking → s.availableThreads ≠ []
  terminated : s.joiner = .removing → s.terminatedThreads ≠ []
  sender : s.kernel = .removing → s.senderList ≠ []
  sockets : s.closer = .removing → s.clients.cells ≠ []

/-- The next step of the listener is its `llist_remove`. -/
def State.removes (s : State) (t : ℕ) : Bool :=
  match (s.threads[t]?).map Listener.pc with
  | some (.closing (.removing _)) => true
  | _ => false

/-- No wait returns spuriously over an empty list before the exit, and no listener takes the last
entry of `clients_sockets` while `close_server` is between its test and its removal. -/
def Backed (s : State) : Event → Prop
  | .spurious .join => s.terminatedThreads ≠ [] ∨ s.exitServer = true
  | .spurious .kernel => s.senderList ≠ [] ∨ s.exitServer = true
  | .listener t => s.closer = .removing → s.removes t = true → 1 < s.clients.cells.length
  | _ => True

instance (s : State) : (e : Event) → Decidable (Backed s e)
  | .spurious .join => inferInstanceAs (Decidable (_ ∨ _))
  | .spurious .kernel => inferInstanceAs (Decidable (_ ∨ _))
  | .spurious .close => isTrue trivial
  | .listener _ => inferInstanceAs (Decidable (_ → _ → _))
  | .accept => isTrue trivial
  | .request _ _ => isTrue trivial
  | .join => isTrue trivial
  | .close => isTrue trivial
  | .kernel => isTrue trivial

/-- What a test or a wake-up has found stays true until the removal. -/
structure Stocked (s : State) : Prop extends Supplied s where
  linked : ∀ t l, s.threads[t]? = some l → l.pc = .linked → s.senderMtx = some t
  held : s.senderMtx ≠ none → s.senderList ≠ []
  kernel : s.kernel = .woken ∨ s.kernel = .checking → s.senderList ≠ [] ∨ s.exitServer = true
  joiner : s.joiner = .woken → s.terminatedThreads ≠ [] ∨ s.exitServer = true
  exiting : s.closer = .wakingKernel ∨ s.closer = .wakingJoiner → s.exitServer = true

theorem stocked_start : Stocked .start := by
  refine ⟨⟨?_, ?_, ?_, ?_⟩, ?_, ?_, ?_, ?_, ?_⟩ <;> simp [State.start]

section Steps

variable {s s' : State}

/-- A listener that has announced itself and still has to broadcast is in the list, unless
`join_threads` is about to join it. -/
theorem announced_listed {events : List Event} (ran : run step .start events = some s) {t : ℕ} {l : Listener}
    (present : s.threads[t]? = some l) (announced : l.pc = .announced) (waiting : s.joiner = .waiting) :
    s.terminatedThreads ≠ [] := by
  obtain ⟨-, events', calls, ran'⟩ := run_answered ran
  obtain ⟨owned, -⟩ := run_owned ran'
  have found : (s.slots calls).threads[t]? = some l.slots := by simp [State.slots, present]
  have place := owned.place t l.slots found (by simp [Listener.slots, announced, ListenerPc.phase])
    (by simp [Listener.slots, announced, ListenerPc.phase])
  rintro empty
  simp [State.slots, waiting, joinerSlots, JoinPc.awaiting, empty] at place

theorem ClosePc.wake_eq {pc pc' : ClosePc} (same : pc' = pc ∨ pc' = pc.wake) :
    (pc' = .removing ↔ pc = .removing) ∧
      (pc' = .wakingKernel ∨ pc' = .wakingJoiner ↔ pc = .wakingKernel ∨ pc = .wakingJoiner) := by
  rcases same with rfl | rfl
  · exact ⟨.rfl, .rfl⟩
  · cases pc <;> simp [wake]

theorem wake_eq_removing {pc : JoinPc} : pc.wake = .removing ↔ pc = .removing := by
  cases pc <;> simp [JoinPc.wake]

theorem wake_eq_woken {pc : JoinPc} : pc.wake = .woken ↔ pc = .waiting ∨ pc = .woken := by
  cases pc <;> simp [JoinPc.wake]

theorem KernelPc.wake_eq_removing {pc : KernelPc} : pc.wake = .removing ↔ pc = .removing := by
  cases pc <;> simp [wake]

theorem acceptConnections_stocked (stocked : Stocked s) (stepped : acceptConnections s = some s') :
    Stocked s' := by
  obtain ⟨⟨available, terminated, sender, sockets⟩, linked, held, kernel, joiner, exiting⟩ := stocked
  cases acceptConnections_cases stepped with
  | moves _ _ closer closes _ _ taking =>
    obtain ⟨removing, waking⟩ := ClosePc.wake_eq closes
    exact ⟨⟨taking, terminated, sender, fun same => sockets (removing.mp same)⟩, linked, held, kernel, joiner,
      fun same => exiting (waking.mp same)⟩
  | registers =>
    refine ⟨⟨nofun, terminated, sender, fun _ => ?_⟩, linked, held, kernel, joiner, exiting⟩
    simp [Clients.llistInsertlast]
  | creates =>
    refine ⟨⟨nofun, terminated, sender, sockets⟩, ?_, held, kernel, joiner, exiting⟩
    exact forall_concat nofun linked

theorem insertRequest_stocked (stocked : Stocked s) {t : ℕ} {pdu : Pdu}
    (stepped : insertRequest s t pdu = some s') : Stocked s' := by
  obtain ⟨⟨available, terminated, sender, sockets⟩, linked, held, kernel, joiner, exiting⟩ := stocked
  rw [insertRequest] at stepped
  split at stepped
  · cases stepped
  rename_i l present
  split_ifs at stepped with free
  cases stepped
  have queued : s.senderList ++ [pdu] ≠ [] := by simp
  refine ⟨⟨available, terminated, fun _ => queued, sockets⟩, ?_, fun _ => queued, fun _ => .inl queued, joiner,
    exiting⟩
  refine forall_set (fun _ => rfl) fun u x _ found same => ?_
  simp [free.2] at linked
  exact absurd same (linked u x found)

theorem clientListener_stocked (stocked : Stocked s) {events : List Event}
    (ran : run step .start events = some s) {t : ℕ} (backed : Backed s (.listener t))
    (stepped : clientListener s t = some s') : Stocked s' := by
  obtain ⟨l, present, listens⟩ := clientListener_cases stepped
  have others {pc : ListenerPc} (still : pc ≠ .linked) : ∀ u x,
      (s.setListener t l pc).threads[u]? = some x → x.pc = .linked → s.senderMtx = some u :=
    forall_set (fun same => absurd same still) fun u x _ => stocked.linked u x
  obtain ⟨⟨available, terminated, sender, sockets⟩, linked, held, kernel, joiner, exiting⟩ := stocked
  cases listens with
  | announces receiving =>
    exact ⟨⟨available, fun _ => by simp, sender, sockets⟩, others nofun, held, kernel, fun _ => .inl (by simp),
      exiting⟩
  | broadcasts pc =>
    have own := linked t l present pc
    have queued := held (by simp [own])
    refine ⟨⟨available, terminated, fun _ => queued, sockets⟩, ?_, nofun, fun _ => .inl queued, joiner, exiting⟩
    refine forall_set nofun fun u x other found same => ?_
    cases own.symm.trans (linked u x found same)
    exact absurd rfl other
  | searches announced =>
    have listed : s.joiner = .waiting → s.terminatedThreads ≠ [] := announced_listed ran present announced
    refine ⟨⟨available, fun same => terminated (wake_eq_removing.mp same), sender, sockets⟩, others nofun, held,
      kernel, fun same => ?_, exiting⟩
    rcases wake_eq_woken.mp same with waiting | woken
    · exact .inl (listed waiting)
    · exact joiner woken
  | walks pc pc' clients closing walked =>
    refine ⟨⟨available, terminated, sender, fun removing => ?_⟩, others nofun, held, kernel, joiner, exiting⟩
    rcases closeConnectedClient_cases walked with ⟨rfl, -⟩ | ⟨p, rfl, -, removed⟩
    · exact sockets removing
    · have several := backed removing (by simp [State.removes, present, closing])
      exact Clients.llistRemove_leaves several removed
  | returns through =>
    exact ⟨⟨available, terminated, sender, sockets⟩, others nofun, held, kernel, joiner, exiting⟩

theorem joinThreads_stocked (stocked : Stocked s) (stepped : joinThreads s = some s') : Stocked s' := by
  obtain ⟨⟨available, terminated, sender, sockets⟩, linked, held, kernel, joiner, exiting⟩ := stocked
  cases joinThreads_cases stepped with
  | moves pc still woken removing =>
    refine ⟨⟨available, fun same => ?_, sender, sockets⟩, linked, held, kernel, fun same => absurd same woken,
      exiting⟩
    rcases removing same with listed | ⟨woken, running⟩
    · exact listed
    · exact (joiner woken).resolve_right (by simp [running])
  | removes => exact ⟨⟨available, nofun, sender, sockets⟩, linked, held, kernel, nofun, exiting⟩
  | joins slot t l _ present returned =>
    refine ⟨⟨available, nofun, sender, sockets⟩, ?_, held, kernel, nofun, exiting⟩
    exact forall_set nofun fun u x _ => linked u x
  | inserts slot =>
    obtain ⟨removing, waking⟩ := ClosePc.wake_eq (.inr (rfl : s.closer.wake = s.closer.wake))
    exact ⟨⟨fun _ => by simp [State.insertAvailable], nofun, sender, fun same => sockets (removing.mp same)⟩,
      linked, held, kernel, nofun, fun same => exiting (waking.mp same)⟩

theorem closeServer_stocked (stocked : Stocked s) (stepped : closeServer s = some s') : Stocked s' := by
  obtain ⟨⟨available, terminated, sender, sockets⟩, linked, held, kernel, joiner, exiting⟩ := stocked
  cases closeServer_cases stepped with
  | starts => exact ⟨⟨available, terminated, sender, nofun⟩, linked, held, kernel, joiner, by simp⟩
  | empties => exact ⟨⟨available, terminated, sender, nofun⟩, linked, held, kernel, joiner, by simp⟩
  | finds draining nonempty =>
    exact ⟨⟨available, terminated, sender, fun _ => nonempty⟩, linked, held, kernel, joiner, by simp⟩
  | removes => exact ⟨⟨available, terminated, sender, nofun⟩, linked, held, kernel, joiner, by simp⟩
  | sends => exact ⟨⟨available, terminated, sender, nofun⟩, linked, held, kernel, joiner, by simp⟩
  | flags => exact ⟨⟨available, terminated, sender, nofun⟩, linked, held, kernel, joiner, by simp⟩
  | waits closer before after =>
    refine ⟨⟨available, terminated, sender, fun same => ?_⟩, linked, held, kernel, joiner, fun same => ?_⟩
    · rcases after with rfl | rfl | rfl <;> cases same
    · rcases after with rfl | rfl | rfl <;> simp at same
  | exits =>
    exact ⟨⟨available, terminated, sender, nofun⟩, linked, held, fun _ => .inr rfl, fun _ => .inr rfl,
      fun _ => rfl⟩
  | wakesKernel waking =>
    have ended := exiting (.inl waking)
    exact ⟨⟨available, terminated, fun same => sender (KernelPc.wake_eq_removing.mp same), nofun⟩, linked, held,
      fun _ => .inr ended, joiner, fun _ => ended⟩
  | wakesJoiner waking =>
    have ended := exiting (.inr waking)
    exact ⟨⟨available, fun same => terminated (wake_eq_removing.mp same), sender, nofun⟩, linked, held, kernel,
      fun _ => .inr ended, by simp⟩

theorem kernelCommunication_stocked (stocked : Stocked s) (stepped : kernelCommunication s = some s') :
    Stocked s' := by
  obtain ⟨⟨available, terminated, sender, sockets⟩, linked, held, kernel, joiner, exiting⟩ := stocked
  have elsewhere {pc : KernelPc} (removing : pc ≠ .removing) (woken : pc ≠ .woken) (checking : pc ≠ .checking) :
      Stocked { s with kernel := pc } :=
    ⟨⟨available, terminated, fun same => absurd same removing, sockets⟩, linked, held,
      fun same => (same.elim woken checking).elim, joiner, exiting⟩
  have taking (queued : s.senderList ≠ []) : Stocked { s with kernel := .removing } :=
    ⟨⟨available, terminated, fun _ => queued, sockets⟩, linked, held, by simp, joiner, exiting⟩
  cases pc : s.kernel with
  | looping =>
    simp only [kernelCommunication, pc] at stepped
    split_ifs at stepped
    · cases stepped
      apply elsewhere <;> simp
    · cases stepped
      apply elsewhere <;> simp
  | testing =>
    simp only [kernelCommunication, pc] at stepped
    split_ifs at stepped with empty
    · cases stepped
      apply elsewhere <;> simp
    · cases stepped
      exact taking empty
  | falling =>
    simp only [kernelCommunication, pc] at stepped
    split_ifs at stepped
    cases stepped
    apply elsewhere <;> simp
  | waiting => simp only [kernelCommunication, pc, reduceCtorEq] at stepped
  | woken =>
    simp only [kernelCommunication, pc] at stepped
    split_ifs at stepped
    cases stepped
    exact ⟨⟨available, terminated, by simp, sockets⟩, linked, held, fun _ => kernel (.inl pc), joiner, exiting⟩
  | checking =>
    simp only [kernelCommunication, pc] at stepped
    split_ifs at stepped with ended
    · cases stepped
      apply elsewhere <;> simp
    · cases stepped
      exact taking ((kernel (.inr pc)).resolve_right ended)
  | removing =>
    cases queued : s.senderList with
    | nil => simp only [kernelCommunication, pc, queued, reduceCtorEq] at stepped
    | cons first rest =>
      simp only [kernelCommunication, pc, queued] at stepped
      split_ifs at stepped with free
      cases stepped
      -- nobody holds the mutex, so no linked request is taken before its broadcast
      exact ⟨⟨available, terminated, by simp, sockets⟩, linked, fun taken => absurd free taken, by simp, joiner,
        exiting⟩
  | broadcasting loop =>
    cases loop with
    | finished =>
      simp only [kernelCommunication, pc, Option.some.injEq] at stepped
      cases stepped
      apply elsewhere <;> simp
    | _ =>
      simp only [kernelCommunication, pc] at stepped
      obtain ⟨⟨pc, sock⟩, -, rfl⟩ := Option.map_eq_some_iff.mp stepped
      apply elsewhere <;> simp
  | finished => simp only [kernelCommunication, pc, reduceCtorEq] at stepped

theorem step_stocked (s : State) (e : Event) (s' : State) (backed : Backed s e)
    (inv : Stocked s ∧ ∃ events, run step .start events = some s) (stepped : step s e = some s') :
    Stocked s' ∧ ∃ events, run step .start events = some s' := by
  obtain ⟨stocked, events, ran⟩ := inv
  have reached : run step .start (events ++ [e]) = some s' := by
    rw [run_append ran, run_cons, stepped, Option.bind_some, run_nil]
  refine ⟨?_, events ++ [e], reached⟩
  cases e with
  | accept => exact acceptConnections_stocked stocked stepped
  | request t pdu => exact insertRequest_stocked stocked stepped
  | listener t => exact clientListener_stocked stocked ran backed stepped
  | join => exact joinThreads_stocked stocked stepped
  | close => exact closeServer_stocked stocked stepped
  | kernel => exact kernelCommunication_stocked stocked stepped
  | spurious w =>
    obtain ⟨⟨available, terminated, sender, sockets⟩, linked, held, kernel, joiner, exiting⟩ := stocked
    cases spuriousWakeup_cases stepped with
    | joiner => exact ⟨⟨available, nofun, sender, sockets⟩, linked, held, kernel, fun _ => backed, exiting⟩
    | closer => exact ⟨⟨available, terminated, sender, nofun⟩, linked, held, kernel, joiner, by simp⟩
    | kernel => exact ⟨⟨available, terminated, nofun, sockets⟩, linked, held, fun _ => backed, joiner, exiting⟩

end Steps

/-- In a run in which every wake-up and every test is backed, no removal meets an empty list. -/
theorem removals_supplied {events : List Event} {s : State} (ran : run step .start events = some s)
    (backed : Steps step Backed .start events) : Supplied s := by
  have start : Stocked .start ∧ ∃ events, run step .start events = some .start := ⟨stocked_start, [], rfl⟩
  obtain ⟨stocked, -⟩ := run_invariant_of_steps step_stocked start backed ran
  exact stocked.toSupplied

/-- Every thread is at a removal at the same time: the client's request wakes `kernel_communication`, the
second client has left, a third one takes a slot and `close_server` starts. -/
theorem removals_supplied_busy :
    let events := [Event.kernel, .kernel, .kernel] ++ firstClient ++ List.replicate 6 Event.accept ++
      [.request 0 anInit, .listener 0, .kernel, .kernel, .listener 1, .join, .close, .close, .accept, .accept]
    ∃ s, run step .start events = some s ∧
      (s.accept = .taking ∧ s.joiner = .removing ∧ s.kernel = .removing ∧ s.closer = .removing) ∧
      s.availableThreads ≠ [] ∧ s.terminatedThreads ≠ [] ∧ s.senderList ≠ [] ∧ s.clients.cells ≠ [] := by
  intro events
  have backed : Steps step Backed .start events := by decide +kernel
  obtain ⟨available, terminated, sender, sockets⟩ := @removals_supplied events _ rfl backed
  exact ⟨_, rfl, ⟨rfl, rfl, rfl, rfl⟩, available rfl, terminated rfl, sender rfl, sockets rfl⟩

/-- The listener of the only client has found its entry when `close_server` tests the list, and removes
it before `close_server` does. A wait that returns spuriously leads to a removal from an empty list. -/
theorem removals_from_empty :
    (∃ s, run step .start
        (firstClient ++ List.replicate 5 (Event.listener 0) ++ [Event.close, .close, .listener 0]) = some s ∧
      s.closer = .removing ∧ s.clients.cells = [] ∧ step s .close = none) ∧
    (∃ s, run step .start [.join, .join, .spurious .join, .join] = some s ∧
      s.joiner = .removing ∧ s.terminatedThreads = [] ∧ step s .join = none) ∧
    (∃ s, run step .start [.kernel, .kernel, .kernel, .spurious .kernel, .kernel, .kernel] = some s ∧
      s.kernel = .removing ∧ s.senderList = [] ∧ step s .kernel = none) :=
  ⟨⟨_, rfl, rfl, rfl, rfl⟩, ⟨_, rfl, rfl, rfl, rfl⟩, ⟨_, rfl, rfl, rfl, rfl⟩⟩

end Operativsystem.Server.Process
