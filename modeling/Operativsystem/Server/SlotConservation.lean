import Operativsystem.Server.SlotOwner

/-! # No slot is lost, but for one branch

A run has kept all slots exactly if no connection that had taken a slot found the server closing:
`accept_connections` then frees the number without putting it back, and `close_server` waits for it.
-/

namespace Operativsystem.Server

open Machine

/-- Once all listeners have been joined and no slot is in a hand, all slots are available. -/
theorem available_of_joined {events : List Event} {s : ServerState} (ran : run step .start events = some s)
    (joined : ∀ l ∈ s.threads, l.phase = .joined) (idle : s.accept.hand = [])
    (returned : ∀ slot, s.joiner ≠ .inserting slot) : s.slots = s.availableThreads := by
  obtain ⟨owned, -⟩ := run_owned ran
  have nobody (slot : ℕ) (member : slot ∈ s.terminatedThreads ++ s.joiner.uncalled) : False := by
    obtain ⟨t, l, present, -, unjoined, -⟩ := owned.announced slot member
    exact unjoined (joined l (List.mem_of_getElem? present))
  have terminated : s.terminatedThreads = [] :=
    List.eq_nil_iff_forall_not_mem.mpr fun slot member => nobody slot (List.mem_append_left _ member)
  have running : unannounced s.threads = [] := by
    rw [unannounced, List.filter_eq_nil_iff.mpr, List.map_nil]
    intro l member
    simp [joined l member]
  have hand : s.joiner.hand = [] := by
    cases joiner : s.joiner with
    | holding slot => exact (nobody slot (by simp [joiner, JoinPc.uncalled])).elim
    | joining slot thread =>
      obtain ⟨t, l, -, present, -, unjoined⟩ :=
        owned.calling slot thread (by rw [joiner, JoinPc.call])
      exact absurd (joined l (List.mem_of_getElem? present)) unjoined
    | inserting slot => exact absurd joiner (returned slot)
    | _ => rfl
  simp [ServerState.slots, terminated, running, hand, idle]

/-- After the list has been filled, a run has all slots in their places exactly if no connection that
got a slot found the server closing. In such a run, once all listeners have been joined and no slot
is in a hand, all slots are available and `close_server` leaves its loop at its next test. -/
theorem slots_conserved {events : List Event} {s : ServerState} (ran : run step .start events = some s)
    (filled : s.accept.owed = []) :
    (s.slots.Perm (List.range THREADS) ↔ Steps step Admits .start events) ∧
    (Steps step Admits .start events → (∀ l ∈ s.threads, l.phase = .joined) → s.accept.hand = [] →
      (∀ slot, s.joiner ≠ .inserting slot) → s.availableThreads.length = THREADS ∧
        (s.closer = .testing → ∃ s', closeServer s = some s' ∧ s'.closer = .leaving)) := by
  obtain ⟨lost, all, kept⟩ := run_slots ran
  rw [ServerState.total, filled, List.nil_append] at all
  have conserved : s.slots.Perm (List.range THREADS) ↔ Steps step Admits .start events := by
    rw [← kept]
    constructor
    · intro whole
      have sizes := all.length_eq
      rw [List.length_append, whole.length_eq] at sizes
      exact List.length_eq_zero_iff.mp (by omega)
    · rintro rfl
      rwa [List.append_nil] at all
  refine ⟨conserved, fun steps joined idle returned => ?_⟩
  have full : s.availableThreads.length = THREADS := by
    rw [← available_of_joined ran joined idle returned, (conserved.mpr steps).length_eq, List.length_range]
  refine ⟨full, fun testing => ?_⟩
  rw [closeServer, testing]
  simp [full]

/-- One client comes, leaves and is joined before the server closes. -/
theorem slots_conserved_one_client :
    let events := List.replicate 16 Event.accept ++ List.replicate 3 (.listener 0) ++
      List.replicate 5 .join ++ [.close, .close]
    ∃ s, run step .start events = some s ∧ s.slots.Perm (List.range THREADS) ∧
      s.availableThreads.length = THREADS ∧ ∃ s', closeServer s = some s' ∧ s'.closer = .leaving := by
  intro events
  have ran : run step .start events = some ⟨[1, 2, 3, 4, 5, 6, 7, 8, 9, 0], [],
    some 0 :: List.replicate 9 none, [⟨0, .joined⟩], .accepting, .testing, .testing, true, false,
      [some 0]⟩ := rfl
  obtain ⟨conserved, finished⟩ := slots_conserved ran rfl
  have whole := conserved.mp (by decide)
  obtain ⟨full, leaves⟩ := finished whole (by decide) rfl (by simp)
  exact ⟨_, ran, conserved.mpr whole, full, leaves rfl⟩

/-- A connection takes slot 0, the server starts to close, and the slot is gone: with no listener
left `close_server` goes to wait. -/
theorem closing_drops_slot :
    let events := List.replicate 14 Event.accept ++ [.close, .close, .accept]
    ∃ s, run step .start events = some s ∧ s.threads = [] ∧ s.accept = .accepting ∧
      s.slots = [1, 2, 3, 4, 5, 6, 7, 8, 9] ∧ ¬s.slots.Perm (List.range THREADS) ∧
      ∃ s', closeServer s = some s' ∧ s'.closer = .falling := by
  intro events
  refine ⟨⟨[1, 2, 3, 4, 5, 6, 7, 8, 9], [], List.replicate 10 none, [], .accepting, .testing, .testing,
    true, false, []⟩, rfl, rfl, rfl, rfl, by decide, _, rfl, rfl⟩

end Operativsystem.Server
