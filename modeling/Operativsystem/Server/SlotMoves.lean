import Operativsystem.Server.Threads

/-! # How slots move

Every step moves slots between their places, except that a connection which finds the server closing
after it has taken a slot drops it. The slots that are left and those that were dropped are always
the numbers below THREADS.
-/

namespace Operativsystem.Server

open Machine

section Moves

variable {s s' : ServerState}

theorem acceptConnections_moves (admits : ∀ slot, s.accept = .holding slot → s.closeAllClients = false)
    (stepped : acceptConnections s = some s') : s'.total.Perm s.total := by
  obtain ⟨available, terminated, clientThreads, threads, accept, joiner, closer, closing, exit, calls⟩ := s
  apply List.perm_iff_count.mpr
  intro k
  cases accept with
  | filling j =>
    simp only [acceptConnections] at stepped
    split_ifs at stepped with more
    · obtain rfl := Option.some.inj stepped
      have next : (List.range THREADS).drop j = j :: (List.range THREADS).drop (j + 1) := by
        rw [List.drop_eq_getElem_cons (by simpa using more), List.getElem_range]
      simp only [ServerState.total, ServerState.slots, ServerState.insertAvailable, AcceptPc.owed,
        AcceptPc.hand, next, List.count_append, List.count_cons, List.count_nil]
      omega
    · obtain rfl := Option.some.inj stepped
      have all : (List.range THREADS).drop j = [] := List.drop_eq_nil_of_le (by simpa using more)
      simp only [ServerState.total, ServerState.slots, AcceptPc.owed, AcceptPc.hand, all]
  | accepting =>
    obtain rfl := Option.some.inj stepped
    rfl
  | accepted =>
    simp only [acceptConnections] at stepped
    split_ifs at stepped
    · obtain rfl := Option.some.inj stepped
      rfl
    · obtain rfl := Option.some.inj stepped
      rfl
  | taking =>
    cases available with
    | nil => cases stepped
    | cons slot rest =>
      obtain rfl := Option.some.inj stepped
      simp only [ServerState.total, ServerState.slots, AcceptPc.owed, AcceptPc.hand, List.count_append,
        List.count_cons, List.count_nil]
      omega
  | holding slot =>
    have opened : closing = false := admits slot rfl
    subst opened
    obtain rfl := Option.some.inj stepped
    rfl
  | creating slot =>
    simp only [acceptConnections] at stepped
    split_ifs at stepped
    obtain rfl := Option.some.inj stepped
    simp only [ServerState.total, ServerState.slots, AcceptPc.owed, AcceptPc.hand, unannounced_append,
      List.count_append, List.count_nil]
    omega

/-- A closing server drops the slot in the hand of `accept_connections`. -/
theorem acceptConnections_loses {slot : ℕ} (hand : s.accept = .holding slot) (closing : s.closeAllClients = true)
    (stepped : acceptConnections s = some s') : s.total.Perm (slot :: s'.total) := by
  simp only [acceptConnections, hand, closing, if_true] at stepped
  obtain rfl := Option.some.inj stepped
  apply List.perm_iff_count.mpr
  intro k
  simp only [ServerState.total, ServerState.slots, hand, AcceptPc.owed, AcceptPc.hand, List.count_append,
    List.count_cons, List.count_nil]
  omega

theorem clientListener_moves {t : ℕ} (stepped : clientListener s t = some s') :
    s'.total.Perm s.total := by
  rw [clientListener] at stepped
  split at stepped
  · cases stepped
  rename_i l present
  split at stepped
  · rename_i running
    obtain rfl := Option.some.inj stepped
    have moved := List.perm_iff_count.mp (unannounced_announce present running)
    apply List.perm_iff_count.mpr
    intro k
    have moved := moved k
    simp only [List.count_cons] at moved
    simp only [ServerState.total, ServerState.slots, JoinPc.hand_wake, List.count_append, List.count_cons]
    omega
  · rename_i announced
    obtain rfl := Option.some.inj stepped
    have same := @unannounced_set _ _ _ .leaving present (by simp [announced]) (by simp)
    simp [ServerState.total, ServerState.slots, same]
  · rename_i leaving
    obtain rfl := Option.some.inj stepped
    have same := @unannounced_set _ _ _ .returned present (by simp [leaving]) (by simp)
    simp [ServerState.total, ServerState.slots, same]
  · cases stepped
  · cases stepped

theorem joinThreads_moves (stepped : joinThreads s = some s') : s'.total.Perm s.total := by
  obtain ⟨available, terminated, clientThreads, threads, accept, joiner, closer, closing, exit, calls⟩ := s
  apply List.perm_iff_count.mpr
  intro k
  cases joiner with
  | testing =>
    simp only [joinThreads] at stepped
    split_ifs at stepped
    · obtain rfl := Option.some.inj stepped
      rfl
    · obtain rfl := Option.some.inj stepped
      rfl
  | falling =>
    obtain rfl := Option.some.inj stepped
    rfl
  | waiting => cases stepped
  | woken =>
    simp only [joinThreads] at stepped
    split_ifs at stepped
    · obtain rfl := Option.some.inj stepped
      rfl
    · obtain rfl := Option.some.inj stepped
      rfl
  | removing =>
    cases terminated with
    | nil => cases stepped
    | cons slot rest =>
      obtain rfl := Option.some.inj stepped
      simp only [ServerState.total, ServerState.slots, JoinPc.hand, List.count_append, List.count_cons,
        List.count_nil]
      omega
  | holding slot =>
    simp only [joinThreads] at stepped
    split at stepped
    · cases stepped
    · obtain rfl := Option.some.inj stepped
      rfl
  | joining slot thread =>
    simp only [joinThreads] at stepped
    split at stepped
    · cases stepped
    split at stepped
    · cases stepped
    rename_i l present
    split_ifs at stepped with returned
    obtain rfl := Option.some.inj stepped
    have same := @unannounced_set _ _ _ .joined present (by simp [returned]) (by simp)
    simp [ServerState.total, ServerState.slots, JoinPc.hand, same]
  | inserting slot =>
    obtain rfl := Option.some.inj stepped
    simp only [ServerState.total, ServerState.slots, ServerState.insertAvailable, JoinPc.hand,
      List.count_append, List.count_cons, List.count_nil]
    omega
  | finished => cases stepped

/-- `close_server` touches no slot. -/
theorem closeServer_frame (stepped : closeServer s = some s') :
    s'.availableThreads = s.availableThreads ∧ s'.terminatedThreads = s.terminatedThreads ∧
      s'.clientThreads = s.clientThreads ∧ s'.threads = s.threads ∧ s'.accept = s.accept ∧
      s'.joinCalls = s.joinCalls ∧ (s'.joiner = s.joiner ∨ s'.joiner = s.joiner.wake) := by
  simp only [closeServer] at stepped
  split at stepped
  · obtain rfl := Option.some.inj stepped
    simp
  · obtain rfl := Option.some.inj stepped
    simp
  · split_ifs at stepped
    · obtain rfl := Option.some.inj stepped
      simp
    · obtain rfl := Option.some.inj stepped
      simp
  · obtain rfl := Option.some.inj stepped
    simp
  · cases stepped
  · obtain rfl := Option.some.inj stepped
    simp
  · obtain rfl := Option.some.inj stepped
    simp
  · cases stepped

theorem closeServer_moves (stepped : closeServer s = some s') : s'.total.Perm s.total := by
  obtain ⟨available, terminated, -, threads, accept, -, joiner⟩ := closeServer_frame stepped
  have hand : s'.joiner.hand = s.joiner.hand := by
    rcases joiner with same | woken
    · rw [same]
    · rw [woken, JoinPc.hand_wake]
  rw [ServerState.total, ServerState.slots, available, terminated, threads, accept, hand, ServerState.total,
    ServerState.slots]

theorem step_moves (s : ServerState) (e : Event) (s' : ServerState) (admits : Admits s e)
    (stepped : step s e = some s') : s'.total.Perm s.total := by
  cases e with
  | accept => exact acceptConnections_moves (fun slot hand => admits slot rfl hand) stepped
  | listener t => exact clientListener_moves stepped
  | join => exact joinThreads_moves stepped
  | close => exact closeServer_moves stepped

theorem step_loses (s : ServerState) (e : Event) (s' : ServerState) (turned : ¬Admits s e)
    (stepped : step s e = some s') : ∃ slot, s.total.Perm (slot :: s'.total) := by
  simp only [Admits, not_forall, Bool.not_eq_false] at turned
  obtain ⟨slot, rfl, hand, closing⟩ := turned
  exact ⟨slot, acceptConnections_loses hand closing stepped⟩

end Moves

/-- In every run the slots that are left and those that were dropped are the numbers below THREADS. -/
theorem run_slots {events : List Event} {s : ServerState} (ran : run step .start events = some s) :
    ∃ lost, (s.total ++ lost).Perm (List.range THREADS) ∧ (lost = [] ↔ Steps step Admits .start events) :=
  run_conserves step_moves step_loses ran

end Operativsystem.Server
