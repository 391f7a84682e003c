import Operativsystem.Server.Threads

/-! # How the server hangs while it closes

`close_server` waits until all slots are back, sets `exitServer` and broadcasts to `join_threads`.
Both threads test outside the mutex and then wait, so a broadcast that comes between a test and its
wait reaches nobody. The last slot must not come back while `close_server` is between the two, and
`join_threads` has to be in its wait when the last broadcast comes.
-/

namespace Operativsystem.Server

open Machine

/-- `close_server` is through with its broadcasts and `join_threads` is blocked. -/
def JoinerHangs (s : ServerState) : Prop :=
  s.exitServer = true ∧ s.closer = .finished ∧ s.joiner = .waiting

/-- `close_server` is blocked although all slots are available. -/
def CloserHangs (s : ServerState) : Prop :=
  s.closer = .waiting ∧ s.availableThreads.length = THREADS

/-- A slot that comes back leaves the list short if `close_server` is between test and wait. -/
def LeavesShort (s : ServerState) : Prop :=
  s.closer = .falling → s.availableThreads.length + 1 < THREADS

/-- The next step puts a slot into `availableThreads`. -/
def AcceptPc.inserts : AcceptPc → Bool
  | .filling j => j < THREADS
  | _ => false

def JoinPc.inserts : JoinPc → Bool
  | .inserting _ => true
  | _ => false

/-- No slot completes the list while `close_server` is between test and wait, and the broadcast of
`close_server` finds `join_threads` in its wait, woken or through. -/
def Prompt (s : ServerState) : Event → Prop
  | .accept => s.accept.inserts = true → LeavesShort s
  | .join => s.joiner.inserts = true → LeavesShort s
  | .close => s.closer = .broadcasting → s.joiner = .waiting ∨ s.joiner = .woken ∨ s.joiner = .finished
  | .listener _ => True

instance (s : ServerState) : Decidable (LeavesShort s) := inferInstanceAs (Decidable (_ → _))

instance (s : ServerState) : (e : Event) → Decidable (Prompt s e)
  | .accept => inferInstanceAs (Decidable (_ → _))
  | .join => inferInstanceAs (Decidable (_ → _))
  | .close => inferInstanceAs (Decidable (_ → _))
  | .listener _ => isTrue trivial

/-- What the order of the steps has to keep. -/
structure Closing (s : ServerState) : Prop where
  short : s.closer = .falling ∨ s.closer = .waiting → s.availableThreads.length < THREADS
  exits : s.closer = .broadcasting ∨ s.closer = .finished → s.exitServer = true
  through : s.closer = .finished → s.joiner = .woken ∨ s.joiner = .finished

theorem closing_start : Closing .start := by
  constructor <;> simp [ServerState.start]

section Steps

variable {s s' : ServerState}

theorem Closing.insertAvailable (closing : Closing s) (leavesShort : LeavesShort s) (slot : ℕ)
    (accept : AcceptPc) : Closing { s.insertAvailable slot with accept := accept } := by
  obtain ⟨short, exits, through⟩ := closing
  constructor
  · rintro (falling | waiting)
    · have before : s.closer = .falling := by
        cases pc : s.closer <;> simp_all [ServerState.insertAvailable, ClosePc.wake]
      simpa [ServerState.insertAvailable] using leavesShort before
    · cases pc : s.closer <;> simp_all [ServerState.insertAvailable, ClosePc.wake]
  · intro ended
    apply exits
    cases pc : s.closer <;> simp_all [ServerState.insertAvailable, ClosePc.wake]
  · intro finished
    apply through
    cases pc : s.closer <;> simp_all [ServerState.insertAvailable, ClosePc.wake]

theorem acceptConnections_closing (closing : Closing s) (prompt : Prompt s .accept)
    (stepped : acceptConnections s = some s') : Closing s' := by
  rw [acceptConnections] at stepped
  split at stepped
  · rename_i j filling
    split_ifs at stepped with more
    · cases stepped
      exact closing.insertAvailable (prompt (by simpa [filling, AcceptPc.inserts] using more)) _ _
    · cases stepped
      exact ⟨closing.short, closing.exits, closing.through⟩
  · cases stepped
    exact ⟨closing.short, closing.exits, closing.through⟩
  · split_ifs at stepped
    · cases stepped
      exact ⟨closing.short, closing.exits, closing.through⟩
    · cases stepped
      exact ⟨closing.short, closing.exits, closing.through⟩
  · split at stepped
    · cases stepped
    · rename_i slot rest available
      cases stepped
      refine ⟨fun blocked => ?_, closing.exits, closing.through⟩
      have short := closing.short blocked
      rw [available, List.length_cons] at short
      exact Nat.lt_of_succ_lt short
  · split_ifs at stepped
    · cases stepped
      exact ⟨closing.short, closing.exits, closing.through⟩
    · cases stepped
      exact ⟨closing.short, closing.exits, closing.through⟩
  · split_ifs at stepped
    cases stepped
    exact ⟨closing.short, closing.exits, closing.through⟩

theorem clientListener_closing (closing : Closing s) {t : ℕ} (stepped : clientListener s t = some s') :
    Closing s' := by
  have through (finished : s.closer = .finished) : s.joiner.wake = .woken ∨ s.joiner.wake = .finished := by
    rcases closing.through finished with woken | ended
    · simp [woken, JoinPc.wake]
    · simp [ended, JoinPc.wake]
  rw [clientListener] at stepped
  split at stepped
  · cases stepped
  split at stepped
  · cases stepped
    exact ⟨closing.short, closing.exits, through⟩
  · cases stepped
    exact ⟨closing.short, closing.exits, through⟩
  · cases stepped
    exact ⟨closing.short, closing.exits, closing.through⟩
  · cases stepped
  · cases stepped

/-- When the last broadcast is over, `join_threads` has only its last step left. -/
theorem joinThreads_closing (closing : Closing s) (prompt : Prompt s .join)
    (stepped : joinThreads s = some s') : Closing s' := by
  have early (working : s.joiner ≠ .woken ∧ s.joiner ≠ .finished) : s.closer ≠ .finished := fun finished =>
    (closing.through finished).elim working.1 working.2
  rw [joinThreads] at stepped
  split at stepped
  · rename_i testing
    have running := early (by simp [testing])
    split_ifs at stepped
    · cases stepped
      exact ⟨closing.short, closing.exits, fun finished => absurd finished running⟩
    · cases stepped
      exact ⟨closing.short, closing.exits, fun finished => absurd finished running⟩
  · rename_i falling
    have running := early (by simp [falling])
    cases stepped
    exact ⟨closing.short, closing.exits, fun finished => absurd finished running⟩
  · cases stepped
  · rename_i woken
    split_ifs at stepped with exiting
    · cases stepped
      exact ⟨closing.short, closing.exits, fun _ => .inr rfl⟩
    · cases stepped
      exact ⟨closing.short, closing.exits, fun finished => absurd (closing.exits (.inr finished)) exiting⟩
  · rename_i removing
    have running := early (by simp [removing])
    split at stepped
    · cases stepped
    · cases stepped
      exact ⟨closing.short, closing.exits, fun finished => absurd finished running⟩
  · rename_i slot holding
    have running := early (by simp [holding])
    split at stepped
    · cases stepped
    · cases stepped
      exact ⟨closing.short, closing.exits, fun finished => absurd finished running⟩
  · rename_i slot thread joining
    have running := early (by simp [joining])
    split at stepped
    · cases stepped
    split at stepped
    · cases stepped
    split_ifs at stepped
    cases stepped
    exact ⟨closing.short, closing.exits, fun finished => absurd finished running⟩
  · rename_i slot inserting
    have running := early (by simp [inserting])
    cases stepped
    obtain ⟨short, exits, through⟩ :=
      closing.insertAvailable (prompt (by simp [inserting, JoinPc.inserts])) slot s.accept
    refine ⟨short, exits, fun finished => ?_⟩
    rcases through finished with woken | ended
    · simp [ServerState.insertAvailable, inserting] at woken
    · simp [ServerState.insertAvailable, inserting] at ended
  · cases stepped

theorem closeServer_closing (closing : Closing s) (prompt : Prompt s .close)
    (stepped : closeServer s = some s') : Closing s' := by
  rw [closeServer] at stepped
  split at stepped
  · cases stepped
    exact ⟨by simp, by simp, by simp⟩
  · cases stepped
    exact ⟨by simp, by simp, by simp⟩
  · split_ifs at stepped with short
    · cases stepped
      exact ⟨fun _ => short, by simp, by simp⟩
    · cases stepped
      exact ⟨by simp, by simp, by simp⟩
  · rename_i falling
    cases stepped
    exact ⟨fun _ => closing.short (.inl falling), by simp, by simp⟩
  · cases stepped
  · cases stepped
    exact ⟨by simp, fun _ => rfl, by simp⟩
  · rename_i broadcasting
    cases stepped
    refine ⟨by simp, fun _ => closing.exits (.inl broadcasting), fun _ => ?_⟩
    rcases prompt broadcasting with waiting | woken | ended
    · simp [waiting, JoinPc.wake]
    · simp [woken, JoinPc.wake]
    · simp [ended, JoinPc.wake]
  · cases stepped

theorem step_closing (s : ServerState) (e : Event) (s' : ServerState) (prompt : Prompt s e)
    (closing : Closing s) (stepped : step s e = some s') : Closing s' := by
  cases e with
  | accept => exact acceptConnections_closing closing prompt stepped
  | listener t => exact clientListener_closing closing stepped
  | join => exact joinThreads_closing closing prompt stepped
  | close => exact closeServer_closing closing prompt stepped

end Steps

/-- In a run whose steps are prompt, neither thread is left behind by the other. -/
theorem shutdown_never_hangs {events : List Event} {s : ServerState}
    (ran : run step .start events = some s) (prompt : Steps step Prompt .start events) :
    ¬JoinerHangs s ∧ ¬CloserHangs s := by
  have closing : Closing s := run_invariant_of_steps step_closing closing_start prompt ran
  constructor
  · rintro ⟨-, finished, waiting⟩
    rcases closing.through finished with woken | ended
    · simp [waiting] at woken
    · simp [waiting] at ended
  · rintro ⟨waiting, full⟩
    have short := closing.short (.inr waiting)
    omega

/-- The first client comes and leaves, and `join_threads` has its slot in the hand. -/
def firstJoin : List Event :=
  List.replicate 16 Event.accept ++ List.replicate 3 (Event.listener 0) ++ List.replicate 4 Event.join

/-- The slot comes back before `close_server` looks, and `join_threads` waits when it broadcasts. -/
theorem shutdown_never_hangs_one_client :
    let events := firstJoin ++ List.replicate 3 Event.join ++ List.replicate 5 Event.close
    ∃ s, run step .start events = some s ∧ s.closer = .finished ∧ s.joiner = .woken ∧ ¬JoinerHangs s := by
  intro events
  have ran : run step .start events = some ⟨[1, 2, 3, 4, 5, 6, 7, 8, 9, 0], [],
    some 0 :: List.replicate 9 none, [⟨0, .joined⟩], .accepting, .woken, .finished, true, true, [some 0]⟩ := by
    decide +kernel
  have prompt : Steps step Prompt .start events := by decide +kernel
  exact ⟨_, ran, rfl, rfl, (shutdown_never_hangs ran prompt).1⟩

/-- No connection arrives once `close_server` has started. -/
def NoArrival (s : ServerState) : Event → Prop
  | .accept => s.accept = .accepting → s.closer = .idle
  | _ => True

instance (s : ServerState) : (e : Event) → Decidable (NoArrival s e)
  | .accept => inferInstanceAs (Decidable (_ → _))
  | .join => isTrue trivial
  | .close => isTrue trivial
  | .listener _ => isTrue trivial

/-- Where both threads are blocked or through and all listeners are joined, no thread moves any more. -/
theorem deadlocked {s : ServerState} (accepting : s.accept = .accepting) (joiner : s.joiner = .waiting)
    (closer : s.closer = .waiting ∨ s.closer = .finished) (joined : ∀ l ∈ s.threads, l.phase = .joined)
    (e : Event) (quiet : NoArrival s e) : step s e = none := by
  cases e with
  | accept =>
    have idle := quiet accepting
    rcases closer with same | same <;> simp [same] at idle
  | listener t =>
    change clientListener s t = none
    rw [clientListener]
    split
    · rfl
    · rename_i l present
      simp [joined l (List.mem_of_getElem? present)]
  | join => simp [step, joinThreads, joiner]
  | close =>
    change closeServer s = none
    rcases closer with same | same <;> simp [closeServer, same]

/-- Without any client `close_server` broadcasts before `join_threads` has come to its wait. -/
def closeFirst : List Event :=
  List.replicate 11 Event.accept ++ List.replicate 5 Event.close ++ [Event.join, Event.join]

/-- The slot of the only client comes back between the test of `close_server` and its wait. -/
def slotBetween : List Event :=
  firstJoin ++ List.replicate 3 Event.close ++ [Event.join, Event.close, Event.join, Event.join]

/-- Either thread can be left in its wait for good. -/
theorem shutdown_hangs :
    (∃ s, run step .start closeFirst = some s ∧ Steps step NoArrival .start closeFirst ∧
      JoinerHangs s ∧ ∀ e, NoArrival s e → step s e = none) ∧
    (∃ s, run step .start slotBetween = some s ∧ Steps step NoArrival .start slotBetween ∧
      CloserHangs s ∧ ∀ e, NoArrival s e → step s e = none) := by
  constructor
  · have ran : run step .start closeFirst =
        some ⟨[0, 1, 2, 3, 4, 5, 6, 7, 8, 9], [], List.replicate 10 none, [], .accepting, .waiting,
          .finished, true, true, []⟩ := by decide +kernel
    exact ⟨_, ran, by decide +kernel, ⟨rfl, rfl, rfl⟩, deadlocked rfl rfl (.inr rfl) (by simp)⟩
  · have ran : run step .start slotBetween =
        some ⟨[1, 2, 3, 4, 5, 6, 7, 8, 9, 0], [], some 0 :: List.replicate 9 none, [⟨0, .joined⟩], .accepting,
          .waiting, .waiting, true, false, [some 0]⟩ := by decide +kernel
    exact ⟨_, ran, by decide +kernel, ⟨rfl, rfl⟩, deadlocked rfl rfl (.inl rfl) (by simp)⟩

end Operativsystem.Server
