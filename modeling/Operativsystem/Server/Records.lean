import Operativsystem.Server.ProcessMoves

/-! # The records of the clients

An entry of `clients_sockets` points into the record of its client, and `join_threads` releases the
record. A listener puts its record into `terminatedThreads` before it takes its entry out of
`clients_sockets`, so nothing but the order of the threads keeps `join_threads` from being faster.
-/

namespace Operativsystem.Server.Process

open Machine

/-- Every entry points to a record that has not been released. -/
def Registered (s : State) : Prop := ∀ cell ∈ s.clients.cells, cell.2 ∉ s.released

/-- `join_threads` takes up only records whose entry is gone. -/
def Retires (s : State) (e : Event) : Prop :=
  ∀ t rest, e = .join → s.joiner = .removing → s.terminatedThreads = t :: rest →
    ∀ cell ∈ s.clients.cells, cell.2 ≠ t

/-- The numbers in the lists are numbers of threads that have been created. -/
structure Recorded (s : State) : Prop where
  terminated : ∀ t ∈ s.terminatedThreads, t < s.threads.length
  released : ∀ t ∈ s.released, t < s.threads.length

theorem recorded_start : Recorded .start := ⟨nofun, nofun⟩

section Steps

variable {s s' : State}

theorem Recorded.frame (recorded : Recorded s) (length : s.threads.length ≤ s'.threads.length)
    (terminated : ∀ t ∈ s'.terminatedThreads, t ∈ s.terminatedThreads ∨ t < s.threads.length)
    (released : ∀ t ∈ s'.released, t ∈ s.released ∨ t ∈ s.terminatedThreads) : Recorded s' := by
  constructor
  · intro t member
    exact ((terminated t member).elim (recorded.terminated t) id).trans_le length
  · intro t member
    exact ((released t member).elim (recorded.released t) (recorded.terminated t)).trans_le length

/-- Steps that leave both lists and the threads alone. -/
theorem Recorded.same (recorded : Recorded s) (threads : s'.threads = s.threads)
    (terminated : s'.terminatedThreads = s.terminatedThreads) (released : s'.released = s.released) :
    Recorded s' :=
  recorded.frame (by rw [threads]) (fun t member => .inl (terminated ▸ member))
    (fun t member => .inl (released ▸ member))

theorem acceptConnections_recorded (recorded : Recorded s) (stepped : acceptConnections s = some s') :
    Recorded s' := by
  cases acceptConnections_cases stepped with
  | moves => exact recorded.same rfl rfl rfl
  | registers => exact recorded.same rfl rfl rfl
  | creates => exact recorded.frame (by simp) (fun _ => .inl) (fun _ => .inl)

theorem insertRequest_recorded (recorded : Recorded s) {t : ℕ} {pdu : Resources.Pdu}
    (stepped : insertRequest s t pdu = some s') : Recorded s' := by
  rw [insertRequest] at stepped
  split at stepped
  · cases stepped
  split_ifs at stepped
  cases stepped
  exact recorded.frame (by simp [State.setListener]) (fun _ => .inl) (fun _ => .inl)

theorem clientListener_recorded (recorded : Recorded s) {t : ℕ} (stepped : clientListener s t = some s') :
    Recorded s' := by
  obtain ⟨l, present, listens⟩ := clientListener_cases stepped
  have inside : t < s.threads.length := (List.getElem?_eq_some_iff.mp present).1
  cases listens with
  | announces =>
    refine recorded.frame (by simp [State.setListener]) (fun u member => ?_) (fun _ => .inl)
    rcases List.mem_cons.mp member with rfl | old
    · exact .inr inside
    · exact .inl old
  | broadcasts => exact recorded.frame (by simp [State.setListener]) (fun _ => .inl) (fun _ => .inl)
  | searches => exact recorded.frame (by simp [State.setListener]) (fun _ => .inl) (fun _ => .inl)
  | walks => exact recorded.frame (by simp [State.setListener]) (fun _ => .inl) (fun _ => .inl)
  | returns => exact recorded.frame (by simp [State.setListener]) (fun _ => .inl) (fun _ => .inl)

theorem joinThreads_recorded (recorded : Recorded s) (stepped : joinThreads s = some s') : Recorded s' := by
  cases joinThreads_cases stepped with
  | moves => exact recorded.same rfl rfl rfl
  | removes t rest l joiner terminated present =>
    refine recorded.frame le_rfl (fun u member => ?_) (fun u member => ?_)
    · exact .inl (terminated ▸ List.mem_cons_of_mem t member)
    · rcases List.mem_cons.mp member with rfl | old
      · exact .inr (terminated ▸ List.mem_cons_self)
      · exact .inl old
  | joins => exact recorded.frame (by simp [State.setListener]) (fun _ => .inl) (fun _ => .inl)
  | inserts => exact recorded.same rfl rfl rfl

theorem step_recorded (s : State) (e : Event) (s' : State) (recorded : Recorded s)
    (stepped : step s e = some s') : Recorded s' := by
  cases e with
  | accept => exact acceptConnections_recorded recorded stepped
  | request t pdu => exact insertRequest_recorded recorded stepped
  | listener t => exact clientListener_recorded recorded stepped
  | join => exact joinThreads_recorded recorded stepped
  | close =>
    obtain ⟨_, _, _, _, _, _, _, rfl, -⟩ := closeServer_frame stepped
    exact recorded.same rfl rfl rfl
  | kernel =>
    obtain ⟨_, _, rfl⟩ := kernelCommunication_frame stepped
    exact recorded.same rfl rfl rfl
  | spurious w => cases spuriousWakeup_cases stepped <;> exact recorded.same rfl rfl rfl

/-- Steps other than the one of `join_threads` that releases a record. -/
theorem registered_iff_of_sub (registered : Registered s) (clients : s'.clients.cells ⊆ s.clients.cells)
    (released : s'.released = s.released) {e : Event} (retires : Retires s e) : Registered s' ↔ Retires s e :=
  iff_of_true (fun cell member => released ▸ registered cell (clients member)) retires

theorem step_registered (s : State) (e : Event) (s' : State) (recorded : Recorded s)
    (registered : Registered s) (stepped : step s e = some s') : Registered s' ↔ Retires s e := by
  have other {e : Event} (different : e ≠ .join) : Retires s e := fun _ _ same => absurd same different
  have same : s.clients.cells ⊆ s.clients.cells := List.Subset.refl _
  cases e with
  | accept =>
    cases acceptConnections_cases stepped with
    | moves => exact registered_iff_of_sub registered same rfl (other (by simp))
    | creates => exact registered_iff_of_sub registered same rfl (other (by simp))
    | registers =>
      refine iff_of_true (fun cell member => ?_) (other (by simp))
      rcases List.mem_append.mp member with old | new
      · exact registered cell old
      · -- the new client has a number that no thread has had
        cases List.mem_singleton.mp new
        exact fun gone => lt_irrefl _ (recorded.released _ gone)
  | request t pdu =>
    simp only [step, insertRequest] at stepped
    split at stepped
    · cases stepped
    split_ifs at stepped
    cases stepped
    exact registered_iff_of_sub registered same rfl (other (by simp))
  | listener t =>
    obtain ⟨l, present, listens⟩ := clientListener_cases stepped
    cases listens with
    | announces => exact registered_iff_of_sub registered same rfl (other (by simp))
    | broadcasts => exact registered_iff_of_sub registered same rfl (other (by simp))
    | searches => exact registered_iff_of_sub registered same rfl (other (by simp))
    | walks pc pc' clients closing walked =>
      apply registered_iff_of_sub registered (closeConnectedClient_subset walked)
      · rfl
      · exact other (by simp)
    | returns => exact registered_iff_of_sub registered same rfl (other (by simp))
  | join =>
    cases joinThreads_cases stepped with
    | moves joiner still =>
      exact registered_iff_of_sub registered same rfl fun _ _ _ removing => absurd removing still
    | joins slot t l joiner =>
      exact registered_iff_of_sub registered same rfl fun _ _ _ removing => by simp [joiner] at removing
    | inserts slot joiner =>
      exact registered_iff_of_sub registered same rfl fun _ _ _ removing => by simp [joiner] at removing
    | removes t rest l joiner terminated present =>
      constructor
      · intro later u rest' _ _ terminated' cell member same
        cases terminated.symm.trans terminated'
        exact later cell member (same ▸ List.mem_cons_self)
      · intro retires cell member gone
        rcases List.mem_cons.mp gone with same | gone
        · exact retires t rest rfl joiner terminated cell member same
        · exact registered cell member gone
  | close =>
    obtain ⟨_, _, _, _, _, _, _, rfl, fewer, -⟩ := closeServer_frame stepped
    apply registered_iff_of_sub registered fewer
    · rfl
    · exact other (by simp)
  | kernel =>
    obtain ⟨_, _, rfl⟩ := kernelCommunication_frame stepped
    exact registered_iff_of_sub registered same rfl (other (by simp))
  | spurious w =>
    cases spuriousWakeup_cases stepped <;> exact registered_iff_of_sub registered same rfl (other (by simp))

end Steps

/-- In every state of a run all entries point to records that have not been released, exactly if
`join_threads` never takes up a record whose entry is still there. -/
theorem registered_iff {events : List Event} {s : State} (ran : run step .start events = some s) :
    Throughout step Registered .start events ↔ Steps step Retires .start events :=
  throughout_iff (fun s e s' _ => step_recorded s e s') step_registered recorded_start nofun ran

/-- The first client leaves, its listener takes the entry out, and the record is released after that. -/
theorem registered_iff_one_client :
    let events := firstClient ++ List.replicate 6 (Event.listener 0) ++ [Event.join, .join]
    ∃ s, run step .start events = some s ∧ s.clients.cells = [] ∧ s.released = [0] ∧
      Throughout step Registered .start events := by
  intro events
  have left : run step .start (firstClient ++ List.replicate 6 (Event.listener 0)) = some { oneClient with
    clients := oneClient.clients.without 0, terminatedThreads := [0],
    threads := [⟨0, .closing .finished⟩] } := rfl
  have retires : Steps step Retires .start events := by
    refine .append (.of_forall ?_) fun s ran => ?_
    · rintro e member s t rest rfl
      simp [firstClient] at member
    · cases left.symm.trans ran
      refine .cons nofun rfl (.cons ?_ rfl trivial)
      exact fun _ _ _ _ _ cell member => by cases member
  exact ⟨_, rfl, rfl, rfl, (registered_iff rfl).mpr retires⟩

/-- The listener has announced itself and still has to take its entry out when `join_threads`
releases the record. -/
theorem record_released_early : ∃ s, run step .start (firstClient ++ [Event.listener 0, .join, .join]) = some s ∧
    s.clients.cells = [(0, 0)] ∧ s.released = [0] ∧ ¬Registered s := by
  have ran : run step .start (firstClient ++ [Event.listener 0, .join, .join]) = some { oneClient with
    threads := [⟨0, .announced⟩], released := [0], joiner := .holding 0 } := rfl
  refine ⟨_, ran, rfl, rfl, fun registered => ?_⟩
  exact registered (0, 0) (List.mem_singleton.mpr rfl) (List.mem_singleton.mpr rfl)

end Operativsystem.Server.Process
