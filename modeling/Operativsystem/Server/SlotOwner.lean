import Operativsystem.Server.SlotMoves

/-! # A slot has one owner

`Owned` ties each thread that has not been joined to the entry of `clientThreads` at its slot, and
each slot that `join_threads` will take up to a thread that has not been joined. Together with the
fact that no slot is in two places, every hand-over keeps it.
-/

namespace Operativsystem.Server

open Machine

/-- The slot whose thread `join_threads` has not joined yet. -/
def JoinPc.awaiting : JoinPc → List ℕ
  | .holding slot => [slot]
  | .joining slot _ => [slot]
  | _ => []

/-- The slot for which `pthread_join` has not been called yet. -/
def JoinPc.uncalled : JoinPc → List ℕ
  | .holding slot => [slot]
  | _ => []

/-- The running call of `pthread_join`. -/
def JoinPc.call : JoinPc → Option (ℕ × Option ℕ)
  | .joining slot thread => some (slot, thread)
  | _ => none

/-- A broadcast changes none of these. -/
theorem JoinPc.keeps {pc pc' : JoinPc} (same : pc' = pc ∨ pc' = pc.wake) :
    pc'.awaiting = pc.awaiting ∧ pc'.uncalled = pc.uncalled ∧ pc'.call = pc.call := by
  rcases same with rfl | rfl
  · exact ⟨rfl, rfl, rfl⟩
  · cases pc <;> exact ⟨rfl, rfl, rfl⟩

theorem JoinPc.awaiting_subset (pc : JoinPc) : pc.awaiting ⊆ pc.hand := by
  cases pc <;> simp [awaiting, hand]

structure Owned (s : ServerState) : Prop where
  array : ∀ (t : ℕ) (l : Listener), s.threads[t]? = some l → l.phase ≠ .joined →
    s.clientThreads[l.threadNum]? = some (some t)
  place : ∀ (t : ℕ) (l : Listener), s.threads[t]? = some l → l.phase ≠ .joined → l.phase ≠ .running →
    l.threadNum ∈ s.terminatedThreads ++ s.joiner.awaiting
  created : ∀ slot t : ℕ, s.clientThreads[slot]? = some (some t) →
    ∃ l : Listener, s.threads[t]? = some l ∧ l.threadNum = slot
  running : ∀ (t : ℕ) (l : Listener), s.threads[t]? = some l → l.phase = .running → some t ∉ s.joinCalls
  announced : ∀ slot ∈ s.terminatedThreads ++ s.joiner.uncalled, ∃ (t : ℕ) (l : Listener),
    s.threads[t]? = some l ∧ l.threadNum = slot ∧ l.phase ≠ .joined ∧ l.phase ≠ .running ∧
      some t ∉ s.joinCalls
  calling : ∀ slot thread, s.joiner.call = some (slot, thread) → ∃ (t : ℕ) (l : Listener),
    thread = some t ∧ s.threads[t]? = some l ∧ l.threadNum = slot ∧ l.phase ≠ .joined
  calls : s.joinCalls.Nodup
  called : ∀ thread ∈ s.joinCalls, ∃ t, thread = some t ∧ t < s.threads.length

theorem owned_start : Owned .start := by
  have empty (t : ℕ) (l : Listener) : ServerState.start.threads[t]? ≠ some l := by
    simp [ServerState.start]
  constructor
  · exact fun t l present => absurd present (empty t l)
  · exact fun t l present => absurd present (empty t l)
  · intro slot t found
    exact absurd (List.eq_of_mem_replicate (List.mem_of_getElem? found)) (by simp)
  · exact fun t l present => absurd present (empty t l)
  · simp [ServerState.start, JoinPc.uncalled]
  · simp [ServerState.start, JoinPc.call]
  · exact List.nodup_nil
  · simp [ServerState.start]

section Owners

variable {s s' : ServerState}

/-- A thread that has not been joined keeps its slot busy. -/
theorem Owned.busy (owned : Owned s) {t : ℕ} {l : Listener} (present : s.threads[t]? = some l)
    (unjoined : l.phase ≠ .joined) :
    l.threadNum ∈ unannounced s.threads ++ s.terminatedThreads ++ s.joiner.hand := by
  by_cases running : l.phase = .running
  · refine List.mem_append_left _ (List.mem_append_left _ (List.mem_map_of_mem ?_))
    exact List.mem_filter.mpr ⟨List.mem_of_getElem? present, by simpa using running⟩
  · rcases List.mem_append.mp (owned.place t l present unjoined running) with ended | awaited
    · exact List.mem_append_left _ (List.mem_append_right _ ended)
    · exact List.mem_append_right _ (s.joiner.awaiting_subset awaited)

/-- Two threads that have not been joined do not share a slot. -/
theorem Owned.distinct (owned : Owned s) {t t' : ℕ} {l l' : Listener} (present : s.threads[t]? = some l)
    (present' : s.threads[t']? = some l') (unjoined : l.phase ≠ .joined) (unjoined' : l'.phase ≠ .joined)
    (same : l.threadNum = l'.threadNum) : t = t' := by
  have array := owned.array t l present unjoined
  rw [same, owned.array t' l' present' unjoined'] at array
  exact (Option.some.inj (Option.some.inj array)).symm

/-- Steps that keep the threads and only pass announced slots on. -/
theorem Owned.frame (owned : Owned s) (threads : s'.threads = s.threads)
    (clientThreads : s'.clientThreads = s.clientThreads) (joinCalls : s'.joinCalls = s.joinCalls)
    (awaiting : s.terminatedThreads ++ s.joiner.awaiting ⊆ s'.terminatedThreads ++ s'.joiner.awaiting)
    (uncalled : s'.terminatedThreads ++ s'.joiner.uncalled ⊆ s.terminatedThreads ++ s.joiner.uncalled)
    (call : s'.joiner.call = s.joiner.call) : Owned s' := by
  constructor
  · rw [threads, clientThreads]
    exact owned.array
  · rw [threads]
    intro t l present unjoined moved
    exact awaiting (owned.place t l present unjoined moved)
  · rw [threads, clientThreads]
    exact owned.created
  · rw [threads, joinCalls]
    exact owned.running
  · rw [threads, joinCalls]
    exact fun slot member => owned.announced slot (uncalled member)
  · rw [threads, call]
    exact owned.calling
  · rw [joinCalls]
    exact owned.calls
  · rw [threads, joinCalls]
    exact owned.called

theorem Owned.same (owned : Owned s) (threads : s'.threads = s.threads)
    (clientThreads : s'.clientThreads = s.clientThreads) (joinCalls : s'.joinCalls = s.joinCalls)
    (terminated : s'.terminatedThreads = s.terminatedThreads)
    (joiner : s'.joiner.awaiting = s.joiner.awaiting ∧ s'.joiner.uncalled = s.joiner.uncalled ∧
      s'.joiner.call = s.joiner.call) : Owned s' := by
  refine owned.frame threads clientThreads joinCalls ?_ ?_ joiner.2.2
  · rw [terminated, joiner.1]
    exact List.Subset.refl _
  · rw [terminated, joiner.2.1]
    exact List.Subset.refl _

/-- A listener that announces itself or moves on after that. -/
theorem Owned.advance (owned : Owned s) {t : ℕ} {l : Listener} {phase : Phase} {terminated : List ℕ}
    {joiner : JoinPc} (same : joiner = s.joiner ∨ joiner = s.joiner.wake) (present : s.threads[t]? = some l)
    (unjoined : l.phase ≠ .joined) (after : phase ≠ .joined)
    (moving : phase ≠ .running) (kept : s.terminatedThreads ⊆ terminated)
    (added : ∀ slot ∈ terminated, slot ∈ s.terminatedThreads ∨ slot = l.threadNum ∧ l.phase = .running)
    (announced : l.phase = .running → l.threadNum ∈ terminated) :
    Owned { s with
      threads := s.threads.set t { l with phase := phase }
      terminatedThreads := terminated
      joiner := joiner } := by
  obtain ⟨awaiting, uncalled, call⟩ := JoinPc.keeps same
  have inside : t < s.threads.length := (List.getElem?_eq_some_iff.mp present).1
  have own : (s.threads.set t { l with phase := phase })[t]? = some { l with phase := phase } :=
    List.getElem?_set_self inside
  have other {t' : ℕ} (different : t ≠ t') :
      (s.threads.set t { l with phase := phase })[t']? = s.threads[t']? := List.getElem?_set_ne different
  have back {t' : ℕ} {l' : Listener} (found : (s.threads.set t { l with phase := phase })[t']? = some l') :
      t' = t ∧ l' = { l with phase := phase } ∨ s.threads[t']? = some l' := by
    by_cases same : t = t'
    · subst same
      exact Or.inl ⟨rfl, (Option.some.inj (own.symm.trans found)).symm⟩
    · exact Or.inr ((other same).symm.trans found)
  have forth {t' : ℕ} {l' : Listener} (found : s.threads[t']? = some l') :
      ∃ l'' : Listener, (s.threads.set t { l with phase := phase })[t']? = some l'' ∧
        l''.threadNum = l'.threadNum ∧ (l''.phase = phase ∨ l'' = l') := by
    by_cases same : t = t'
    · subst same
      obtain rfl := Option.some.inj (present.symm.trans found)
      exact ⟨_, own, rfl, Or.inl rfl⟩
    · exact ⟨l', (other same).trans found, rfl, Or.inr rfl⟩
  have grown {slot : ℕ} (member : slot ∈ s.terminatedThreads ++ s.joiner.awaiting) :
      slot ∈ terminated ++ joiner.awaiting := by
    rw [awaiting]
    exact (List.mem_append.mp member).elim (fun ended => List.mem_append_left _ (kept ended))
      (List.mem_append_right _)
  constructor
  · intro t' l' found unjoined'
    rcases back found with ⟨rfl, rfl⟩ | found
    · exact owned.array t' l present unjoined
    · exact owned.array t' l' found unjoined'
  · intro t' l' found unjoined' moved
    rcases back found with ⟨rfl, rfl⟩ | found
    · by_cases running : l.phase = .running
      · exact List.mem_append_left _ (announced running)
      · exact grown (owned.place t' l present unjoined running)
    · exact grown (owned.place t' l' found unjoined' moved)
  · intro slot t' stored
    obtain ⟨l', found, place⟩ := owned.created slot t' stored
    obtain ⟨l'', found, same, -⟩ := forth found
    exact ⟨l'', found, same.trans place⟩
  · intro t' l' found running
    rcases back found with ⟨rfl, rfl⟩ | found
    · exact absurd running moving
    · exact owned.running t' l' found running
  · intro slot member
    have source : slot ∈ s.terminatedThreads ++ s.joiner.uncalled ∨
        slot = l.threadNum ∧ l.phase = .running := by
      rw [uncalled] at member
      rcases List.mem_append.mp member with ended | waiting
      · exact (added slot ended).imp_left (List.mem_append_left _)
      · exact Or.inl (List.mem_append_right _ waiting)
    rcases source with old | ⟨rfl, running⟩
    · obtain ⟨t', l', found, place, unjoined', moved, fresh⟩ := owned.announced slot old
      obtain ⟨l'', found, same, phase⟩ := forth found
      refine ⟨t', l'', found, same.trans place, ?_, ?_, fresh⟩
      · rcases phase with new | rfl
        · exact new ▸ after
        · exact unjoined'
      · rcases phase with new | rfl
        · exact new ▸ moving
        · exact moved
    · exact ⟨t, _, own, rfl, after, moving, owned.running t l present running⟩
  · intro slot thread calling
    obtain ⟨t', l', rfl, found, place, unjoined'⟩ := owned.calling slot thread (call ▸ calling)
    obtain ⟨l'', found, same, phase⟩ := forth found
    refine ⟨t', l'', rfl, found, same.trans place, ?_⟩
    rcases phase with new | rfl
    · exact new ▸ after
    · exact unjoined'
  · exact owned.calls
  · intro thread call
    simpa using owned.called thread call

theorem clientListener_owned (owned : Owned s) {t : ℕ} (stepped : clientListener s t = some s') :
    Owned s' := by
  rw [clientListener] at stepped
  split at stepped
  · cases stepped
  rename_i l present
  split at stepped
  · rename_i running
    obtain rfl := Option.some.inj stepped
    refine owned.advance (Or.inr rfl) present (by simp [running]) (by simp) (by simp)
      (List.subset_cons_self _ _) ?_ (fun _ => List.mem_cons_self)
    intro slot member
    rcases List.mem_cons.mp member with rfl | old
    · exact Or.inr ⟨rfl, running⟩
    · exact Or.inl old
  · rename_i announced
    obtain rfl := Option.some.inj stepped
    exact owned.advance (Or.inr rfl) present (by simp [announced]) (by simp) (by simp)
      (List.Subset.refl _) (fun _ => Or.inl) (by simp [announced])
  · rename_i leaving
    obtain rfl := Option.some.inj stepped
    exact owned.advance (Or.inl rfl) present (by simp [leaving]) (by simp) (by simp)
      (List.Subset.refl _) (fun _ => Or.inl) (by simp [leaving])
  · cases stepped
  · cases stepped

theorem closeServer_owned (owned : Owned s) (stepped : closeServer s = some s') : Owned s' := by
  obtain ⟨-, terminated, clientThreads, threads, -, joinCalls, joiner⟩ := closeServer_frame stepped
  exact owned.same threads clientThreads joinCalls terminated (JoinPc.keeps joiner)

/-- A new thread in a slot that nobody else has. -/
theorem Owned.create (owned : Owned s) {slot : ℕ} (inside : slot < s.clientThreads.length)
    (free : slot ∉ unannounced s.threads ++ s.terminatedThreads ++ s.joiner.hand) (accept : AcceptPc) :
    Owned { s with
      clientThreads := s.clientThreads.set slot (some s.threads.length)
      threads := s.threads ++ [⟨slot, .running⟩]
      accept := accept } := by
  have back {t : ℕ} {l : Listener} (found : (s.threads ++ [⟨slot, .running⟩])[t]? = some l) :
      t = s.threads.length ∧ l = ⟨slot, .running⟩ ∨ s.threads[t]? = some l := by
    by_cases old : t < s.threads.length
    · exact Or.inr (by rwa [List.getElem?_append_left old] at found)
    · rw [List.getElem?_append_right (Nat.not_lt.mp old), List.getElem?_singleton] at found
      split_ifs at found with last
      exact Or.inl ⟨by omega, (Option.some.inj found).symm⟩
  have forth {t : ℕ} {l : Listener} (found : s.threads[t]? = some l) :
      (s.threads ++ [⟨slot, .running⟩])[t]? = some l := by
    rwa [List.getElem?_append_left (List.getElem?_eq_some_iff.mp found).1]
  have elsewhere {t : ℕ} {l : Listener} (found : s.threads[t]? = some l) (unjoined : l.phase ≠ .joined) :
      slot ≠ l.threadNum := fun same => free (same ▸ owned.busy found unjoined)
  have uncreated : some s.threads.length ∉ s.joinCalls := by
    intro call
    obtain ⟨t, same, below⟩ := owned.called _ call
    exact absurd (Option.some.inj same) (by omega)
  constructor
  · intro t l found unjoined
    rcases back found with ⟨rfl, rfl⟩ | old
    · exact List.getElem?_set_self inside
    · exact (List.getElem?_set_ne (elsewhere old unjoined)).trans (owned.array t l old unjoined)
  · intro t l found unjoined moved
    rcases back found with ⟨rfl, rfl⟩ | old
    · exact absurd rfl moved
    · exact owned.place t l old unjoined moved
  · intro slot' t stored
    by_cases same : slot = slot'
    · subst same
      rw [List.getElem?_set_self inside] at stored
      obtain rfl := Option.some.inj (Option.some.inj stored)
      exact ⟨_, List.getElem?_concat_length, rfl⟩
    · rw [List.getElem?_set_ne same] at stored
      obtain ⟨l, found, place⟩ := owned.created slot' t stored
      exact ⟨l, forth found, place⟩
  · intro t l found running
    rcases back found with ⟨rfl, rfl⟩ | old
    · exact uncreated
    · exact owned.running t l old running
  · intro slot' member
    obtain ⟨t, l, found, rest⟩ := owned.announced slot' member
    exact ⟨t, l, forth found, rest⟩
  · intro slot' thread call
    obtain ⟨t, l, same, found, rest⟩ := owned.calling slot' thread call
    exact ⟨t, l, same, forth found, rest⟩
  · exact owned.calls
  · intro thread call
    obtain ⟨t, same, below⟩ := owned.called thread call
    exact ⟨t, same, by simp; omega⟩

/-- Unless it creates a thread, `accept_connections` only touches the available slots. -/
theorem acceptConnections_frame (idle : ∀ slot, s.accept ≠ .creating slot)
    (stepped : acceptConnections s = some s') : s'.threads = s.threads ∧
      s'.clientThreads = s.clientThreads ∧ s'.joinCalls = s.joinCalls ∧
        s'.terminatedThreads = s.terminatedThreads ∧ s'.joiner = s.joiner := by
  rw [acceptConnections] at stepped
  split at stepped
  · split_ifs at stepped
    · obtain rfl := Option.some.inj stepped
      simp [ServerState.insertAvailable]
    · obtain rfl := Option.some.inj stepped
      simp
  · obtain rfl := Option.some.inj stepped
    simp
  · split_ifs at stepped
    · obtain rfl := Option.some.inj stepped
      simp
    · obtain rfl := Option.some.inj stepped
      simp
  · split at stepped
    · cases stepped
    · obtain rfl := Option.some.inj stepped
      simp
  · split_ifs at stepped
    · obtain rfl := Option.some.inj stepped
      simp
    · obtain rfl := Option.some.inj stepped
      simp
  · rename_i slot creating
    exact absurd creating (idle slot)

/-- The slot in the hand of `accept_connections` is nowhere else. -/
theorem hand_free {slot : ℕ} (distinct : s.slots.Nodup) (hand : slot ∈ s.accept.hand) :
    slot ∉ unannounced s.threads ++ s.terminatedThreads ++ s.joiner.hand := by
  have parts : s.slots = (s.availableThreads ++ s.accept.hand) ++
      (unannounced s.threads ++ s.terminatedThreads ++ s.joiner.hand) := by
    simp [ServerState.slots]
  rw [parts] at distinct
  intro elsewhere
  exact (List.nodup_append.mp distinct).2.2 slot (List.mem_append_right _ hand) slot elsewhere rfl

theorem acceptConnections_owned (owned : Owned s) (distinct : s.slots.Nodup)
    (stepped : acceptConnections s = some s') : Owned s' := by
  by_cases creates : ∃ slot, s.accept = .creating slot
  · obtain ⟨slot, creating⟩ := creates
    have free := hand_free distinct (show slot ∈ s.accept.hand by simp [creating, AcceptPc.hand])
    simp only [acceptConnections, creating] at stepped
    split_ifs at stepped with inside
    obtain rfl := Option.some.inj stepped
    exact owned.create inside free .accepting
  · obtain ⟨threads, clientThreads, joinCalls, terminated, joiner⟩ :=
      acceptConnections_frame (not_exists.mp creates) stepped
    exact owned.same threads clientThreads joinCalls terminated (JoinPc.keeps (Or.inl joiner))

/-- The slot in the hand of `join_threads` is not in the list any more. -/
theorem joiner_hand_free {slot : ℕ} (distinct : s.slots.Nodup) (hand : slot ∈ s.joiner.hand) :
    slot ∉ s.terminatedThreads := by
  rw [ServerState.slots, List.append_assoc] at distinct
  intro elsewhere
  exact (List.nodup_append.mp (List.nodup_append.mp distinct).2.1).2.2 slot elsewhere slot hand rfl

/-- The call of `pthread_join` for an announced slot: its thread has not been called for before. -/
theorem Owned.callJoin (owned : Owned s) (distinct : s.slots.Nodup) {slot : ℕ} {thread : Option ℕ}
    (holding : s.joiner = .holding slot) (stored : s.clientThreads[slot]? = some thread) :
    Owned { s with joiner := .joining slot thread, joinCalls := s.joinCalls ++ [thread] } := by
  have waiting : slot ∈ s.terminatedThreads ++ s.joiner.uncalled := by simp [holding, JoinPc.uncalled]
  have gone := joiner_hand_free distinct (show slot ∈ s.joiner.hand by simp [holding, JoinPc.hand])
  obtain ⟨t, l, present, place, unjoined, moved, fresh⟩ := owned.announced slot waiting
  obtain rfl : thread = some t := by
    have array := owned.array t l present unjoined
    rw [place, stored] at array
    exact Option.some.inj array
  have uncalled {t' : ℕ} (other : t' ≠ t) (before : some t' ∉ s.joinCalls) :
      some t' ∉ s.joinCalls ++ [some t] := by
    simpa using ⟨before, other⟩
  constructor
  · exact owned.array
  · intro t' l' found unjoined' moved'
    have old := owned.place t' l' found unjoined' moved'
    rwa [holding] at old
  · exact owned.created
  · intro t' l' found running
    refine uncalled ?_ (owned.running t' l' found running)
    rintro rfl
    obtain rfl := Option.some.inj (present.symm.trans found)
    exact moved running
  · intro slot' member
    have ended : slot' ∈ s.terminatedThreads := by simpa [JoinPc.uncalled] using member
    obtain ⟨t', l', found, place', unjoined', moved', before⟩ :=
      owned.announced slot' (List.mem_append_left _ ended)
    refine ⟨t', l', found, place', unjoined', moved', uncalled ?_ before⟩
    rintro rfl
    obtain rfl := Option.some.inj (present.symm.trans found)
    exact gone (place.symm.trans place' ▸ ended)
  · intro slot' thread call
    obtain ⟨rfl, rfl⟩ := Prod.mk.inj (Option.some.inj call)
    exact ⟨t, l, rfl, present, place, unjoined⟩
  · refine List.nodup_append.mpr ⟨owned.calls, by simp, ?_⟩
    intro call member other single same
    exact fresh (List.mem_singleton.mp single ▸ same ▸ member)
  · intro thread call
    rcases List.mem_append.mp call with old | single
    · exact owned.called thread old
    · exact ⟨t, List.mem_singleton.mp single, (List.getElem?_eq_some_iff.mp present).1⟩

/-- The joined thread leaves its slot to `join_threads`. -/
theorem Owned.join (owned : Owned s) (distinct : s.slots.Nodup) {slot t : ℕ} {l : Listener}
    (joining : s.joiner = .joining slot (some t)) (present : s.threads[t]? = some l) :
    Owned { s with threads := s.threads.set t { l with phase := .joined }, joiner := .inserting slot } := by
  have inside : t < s.threads.length := (List.getElem?_eq_some_iff.mp present).1
  have gone := joiner_hand_free distinct (show slot ∈ s.joiner.hand by simp [joining, JoinPc.hand])
  obtain ⟨place, unjoined⟩ : l.threadNum = slot ∧ l.phase ≠ .joined := by
    obtain ⟨t', l', same, found, place, unjoined⟩ :=
      owned.calling slot (some t) (by rw [joining, JoinPc.call])
    obtain rfl := Option.some.inj same
    obtain rfl := Option.some.inj (present.symm.trans found)
    exact ⟨place, unjoined⟩
  have own : (s.threads.set t { l with phase := .joined })[t]? = some { l with phase := .joined } :=
    List.getElem?_set_self inside
  have other {t' : ℕ} (different : t ≠ t') :
      (s.threads.set t { l with phase := .joined })[t']? = s.threads[t']? := List.getElem?_set_ne different
  have back {t' : ℕ} {l' : Listener} (found : (s.threads.set t { l with phase := .joined })[t']? = some l') :
      l'.phase = .joined ∨ t ≠ t' ∧ s.threads[t']? = some l' := by
    by_cases same : t = t'
    · subst same
      exact Or.inl (Option.some.inj (own.symm.trans found) ▸ rfl)
    · exact Or.inr ⟨same, (other same).symm.trans found⟩
  constructor
  · intro t' l' found unjoined'
    rcases back found with joined | ⟨-, old⟩
    · exact absurd joined unjoined'
    · exact owned.array t' l' old unjoined'
  · intro t' l' found unjoined' moved
    rcases back found with joined | ⟨different, old⟩
    · exact absurd joined unjoined'
    · have before := owned.place t' l' old unjoined' moved
      rw [joining, JoinPc.awaiting] at before
      rcases List.mem_append.mp before with ended | single
      · exact List.mem_append_left _ ended
      · exact absurd (owned.distinct present old unjoined unjoined'
          (place.trans (List.mem_singleton.mp single).symm)) different
  · intro slot' t' stored
    obtain ⟨l', found, place'⟩ := owned.created slot' t' stored
    by_cases same : t = t'
    · subst same
      obtain rfl := Option.some.inj (present.symm.trans found)
      exact ⟨_, own, place'⟩
    · exact ⟨l', (other same).trans found, place'⟩
  · intro t' l' found running
    rcases back found with joined | ⟨-, old⟩
    · exact absurd (running.symm.trans joined) (by decide)
    · exact owned.running t' l' old running
  · intro slot' member
    have ended : slot' ∈ s.terminatedThreads := by simpa [JoinPc.uncalled] using member
    obtain ⟨t', l', found, place', rest⟩ := owned.announced slot' (List.mem_append_left _ ended)
    refine ⟨t', l', (other ?_).trans found, place', rest⟩
    rintro rfl
    obtain rfl := Option.some.inj (present.symm.trans found)
    exact gone (place.symm.trans place' ▸ ended)
  · intro slot' thread call
    cases call
  · exact owned.calls
  · intro thread call
    simpa using owned.called thread call

theorem joinThreads_owned (owned : Owned s) (distinct : s.slots.Nodup)
    (stepped : joinThreads s = some s') : Owned s' := by
  rw [joinThreads] at stepped
  split at stepped
  · rename_i testing
    split_ifs at stepped
    · obtain rfl := Option.some.inj stepped
      exact owned.same rfl rfl rfl rfl (by simp [testing, JoinPc.awaiting, JoinPc.uncalled, JoinPc.call])
    · obtain rfl := Option.some.inj stepped
      exact owned.same rfl rfl rfl rfl (by simp [testing, JoinPc.awaiting, JoinPc.uncalled, JoinPc.call])
  · rename_i falling
    obtain rfl := Option.some.inj stepped
    exact owned.same rfl rfl rfl rfl (by simp [falling, JoinPc.awaiting, JoinPc.uncalled, JoinPc.call])
  · cases stepped
  · rename_i woken
    split_ifs at stepped
    · obtain rfl := Option.some.inj stepped
      exact owned.same rfl rfl rfl rfl (by simp [woken, JoinPc.awaiting, JoinPc.uncalled, JoinPc.call])
    · obtain rfl := Option.some.inj stepped
      exact owned.same rfl rfl rfl rfl (by simp [woken, JoinPc.awaiting, JoinPc.uncalled, JoinPc.call])
  · rename_i removing
    split at stepped
    · cases stepped
    · rename_i slot rest ended
      obtain rfl := Option.some.inj stepped
      refine owned.frame rfl rfl rfl ?_ ?_ (by simp [removing, JoinPc.call])
      · simp [removing, ended, JoinPc.awaiting]
      · simp [removing, ended, JoinPc.uncalled]
  · rename_i slot holding
    split at stepped
    · cases stepped
    · rename_i thread stored
      obtain rfl := Option.some.inj stepped
      exact owned.callJoin distinct holding stored
  · rename_i slot thread joining
    split at stepped
    · cases stepped
    split at stepped
    · cases stepped
    rename_i t _ l present
    split_ifs at stepped
    obtain rfl := Option.some.inj stepped
    exact owned.join distinct joining present
  · rename_i slot inserting
    obtain rfl := Option.some.inj stepped
    exact owned.same rfl rfl rfl rfl (by simp [inserting, JoinPc.awaiting, JoinPc.uncalled, JoinPc.call])
  · cases stepped

theorem step_owned (s : ServerState) (e : Event) (s' : ServerState)
    (inv : Owned s ∧ s.total.Nodup) (stepped : step s e = some s') : Owned s' ∧ s'.total.Nodup := by
  obtain ⟨owned, distinct⟩ := inv
  have slots : s.slots.Nodup := (List.nodup_append.mp distinct).2.1
  constructor
  · cases e with
    | accept => exact acceptConnections_owned owned slots stepped
    | listener t => exact clientListener_owned owned stepped
    | join => exact joinThreads_owned owned slots stepped
    | close => exact closeServer_owned owned stepped
  · by_cases admits : Admits s e
    · exact (step_moves s e s' admits stepped).nodup_iff.mpr distinct
    · obtain ⟨slot, lost⟩ := step_loses s e s' admits stepped
      exact (List.nodup_cons.mp (lost.nodup_iff.mp distinct)).2

end Owners

theorem run_owned {events : List Event} {s : ServerState} (ran : run step .start events = some s) :
    Owned s ∧ s.total.Nodup :=
  run_invariant step_owned ⟨owned_start, by decide⟩ ran

/-- The slots of the threads that have not been joined are below THREADS. -/
theorem unjoined_below {events : List Event} {s : ServerState} (ran : run step .start events = some s)
    {t : ℕ} {l : Listener} (present : s.threads[t]? = some l) (unjoined : l.phase ≠ .joined) :
    l.threadNum ∈ List.range THREADS := by
  obtain ⟨owned, -⟩ := run_owned ran
  obtain ⟨lost, all, -⟩ := run_slots ran
  refine all.subset (List.mem_append_left _ (List.mem_append_right _ ?_))
  have busy := owned.busy present unjoined
  simp only [ServerState.slots, List.mem_append] at busy ⊢
  tauto

/-- In every state that a run reaches, no slot is in two places; where a thread is about to be
created, the previous thread of the slot has been joined; no two threads that have not been joined
share a slot; `pthread_join` has been called at most once for each thread, and only for threads that
were created; and at most THREADS listeners are alive. -/
theorem slot_has_one_owner {events : List Event} {s : ServerState} (ran : run step .start events = some s) :
    (s.availableThreads ++ unannounced s.threads ++ s.terminatedThreads ++ s.joiner.hand).Nodup ∧
    (∀ (slot t : ℕ) (l : Listener), s.accept = .creating slot → s.clientThreads[slot]? = some (some t) →
      s.threads[t]? = some l → l.phase = .joined) ∧
    (∀ (t t' : ℕ) (l l' : Listener), s.threads[t]? = some l → s.threads[t']? = some l' →
      l.phase ≠ .joined → l'.phase ≠ .joined → l.threadNum = l'.threadNum → t = t') ∧
    s.joinCalls.Nodup ∧ (∀ thread ∈ s.joinCalls, ∃ t, thread = some t ∧ t < s.threads.length) ∧
    (s.threads.filter fun l => l.phase ≠ .returned ∧ l.phase ≠ .joined).length ≤ THREADS := by
  obtain ⟨owned, distinct⟩ := run_owned ran
  have slots : s.slots.Nodup := (List.nodup_append.mp distinct).2.1
  refine ⟨?_, ?_, ?_, owned.calls, owned.called, ?_⟩
  · have without := List.sublist_append_left s.availableThreads s.accept.hand
    exact slots.sublist (((without.append_right _).append_right _).append_right _)
  · intro slot t l creating stored present
    by_contra unjoined
    obtain ⟨l', found, place⟩ := owned.created slot t stored
    obtain rfl := Option.some.inj (present.symm.trans found)
    have free := hand_free slots (show slot ∈ s.accept.hand by simp [creating, AcceptPc.hand])
    exact free (place ▸ owned.busy present unjoined)
  · intro t t' l l' present present' unjoined unjoined' same
    exact owned.distinct present present' unjoined unjoined' same
  · have apart : ((s.threads.filter fun l => l.phase ≠ .returned ∧ l.phase ≠ .joined).map
        Listener.threadNum).Nodup := by
      apply nodup_map_filter
      intro i j x y present present' alive alive' same
      simp only [decide_eq_true_eq] at alive alive'
      exact owned.distinct present present' alive.2 alive'.2 same
    have below : (s.threads.filter fun l => l.phase ≠ .returned ∧ l.phase ≠ .joined).map
        Listener.threadNum ⊆ List.range THREADS := by
      intro slot member
      obtain ⟨l, inside, rfl⟩ := List.mem_map.mp member
      obtain ⟨present, alive⟩ := List.mem_filter.mp inside
      obtain ⟨t, found⟩ := List.mem_iff_getElem?.mp present
      simp only [decide_eq_true_eq] at alive
      exact unjoined_below ran found alive.2
    simpa using (List.subperm_of_subset apart below).length_le

/-- The hand-over of slot 0 after its listener has announced it. -/
theorem slot_has_one_owner_handover :
    ∃ s, run step .start (List.replicate 16 .accept ++ [.listener 0, .join, .join]) = some s ∧
      s.joiner = .holding 0 ∧
      (s.availableThreads ++ unannounced s.threads ++ s.terminatedThreads ++ s.joiner.hand).Nodup := by
  refine ⟨⟨[1, 2, 3, 4, 5, 6, 7, 8, 9], [], some 0 :: List.replicate 9 none, [⟨0, .announced⟩], .accepting,
    .holding 0, .idle, false, false, []⟩, rfl, rfl, ?_⟩
  exact (@slot_has_one_owner (List.replicate 16 .accept ++ [.listener 0, .join, .join]) _ rfl).1

end Operativsystem.Server
