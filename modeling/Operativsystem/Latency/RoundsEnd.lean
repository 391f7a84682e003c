import Operativsystem.Latency.Rounds
import Operativsystem.Library.Work

/-! # Every round of `latt` comes to its end

In a round the parent writes to each client, and each `poll` that returns brings it nearer to the end. The steps
that are left of the round are a measure, to which the end of a round adds those of the next one.
-/

namespace Operativsystem.Latency.Rounds

open Machine

/-- The steps of the parent and of the clients; the other events do not have to happen. -/
def Event.isStep : Event → Bool
  | .parent | .poll _ | .child _ => true
  | .tick _ | .leave => false

section Progress

variable {clients : ℕ} {compress : Bool} {awaited : ℕ → Prop} {s : Test}

/-- Somebody who has not been heard in this round gets on, or has replied. -/
theorem Sound.poll_progress {pending : ℤ} (sound : Sound clients compress awaited s)
    (pc : s.parent = .poll pending) : ∃ e, e.isStep ∧ (testStep clients compress s e).isSome := by
  have phase := sound.phase
  rw [pc] at phase
  obtain ⟨counted, polling⟩ := phase
  by_cases none : pending = 0
  · exact ⟨.parent, rfl, by simp [testStep, parentStep, pc, none]⟩
  obtain ⟨i, low, unheard⟩ : ∃ i < clients, i ∉ s.heard := by
    by_contra! all
    have subset : List.range clients ⊆ s.heard := fun i member => all i (List.mem_range.mp member)
    have length := (List.nodup_range.subperm subset).length_le
    rw [List.length_range] at length
    have := sound.heard_length
    omega
  rcases (sound.serves i low ((polling.awaits i low).mpr unheard)).progress with steps | replied
  · exact ⟨.child i, rfl, by simp [testStep, low, steps]⟩
  · refine ⟨.poll {i}, rfl, ?_⟩
    have ready : s.Ready clients {i} := by
      simp [Test.Ready, low, (polling.pollin i low).mpr unheard, replied]
    simp [testStep, pollStep, pc, none, ready]

/-- While `run_parent` is in its loop somebody can take a step. -/
theorem Sound.progress (sound : Sound clients compress awaited s) (looping : s.parent ≠ .finished) :
    ∃ e, e.isStep ∧ (testStep clients compress s e).isSome := by
  cases pc : s.parent with
  | sleep => exact ⟨.parent, rfl, by simp [testStep, parentStep, pc]⟩
  | arm => exact ⟨.parent, rfl, by simp [testStep, parentStep, pc]⟩
  | stamp k =>
    refine ⟨.parent, rfl, ?_⟩
    simp only [testStep, parentStep, pc]
    split <;> rfl
  | write k => exact ⟨.parent, rfl, by simp [testStep, parentStep, pc]⟩
  | poll pending => exact sound.poll_progress pc
  | read pending revents k nr =>
    have phase := sound.phase
    rw [pc] at phase
    obtain ⟨reading, -⟩ := phase
    refine ⟨.parent, rfl, ?_⟩
    by_cases member : k ∈ revents
    · obtain ⟨-, -, replied⟩ := reading.ready k member le_rfl
      obtain ⟨rs, rest, there⟩ := List.exists_cons_of_ne_nil replied
      simp [testStep, parentStep, pc, reading.low, member, readTs, there]
    · simp [testStep, parentStep, pc, reading.low, member]
  | finished => exact absurd pc looping

end Progress

/-- How many steps a client may take. -/
def ChildPc.work : ChildPc → ℕ
  | .read => 0
  | .preWork => 3
  | .postWork => 2
  | .write => 1

def Connection.work (c : Connection) : ℕ := 4 * c.toChild.length + c.pc.work

/-- How many steps the parent may take until nobody is pending. -/
def pollWork (clients : ℕ) (pending : ℤ) : ℕ := pending.toNat * (clients + 2) + 1

/-- The steps of the clients are counted with the parent until it writes to them. -/
def Parent.work (clients : ℕ) : Parent → ℕ
  | .sleep => 6 * clients + pollWork clients clients + 3
  | .arm => 6 * clients + pollWork clients clients + 2
  | .stamp k => 6 * (clients - k) + pollWork clients clients + 1
  | .write k => 6 * (clients - k) + pollWork clients clients
  | .poll pending => pollWork clients pending
  | .read pending revents k _ => pollWork clients (pending - revents.card) + (clients - k) + 1
  | .finished => 0

def Test.work (clients : ℕ) (s : Test) : ℕ :=
  s.parent.work clients + ∑ i ∈ Finset.range clients, (s.connections i).work

/-- The steps of a round, at most. -/
def roundWork (clients : ℕ) : ℕ := Parent.sleep.work clients

/-- The value of the measure in a state, less what each round that is over has brought. -/
def Test.value (clients : ℕ) (s : Test) : ℤ := s.work clients - roundWork clients * s.rounds.length

section Work

variable {clients : ℕ} {compress : Bool} {awaited : ℕ → Prop} {s s' : Test}

theorem value_lt (rounds : s'.rounds = s.rounds) (less : s'.work clients < s.work clients) :
    s'.value clients < s.value clients := by
  rw [Test.value, Test.value, rounds]
  omega

theorem childStep_work {clock : ℕ} {c c' : Connection} (stepped : childStep compress clock c = some c') :
    c'.work < c.work := by
  cases pc : c.pc with
  | read =>
    cases queue : c.toChild with
    | nil => simp [childStep, pc, queue] at stepped
    | cons ts rest =>
      simp only [childStep, pc, queue] at stepped
      cases stepped
      simp only [Connection.work, ChildPc.work, pc, queue, List.length_cons]
      omega
  | preWork =>
    simp only [childStep, pc] at stepped
    cases stepped
    cases compress <;> simp [Connection.work, ChildPc.work, pc]
  | postWork =>
    simp only [childStep, pc] at stepped
    cases stepped
    simp [Connection.work, ChildPc.work, pc]
  | write =>
    simp only [childStep, pc] at stepped
    cases stepped
    simp [Connection.work, ChildPc.work, pc]

theorem value_child {i : ℕ} {c : Connection} (inside : i < clients)
    (stepped : childStep compress s.clock (s.connections i) = some c) :
    (s.set i c).value clients < s.value clients := by
  have sum := sum_range_update inside s.connections Connection.work c
  have less := childStep_work stepped
  refine value_lt rfl ?_
  simp only [Test.work, Test.set]
  omega

theorem value_poll {revents : Finset ℕ} (sound : Sound clients compress awaited s)
    (stepped : pollStep clients s revents = some s') : s'.value clients < s.value clients := by
  have phase := (sound.poll stepped).phase
  cases pc : s.parent with
  | poll pending =>
    simp only [pollStep, pc] at stepped
    obtain ⟨⟨-, some, -⟩, same⟩ := Option.ite_none_right_eq_some.mp stepped
    cases same
    obtain ⟨reading, -⟩ := phase
    have enough := reading.enough
    have positive := some.card_pos
    refine value_lt rfl ?_
    simp only [Test.work, pc, Parent.work, pollWork]
    obtain ⟨rest, split⟩ : ∃ rest : ℕ, pending = rest + revents.card :=
      ⟨(pending - revents.card).toNat, by omega⟩
    subst split
    have left : ((rest : ℤ) + revents.card - revents.card).toNat = rest := by omega
    have whole : ((rest : ℤ) + revents.card).toNat = rest + revents.card := by omega
    rw [left, whole, Nat.add_mul]
    have := Nat.mul_le_mul_right (clients + 2) positive
    omega
  | sleep | arm | stamp | write | read | finished => simp [pollStep, pc] at stepped

theorem work_set_same {i : ℕ} (inside : i < clients) {c : Connection} (same : c.work = (s.connections i).work) :
    ∑ j ∈ Finset.range clients, ((s.set i c).connections j).work =
      ∑ j ∈ Finset.range clients, (s.connections j).work := by
  have sum := sum_range_update inside s.connections Connection.work c
  simp only [Test.set]
  omega

theorem work_written (c : Connection) :
    Connection.work { c with toChild := c.toChild ++ [c.t1] } = c.work + 4 := by
  simp only [Connection.work, List.length_append, List.length_singleton]
  omega

theorem next_work {pending : ℤ} {revents : Finset ℕ} {k : ℕ} {nr nr' : ℤ} (low : k < clients)
    (enough : revents.card ≤ pending) :
    (Parent.next pending revents k nr').work clients < (Parent.read pending revents k nr).work clients := by
  rw [Parent.next]
  split
  · have less : (u32 (pending - revents.card)).toNat ≤ (pending - revents.card).toNat := by
      rw [u32]
      omega
    have := Nat.mul_le_mul_right (clients + 2) less
    simp only [Parent.work, pollWork]
    omega
  · simp only [Parent.work]
    omega

theorem value_parent (sound : Sound clients compress awaited s)
    (stepped : parentStep clients compress s = some s') : s'.value clients < s.value clients := by
  have phase := sound.phase
  cases pc : s.parent with
  | sleep =>
    simp only [parentStep, pc] at stepped
    cases stepped
    exact value_lt rfl (by simp only [Test.work, pc, Parent.work]; omega)
  | arm =>
    simp only [parentStep, pc] at stepped
    cases stepped
    refine value_lt rfl ?_
    simp only [Test.work, pc, Parent.work, Connection.work]
    omega
  | stamp k =>
    simp only [parentStep, pc] at stepped
    split_ifs at stepped with low
    · cases stepped
      refine value_lt rfl ?_
      have sum := @work_set_same _ s _ low { s.connections k with t1 := clockGettime s.clock } rfl
      simp only [Test.work, pc, Parent.work, sum]
      omega
    · cases stepped
      exact value_lt rfl (by simp only [Test.work, pc, Parent.work]; omega)
  | write k =>
    rw [pc] at phase
    obtain ⟨low, -⟩ := phase
    simp only [parentStep, pc] at stepped
    cases stepped
    refine value_lt rfl ?_
    have sum := sum_range_update low s.connections Connection.work
      { s.connections k with toChild := (s.connections k).toChild ++ [(s.connections k).t1] }
    rw [work_written] at sum
    dsimp only at sum
    simp only [Test.work, Test.set, pc, Parent.work]
    omega
  | poll pending =>
    simp only [parentStep, pc] at stepped
    obtain ⟨rfl, same⟩ := Option.ite_none_right_eq_some.mp stepped
    cases same
    simp only [Test.value, Test.work, roundWork, pc, Parent.work, pollWork, List.length_append,
      List.length_singleton, Int.natCast_add, Int.mul_add]
    omega
  | read pending revents k nr =>
    rw [pc] at phase
    obtain ⟨reading, -⟩ := phase
    simp only [parentStep, pc, if_pos reading.low] at stepped
    by_cases member : k ∈ revents
    · rw [if_pos member] at stepped
      obtain ⟨t, read, same⟩ := Option.bind_eq_some_iff.mp stepped
      cases same
      obtain ⟨-, -, replied⟩ := reading.ready k member le_rfl
      obtain ⟨rs, rest, there⟩ := List.exists_cons_of_ne_nil replied
      obtain ⟨-, rounds, -, own, others⟩ := readTs_cases there read
      have sum : ∑ j ∈ Finset.range clients, (t.connections j).work =
          ∑ j ∈ Finset.range clients, (s.connections j).work := by
        refine Finset.sum_congr rfl fun j _ => ?_
        by_cases same : j = k
        · rw [same, own]
          rfl
        · rw [others j same]
      refine value_lt rounds ?_
      have less := @next_work clients pending revents k nr (u32 (nr - 1)) reading.low reading.enough
      simp only [Test.work, pc, sum]
      omega
    · rw [if_neg member] at stepped
      cases stepped
      have less := @next_work clients pending revents k nr nr reading.low reading.enough
      refine value_lt rfl ?_
      simp only [Test.work, pc]
      omega
  | finished => simp [parentStep, pc] at stepped

theorem value_step (s : Test) (e : Event) (s' : Test) (sound : ∃ awaited, Sound clients compress awaited s)
    (stepped : testStep clients compress s e = some s') (step : e.isStep = true) :
    s'.value clients < s.value clients := by
  obtain ⟨awaited, sound⟩ := sound
  cases e with
  | parent => exact value_parent sound stepped
  | poll revents => exact value_poll sound stepped
  | child i =>
    obtain ⟨inside, stepped⟩ := Option.ite_none_right_eq_some.mp stepped
    obtain ⟨c, taken, same⟩ := Option.map_eq_some_iff.mp stepped
    cases same
    exact value_child inside taken
  | tick | leave => cases step

/-- Time that passes brings no work, and the end of the loop takes it away. -/
theorem value_other (s : Test) (e : Event) (s' : Test) (stepped : testStep clients compress s e = some s')
    (other : e.isStep = false) : s'.value clients ≤ s.value clients + (0 : ℕ) := by
  cases e with
  | tick elapsed =>
    cases stepped
    exact (Int.add_zero _).symm.le
  | leave =>
    obtain ⟨-, same⟩ := Option.ite_none_right_eq_some.mp stepped
    cases same
    simp only [Test.value, Test.work, Parent.work]
    omega
  | parent | poll | child => cases other

end Work

/-- While the parent is in its loop somebody can take a step, and the steps of each round are bounded: so every
round comes to its end, unless the parent leaves its loop. -/
theorem rounds_go_on {clients : ℕ} (fits : clients < 2 ^ 32) {compress : Bool} {clock : ℕ}
    {memory : ℕ → Connection} {events : List Event} {s : Test}
    (ran : run (testStep clients compress) (.start clock memory) events = some s) :
    (s.parent ≠ .finished → ∃ e, e.isStep ∧ (testStep clients compress s e).isSome) ∧
      events.countP Event.isStep ≤ roundWork clients * (s.rounds.length + 1) := by
  have start : ∃ awaited, Sound clients compress awaited (.start clock memory) := ⟨_, sound_start clock memory⟩
  obtain ⟨awaited, sound⟩ := run_invariant (sound_step fits) start ran
  refine ⟨sound.progress, ?_⟩
  have bound := run_bounded (P := fun _ _ => True) (Test.value clients) Event.isStep 0
    (fun s e s' _ => sound_step fits s e s') (fun s e s' _ => value_step s e s')
    (fun s e s' _ _ => value_other s e s') start (.of_forall fun _ _ _ => trivial) ran
  have whole : Test.value clients (.start clock memory) = roundWork clients := by
    simp [Test.value, Test.work, Test.start, roundWork, Connection.work, ChildPc.work]
  rw [whole, Test.value, Int.natCast_zero, Int.zero_mul, Int.add_zero] at bound
  rw [Nat.mul_add, Nat.mul_one]
  zify
  omega

/-- The round with one client. -/
theorem rounds_go_on_one :
    ∃ s, run (testStep 1 false) (.start 0 fun _ => blank) oneRound = some s ∧
      oneRound.countP Event.isStep ≤ roundWork 1 * (s.rounds.length + 1) := by
  have ran : run (testStep 1 false) (.start 0 fun _ => blank) oneRound = some _ := rfl
  exact ⟨_, ran, (rounds_go_on (by decide) ran).2⟩

end Operativsystem.Latency.Rounds
