import Operativsystem.Latency.Rounds
import Operativsystem.Library.RunningMean

/-! # The statistics of `latt`

`update_stats` sees one delay at a time. What it keeps are the number, the mean, the squared deviations and the
maximum of all the delays that have been logged, and from the rounds follows how many these are. The doubles are
exact here.
-/

namespace Operativsystem.Latency.Rounds

open Machine RunningMean

/-- The statistics at the start, all members 0. -/
def noStats : Stats := ⟨0, 0, 0, 0⟩

/-- The members without the maximum. -/
def Stats.moments (s : Stats) : Moments ℚ := ⟨s.n, s.mean, s.m2⟩

/-- The statistics are those of the values. -/
structure Stats.Describes (s : Stats) (values : List ℤ) : Prop where
  n : s.n = values.length
  mean : s.mean * values.length = (values.map fun (v : ℤ) => (v : ℚ)).sum
  m2 : s.m2 = (values.map fun (v : ℤ) => ((v : ℚ) - s.mean) ^ 2).sum
  bound : ∀ v ∈ values, (v : ℚ) ≤ s.max
  attained : s.max = 0 ∨ ∃ v ∈ values, s.max = v

theorem moments_updateStats (s : Stats) (val : ℤ) : (updateStats s val).moments = s.moments.push val := rfl

theorem moments_foldl (values : List ℤ) : (values.foldl updateStats noStats).moments =
    moments (values.map fun (v : ℤ) => (v : ℚ)) := by
  induction values using List.reverseRecOn with
  | nil => rfl
  | append_singleton values v ih =>
    rw [List.foldl_append, List.map_append, List.map_singleton, moments_snoc, ← ih]
    exact moments_updateStats _ v

theorem updateStats_max (s : Stats) (val : ℤ) : (updateStats s val).max = max s.max val := by
  rw [updateStats, max_def_lt]

theorem max_snoc (values : List ℤ) (v : ℤ) : ((values ++ [v]).foldl updateStats noStats).max =
    max (values.foldl updateStats noStats).max v := by
  rw [List.foldl_append, ← updateStats_max]
  rfl

theorem le_max (values : List ℤ) : ∀ v ∈ values, (v : ℚ) ≤ (values.foldl updateStats noStats).max := by
  induction values using List.reverseRecOn with
  | nil => exact fun v member => absurd member List.not_mem_nil
  | append_singleton values last ih =>
    rw [max_snoc]
    refine List.forall_mem_append.mpr ⟨fun v member => ?_, List.forall_mem_singleton.mpr (le_max_right _ _)⟩
    exact (ih v member).trans (le_max_left _ _)

theorem max_attained (values : List ℤ) : (values.foldl updateStats noStats).max = 0 ∨
    ∃ v ∈ values, (values.foldl updateStats noStats).max = v := by
  induction values using List.reverseRecOn with
  | nil => exact .inl rfl
  | append_singleton values last ih =>
    rw [max_snoc]
    rcases max_choice (values.foldl updateStats noStats).max (last : ℚ) with same | same
    · rw [same]
      rcases ih with zero | ⟨v, member, attained⟩
      · exact .inl zero
      · exact .inr ⟨v, List.mem_append_left _ member, attained⟩
    · exact .inr ⟨last, List.mem_append_right _ (List.mem_singleton.mpr rfl), same⟩

/-- `update_stats` for one value after the other. -/
theorem describes_foldl (values : List ℤ) : (values.foldl updateStats noStats).Describes values := by
  have same := moments_foldl values
  have sizes : (values.map fun (v : ℤ) => (v : ℚ)).length = values.length := List.length_map ..
  refine ⟨?_, ?_, ?_, le_max values, max_attained values⟩
  · rw [← sizes, ← moments_n, ← same]
    rfl
  · rw [← sizes, ← moments_mean, ← same]
    rfl
  · have squared := moments_m2 (values.map fun (v : ℤ) => (v : ℚ))
    rw [← same, List.map_map] at squared
    exact squared

/-- What `log_delay` has made of the log. -/
structure Kept (compress : Bool) (s : Test) : Prop where
  delay : s.delayStats = (s.log.map Reply.delay).foldl updateStats noStats
  work : s.delayWorkStats = if compress then (s.log.map Reply.workDelay).foldl updateStats noStats else noStats

section Steps

variable {clients : ℕ} {compress : Bool} {s s' : Test}

theorem Kept.frame (kept : Kept compress s) (delay : s'.delayStats = s.delayStats)
    (work : s'.delayWorkStats = s.delayWorkStats) (log : s'.log = s.log) : Kept compress s' :=
  ⟨by rw [delay, log, kept.delay], by rw [work, log, kept.work]⟩

/-- A reply is logged and counted. -/
theorem readTs_logs {i : ℕ} (read : readTs compress s i = some s') : ∃ reply : Reply,
    s'.log = s.log ++ [reply] ∧ s'.delayStats = updateStats s.delayStats reply.delay ∧
      s'.delayWorkStats =
        if compress then updateStats s.delayWorkStats reply.workDelay else s.delayWorkStats := by
  cases queue : (s.connections i).toParent with
  | nil => simp [Rounds.readTs, queue] at read
  | cons rs rest =>
    simp only [Rounds.readTs, queue] at read
    cases read
    exact ⟨⟨i, (s.connections i).t1, rs⟩, (List.append_assoc ..).symm, rfl, rfl⟩

theorem Kept.readTs {i : ℕ} (kept : Kept compress s) (read : readTs compress s i = some s') :
    Kept compress s' := by
  obtain ⟨reply, log, delay, work⟩ := readTs_logs read
  constructor
  · rw [delay, log, List.map_append, List.foldl_append, ← kept.delay]
    rfl
  · rw [work, log, List.map_append, List.foldl_append, kept.work]
    cases compress <;> rfl

theorem kept_parent (kept : Kept compress s) (stepped : parentStep clients compress s = some s') :
    Kept compress s' := by
  cases pc : s.parent with
  | sleep | arm | write =>
    simp only [parentStep, pc] at stepped
    cases stepped
    exact kept.frame rfl rfl rfl
  | stamp k =>
    simp only [parentStep, pc] at stepped
    split_ifs at stepped <;> cases stepped <;> exact kept.frame rfl rfl rfl
  | poll pending =>
    simp only [parentStep, pc] at stepped
    obtain ⟨-, same⟩ := Option.ite_none_right_eq_some.mp stepped
    cases same
    exact kept.frame rfl rfl (by simp [Test.log])
  | read pending revents k nr =>
    simp only [parentStep, pc] at stepped
    split_ifs at stepped
    · obtain ⟨t, read, same⟩ := Option.bind_eq_some_iff.mp stepped
      cases same
      have asked : Kept compress (s.set k { s.connections k with pollin := false }) := kept.frame rfl rfl rfl
      exact (asked.readTs read).frame rfl rfl rfl
    · cases stepped
      exact kept.frame rfl rfl rfl
    · cases stepped
      exact kept.frame rfl rfl rfl
  | finished => simp [parentStep, pc] at stepped

theorem kept_step (s : Test) (e : Event) (s' : Test) (kept : Kept compress s)
    (stepped : testStep clients compress s e = some s') : Kept compress s' := by
  cases e with
  | tick elapsed =>
    cases stepped
    exact kept.frame rfl rfl rfl
  | parent => exact kept_parent kept stepped
  | poll revents =>
    cases pc : s.parent with
    | poll pending =>
      simp only [testStep, pollStep, pc] at stepped
      obtain ⟨-, same⟩ := Option.ite_none_right_eq_some.mp stepped
      cases same
      exact kept.frame rfl rfl rfl
    | sleep | arm | stamp | write | read | finished => simp [testStep, pollStep, pc] at stepped
  | leave =>
    obtain ⟨-, same⟩ := Option.ite_none_right_eq_some.mp stepped
    cases same
    exact kept.frame rfl rfl rfl
  | child i =>
    obtain ⟨-, stepped⟩ := Option.ite_none_right_eq_some.mp stepped
    obtain ⟨c, -, same⟩ := Option.map_eq_some_iff.mp stepped
    cases same
    exact kept.frame rfl rfl rfl

/-- The rounds that are over have logged as many replies as there are clients, each of them. -/
theorem Sound.log_length {awaited : ℕ → Prop} (sound : Sound clients compress awaited s) :
    s.log.length = s.rounds.length * clients + s.heard.length := by
  have each : ∀ length ∈ s.rounds.map List.length, length = clients := by
    intro length member
    obtain ⟨round, inside, rfl⟩ := List.mem_map.mp member
    simpa using (sound.rounds round inside).length_eq
  rw [Test.log, List.length_append, List.length_flatten, List.eq_replicate_of_mem each, List.sum_replicate,
    List.length_map, Test.heard, List.length_map, smul_eq_mul]

end Steps

/-- In every run the statistics of the delays, and with a work buffer those of the work delays, are those of all
the replies that have been logged: one of each client for each round that is over, and those of the clients that
have been heard in the current round. -/
theorem statistics_exact {clients : ℕ} (fits : clients < 2 ^ 32) {compress : Bool} {clock : ℕ}
    {memory : ℕ → Connection} {events : List Event} {s : Test}
    (ran : run (testStep clients compress) (.start clock memory) events = some s) :
    s.delayStats.Describes (s.log.map Reply.delay) ∧
      s.delayWorkStats.Describes (if compress then s.log.map Reply.workDelay else []) ∧
      s.delayStats.n = s.rounds.length * clients + s.heard.length := by
  have start : Kept compress (.start clock memory) := ⟨rfl, by cases compress <;> rfl⟩
  have kept := run_invariant kept_step start ran
  obtain ⟨awaited, sound⟩ := run_invariant (sound_step fits) ⟨_, sound_start clock memory⟩ ran
  have delays : s.delayStats.Describes (s.log.map Reply.delay) := kept.delay ▸ describes_foldl _
  refine ⟨delays, ?_, ?_⟩
  · rw [kept.work]
    cases compress with
    | true => exact describes_foldl _
    | false => exact describes_foldl []
  · rw [delays.n, List.length_map, sound.log_length]
    push_cast
    rfl

/-- The round with one client: one delay of three microseconds. -/
theorem statistics_exact_one :
    ∃ s, run (testStep 1 false) (.start 0 fun _ => blank) oneRound = some s ∧
      s.delayStats.Describes (s.log.map Reply.delay) ∧
      s.delayStats.n = s.rounds.length * 1 + s.heard.length := by
  have ran : run (testStep 1 false) (.start 0 fun _ => blank) oneRound = some _ := rfl
  obtain ⟨delays, -, count⟩ := statistics_exact (by decide) ran
  exact ⟨_, ran, delays, by exact_mod_cast count⟩

end Operativsystem.Latency.Rounds
