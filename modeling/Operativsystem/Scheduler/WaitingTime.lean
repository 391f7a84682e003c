import Operativsystem.Scheduler.ScheduleTester
import Mathlib.Algebra.Order.BigOperators.Group.List
import Mathlib.Tactic.Linarith
import Mathlib.Tactic.LinearCombination
import Mathlib.Tactic.Ring

/-! # The mean waiting time of the schedule tester

What the workers add up is the sum of their waiting times and of how far they are displaced: the start stamp in
the first element is the first worker's, and the end stamp there is the last one that was taken. The mean that
is printed is compared with the mean of the waiting times.
-/

namespace Operativsystem.Scheduler

open Machine

/-- The time from the start stamp of a worker to its end stamp. -/
def Waited.waitingTime (w : Waited) : ℚ := secSince w.start w.own

/-- The start stamp of the first worker. -/
def firstStart : List Waited → Timespec
  | [] => ⟨0, 0⟩
  | w :: _ => w.start

/-- How much more is added for a worker: its start stamp and the end stamp that it finds are not its own. -/
def Waited.displacement (first : Timespec) (w : Waited) : ℚ := secSince first w.start + secSince w.own w.seen

def totalWaiting (waited : List (List Waited)) : ℚ :=
  (waited.map fun r => (r.map Waited.waitingTime).sum).sum

def totalDisplacement (waited : List (List Waited)) : ℚ :=
  (waited.map fun r => (r.map (Waited.displacement (firstStart r))).sum).sum

/-- The mean of the waiting times of all workers in all repetitions. -/
def meanWaitingTime (nrthr : ℕ) (waited : List (List Waited)) : ℚ :=
  totalWaiting waited / (waited.length * (nrthr + 1))

/-- What a worker has added. -/
def Worker.added (first : Timespec) (w : Worker) : ℚ :=
  match w.pc with
  | .finished _ seen => secSince first seen
  | _ => 0

/-- `wait_time` is what the workers have added, and the first element holds the first start stamp. -/
structure Summed (waitTime : ℚ) (s : Tester) : Prop where
  sum : s.waitTime = waitTime + (s.workers.map (Worker.added (s.param1 0).startWait)).sum
  first : ∀ w ∈ s.workers.head?, w.start = (s.param1 0).startWait

section Sums

variable {nrthr : ℕ} {waitTime : ℚ} {s s' : Tester} {e : Event}

/-- A worker that goes on keeps its start stamp. -/
theorem head_set {workers : List Worker} {w : ℕ} {worker : Worker} (present : workers[w]? = some worker)
    (pc : WorkerPc) {t : Timespec} (first : ∀ x ∈ workers.head?, x.start = t) :
    ∀ x ∈ (workers.set w ⟨worker.start, pc⟩).head?, x.start = t := by
  cases workers with
  | nil => cases present
  | cons x rest =>
    cases w with
    | zero =>
      obtain rfl := Option.some.inj present
      simpa using first
    | succ w => simpa using first

theorem step_summed (summed : Summed waitTime s) (taken : step nrthr s e = some s') : Summed waitTime s' := by
  cases e with
  | create now =>
    obtain rfl := step_create taken
    by_cases none : s.workers = []
    · have sum := summed.sum
      rw [none] at sum
      exact ⟨by simpa [none, Worker.added] using sum, by simp [none]⟩
    · have kept := @stampStart_other s.param1 now s.workers.length (by simpa using none)
      refine ⟨?_, ?_⟩
      · simpa [kept, Worker.added] using summed.sum
      · simpa only [kept, List.head?_append_of_ne_nil _ none] using summed.first
  | stamp w now =>
    obtain ⟨worker, present, pc, rfl⟩ := step_stamp taken
    have nothing : Worker.added (s.param1 0).startWait ⟨worker.start, .stamped now⟩ =
      Worker.added (s.param1 0).startWait worker := by simp [Worker.added, pc]
    refine ⟨?_, ?_⟩
    · simpa only [stampEnd_startWait, map_set_kept present nothing] using summed.sum
    · simpa only [stampEnd_startWait] using head_set present _ summed.first
  | accumulate w =>
    obtain ⟨worker, own, present, stamped, rfl⟩ := step_accumulate taken
    have sum := @sum_map_set _ _ _ _ _ _ (Worker.added (s.param1 0).startWait) present
      ⟨worker.start, .finished own (s.param1 0).endWait⟩
    have before : Worker.added (s.param1 0).startWait worker = 0 := by simp [Worker.added, stamped]
    have after : Worker.added (s.param1 0).startWait ⟨worker.start, .finished own (s.param1 0).endWait⟩ =
      secSince (s.param1 0).startWait (s.param1 0).endWait := rfl
    rw [before, add_zero, after] at sum
    refine ⟨?_, head_set present _ summed.first⟩
    simp only [sum, summed.sum, add_assoc]

/-- What a worker adds is its waiting time and its displacement. -/
theorem added_worker (first : Timespec) (w : Waited) :
    Worker.added first w.worker = w.waitingTime + w.displacement first := by
  simp only [Worker.added, Waited.worker, Waited.waitingTime, Waited.displacement, secSince]
  ring

/-- The state in which a repetition ends; the first element still holds the first start stamp. -/
theorem repetition_reached {r : Repetition} {waitTime' : ℚ} {waited : List Waited}
    (ran : repetition nrthr waitTime r = some (waitTime', waited)) :
    ∃ s, run (step nrthr) ⟨waitTime, r.fresh, []⟩ r.events = some s ∧ s.waitTime = waitTime' ∧
      s.workers = waited.map Waited.worker ∧ Summed waitTime s ∧
        ∀ w ∈ waited, (s.param1 0).startWait = firstStart waited := by
  obtain ⟨s, reached, ran⟩ := Option.bind_eq_some_iff.mp ran
  obtain ⟨_, all, ran⟩ := Option.bind_eq_some_iff.mp ran
  obtain ⟨-, same⟩ := Option.ite_none_right_eq_some.mp ran
  cases same
  have summed : Summed waitTime s := by
    refine run_invariant (fun _ _ _ => step_summed) ⟨?_, ?_⟩ reached
    · simp
    · simp
  have workers := mapM_waited all
  refine ⟨s, reached, rfl, workers, summed, fun w member => ?_⟩
  obtain ⟨x, rest, rfl⟩ := List.exists_cons_of_ne_nil (List.ne_nil_of_mem member)
  exact (summed.first x.worker (by simp [workers])).symm

theorem repetition_sum {r : Repetition} {waitTime' : ℚ} {waited : List Waited}
    (ran : repetition nrthr waitTime r = some (waitTime', waited)) :
    waitTime' = waitTime + (waited.map Waited.waitingTime).sum +
      (waited.map (Waited.displacement (firstStart waited))).sum := by
  obtain ⟨s, -, rfl, workers, summed, first⟩ := repetition_reached ran
  rw [summed.sum, workers, List.map_map, add_assoc, ← List.sum_map_add]
  congr 2
  refine List.map_congr_left fun w member => ?_
  rw [Function.comp_apply, first w member, added_worker]

theorem repetitions_sum {reps : List Repetition} {waitTime' : ℚ} {waited : List (List Waited)}
    (ran : repetitions nrthr waitTime reps = some (waitTime', waited)) :
    waitTime' = waitTime + totalWaiting waited + totalDisplacement waited := by
  induction reps generalizing waitTime waited with
  | nil =>
    cases ran
    simp [totalWaiting, totalDisplacement]
  | cons r rest ih =>
    obtain ⟨mid, stamps, later, first, others, rfl⟩ := repetitions_cons ran
    rw [ih others, repetition_sum first]
    simp only [totalWaiting, totalDisplacement, List.map_cons, List.sum_cons]
    ring

end Sums

/-- From the time `t` on, the clock does not go back. -/
def ForwardFrom : ℚ → List Event → Prop
  | _, [] => True
  | t, .create now :: rest => t ≤ now.nsec ∧ ForwardFrom now.nsec rest
  | t, .stamp _ now :: rest => t ≤ now.nsec ∧ ForwardFrom now.nsec rest
  | t, .accumulate _ :: rest => ForwardFrom t rest

/-- The stamps of a repetition were taken one after the other. -/
def Forward (r : Repetition) : Prop := ∃ t, ForwardFrom t r.events

/-- The stamps of a worker are in order, where `first` and `last` are the start and the end stamp in the first
element and `t` is the time. -/
def Worker.InOrder (first last t : ℚ) (w : Worker) : Prop :=
  first ≤ w.start.nsec ∧ w.start.nsec ≤ t ∧
    match w.pc with
    | .created => True
    | .stamped own => w.start.nsec ≤ own.nsec ∧ own.nsec ≤ last ∧ last ≤ t
    | .finished own seen => w.start.nsec ≤ own.nsec ∧ own.nsec ≤ seen.nsec

def InOrder (t : ℚ) (s : Tester) : Prop :=
  ∀ w ∈ s.workers, w.InOrder (s.param1 0).startWait.nsec (s.param1 0).endWait.nsec t

section Order

variable {nrthr : ℕ} {waitTime t : ℚ} {s s' : Tester}

theorem Worker.InOrder.later {first last t t' : ℚ} {w : Worker} (ordered : w.InOrder first last t)
    (after : t ≤ t') : w.InOrder first last t' := by
  obtain ⟨begun, now, rest⟩ := ordered
  refine ⟨begun, now.trans after, ?_⟩
  cases pc : w.pc with
  | created => trivial
  | stamped own =>
    simp only [pc] at rest ⊢
    exact ⟨rest.1, rest.2.1, rest.2.2.trans after⟩
  | finished own seen =>
    simp only [pc] at rest ⊢
    exact rest

/-- A new start stamp is not earlier than the first one. -/
theorem inOrder_create (ordered : InOrder t s) {now : Timespec} (after : t ≤ now.nsec)
    (taken : step nrthr s (.create now) = some s') : InOrder now.nsec s' := by
  obtain rfl := step_create taken
  by_cases none : s.workers = []
  · intro w member
    obtain rfl : w = ⟨now, .created⟩ := by simpa [none] using member
    exact ⟨by simp [none], le_rfl, trivial⟩
  · have kept := @stampStart_other s.param1 now s.workers.length (by simpa using none)
    obtain ⟨x, rest, workers⟩ := List.exists_cons_of_ne_nil none
    have first := ordered x (by simp [workers])
    intro w member
    simp only [kept]
    rcases List.mem_append.mp member with old | new
    · exact (ordered w old).later after
    · obtain rfl := List.mem_singleton.mp new
      exact ⟨(first.1.trans first.2.1).trans after, le_rfl, trivial⟩

/-- A new end stamp is the last one. -/
theorem inOrder_stamp (ordered : InOrder t s) {w : ℕ} {now : Timespec} (after : t ≤ now.nsec)
    (taken : step nrthr s (.stamp w now) = some s') : InOrder now.nsec s' := by
  obtain ⟨worker, present, -, rfl⟩ := step_stamp taken
  intro x member
  simp only [stampEnd_startWait, stampEnd_endWait]
  rcases List.mem_or_eq_of_mem_set member with old | rfl
  · obtain ⟨begun, started, rest⟩ := ordered x old
    refine ⟨begun, started.trans after, ?_⟩
    cases pc : x.pc with
    | created => trivial
    | stamped own =>
      simp only [pc] at rest ⊢
      exact ⟨rest.1, (rest.2.1.trans rest.2.2).trans after, le_rfl⟩
    | finished own seen =>
      simp only [pc] at rest ⊢
      exact rest
  · obtain ⟨begun, started, -⟩ := ordered worker (List.mem_of_getElem? present)
    exact ⟨begun, started.trans after, started.trans after, le_rfl, le_rfl⟩

theorem inOrder_accumulate (ordered : InOrder t s) {w : ℕ} (taken : step nrthr s (.accumulate w) = some s') :
    InOrder t s' := by
  obtain ⟨worker, own, present, stamped, rfl⟩ := step_accumulate taken
  obtain ⟨begun, started, rest⟩ := ordered worker (List.mem_of_getElem? present)
  simp only [stamped] at rest
  intro x member
  rcases List.mem_or_eq_of_mem_set member with old | rfl
  · exact ordered x old
  · exact ⟨begun, started, rest.1, rest.2.1⟩

theorem run_inOrder {events : List Event} (forward : ForwardFrom t events) (ordered : InOrder t s)
    (ran : run (step nrthr) s events = some s') : ∃ t', InOrder t' s' := by
  induction events generalizing s t with
  | nil => exact ⟨t, Option.some.inj ran ▸ ordered⟩
  | cons e rest ih =>
    obtain ⟨next, taken, later⟩ := Option.bind_eq_some_iff.mp ran
    cases e with
    | create now => exact ih forward.2 (inOrder_create ordered forward.1 taken) later
    | stamp w now => exact ih forward.2 (inOrder_stamp ordered forward.1 taken) later
    | accumulate w => exact ih forward (inOrder_accumulate ordered taken) later

/-- The stamps that the workers of a repetition took and read are in order. -/
theorem repetition_inOrder {r : Repetition} (forward : Forward r) {waitTime' : ℚ} {waited : List Waited}
    (ran : repetition nrthr waitTime r = some (waitTime', waited)) :
    ∀ w ∈ waited, 0 ≤ secSince (firstStart waited) w.start ∧ 0 ≤ w.waitingTime ∧ 0 ≤ secSince w.own w.seen := by
  obtain ⟨s, reached, -, workers, -, first⟩ := repetition_reached ran
  obtain ⟨t, forward⟩ := forward
  obtain ⟨t', ordered⟩ := run_inOrder forward (fun w member => absurd member List.not_mem_nil) reached
  intro w member
  obtain ⟨begun, -, waiting, seen⟩ := ordered w.worker (workers ▸ List.mem_map_of_mem member)
  rw [first w member] at begun
  exact ⟨secSince_nonneg.mpr begun, secSince_nonneg.mpr waiting, secSince_nonneg.mpr seen⟩

theorem repetitions_inOrder {reps : List Repetition} (forward : ∀ r ∈ reps, Forward r) {waitTime' : ℚ}
    {waited : List (List Waited)} (ran : repetitions nrthr waitTime reps = some (waitTime', waited)) :
    ∀ r ∈ waited, ∀ w ∈ r,
      0 ≤ secSince (firstStart r) w.start ∧ 0 ≤ w.waitingTime ∧ 0 ≤ secSince w.own w.seen := by
  induction reps generalizing waitTime waited with
  | nil =>
    cases ran
    exact fun r member => absurd member List.not_mem_nil
  | cons r rest ih =>
    obtain ⟨mid, stamps, later, first, others, rfl⟩ := repetitions_cons ran
    obtain ⟨here, there⟩ := List.forall_mem_cons.mp forward
    exact List.forall_mem_cons.mpr ⟨repetition_inOrder here first, ih there others⟩

end Order

section Totals

variable {waited : List (List Waited)}

/-- A sum of times that are not negative is zero exactly if they all are. -/
theorem sum_eq_zero_iff {α : Type*} {f : α → ℚ} {l : List α} (nonneg : ∀ x ∈ l, 0 ≤ f x) :
    (l.map f).sum = 0 ↔ ∀ x ∈ l, f x = 0 := by
  induction l with
  | nil => simp
  | cons a l ih =>
    obtain ⟨here, there⟩ := List.forall_mem_cons.mp nonneg
    have rest : 0 ≤ (l.map f).sum := List.sum_nonneg (by simpa using there)
    rw [List.map_cons, List.sum_cons, add_eq_zero_iff_of_nonneg here rest, ih there, List.forall_mem_cons]

theorem total_nonneg {f : List Waited → Waited → ℚ} (nonneg : ∀ r ∈ waited, ∀ w ∈ r, 0 ≤ f r w) :
    0 ≤ (waited.map fun r => (r.map (f r)).sum).sum ∧
      ((waited.map fun r => (r.map (f r)).sum).sum = 0 ↔ ∀ r ∈ waited, ∀ w ∈ r, f r w = 0) := by
  have parts : ∀ r ∈ waited, 0 ≤ (r.map (f r)).sum := fun r member =>
    List.sum_nonneg (by simpa using nonneg r member)
  refine ⟨List.sum_nonneg (by simpa using parts), ?_⟩
  rw [sum_eq_zero_iff parts]
  exact forall₂_congr fun r member => sum_eq_zero_iff (nonneg r member)

/-- The two means, with the sums they come from. -/
theorem means_eq_iff (nrthr : ℕ) (waited : List (List Waited)) :
    (totalWaiting waited + totalDisplacement waited) / (nrthr + 1) = meanWaitingTime nrthr waited ↔
      (waited.length - 1) * totalWaiting waited + waited.length * totalDisplacement waited = 0 := by
  by_cases none : waited = []
  · simp [none, meanWaitingTime, totalWaiting, totalDisplacement]
  · have some : (waited.length : ℚ) ≠ 0 := by simpa using none
    have workers : (nrthr : ℚ) + 1 ≠ 0 := by positivity
    rw [meanWaitingTime, div_eq_div_iff workers (mul_ne_zero some workers)]
    constructor
    · intro same
      have scaled : ((waited.length - 1) * totalWaiting waited + waited.length * totalDisplacement waited) *
          (nrthr + 1) = 0 := by linarith
      exact (mul_eq_zero.mp scaled).resolve_right workers
    · intro zero
      linear_combination (nrthr + 1) * zero

/-- With stamps in order nothing cancels out. -/
theorem balanced_iff (ordered : ∀ r ∈ waited, ∀ w ∈ r,
      0 ≤ secSince (firstStart r) w.start ∧ 0 ≤ w.waitingTime ∧ 0 ≤ secSince w.own w.seen) :
    ((waited.length : ℚ) - 1) * totalWaiting waited + waited.length * totalDisplacement waited = 0 ↔
      (∀ r ∈ waited, ∀ w ∈ r, w.start.nsec = (firstStart r).nsec ∧ w.seen.nsec = w.own.nsec) ∧
        (waited.length ≤ 1 ∨ ∀ r ∈ waited, ∀ w ∈ r, w.own.nsec = w.start.nsec) := by
  by_cases none : waited = []
  · simp [none, totalWaiting, totalDisplacement]
  have some : 1 ≤ (waited.length : ℚ) := by exact_mod_cast List.length_pos_iff.mpr none
  obtain ⟨waiting, noWaiting⟩ := @total_nonneg waited (fun _ w => w.waitingTime) fun r inside w member =>
    (ordered r inside w member).2.1
  obtain ⟨displaced, notDisplaced⟩ := @total_nonneg waited (fun r w => w.displacement (firstStart r))
    fun r inside w member => add_nonneg (ordered r inside w member).1 (ordered r inside w member).2.2
  change 0 ≤ totalWaiting waited at waiting
  change totalWaiting waited = 0 ↔ _ at noWaiting
  change 0 ≤ totalDisplacement waited at displaced
  change totalDisplacement waited = 0 ↔ _ at notDisplaced
  rw [add_eq_zero_iff_of_nonneg (mul_nonneg (sub_nonneg.mpr some) waiting) (by positivity), mul_eq_zero,
    mul_eq_zero, noWaiting, notDisplaced, and_comm]
  refine and_congr ?_ (or_congr ?_ ?_)
  · rw [or_iff_right (by linarith)]
    refine forall₂_congr fun r inside => forall₂_congr fun w member => ?_
    obtain ⟨start, -, seen⟩ := ordered r inside w member
    rw [Waited.displacement, add_eq_zero_iff_of_nonneg start seen, secSince_eq_zero, secSince_eq_zero]
  · rw [sub_eq_zero]
    refine ⟨fun one => by exact_mod_cast one.le, fun one => le_antisymm (by exact_mod_cast one) some⟩
  · exact forall₂_congr fun r inside => forall₂_congr fun w member => secSince_eq_zero

end Totals

/-- The mean that is printed is the mean of the waiting times exactly if what the workers add too much makes up
for the missing division by the number of repetitions. With a clock that does not go back, this takes that every
worker starts with the first one and adds its own end stamp, and that there is one repetition or no waiting. -/
theorem mean_wait_time_iff (nrthr : ℕ) (reps : List Repetition) (mean : ℚ)
    (ran : (measureWaitingTime nrthr reps).map Prod.fst = some mean) :
    let waited := reps.map (Repetition.waited nrthr)
    (mean = meanWaitingTime nrthr waited ↔
      (reps.length - 1) * totalWaiting waited + reps.length * totalDisplacement waited = 0) ∧
      ((∀ r ∈ reps, Forward r) → (mean = meanWaitingTime nrthr waited ↔
        (∀ r ∈ waited, ∀ w ∈ r, w.start.nsec = (firstStart r).nsec ∧ w.seen.nsec = w.own.nsec) ∧
          (reps.length ≤ 1 ∨ ∀ r ∈ waited, ∀ w ∈ r, w.own.nsec = w.start.nsec))) := by
  intro waited
  obtain ⟨⟨_, recorded⟩, measured, rfl⟩ := Option.map_eq_some_iff.mp ran
  obtain ⟨⟨waitTime, _⟩, ran, same⟩ := Option.bind_eq_some_iff.mp measured
  cases same
  obtain rfl : recorded = waited := repetitions_stamps ran
  have length : waited.length = reps.length := List.length_map _
  have balance := means_eq_iff nrthr waited
  have sum := repetitions_sum ran
  rw [zero_add] at sum
  rw [← sum, length] at balance
  refine ⟨balance, fun forward => ?_⟩
  have balanced := balanced_iff (repetitions_inOrder forward ran)
  rw [length] at balanced
  exact balance.trans balanced

/-- Two workers that start together and add their own stamps, once. -/
theorem mean_wait_time_iff_single :
    let r : Repetition := ⟨fun _ => ⟨⟨0, 0⟩, ⟨0, 0⟩⟩,
      [.create ⟨0, 0⟩, .create ⟨0, 0⟩, .stamp 0 ⟨1, 0⟩, .accumulate 0, .stamp 1 ⟨3, 0⟩, .accumulate 1]⟩
    (measureWaitingTime 1 [r]).map Prod.fst = some 2 ∧ 2 = meanWaitingTime 1 [r.waited 1] := by
  intro r
  have ran : (measureWaitingTime 1 [r]).map Prod.fst = some 2 := by decide +kernel
  have forward : ∀ r' ∈ [r], Forward r' := by
    intro r' member
    obtain rfl := List.mem_singleton.mp member
    exact ⟨0, by norm_num [r, ForwardFrom, Timespec.nsec]⟩
  refine ⟨ran, ((mean_wait_time_iff 1 [r] 2 ran).2 forward).mpr ⟨?_, .inl le_rfl⟩⟩
  decide +kernel

/-- Two workers that wait for two seconds each, in five repetitions. -/
theorem mean_wait_time_wrong :
    let r : Repetition := ⟨fun _ => ⟨⟨0, 0⟩, ⟨0, 0⟩⟩,
      [.create ⟨0, 0⟩, .create ⟨1, 0⟩, .stamp 0 ⟨2, 0⟩, .stamp 1 ⟨3, 0⟩, .accumulate 0, .accumulate 1]⟩
    (measureWaitingTime 1 (List.replicate 5 r)).map Prod.fst = some 15 ∧
      meanWaitingTime 1 (List.replicate 5 (r.waited 1)) = 2 := by
  intro r
  exact ⟨by decide +kernel, by decide +kernel⟩

end Operativsystem.Scheduler
