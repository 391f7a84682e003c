import Operativsystem.Library.Conservation
import Mathlib.Tactic.Linarith

/-! # The workers of the schedule tester

Each repetition of `measure_waiting_time` stamps the start of its workers in an array, one element a worker, but
hands the array itself to every worker, so that all of them work on the first element: they take their end
stamps there, and add up what they find there. The sum over all repetitions is divided by the number of workers.
Workers keep the stamps they took and read; these are also found from the order of the events alone.
-/

namespace Operativsystem.Scheduler

open Machine

structure Timespec where
  tvSec : ℤ
  tvNsec : ℤ
deriving DecidableEq

def Timespec.nsec (t : Timespec) : ℚ := t.tvSec * 1000000000 + t.tvNsec

def secSince (start ended : Timespec) : ℚ := (ended.nsec - start.nsec) / 1000000000

theorem secSince_nonneg {start ended : Timespec} : 0 ≤ secSince start ended ↔ start.nsec ≤ ended.nsec := by
  rw [secSince, le_div_iff₀ (by norm_num), zero_mul, sub_nonneg]

theorem secSince_eq_zero {start ended : Timespec} : secSince start ended = 0 ↔ ended.nsec = start.nsec := by
  rw [secSince, div_eq_zero_iff, sub_eq_zero]
  norm_num

/-- The members of `params` that the waiting time depends on. -/
structure Params where
  startWait : Timespec
  endWait : Timespec

/-- What a worker has done; `own` is the end stamp that it took, `seen` the one that it added. -/
inductive WorkerPc where
  | created
  | stamped (own : Timespec)
  | finished (own seen : Timespec)
deriving DecidableEq

/-- A worker, with the start stamp that was taken for it. -/
structure Worker where
  start : Timespec
  pc : WorkerPc
deriving DecidableEq

/-- A repetition: `wait_time`, the array, and the workers that there are; the last will be the main thread. -/
structure Tester where
  waitTime : ℚ
  param1 : ℕ → Params
  workers : List Worker

/-- The start stamp for the next worker and its creation, and the two steps of `work` that concern the waiting
time: the end stamp, and the addition under the mutex. -/
inductive Event where
  | create (now : Timespec)
  | stamp (w : ℕ) (now : Timespec)
  | accumulate (w : ℕ)
deriving DecidableEq

/-- The element of the array that a worker is given: `(void *) param1`, whichever worker it is. -/
def argument (_ : ℕ) : ℕ := 0

/-- `clock_gettime` into a member of an element. -/
def stampStart (param1 : ℕ → Params) (j : ℕ) (now : Timespec) : ℕ → Params :=
  Function.update param1 j ⟨now, (param1 j).endWait⟩

def stampEnd (param1 : ℕ → Params) (j : ℕ) (now : Timespec) : ℕ → Params :=
  Function.update param1 j ⟨(param1 j).startWait, now⟩

def step (nrthr : ℕ) (s : Tester) : Event → Option Tester
  | .create now =>
    if s.workers.length ≤ nrthr then
      some ⟨s.waitTime, stampStart s.param1 s.workers.length now, s.workers ++ [⟨now, .created⟩]⟩
    else none
  | .stamp w now => do
    let worker ← s.workers[w]?
    if worker.pc = .created then
      some ⟨s.waitTime, stampEnd s.param1 (argument w) now, s.workers.set w ⟨worker.start, .stamped now⟩⟩
    else none
  | .accumulate w => do
    let worker ← s.workers[w]?
    let params := s.param1 (argument w)
    match worker.pc with
    | .stamped own =>
      some ⟨s.waitTime + secSince params.startWait params.endWait, s.param1,
        s.workers.set w ⟨worker.start, .finished own params.endWait⟩⟩
    | _ => none

/-- The stamps of a worker that has finished. -/
structure Waited where
  start : Timespec
  own : Timespec
  seen : Timespec
deriving DecidableEq

def Worker.waited (worker : Worker) : Option Waited :=
  match worker.pc with
  | .finished own seen => some ⟨worker.start, own, seen⟩
  | _ => none

/-- What `malloc` returned for the array, and what happened in which order. -/
structure Repetition where
  fresh : ℕ → Params
  events : List Event

/-- One repetition, up to the `pthread_join` of all workers. -/
def repetition (nrthr : ℕ) (waitTime : ℚ) (r : Repetition) : Option (ℚ × List Waited) := do
  let s ← run (step nrthr) ⟨waitTime, r.fresh, []⟩ r.events
  let waited ← s.workers.mapM Worker.waited
  if waited.length = nrthr + 1 then some (s.waitTime, waited) else none

/-- The repetitions for one scheduler. -/
def repetitions (nrthr : ℕ) : ℚ → List Repetition → Option (ℚ × List (List Waited))
  | waitTime, [] => some (waitTime, [])
  | waitTime, r :: rest => do
    let (waitTime, waited) ← repetition nrthr waitTime r
    let (waitTime, later) ← repetitions nrthr waitTime rest
    some (waitTime, waited :: later)

/-- `measure_waiting_time` for one scheduler: `mean_wait_time` and the stamps. -/
def measureWaitingTime (nrthr : ℕ) (reps : List Repetition) : Option (ℚ × List (List Waited)) := do
  let (waitTime, waited) ← repetitions nrthr 0 reps
  some (waitTime / (nrthr + 1), waited)

def Event.startStamp : Event → Option Timespec
  | .create now => some now
  | _ => none

def Event.endStamp : Event → Option (ℕ × Timespec)
  | .stamp w now => some (w, now)
  | _ => none

/-- The start and the end stamps, in the order in which they are taken. -/
def startStamps (events : List Event) : List Timespec := events.filterMap Event.startStamp

def endStamps (events : List Event) : List (ℕ × Timespec) := events.filterMap Event.endStamp

/-- The end stamp that a worker takes. -/
def ownStamp (events : List Event) (w : ℕ) : Option Timespec := (endStamps events).lookup w

/-- The last end stamp, whichever worker takes it. -/
def lastStamp (events : List Event) : Option Timespec := (endStamps events).getLast?.map Prod.snd

/-- The last end stamp before the addition of a worker. -/
def seenStamp (events : List Event) (w : ℕ) : Option Timespec := lastStamp (events.takeWhile (· ≠ .accumulate w))

def Repetition.stamps (r : Repetition) (w : ℕ) : Option Waited := do
  let start ← (startStamps r.events)[w]?
  let own ← ownStamp r.events w
  let seen ← seenStamp r.events w
  some ⟨start, own, seen⟩

/-- The stamps of all workers, by the order of events alone. -/
def Repetition.waited (nrthr : ℕ) (r : Repetition) : List Waited := (List.range (nrthr + 1)).filterMap r.stamps

section Steps

variable {nrthr w : ℕ} {s s' : Tester} {now : Timespec}

theorem step_create (taken : step nrthr s (.create now) = some s') :
    s' = ⟨s.waitTime, stampStart s.param1 s.workers.length now, s.workers ++ [⟨now, .created⟩]⟩ := by
  obtain ⟨-, same⟩ := Option.ite_none_right_eq_some.mp taken
  exact (Option.some.inj same).symm

theorem step_stamp (taken : step nrthr s (.stamp w now) = some s') :
    ∃ worker, s.workers[w]? = some worker ∧ worker.pc = .created ∧
      s' = ⟨s.waitTime, stampEnd s.param1 (argument w) now, s.workers.set w ⟨worker.start, .stamped now⟩⟩ := by
  obtain ⟨worker, present, taken⟩ := Option.bind_eq_some_iff.mp taken
  obtain ⟨created, same⟩ := Option.ite_none_right_eq_some.mp taken
  exact ⟨worker, present, created, (Option.some.inj same).symm⟩

theorem step_accumulate (taken : step nrthr s (.accumulate w) = some s') :
    ∃ worker own, s.workers[w]? = some worker ∧ worker.pc = .stamped own ∧
      s' = ⟨s.waitTime + secSince (s.param1 0).startWait (s.param1 0).endWait, s.param1,
        s.workers.set w ⟨worker.start, .finished own (s.param1 0).endWait⟩⟩ := by
  obtain ⟨worker, present, taken⟩ := Option.bind_eq_some_iff.mp taken
  cases stamped : worker.pc with
  | created => simp [stamped] at taken
  | finished own seen => simp [stamped] at taken
  | stamped own =>
    simp only [stamped, Option.some.injEq] at taken
    exact ⟨worker, own, present, stamped, taken.symm⟩

theorem repetitions_cons {waitTime waitTime' : ℚ} {r : Repetition} {rest : List Repetition}
    {waited : List (List Waited)} (ran : repetitions nrthr waitTime (r :: rest) = some (waitTime', waited)) :
    ∃ mid stamps later, repetition nrthr waitTime r = some (mid, stamps) ∧
      repetitions nrthr mid rest = some (waitTime', later) ∧ waited = stamps :: later := by
  obtain ⟨⟨mid, stamps⟩, first, ran⟩ := Option.bind_eq_some_iff.mp ran
  obtain ⟨⟨last, later⟩, others, same⟩ := Option.bind_eq_some_iff.mp ran
  cases same
  exact ⟨mid, stamps, later, first, others, rfl⟩

end Steps

section Elements

variable {param1 : ℕ → Params} {now : Timespec}

@[simp] theorem stampStart_zero : (stampStart param1 0 now 0).startWait = now := by simp [stampStart]

theorem stampStart_other {j : ℕ} (other : j ≠ 0) : stampStart param1 j now 0 = param1 0 :=
  Function.update_of_ne other.symm ..

@[simp] theorem stampStart_endWait (j : ℕ) : (stampStart param1 j now 0).endWait = (param1 0).endWait := by
  by_cases first : j = 0
  · simp [stampStart, first]
  · rw [stampStart_other first]

@[simp] theorem stampEnd_startWait (w : ℕ) :
    (stampEnd param1 (argument w) now 0).startWait = (param1 0).startWait := by
  simp [stampEnd, argument]

@[simp] theorem stampEnd_endWait (w : ℕ) : (stampEnd param1 (argument w) now 0).endWait = now := by
  simp [stampEnd, argument]

end Elements

/-- What the events before a state say of the stamps of a worker. -/
def WorkerPc.Recorded (events : List Event) (w : ℕ) : WorkerPc → Prop
  | .created => ownStamp events w = none ∧ .accumulate w ∉ events
  | .stamped own => ownStamp events w = some own ∧ .accumulate w ∉ events
  | .finished own seen =>
    ownStamp events w = some own ∧ .accumulate w ∈ events ∧ seenStamp events w = some seen

/-- The program counter of a worker; one that is not there yet has done nothing. -/
def Tester.pc (s : Tester) (w : ℕ) : WorkerPc := (s.workers[w]?.map Worker.pc).getD .created

structure Recorded (events : List Event) (s : Tester) : Prop where
  starts : s.workers.map Worker.start = startStamps events
  last : ∀ now ∈ lastStamp events, (s.param1 0).endWait = now
  pcs : ∀ w, (s.pc w).Recorded events w

section Records

variable {nrthr w : ℕ} {waitTime : ℚ} {s s' : Tester} {e : Event} {events : List Event} {pc : WorkerPc}

theorem startStamps_snoc : startStamps (events ++ [e]) = startStamps events ++ e.startStamp.toList := by
  cases e <;> simp [startStamps, Event.startStamp]

theorem endStamps_snoc : endStamps (events ++ [e]) = endStamps events ++ e.endStamp.toList := by
  cases e <;> simp [endStamps, Event.endStamp]

theorem startStamps_other (other : e.startStamp = none) : startStamps (events ++ [e]) = startStamps events := by
  rw [startStamps_snoc, other, Option.toList_none, List.append_nil]

theorem endStamps_other (other : e.endStamp = none) : endStamps (events ++ [e]) = endStamps events := by
  rw [endStamps_snoc, other, Option.toList_none, List.append_nil]

theorem ownStamp_snoc : ownStamp (events ++ [e]) w = (ownStamp events w).or (e.endStamp.toList.lookup w) := by
  rw [ownStamp, endStamps_snoc, List.lookup_append, ownStamp]

theorem seenStamp_snoc (added : .accumulate w ∈ events) : seenStamp (events ++ [e]) w = seenStamp events w := by
  obtain ⟨before, after, rfl, first⟩ := List.eq_append_cons_of_mem added
  have past : ∀ x ∈ before, decide (x ≠ .accumulate w) = true := fun x member =>
    decide_eq_true (ne_of_mem_of_not_mem member first)
  simp only [seenStamp, List.append_assoc, List.cons_append, List.takeWhile_append_of_pos past, ne_eq, not_true,
    decide_false, Bool.false_eq_true, not_false_eq_true, List.takeWhile_cons_of_neg]

theorem seenStamp_accumulate (fresh : .accumulate w ∉ events) :
    seenStamp (events ++ [.accumulate w]) w = lastStamp events := by
  have past : ∀ x ∈ events, decide (x ≠ .accumulate w) = true := fun x member =>
    decide_eq_true (ne_of_mem_of_not_mem member fresh)
  rw [seenStamp, List.takeWhile_append_of_pos past]
  simp

/-- A step that is not the worker's leaves its record as it is. -/
theorem WorkerPc.Recorded.other (recorded : pc.Recorded events w) (added : e ≠ .accumulate w)
    (stamped : e.endStamp.toList.lookup w = none) : pc.Recorded (events ++ [e]) w := by
  have own : ownStamp (events ++ [e]) w = ownStamp events w := by rw [ownStamp_snoc, stamped, Option.or_none]
  have adds : .accumulate w ∈ events ++ [e] ↔ .accumulate w ∈ events := by simp [Ne.symm added]
  cases pc with
  | created => exact ⟨own.trans recorded.1, adds.not.mpr recorded.2⟩
  | stamped _ => exact ⟨own.trans recorded.1, adds.not.mpr recorded.2⟩
  | finished _ _ =>
    obtain ⟨took, added, saw⟩ := recorded
    exact ⟨own.trans took, adds.mpr added, (seenStamp_snoc added).trans saw⟩

theorem Tester.pc_of_getElem? {worker : Worker} (present : s.workers[w]? = some worker) :
    s.pc w = worker.pc := by
  rw [Tester.pc, present]
  rfl

theorem Tester.pc_set {worker : Worker} (present : s.workers[w]? = some worker) (waitTime : ℚ)
    (param1 : ℕ → Params) (next : Worker) (v : ℕ) :
    Tester.pc ⟨waitTime, param1, s.workers.set w next⟩ v = if v = w then next.pc else s.pc v := by
  obtain ⟨inside, -⟩ := List.getElem?_eq_some_iff.mp present
  by_cases same : v = w
  · subst same
    simp [Tester.pc, inside]
  · simp [Tester.pc, same, List.getElem?_set_ne (Ne.symm same)]

theorem map_start_set {workers : List Worker} {worker : Worker} (present : workers[w]? = some worker)
    (pc : WorkerPc) :
    (workers.set w ⟨worker.start, pc⟩).map Worker.start = workers.map Worker.start :=
  map_set_kept present rfl

theorem Tester.pc_append (waitTime : ℚ) (param1 : ℕ → Params) (now : Timespec) (v : ℕ) :
    Tester.pc ⟨waitTime, param1, s.workers ++ [⟨now, .created⟩]⟩ v = s.pc v := by
  by_cases inside : v < s.workers.length
  · rw [Tester.pc, Tester.pc, List.getElem?_append_left inside]
  · rw [Tester.pc, Tester.pc, List.getElem?_eq_none (not_lt.mp inside),
      List.getElem?_append_right (not_lt.mp inside)]
    cases v - s.workers.length <;> rfl

theorem recorded_create (recorded : Recorded events s) {now : Timespec}
    (taken : step nrthr s (.create now) = some s') : Recorded (events ++ [.create now]) s' := by
  obtain rfl := step_create taken
  refine ⟨?_, fun last later => ?_, fun v => ?_⟩
  · rw [List.map_append, recorded.starts, startStamps_snoc]
    rfl
  · rw [stampStart_endWait]
    refine recorded.last last ?_
    rwa [lastStamp, endStamps_other rfl] at later
  · rw [Tester.pc_append]
    exact (recorded.pcs v).other nofun rfl

theorem recorded_stamp (recorded : Recorded events s) {now : Timespec}
    (taken : step nrthr s (.stamp w now) = some s') : Recorded (events ++ [.stamp w now]) s' := by
  obtain ⟨worker, present, created, rfl⟩ := step_stamp taken
  refine ⟨?_, fun last later => ?_, fun v => ?_⟩
  · rw [map_start_set present, recorded.starts, startStamps_other rfl]
  · rw [lastStamp, endStamps_snoc] at later
    rw [stampEnd_endWait]
    simpa [Event.endStamp] using later
  · rw [Tester.pc_set present]
    by_cases same : v = w
    · subst same
      have fresh := recorded.pcs v
      rw [Tester.pc_of_getElem? present, created] at fresh
      rw [if_pos rfl]
      refine ⟨?_, by simpa using fresh.2⟩
      rw [ownStamp_snoc, fresh.1]
      simp [Event.endStamp]
    · rw [if_neg same]
      exact (recorded.pcs v).other nofun (by simp [Event.endStamp, same])

/-- The end stamp that is added is the last one, since there is at least the worker's own. -/
theorem recorded_accumulate (recorded : Recorded events s) (taken : step nrthr s (.accumulate w) = some s') :
    Recorded (events ++ [.accumulate w]) s' := by
  obtain ⟨worker, own, present, stamped, rfl⟩ := step_accumulate taken
  have ends : endStamps (events ++ [.accumulate w]) = endStamps events := endStamps_other rfl
  refine ⟨?_, fun last later => ?_, fun v => ?_⟩
  · rw [map_start_set present, recorded.starts, startStamps_other rfl]
  · rw [lastStamp, ends] at later
    exact recorded.last last later
  · rw [Tester.pc_set present]
    by_cases same : v = w
    · subst same
      have before := recorded.pcs v
      rw [Tester.pc_of_getElem? present, stamped] at before
      obtain ⟨own, fresh⟩ := before
      have some : lastStamp events ≠ none := by
        intro none
        rw [lastStamp, Option.map_eq_none_iff, List.getLast?_eq_none_iff] at none
        rw [ownStamp, none] at own
        cases own
      obtain ⟨last, later⟩ := Option.ne_none_iff_exists'.mp some
      rw [if_pos rfl]
      refine ⟨?_, List.mem_append_right _ (List.mem_singleton.mpr rfl), ?_⟩
      · rw [ownStamp, ends]
        exact own
      · rw [seenStamp_accumulate fresh, later, recorded.last last later]
    · rw [if_neg same]
      exact (recorded.pcs v).other (by simpa using Ne.symm same) rfl

theorem run_recorded {later : List Event} (recorded : Recorded events s)
    (ran : run (step nrthr) s later = some s') :
    Recorded (events ++ later) s' := by
  induction later generalizing s events with
  | nil => rwa [List.append_nil, ← Option.some.inj ran]
  | cons e later ih =>
    obtain ⟨next, taken, ran⟩ := Option.bind_eq_some_iff.mp ran
    have recorded : Recorded (events ++ [e]) next := by
      cases e with
      | create now => exact recorded_create recorded taken
      | stamp w now => exact recorded_stamp recorded taken
      | accumulate w => exact recorded_accumulate recorded taken
    simpa using ih recorded ran

def Waited.worker (w : Waited) : Worker := ⟨w.start, .finished w.own w.seen⟩

theorem mapM_waited {workers : List Worker} {waited : List Waited}
    (all : workers.mapM Worker.waited = some waited) :
    workers = waited.map Waited.worker := by
  induction workers generalizing waited with
  | nil =>
    cases all
    rfl
  | cons worker rest ih =>
    rw [List.mapM_cons] at all
    obtain ⟨w, this, all⟩ := Option.bind_eq_some_iff.mp all
    obtain ⟨later, others, same⟩ := Option.bind_eq_some_iff.mp all
    cases same
    obtain ⟨start, pc⟩ := worker
    cases pc with
    | created => cases this
    | stamped own => cases this
    | finished own seen =>
      cases this
      rw [List.map_cons, ← ih others]
      rfl

theorem filterMap_range {α : Type*} {f : ℕ → Option α} (l : List α) (same : ∀ i < l.length, f i = l[i]?) :
    (List.range l.length).filterMap f = l := by
  induction l generalizing f with
  | nil => rfl
  | cons x l ih =>
    rw [List.length_cons, List.range_succ_eq_map, List.filterMap_cons_some (same 0 (Nat.succ_pos _)),
      List.filterMap_map]
    exact congrArg (x :: ·) (ih fun i inside => same (i + 1) (Nat.succ_lt_succ inside))

/-- The stamps that the workers of a repetition took and read, by the order of events alone. -/
theorem repetition_stamps {r : Repetition} {waitTime' : ℚ} {waited : List Waited}
    (ran : repetition nrthr waitTime r = some (waitTime', waited)) : waited = r.waited nrthr := by
  obtain ⟨s, reached, ran⟩ := Option.bind_eq_some_iff.mp ran
  obtain ⟨_, all, ran⟩ := Option.bind_eq_some_iff.mp ran
  obtain ⟨length, same⟩ := Option.ite_none_right_eq_some.mp ran
  cases same
  have started : Recorded [] ⟨waitTime, r.fresh, []⟩ := by
    refine ⟨rfl, fun now last => ?_, fun w => ⟨rfl, List.not_mem_nil⟩⟩
    cases last
  have recorded := run_recorded started reached
  rw [List.nil_append] at recorded
  have workers := mapM_waited all
  rw [Repetition.waited, ← length, filterMap_range waited fun w inside => ?_]
  have present : s.workers[w]? = some waited[w].worker := by simp [workers, inside]
  have start : (startStamps r.events)[w]? = some waited[w].start := by
    rw [← recorded.starts, List.getElem?_map, present]
    rfl
  obtain ⟨own, -, seen⟩ : (WorkerPc.finished waited[w].own waited[w].seen).Recorded r.events w :=
    Tester.pc_of_getElem? present ▸ recorded.pcs w
  rw [Repetition.stamps, start, own, seen, List.getElem?_eq_getElem inside]
  rfl

theorem repetitions_stamps {waitTime' : ℚ} {reps : List Repetition} {waited : List (List Waited)}
    (ran : repetitions nrthr waitTime reps = some (waitTime', waited)) :
    waited = reps.map (Repetition.waited nrthr) := by
  induction reps generalizing waitTime waited with
  | nil =>
    cases ran
    rfl
  | cons r rest ih =>
    obtain ⟨mid, stamps, later, first, others, rfl⟩ := repetitions_cons ran
    rw [List.map_cons, ← repetition_stamps first, ← ih others]

end Records

end Operativsystem.Scheduler
