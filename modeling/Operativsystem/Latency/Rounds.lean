import Mathlib.Tactic.Linarith
import Operativsystem.Latency.RunParent
import Operativsystem.Library.Machine

/-! # What the rounds of `latt` measure

A client is awaited from the stamp that is written to it until its answer is read, and the place of the parent
in its loop says who is awaited. So a round ends only when each client has been heard once, and a reply is always
measured against the stamp that it answers, although the stamps of all rounds go into one array.
-/

namespace Operativsystem.Latency.Rounds

open Machine

def Test.log (s : Test) : List Reply := s.rounds.flatten ++ s.current

/-- The clients that the parent has heard in this round. -/
def Test.heard (s : Test) : List ℕ := s.current.map Reply.client

/-- The stamps of a client in the log, with its answers. -/
def Test.logged (s : Test) (i : ℕ) : List (Timespec × ReturnStamp) :=
  (s.log.filter fun reply => reply.client = i).map fun reply => (reply.start, reply.rs)

/-- The times of an answer lie in the order of the stamps. -/
structure InTime (compress : Bool) (clock : ℕ) (start : Timespec) (rs : ReturnStamp) : Prop where
  early : 0 ≤ start.time
  waking : start.time ≤ rs.preWork.time
  working : compress = true → rs.preWork.time ≤ rs.postWork.time ∧ rs.postWork.time ≤ clock
  past : rs.preWork.time ≤ clock

/-- The client waits for a stamp, and all its answers are logged. -/
structure Connection.Resting (logged : List (Timespec × ReturnStamp)) (c : Connection) : Prop where
  toChild : c.toChild = []
  toParent : c.toParent = []
  pc : c.pc = .read
  answered : c.answered = logged

/-- The client has been sent a stamp, and its answer has not been read. -/
inductive Connection.Awaited (compress : Bool) (clock : ℕ) (logged : List (Timespec × ReturnStamp))
    (c : Connection) : Prop
  | asked (toChild : c.toChild = [c.t1]) (toParent : c.toParent = []) (pc : c.pc = .read)
      (answered : c.answered = logged) (early : 0 ≤ c.t1.time) (started : c.t1.time ≤ clock)
  | awake (toChild : c.toChild = []) (toParent : c.toParent = []) (pc : c.pc = .preWork) (ts : c.ts = c.t1)
      (answered : c.answered = logged) (early : 0 ≤ c.t1.time) (started : c.t1.time ≤ clock)
  | working (toChild : c.toChild = []) (toParent : c.toParent = []) (pc : c.pc = .postWork) (ts : c.ts = c.t1)
      (answered : c.answered = logged) (early : 0 ≤ c.t1.time) (waking : c.t1.time ≤ c.rs.preWork.time)
      (past : c.rs.preWork.time ≤ clock)
  | writing (toChild : c.toChild = []) (toParent : c.toParent = []) (pc : c.pc = .write) (ts : c.ts = c.t1)
      (answered : c.answered = logged) (inTime : InTime compress clock c.t1 c.rs)
  | replied (rs : ReturnStamp) (toChild : c.toChild = []) (toParent : c.toParent = [rs]) (pc : c.pc = .read)
      (answered : c.answered = logged ++ [(c.t1, rs)]) (inTime : InTime compress clock c.t1 rs)

section Client

variable {compress : Bool} {clock : ℕ} {logged : List (Timespec × ReturnStamp)} {c c' : Connection}

theorem time_clockGettime (clock : ℕ) : (clockGettime clock).time = clock := by
  simp only [Timespec.time, clockGettime]
  omega

theorem InTime.later {start : Timespec} {rs : ReturnStamp} (inTime : InTime compress clock start rs)
    (elapsed : ℕ) : InTime compress (clock + elapsed) start rs := by
  refine ⟨inTime.early, inTime.waking, fun worked => ⟨(inTime.working worked).1, ?_⟩, ?_⟩
  · have := (inTime.working worked).2
    omega
  · have := inTime.past
    omega

theorem Connection.Awaited.later (awaited : c.Awaited compress clock logged) (elapsed : ℕ) :
    c.Awaited compress (clock + elapsed) logged := by
  cases awaited with
  | asked toChild toParent pc answered early started =>
    exact .asked toChild toParent pc answered early (by omega)
  | awake toChild toParent pc ts answered early started =>
    exact .awake toChild toParent pc ts answered early (by omega)
  | working toChild toParent pc ts answered early waking past =>
    exact .working toChild toParent pc ts answered early waking (by omega)
  | writing toChild toParent pc ts answered inTime =>
    exact .writing toChild toParent pc ts answered (inTime.later elapsed)
  | replied rs toChild toParent pc answered inTime =>
    exact .replied rs toChild toParent pc answered (inTime.later elapsed)

theorem Connection.Resting.childStep (resting : c.Resting logged) : childStep compress clock c = none := by
  simp [Rounds.childStep, resting.pc, resting.toChild]

/-- A step of a client that is awaited; what the parent has of it stays as it is. -/
theorem Connection.Awaited.childStep (awaited : c.Awaited compress clock logged)
    (stepped : childStep compress clock c = some c') :
    c'.Awaited compress clock logged ∧ c'.t1 = c.t1 ∧ c'.pollin = c.pollin ∧
      (c.toParent ≠ [] → c'.toParent ≠ []) := by
  cases awaited with
  | asked toChild toParent pc answered early started =>
    simp only [Rounds.childStep, pc, toChild] at stepped
    cases stepped
    exact ⟨.awake rfl toParent rfl rfl answered early started, rfl, rfl, id⟩
  | awake toChild toParent pc ts answered early started =>
    simp only [Rounds.childStep, pc] at stepped
    cases stepped
    have now := time_clockGettime clock
    cases compress with
    | true => exact ⟨.working toChild toParent rfl ts answered early (now ▸ started) now.le, rfl, rfl, id⟩
    | false =>
      refine ⟨.writing toChild toParent rfl ts answered ⟨early, now ▸ started, ?_, now.le⟩, rfl, rfl, id⟩
      intro worked
      cases worked
  | working toChild toParent pc ts answered early waking past =>
    simp only [Rounds.childStep, pc] at stepped
    cases stepped
    have now := time_clockGettime clock
    refine ⟨.writing toChild toParent rfl ts answered ⟨early, waking, ?_, past⟩, rfl, rfl, id⟩
    exact fun _ => ⟨now ▸ past, now.le⟩
  | writing toChild toParent pc ts answered inTime =>
    simp only [Rounds.childStep, pc] at stepped
    cases stepped
    refine ⟨.replied c.rs toChild (by simp [toParent]) rfl (by simp [answered, ts]) inTime, rfl, rfl, ?_⟩
    simp
  | replied rs toChild toParent pc answered inTime =>
    simp [Rounds.childStep, pc, toChild] at stepped

theorem Connection.Awaited.progress (awaited : c.Awaited compress clock logged) :
    (Rounds.childStep compress clock c).isSome ∨ c.toParent ≠ [] := by
  cases awaited with
  | asked toChild toParent pc => simp [Rounds.childStep, pc, toChild]
  | awake toChild toParent pc => simp [Rounds.childStep, pc]
  | working toChild toParent pc => simp [Rounds.childStep, pc]
  | writing toChild toParent pc => simp [Rounds.childStep, pc]
  | replied rs toChild toParent => simp [toParent]

end Client

/-- The parent has written to the clients before `k`. -/
structure Asking (clients : ℕ) (awaited : ℕ → Prop) (s : Test) (k : ℕ) : Prop where
  fresh : s.current = []
  pollin : ∀ i < clients, (s.connections i).pollin = true
  awaits : ∀ i < clients, (awaited i ↔ i < k)

/-- The parent has written to all clients, and asks `poll` for those that it has not heard. -/
structure Polling (clients : ℕ) (awaited : ℕ → Prop) (s : Test) : Prop where
  pollin : ∀ i < clients, ((s.connections i).pollin = true ↔ i ∉ s.heard)
  awaits : ∀ i < clients, (awaited i ↔ i ∉ s.heard)

/-- The parent goes through the clients from `k` on; `nr` of those that `poll` has reported are left. -/
structure Reading (clients : ℕ) (s : Test) (pending : ℤ) (revents : Finset ℕ) (k : ℕ) (nr : ℤ) : Prop where
  counted : pending + s.heard.length + nr = clients + revents.card
  remain : nr = (revents.filter (k ≤ ·)).card
  more : nr ≠ 0
  enough : revents.card ≤ pending
  ready : ∀ i ∈ revents, k ≤ i →
    i < clients ∧ (s.connections i).pollin = true ∧ (s.connections i).toParent ≠ []

/-- Whom the parent awaits at each place of its loop. -/
def Phase (clients : ℕ) (awaited : ℕ → Prop) (s : Test) : Parent → Prop
  | .sleep | .arm => s.current = [] ∧ ∀ i < clients, ¬awaited i
  | .stamp k => k ≤ clients ∧ Asking clients awaited s k
  | .write k =>
    k < clients ∧ (0 ≤ (s.connections k).t1.time ∧ (s.connections k).t1.time ≤ s.clock) ∧
      Asking clients awaited s k
  | .poll pending => pending + s.heard.length = clients ∧ Polling clients awaited s
  | .read pending revents k nr => Reading clients s pending revents k nr ∧ Polling clients awaited s
  | .finished => True

/-- Each round that is over has heard every client once, the current one none twice; a client is awaited exactly
while it has a stamp that it has not answered, or an answer that is not read. -/
structure Sound (clients : ℕ) (compress : Bool) (awaited : ℕ → Prop) (s : Test) : Prop where
  rounds : ∀ round ∈ s.rounds, (round.map Reply.client).Perm (List.range clients)
  nodup : s.heard.Nodup
  inside : ∀ i ∈ s.heard, i < clients
  phase : Phase clients awaited s s.parent
  serves : ∀ i < clients, awaited i → (s.connections i).Awaited compress s.clock (s.logged i)
  rests : ∀ i < clients, ¬awaited i → (s.connections i).Resting (s.logged i)
  inTime : ∀ reply ∈ s.log, InTime compress s.clock reply.start reply.rs

section Steps

variable {clients : ℕ} {compress : Bool} {awaited : ℕ → Prop} {s s' : Test} {k : ℕ}

@[simp] theorem set_same (s : Test) (i : ℕ) (c : Connection) : (s.set i c).connections i = c :=
  Function.update_self ..

@[simp] theorem set_other (s : Test) {i j : ℕ} (other : j ≠ i) (c : Connection) :
    (s.set i c).connections j = s.connections j :=
  Function.update_of_ne other ..

theorem Sound.heard_length (sound : Sound clients compress awaited s) : s.heard.length ≤ clients := by
  have subset : s.heard ⊆ List.range clients := fun i member => List.mem_range.mpr (sound.inside i member)
  simpa using (sound.nodup.subperm subset).length_le

theorem sound_start (clock : ℕ) (memory : ℕ → Connection) :
    Sound clients compress (fun _ => False) (.start clock memory) where
  rounds _ member := absurd member List.not_mem_nil
  nodup := List.nodup_nil
  inside _ member := absurd member List.not_mem_nil
  phase := ⟨rfl, fun _ _ => id⟩
  serves _ _ impossible := impossible.elim
  rests _ _ _ := ⟨rfl, rfl, rfl, rfl⟩
  inTime _ member := absurd member List.not_mem_nil

theorem Sound.tick (sound : Sound clients compress awaited s) (elapsed : ℕ) :
    Sound clients compress awaited { s with clock := s.clock + elapsed } where
  rounds := sound.rounds
  nodup := sound.nodup
  inside := sound.inside
  phase := by
    have phase := sound.phase
    cases pc : s.parent with
    | write k =>
      rw [pc] at phase
      obtain ⟨inside, started, fresh, pollin, awaits⟩ := phase
      have later := started.2.trans (Int.ofNat_le.mpr (Nat.le_add_right _ elapsed))
      exact ⟨inside, ⟨started.1, later⟩, fresh, pollin, awaits⟩
    | stamp k =>
      rw [pc] at phase
      exact ⟨phase.1, phase.2.fresh, phase.2.pollin, phase.2.awaits⟩
    | poll pending =>
      rw [pc] at phase
      exact ⟨phase.1, phase.2.pollin, phase.2.awaits⟩
    | read pending revents k nr =>
      rw [pc] at phase
      obtain ⟨⟨counted, remain, more, enough, ready⟩, pollin, awaits⟩ := phase
      exact ⟨⟨counted, remain, more, enough, ready⟩, pollin, awaits⟩
    | sleep => rwa [pc] at phase
    | arm => rwa [pc] at phase
    | finished => trivial
  serves i inside asked := (sound.serves i inside asked).later elapsed
  rests := sound.rests
  inTime reply member := (sound.inTime reply member).later elapsed

theorem Sound.leave (sound : Sound clients compress awaited s) :
    Sound clients compress awaited { s with parent := .finished } :=
  ⟨sound.rounds, sound.nodup, sound.inside, trivial, sound.serves, sound.rests, sound.inTime⟩

/-- A step of a client that is awaited. -/
theorem Sound.child (sound : Sound clients compress awaited s) {i : ℕ} (inside : i < clients) {c : Connection}
    (stepped : childStep compress s.clock (s.connections i) = some c) :
    Sound clients compress awaited (s.set i c) := by
  have asked : awaited i := by
    by_contra resting
    rw [(sound.rests i inside resting).childStep] at stepped
    cases stepped
  obtain ⟨serves, t1, pollin, replied⟩ := (sound.serves i inside asked).childStep stepped
  have pollin' (j : ℕ) : ((s.set i c).connections j).pollin = (s.connections j).pollin := by
    by_cases same : j = i
    · rw [same, set_same, pollin]
    · rw [set_other s same]
  refine ⟨sound.rounds, sound.nodup, sound.inside, ?_, ?_, ?_, sound.inTime⟩
  · have phase := sound.phase
    change Phase clients awaited (s.set i c) s.parent
    cases pc : s.parent with
    | stamp k =>
      rw [pc] at phase
      exact ⟨phase.1, phase.2.fresh, fun j low => (pollin' j).trans (phase.2.pollin j low), phase.2.awaits⟩
    | write k =>
      rw [pc] at phase
      obtain ⟨below, started, asking⟩ := phase
      refine ⟨below, ?_, asking.fresh, fun j low => (pollin' j).trans (asking.pollin j low), asking.awaits⟩
      by_cases same : k = i
      · rw [same, set_same, t1, ← same]
        exact started
      · rw [set_other s same]
        exact started
    | poll pending =>
      rw [pc] at phase
      exact ⟨phase.1, fun j low => by rw [pollin' j]; exact phase.2.pollin j low, phase.2.awaits⟩
    | read pending revents k nr =>
      rw [pc] at phase
      obtain ⟨reading, polling⟩ := phase
      refine ⟨⟨reading.counted, reading.remain, reading.more, reading.enough, fun j member later => ?_⟩,
        fun j low => by rw [pollin' j]; exact polling.pollin j low, polling.awaits⟩
      obtain ⟨low, asks, ready⟩ := reading.ready j member later
      refine ⟨low, (pollin' j).trans asks, ?_⟩
      by_cases same : j = i
      · rw [same, set_same]
        exact replied (same ▸ ready)
      · rwa [set_other s same]
    | sleep => rwa [pc] at phase
    | arm => rwa [pc] at phase
    | finished => trivial
  · intro j low asked'
    by_cases same : j = i
    · rw [same, set_same]
      exact serves
    · rw [set_other s same]
      exact sound.serves j low asked'
  · intro j low resting
    have other : j ≠ i := fun same => resting (same ▸ asked)
    rw [set_other s other]
    exact sound.rests j low resting

/-- There are no more clients that can be reported than are pending. -/
theorem Sound.card_reported (sound : Sound clients compress awaited s) {revents : Finset ℕ}
    (unheard : ∀ i ∈ revents, i < clients ∧ i ∉ s.heard) : revents.card + s.heard.length ≤ clients := by
  have apart : Disjoint revents s.heard.toFinset :=
    Finset.disjoint_left.mpr fun i member heard => (unheard i member).2 (List.mem_toFinset.mp heard)
  have subset : revents ∪ s.heard.toFinset ⊆ Finset.range clients := by
    intro i member
    rcases Finset.mem_union.mp member with reported | heard
    · exact Finset.mem_range.mpr (unheard i reported).1
    · exact Finset.mem_range.mpr (sound.inside i (List.mem_toFinset.mp heard))
  have cards := Finset.card_le_card subset
  rwa [Finset.card_union_of_disjoint apart, List.toFinset_card_of_nodup sound.nodup, Finset.card_range] at cards

theorem Sound.poll (sound : Sound clients compress awaited s) {revents : Finset ℕ}
    (stepped : pollStep clients s revents = some s') : Sound clients compress awaited s' := by
  have phase := sound.phase
  cases pc : s.parent with
  | poll pending =>
    simp only [pollStep, pc] at stepped
    obtain ⟨⟨-, some, ready⟩, same⟩ := Option.ite_none_right_eq_some.mp stepped
    cases same
    rw [pc] at phase
    obtain ⟨counted, polling⟩ := phase
    have all : revents.filter (0 ≤ ·) = revents := Finset.filter_true_of_mem fun i _ => Nat.zero_le i
    refine ⟨sound.rounds, sound.nodup, sound.inside, ?_, sound.serves, sound.rests, sound.inTime⟩
    have many := sound.card_reported fun i member =>
      ⟨(ready i member).1, (polling.pollin i (ready i member).1).mp (ready i member).2.1⟩
    have positive := some.card_pos
    exact ⟨⟨congrArg (· + (revents.card : ℤ)) counted, by rw [all], by omega, by omega,
      fun i member _ => ready i member⟩, polling.pollin, polling.awaits⟩
  | sleep | arm | stamp | write | read | finished => simp [pollStep, pc] at stepped

theorem Connection.Resting.set_pollin {logged : List (Timespec × ReturnStamp)} {c : Connection}
    (resting : c.Resting logged) (pollin : Bool) : Connection.Resting logged { c with pollin } :=
  ⟨resting.toChild, resting.toParent, resting.pc, resting.answered⟩

/-- The parent fills `ipfd`, and has written to nobody. -/
theorem Sound.arm (sound : Sound clients compress awaited s) (pc : s.parent = .arm)
    (stepped : parentStep clients compress s = some s') : Sound clients compress awaited s' := by
  have phase := sound.phase
  rw [pc] at phase
  obtain ⟨fresh, nobody⟩ := phase
  simp only [parentStep, pc] at stepped
  cases stepped
  refine ⟨sound.rounds, sound.nodup, sound.inside, ?_, ?_, ?_, sound.inTime⟩
  · exact ⟨Nat.zero_le _, fresh, fun i low => if_pos low,
      fun i low => iff_of_false (nobody i low) (Nat.not_lt_zero i)⟩
  · exact fun i low asked => absurd asked (nobody i low)
  · exact fun i low resting => (sound.rests i low resting).set_pollin _

theorem Sound.stamp (sound : Sound clients compress awaited s) (pc : s.parent = .stamp k)
    (stepped : parentStep clients compress s = some s') : Sound clients compress awaited s' := by
  have phase := sound.phase
  rw [pc] at phase
  obtain ⟨bound, asking⟩ := phase
  simp only [parentStep, pc] at stepped
  split_ifs at stepped with low
  · cases stepped
    have free : ¬awaited k := fun asked => absurd ((asking.awaits k low).mp asked) (Nat.lt_irrefl k)
    have rest := sound.rests k low free
    refine ⟨sound.rounds, sound.nodup, sound.inside, ⟨low, ?_, asking.fresh, fun i below => ?_, asking.awaits⟩,
      fun i below asked => ?_, fun i below resting => ?_, sound.inTime⟩
    · rw [set_same, time_clockGettime]
      exact ⟨Int.natCast_nonneg _, le_rfl⟩
    · by_cases same : i = k
      · rw [same, set_same]
        exact asking.pollin k low
      · rw [set_other s same]
        exact asking.pollin i below
    · have other : i ≠ k := fun same => free (same ▸ asked)
      rw [set_other s other]
      exact sound.serves i below asked
    · by_cases same : i = k
      · rw [same, set_same]
        exact ⟨rest.toChild, rest.toParent, rest.pc, rest.answered⟩
      · rw [set_other s same]
        exact sound.rests i below resting
  · cases stepped
    obtain rfl : k = clients := by omega
    have nobody : ∀ i, i ∉ s.heard := by simp [Test.heard, asking.fresh]
    refine ⟨sound.rounds, sound.nodup, sound.inside, ⟨by simp [Test.heard, asking.fresh], ?_, ?_⟩, sound.serves,
      sound.rests, sound.inTime⟩
    · exact fun i below => iff_of_true (asking.pollin i below) (nobody i)
    · exact fun i below => iff_of_true ((asking.awaits i below).mpr below) (nobody i)

/-- The parent writes to the client `k`, which is awaited from then on. -/
theorem Sound.write (sound : Sound clients compress awaited s) (pc : s.parent = .write k)
    (stepped : parentStep clients compress s = some s') :
    Sound clients compress (fun i => awaited i ∨ i = k) s' := by
  have phase := sound.phase
  rw [pc] at phase
  obtain ⟨low, started, asking⟩ := phase
  simp only [parentStep, pc] at stepped
  cases stepped
  have rest := sound.rests k low fun asked => absurd ((asking.awaits k low).mp asked) (Nat.lt_irrefl k)
  refine ⟨sound.rounds, sound.nodup, sound.inside, ⟨low, asking.fresh, fun i below => ?_, fun i below => ?_⟩,
    fun i below asked => ?_, fun i below resting => ?_, sound.inTime⟩
  · by_cases same : i = k
    · rw [same, set_same]
      exact asking.pollin k low
    · rw [set_other s same]
      exact asking.pollin i below
  · rw [asking.awaits i below]
    omega
  · by_cases same : i = k
    · rw [same, set_same]
      exact .asked (by simp [rest.toChild]) rest.toParent rest.pc rest.answered started.1 started.2
    · rw [set_other s same]
      exact sound.serves i below (asked.resolve_right same)
  · rw [set_other s fun same => resting (.inr same)]
    exact sound.rests i below fun asked => resting (.inl asked)

/-- A round is over when nobody is pending: each client has been heard once. -/
theorem Sound.finish {pending : ℤ} (sound : Sound clients compress awaited s) (pc : s.parent = .poll pending)
    (stepped : parentStep clients compress s = some s') : Sound clients compress awaited s' := by
  have phase := sound.phase
  rw [pc] at phase
  obtain ⟨counted, polling⟩ := phase
  simp only [parentStep, pc] at stepped
  obtain ⟨rfl, same⟩ := Option.ite_none_right_eq_some.mp stepped
  cases same
  have subset : s.heard ⊆ List.range clients := fun i member => List.mem_range.mpr (sound.inside i member)
  have whole : s.heard.Perm (List.range clients) :=
    (sound.nodup.subperm subset).perm_of_length_le (by simp; omega)
  have logged (i : ℕ) : Test.logged
      { s with parent := .sleep, rounds := s.rounds ++ [s.current], current := [] } i = s.logged i := by
    simp [Test.logged, Test.log]
  refine ⟨?_, List.nodup_nil, fun i member => absurd member List.not_mem_nil, ⟨rfl, fun i low asked => ?_⟩,
    fun i low asked => ?_, fun i low resting => ?_, fun reply member => sound.inTime reply ?_⟩
  · exact List.forall_mem_append.mpr ⟨sound.rounds, List.forall_mem_singleton.mpr whole⟩
  · exact (polling.awaits i low).mp asked (whole.mem_iff.mpr (List.mem_range.mpr low))
  · rw [logged i]
    exact sound.serves i low asked
  · rw [logged i]
    exact sound.rests i low resting
  · simpa [Test.log] using member

theorem u32_eq {x : ℤ} (nonneg : 0 ≤ x) (fits : x < 2 ^ 32) : u32 x = x := Int.emod_eq_of_lt nonneg fits

theorem card_filter_succ (revents : Finset ℕ) (k : ℕ) : (revents.filter (k ≤ ·)).card =
    (revents.filter (k + 1 ≤ ·)).card + if k ∈ revents then 1 else 0 := by
  by_cases member : k ∈ revents
  · have split : revents.filter (k ≤ ·) = insert k (revents.filter (k + 1 ≤ ·)) := by
      ext i
      simp only [Finset.mem_filter, Finset.mem_insert]
      constructor
      · rintro ⟨inside, later⟩
        rcases Nat.eq_or_lt_of_le later with same | after
        · exact .inl same.symm
        · exact .inr ⟨inside, after⟩
      · rintro (rfl | ⟨inside, after⟩)
        · exact ⟨member, le_rfl⟩
        · exact ⟨inside, by omega⟩
    rw [split, Finset.card_insert_of_notMem (by simp), if_pos member]
  · rw [if_neg member, Nat.add_zero]
    congr 1
    ext i
    simp only [Finset.mem_filter, and_congr_right_iff]
    intro inside
    have other : i ≠ k := fun same => member (same ▸ inside)
    omega

/-- The loop of `read_ts` goes on to the next client, or back to `poll`. -/
theorem phase_next {pending : ℤ} {revents : Finset ℕ} {nr : ℤ} (fits : clients < 2 ^ 32)
    (bound : s.heard.length ≤ clients) (counted : pending + s.heard.length + nr = clients + revents.card)
    (remain : nr = (revents.filter (k + 1 ≤ ·)).card) (enough : revents.card ≤ pending)
    (ready : ∀ i ∈ revents, k + 1 ≤ i →
      i < clients ∧ (s.connections i).pollin = true ∧ (s.connections i).toParent ≠ [])
    (polling : Polling clients awaited s) : Phase clients awaited s (.next pending revents k nr) := by
  by_cases none : nr = 0
  · rw [Parent.next, if_pos none, u32_eq (by omega) (by omega)]
    exact ⟨by omega, polling⟩
  · rw [Parent.next, if_neg none]
    exact ⟨⟨counted, remain, none, enough, ready⟩, polling⟩

/-- A client that `poll` has not reported is passed. -/
theorem Sound.pass {pending : ℤ} {revents : Finset ℕ} {nr : ℤ} (fits : clients < 2 ^ 32)
    (sound : Sound clients compress awaited s) (reading : Reading clients s pending revents k nr)
    (polling : Polling clients awaited s) (other : k ∉ revents) :
    Sound clients compress awaited { s with parent := .next pending revents k nr } := by
  have remain : nr = (revents.filter (k + 1 ≤ ·)).card := by
    rw [reading.remain, card_filter_succ, if_neg other, Nat.add_zero]
  exact ⟨sound.rounds, sound.nodup, sound.inside, phase_next fits sound.heard_length reading.counted remain
    reading.enough (fun i member later => reading.ready i member (by omega)) ⟨polling.pollin, polling.awaits⟩,
    sound.serves, sound.rests, sound.inTime⟩

/-- What `read_ts` does to the test for one client. -/
theorem readTs_cases {rs : ReturnStamp} {rest : List ReturnStamp}
    (there : (s.connections k).toParent = rs :: rest)
    (read : readTs compress (s.set k { s.connections k with pollin := false }) k = some s') :
    s'.clock = s.clock ∧ s'.rounds = s.rounds ∧ s'.current = s.current ++ [⟨k, (s.connections k).t1, rs⟩] ∧
      s'.connections k = { s.connections k with pollin := false, toParent := rest } ∧
      ∀ j ≠ k, s'.connections j = s.connections j := by
  simp only [readTs, set_same, there] at read
  cases read
  exact ⟨rfl, rfl, rfl, Function.update_self .., fun j other =>
    (Function.update_of_ne other ..).trans (Function.update_of_ne other ..)⟩

/-- The reply of a client that `poll` has reported is read and logged; the client rests then. -/
theorem Sound.hear {pending : ℤ} {revents : Finset ℕ} {nr : ℤ} (fits : clients < 2 ^ 32)
    (sound : Sound clients compress awaited s) (reading : Reading clients s pending revents k nr)
    (polling : Polling clients awaited s) (member : k ∈ revents)
    (read : readTs compress (s.set k { s.connections k with pollin := false }) k = some s') :
    Sound clients compress (fun i => awaited i ∧ i ≠ k)
      { s' with parent := .next pending revents k (u32 (nr - 1)) } := by
  obtain ⟨low, asks, ready⟩ := reading.ready k member le_rfl
  have unheard : k ∉ s.heard := (polling.pollin k low).mp asks
  have asked : awaited k := (polling.awaits k low).mpr unheard
  obtain ⟨rs, toChild, toParent, pc, answered, inTime⟩ : ∃ rs, (s.connections k).toChild = [] ∧
      (s.connections k).toParent = [rs] ∧ (s.connections k).pc = .read ∧
      (s.connections k).answered = s.logged k ++ [((s.connections k).t1, rs)] ∧
      InTime compress s.clock (s.connections k).t1 rs := by
    cases sound.serves k low asked with
    | replied rs toChild toParent pc answered inTime => exact ⟨rs, toChild, toParent, pc, answered, inTime⟩
    | asked toChild toParent => exact absurd toParent ready
    | awake toChild toParent => exact absurd toParent ready
    | working toChild toParent => exact absurd toParent ready
    | writing toChild toParent => exact absurd toParent ready
  obtain ⟨clock, rounds, current, own, others⟩ := readTs_cases toParent read
  have heard : s'.heard = s.heard ++ [k] := by simp [Test.heard, current]
  have log : s'.log = s.log ++ [⟨k, (s.connections k).t1, rs⟩] := by simp [Test.log, rounds, current]
  have loggedOwn : s'.logged k = s.logged k ++ [((s.connections k).t1, rs)] := by simp [Test.logged, log]
  have loggedOther {j : ℕ} (other : j ≠ k) : s'.logged j = s.logged j := by
    simp [Test.logged, log, other.symm]
  have nodup : s'.heard.Nodup := by
    rw [heard]
    exact List.nodup_append.mpr ⟨sound.nodup, List.nodup_singleton k, fun i member j same => by
      rintro rfl
      exact unheard (List.mem_singleton.mp same ▸ member)⟩
  have inside : ∀ i ∈ s'.heard, i < clients := by
    rw [heard]
    exact List.forall_mem_append.mpr ⟨sound.inside, List.forall_mem_singleton.mpr low⟩
  have bound : s'.heard.length ≤ clients := by
    have subset : s'.heard ⊆ List.range clients := fun i member => List.mem_range.mpr (inside i member)
    simpa using (nodup.subperm subset).length_le
  have length : s'.heard.length = s.heard.length + 1 := by simp [heard]
  have fewer : (revents.filter (k ≤ ·)).card = (revents.filter (k + 1 ≤ ·)).card + 1 := by
    rw [card_filter_succ, if_pos member]
  have counted := reading.counted
  have remain := reading.remain
  have few : (revents.filter (k ≤ ·)).card ≤ clients := by
    have subset : revents.filter (k ≤ ·) ⊆ Finset.range clients := by
      intro i member
      obtain ⟨reported, later⟩ := Finset.mem_filter.mp member
      exact Finset.mem_range.mpr (reading.ready i reported later).1
    simpa using Finset.card_le_card subset
  rw [u32_eq (by omega) (by omega)]
  refine ⟨rounds ▸ sound.rounds, nodup, inside,
    phase_next fits bound ?_ (by omega) reading.enough ?_ ⟨?_, ?_⟩, ?_, ?_, ?_⟩
  · change pending + (s'.heard.length : ℤ) + (nr - 1) = _
    omega
  · intro i reported later
    have other : i ≠ k := by omega
    change _ ∧ (s'.connections i).pollin = true ∧ (s'.connections i).toParent ≠ []
    rw [others i other]
    exact reading.ready i reported (by omega)
  · intro i below
    change (s'.connections i).pollin = true ↔ i ∉ s'.heard
    by_cases same : i = k
    · simp [same, own, heard]
    · simpa [others i same, heard, same] using polling.pollin i below
  · intro i below
    change awaited i ∧ i ≠ k ↔ i ∉ s'.heard
    simp [heard, polling.awaits i below]
  · rintro i below ⟨waits, other⟩
    change (s'.connections i).Awaited compress s'.clock (s'.logged i)
    rw [others i other, loggedOther other, clock]
    exact sound.serves i below waits
  · intro i below rests
    change (s'.connections i).Resting (s'.logged i)
    by_cases same : i = k
    · rw [same, own, loggedOwn]
      exact ⟨toChild, rfl, pc, answered⟩
    · rw [others i same, loggedOther same]
      exact sound.rests i below fun waits => rests ⟨waits, same⟩
  · change ∀ reply ∈ s'.log, InTime compress s'.clock reply.start reply.rs
    rw [log, clock]
    exact List.forall_mem_append.mpr ⟨sound.inTime, List.forall_mem_singleton.mpr inTime⟩

/-- The loop of `read_ts` stops before it is through with the clients. -/
theorem Reading.low {pending : ℤ} {revents : Finset ℕ} {nr : ℤ}
    (reading : Reading clients s pending revents k nr) : k < clients := by
  have some : (revents.filter (k ≤ ·)).Nonempty := by
    rw [← Finset.card_pos]
    have := reading.remain
    have := reading.more
    omega
  obtain ⟨i, member⟩ := some
  obtain ⟨reported, later⟩ := Finset.mem_filter.mp member
  exact later.trans_lt (reading.ready i reported later).1

theorem Sound.read {pending : ℤ} {revents : Finset ℕ} {nr : ℤ} (fits : clients < 2 ^ 32)
    (sound : Sound clients compress awaited s) (pc : s.parent = .read pending revents k nr)
    (stepped : parentStep clients compress s = some s') : ∃ awaited', Sound clients compress awaited' s' := by
  have phase := sound.phase
  rw [pc] at phase
  obtain ⟨reading, polling⟩ := phase
  simp only [parentStep, pc, if_pos reading.low] at stepped
  by_cases member : k ∈ revents
  · rw [if_pos member] at stepped
    obtain ⟨t, read, same⟩ := Option.bind_eq_some_iff.mp stepped
    cases same
    exact ⟨_, sound.hear fits reading polling member read⟩
  · rw [if_neg member] at stepped
    cases stepped
    exact ⟨_, sound.pass fits reading polling member⟩

theorem sound_parent (fits : clients < 2 ^ 32) (sound : Sound clients compress awaited s)
    (stepped : parentStep clients compress s = some s') : ∃ awaited', Sound clients compress awaited' s' := by
  cases pc : s.parent with
  | sleep =>
    have phase := sound.phase
    rw [pc] at phase
    simp only [parentStep, pc] at stepped
    cases stepped
    exact ⟨_, sound.rounds, sound.nodup, sound.inside, phase, sound.serves, sound.rests, sound.inTime⟩
  | arm => exact ⟨_, sound.arm pc stepped⟩
  | stamp k => exact ⟨_, sound.stamp pc stepped⟩
  | write k => exact ⟨_, sound.write pc stepped⟩
  | poll pending => exact ⟨_, sound.finish pc stepped⟩
  | read pending revents k nr => exact sound.read fits pc stepped
  | finished => simp [parentStep, pc] at stepped

theorem sound_step (fits : clients < 2 ^ 32) (s : Test) (e : Event) (s' : Test)
    (sound : ∃ awaited, Sound clients compress awaited s) (stepped : testStep clients compress s e = some s') :
    ∃ awaited, Sound clients compress awaited s' := by
  obtain ⟨awaited, sound⟩ := sound
  cases e with
  | tick elapsed =>
    cases stepped
    exact ⟨awaited, sound.tick elapsed⟩
  | parent => exact sound_parent fits sound stepped
  | poll revents => exact ⟨awaited, sound.poll stepped⟩
  | leave =>
    obtain ⟨-, same⟩ := Option.ite_none_right_eq_some.mp stepped
    cases same
    exact ⟨awaited, sound.leave⟩
  | child i =>
    obtain ⟨inside, stepped⟩ := Option.ite_none_right_eq_some.mp stepped
    obtain ⟨c, taken, same⟩ := Option.map_eq_some_iff.mp stepped
    cases same
    exact ⟨awaited, sound.child inside taken⟩

end Steps

/-- Where the clock has been running for less than 2^64 nanoseconds, nothing wraps around. -/
theorem usecSince_eq {start ended : Timespec} (ordered : start.time ≤ ended.time) (early : 0 ≤ start.time)
    (late : ended.time < 2 ^ 64) : usecSince start ended = (ended.time - start.time) / 1000 := by
  simp only [Timespec.time] at ordered early late
  simp only [usecSince, u64, Timespec.time]
  omega

/-- The delay of a reply is the time from its stamp to the start of the work of the client, in microseconds. -/
def Reply.Exact (compress : Bool) (reply : Reply) : Prop :=
  0 ≤ reply.delay ∧ reply.delay = (reply.rs.preWork.time - reply.start.time) / 1000 ∧
    (compress = true → reply.workDelay = (reply.rs.postWork.time - reply.start.time) / 1000 - reply.delay ∧
      0 ≤ reply.workDelay)

theorem Reply.exact_of_inTime {compress : Bool} {clock : ℕ} {reply : Reply} (late : clock < 2 ^ 64)
    (inTime : InTime compress clock reply.start reply.rs) : reply.Exact compress := by
  have early := inTime.early
  have waking := inTime.waking
  have past := inTime.past
  have delay : reply.delay = (reply.rs.preWork.time - reply.start.time) / 1000 :=
    usecSince_eq waking early (by omega)
  refine ⟨by omega, delay, fun worked => ?_⟩
  obtain ⟨working, ended⟩ := inTime.working worked
  have whole := usecSince_eq (waking.trans working) early (by omega)
  rw [Reply.workDelay, whole, u64]
  omega

theorem Connection.Awaited.answered_eq {compress : Bool} {clock : ℕ} {logged : List (Timespec × ReturnStamp)}
    {c : Connection} (awaited : c.Awaited compress clock logged) :
    c.answered = logged ++ c.toParent.map (c.t1, ·) ∧ c.toParent.length ≤ 1 := by
  cases awaited with
  | asked toChild toParent pc answered => simp [toParent, answered]
  | awake toChild toParent pc ts answered => simp [toParent, answered]
  | working toChild toParent pc ts answered => simp [toParent, answered]
  | writing toChild toParent pc ts answered => simp [toParent, answered]
  | replied rs toChild toParent pc answered => simp [toParent, answered]

/-- Whatever order the processes run in, each round that is over has logged one reply of each client, and the
current one none twice; what is logged of a client are its answers with the very stamps that they answer, all
but the one that may still be in the pipe; and the delays are exact as long as the clock fits into 64 bits. -/
theorem rounds_measured {clients : ℕ} (fits : clients < 2 ^ 32) {compress : Bool} {clock : ℕ}
    {memory : ℕ → Connection} {events : List Event} {s : Test}
    (ran : run (testStep clients compress) (.start clock memory) events = some s) :
    (∀ round ∈ s.rounds, (round.map Reply.client).Perm (List.range clients)) ∧
      (s.heard.Nodup ∧ ∀ i ∈ s.heard, i < clients) ∧
      (∀ i < clients, (s.connections i).answered =
          s.logged i ++ (s.connections i).toParent.map ((s.connections i).t1, ·) ∧
        (s.connections i).toParent.length ≤ 1) ∧
      (s.clock < 2 ^ 64 → ∀ reply ∈ s.log, reply.Exact compress) := by
  obtain ⟨awaited, sound⟩ := run_invariant (sound_step fits) ⟨_, sound_start clock memory⟩ ran
  refine ⟨sound.rounds, ⟨sound.nodup, sound.inside⟩, fun i low => ?_, fun late reply member => ?_⟩
  · by_cases asked : awaited i
    · exact (sound.serves i low asked).answered_eq
    · have rest := sound.rests i low asked
      simp [rest.toParent, rest.answered]
  · exact Reply.exact_of_inTime late (sound.inTime reply member)

def blank : Connection := ⟨⟨0, 0⟩, false, [], [], .read, ⟨0, 0⟩, ⟨⟨0, 0⟩, ⟨0, 0⟩⟩, []⟩

def oneRound : List Event :=
  List.replicate 4 .parent ++ .tick 3000 :: List.replicate 3 (.child 0) ++
    [.parent, .poll {0}, .parent, .parent]

/-- A round with one client, which wakes up three microseconds after the stamp. -/
theorem rounds_measured_one :
    ∃ s, run (testStep 1 false) (.start 0 fun _ => blank) oneRound = some s ∧ s.log.map Reply.delay = [3] ∧
      ∀ round ∈ s.rounds, (round.map Reply.client).Perm (List.range 1) := by
  have ran : run (testStep 1 false) (.start 0 fun _ => blank) oneRound = some _ := rfl
  exact ⟨_, ran, rfl, (rounds_measured (by decide) ran).1⟩

end Operativsystem.Latency.Rounds
