import Operativsystem.Library.Work

/-! # The start of the clients of `latt`

`run_test` forks one client after the other, and after each `fork` it waits in `sem_down` until the new client
has called `sem_up`. The semaphore is a counter under a mutex, with a condition variable; every access of it is
a step here, and `pthread_cond_wait` may return although nobody has signalled. `sem_up` signals only if the
counter is 0 and somebody waits, which is enough for one waiting process. `fork` may fail; its -1 is taken for a
client, and the parent waits for it for ever.
-/

namespace Operativsystem.Latency

open Machine

/-- What the parent does next: in the loop of `run_test`, in `sem_down`, or in `run_parent`. -/
inductive Parent where
  | fork
  | lock
  | test
  | addWaiter
  | wait
  | asleep
  | relock
  | removeWaiter
  | decrement
  | unlock
  | running
deriving DecidableEq, Repr

/-- What a client does next: it has not been forked, or is in `sem_up`, or in the loop of `run_child`. -/
inductive Child where
  | unborn
  | lock
  | test
  | signal
  | increment
  | unlock
  | running
deriving DecidableEq, Repr

inductive Process where
  | parent
  | child (i : ℕ)
deriving DecidableEq, Repr

/-- The semaphore, with the holder of its mutex, and the processes; `forked` is the index of the loop. -/
structure StartUp where
  lock : Option Process
  value : ℤ
  waiters : ℤ
  forked : ℕ
  parent : Parent
  children : ℕ → Child

/-- After `init_sem`. -/
def StartUp.start : StartUp := ⟨none, 0, 0, 0, .fork, fun _ => .unborn⟩

def StartUp.goto (s : StartUp) (i : ℕ) (child : Child) : StartUp :=
  { s with children := Function.update s.children i child }

/-- A step of the loop of `run_test`, which calls `sem_down`. -/
def parentStep (clients : ℕ) (s : StartUp) : Option StartUp :=
  match s.parent with
  | .fork =>
    if s.forked < clients then
      let children := Function.update s.children s.forked .lock
      some { s with children, forked := s.forked + 1, parent := .lock }
    else some { s with parent := .running }
  | .lock => if s.lock = none then some { s with lock := some .parent, parent := .test } else none
  | .test => some { s with parent := if s.value = 0 then .addWaiter else .decrement }
  | .addWaiter => some { s with waiters := s.waiters + 1, parent := .wait }
  | .wait => some { s with lock := none, parent := .asleep }
  | .asleep => none
  | .relock => if s.lock = none then some { s with lock := some .parent, parent := .removeWaiter } else none
  | .removeWaiter => some { s with waiters := s.waiters - 1, parent := .test }
  | .decrement => some { s with value := s.value - 1, parent := .unlock }
  | .unlock => some { s with lock := none, parent := .fork }
  | .running => none

/-- `pthread_cond_wait` returns once it has the mutex again. -/
def StartUp.wake (s : StartUp) : StartUp :=
  { s with parent := if s.parent = .asleep then .relock else s.parent }

/-- A step of `sem_up`. -/
def childStep (s : StartUp) (i : ℕ) : Option StartUp :=
  match s.children i with
  | .unborn => none
  | .lock => if s.lock = none then some { s.goto i .test with lock := some (.child i) } else none
  | .test => some (s.goto i (if s.value = 0 ∧ s.waiters ≠ 0 then .signal else .increment))
  | .signal => some (s.wake.goto i .increment)
  | .increment => some { s.goto i .unlock with value := s.value + 1 }
  | .unlock => some { s.goto i .running with lock := none }
  | .running => none

/-- `fork` returns -1, which is not 0, so the parent calls `sem_down`. -/
def forkFails (clients : ℕ) (s : StartUp) : Option StartUp :=
  if s.parent = .fork ∧ s.forked < clients then some { s with forked := s.forked + 1, parent := .lock } else none

inductive StartEvent where
  | parent
  | forkFails
  | spurious
  | child (i : ℕ)
deriving DecidableEq, Repr

def startStep (clients : ℕ) (s : StartUp) : StartEvent → Option StartUp
  | .parent => parentStep clients s
  | .forkFails => forkFails clients s
  | .spurious => if s.parent = .asleep then some s.wake else none
  | .child i => childStep s i

/-- The parent holds the mutex. -/
def Parent.Inside (p : Parent) : Prop := p ∈ [.test, .addWaiter, .wait, .removeWaiter, .decrement, .unlock]

/-- The parent waits for the client that it has forked last. -/
def Parent.Pending (p : Parent) : Prop :=
  p ∈ [.lock, .test, .addWaiter, .wait, .asleep, .relock, .removeWaiter, .decrement]

/-- The parent is counted in `waiters`. -/
def Parent.Counted (p : Parent) : Prop := p ∈ [.wait, .asleep, .relock, .removeWaiter]

/-- The client holds the mutex. -/
def Child.Inside (c : Child) : Prop := c ∈ [.test, .signal, .increment, .unlock]

/-- The client has counted itself. -/
def Child.Present (c : Child) : Prop := c ∈ [.unlock, .running]

instance (p : Parent) : Decidable p.Inside := inferInstanceAs (Decidable (_ ∈ _))
instance (p : Parent) : Decidable p.Pending := inferInstanceAs (Decidable (_ ∈ _))
instance (p : Parent) : Decidable p.Counted := inferInstanceAs (Decidable (_ ∈ _))
instance (c : Child) : Decidable c.Inside := inferInstanceAs (Decidable (_ ∈ _))
instance (c : Child) : Decidable c.Present := inferInstanceAs (Decidable (_ ∈ _))

/-- One process holds the mutex, the counter is 1 exactly while the last client has counted itself and the
parent has not yet seen it, and the parent sleeps only while nobody is about to count. -/
structure Sound (clients : ℕ) (s : StartUp) : Prop where
  bound : s.forked ≤ clients
  unborn : ∀ i, s.children i = .unborn ↔ s.forked ≤ i
  pending : s.parent.Pending → 0 < s.forked
  holdsParent : s.lock = some .parent ↔ s.parent.Inside
  holdsChild : ∀ i, s.lock = some (.child i) ↔ (s.children i).Inside
  early : ∀ i < s.forked, ¬(s.children i).Present → s.parent.Pending ∧ i + 1 = s.forked
  value : s.value = if s.parent.Pending ∧ (s.children (s.forked - 1)).Present then 1 else 0
  waiters : s.waiters = if s.parent.Counted then 1 else 0
  sleeps : s.parent = .asleep → ∀ i, s.children i ≠ .increment
  waits : s.parent ∈ [.addWaiter, .wait, .asleep] → s.value = 0
  decrements : s.parent = .decrement → s.value = 1
  leaves : s.parent = .running → s.forked = clients

section Steps

variable {clients : ℕ} {s s' : StartUp} {i : ℕ}

theorem sound_start (clients : ℕ) : Sound clients .start := by
  constructor <;> simp [StartUp.start, Parent.Inside, Parent.Pending, Parent.Counted, Child.Inside]

theorem Sound.present_of_value (sound : Sound clients s) (counted : s.value ≠ 0) :
    ∀ i < s.forked, (s.children i).Present := by
  have last : s.parent.Pending ∧ (s.children (s.forked - 1)).Present := by
    by_contra none
    exact counted (sound.value.trans (if_neg none))
  intro i inside
  by_contra absent
  obtain ⟨-, same⟩ := sound.early i inside absent
  exact absent (show i = s.forked - 1 by omega ▸ last.2)

theorem Sound.present_of_idle (sound : Sound clients s) (idle : ¬s.parent.Pending) :
    ∀ i < s.forked, (s.children i).Present := by
  intro i inside
  by_contra absent
  exact idle (sound.early i inside absent).1

/-- Nobody but the parent holds the mutex. -/
def StartUp.ParentAlone (s : StartUp) : Prop := s.lock = none ∨ s.lock = some .parent

theorem Sound.outside (sound : Sound clients s) (alone : s.ParentAlone) (i : ℕ) : ¬(s.children i).Inside := by
  rw [← sound.holdsChild]
  rcases alone with free | own
  · rw [free]
    nofun
  · rw [own]
    nofun

/-- A step of the parent, other than a `fork`. -/
theorem Sound.parent (sound : Sound clients s) (alone : s.ParentAlone) (p : Parent) {lock : Option Process}
    {value waiters : ℤ} (locked : lock = if p.Inside then some .parent else none)
    (pending : p.Pending → s.parent.Pending)
    (counted : value = if p.Pending ∧ (s.children (s.forked - 1)).Present then 1 else 0)
    (present : ¬p.Pending → ∀ i < s.forked, (s.children i).Present)
    (waiting : waiters = if p.Counted then 1 else 0) (waits : p ∈ [.addWaiter, .wait, .asleep] → value = 0)
    (decrements : p = .decrement → value = 1) (leaves : p = .running → s.forked = clients) :
    Sound clients { s with lock, value, waiters, parent := p } where
  bound := sound.bound
  unborn := sound.unborn
  pending next := sound.pending (pending next)
  holdsParent := by
    rw [locked]
    split <;> simp [*]
  holdsChild i := by
    have outside := sound.outside alone i
    rw [locked]
    split <;> simp [outside]
  early i inside absent := by
    by_cases next : p.Pending
    · exact ⟨next, (sound.early i inside absent).2⟩
    · exact absurd (present next i inside) absent
  value := counted
  waiters := waiting
  sleeps _ i same := sound.outside alone i (by rw [same]; decide)
  waits := waits
  decrements := decrements
  leaves := leaves

/-- A new client. -/
theorem Sound.fork (sound : Sound clients s) (forking : s.parent = .fork) (more : s.forked < clients) :
    Sound clients
      { s with
        children := Function.update s.children s.forked .lock, forked := s.forked + 1, parent := .lock } := by
  have idle : ¬s.parent.Pending := by rw [forking]; decide
  have quiet : ¬s.parent.Counted := by rw [forking]; decide
  have free : s.lock ≠ some .parent := by rw [Ne, sound.holdsParent, forking]; decide
  have before : ¬(s.children s.forked).Inside := by rw [(sound.unborn s.forked).mpr le_rfl]; decide
  have after : ¬Child.lock.Inside := by decide
  have absent : ¬Child.lock.Present := by decide
  refine ⟨more, fun i => ?_, fun _ => Nat.succ_pos _, ⟨fun held => absurd held free, nofun⟩, fun i => ?_,
    fun i inside absent => ?_, ?_, ?_, nofun, nofun, nofun, nofun⟩ <;> dsimp only at *
  · by_cases other : i = s.forked
    · simp [other]
    · rw [Function.update_of_ne other, sound.unborn]
      omega
  · by_cases other : i = s.forked
    · simp only [other, Function.update_self, after, iff_false]
      exact fun held => before ((sound.holdsChild s.forked).mp held)
    · rw [Function.update_of_ne other]
      exact sound.holdsChild i
  · refine ⟨by decide, ?_⟩
    by_contra other
    rw [Function.update_of_ne (by omega)] at absent
    exact absent (sound.present_of_idle idle i (by omega))
  · simpa [absent, idle] using sound.value
  · exact sound.waiters.trans (if_neg quiet)

/-- A step within `sem_down` that only the place of the parent depends on. -/
theorem Sound.walk (sound : Sound clients s) (alone : s.ParentAlone) (p : Parent) {lock : Option Process}
    (locked : lock = if p.Inside then some .parent else none) (before : s.parent.Pending) (after : p.Pending)
    (counted : p.Counted ↔ s.parent.Counted) (waits : p ∈ [.addWaiter, .wait, .asleep] → s.value = 0)
    (decrements : p = .decrement → s.value = 1) : Sound clients { s with lock, parent := p } := by
  have value := sound.value
  have waiters := sound.waiters
  refine sound.parent alone p locked (fun _ => before) ?_ (fun idle => absurd after idle) ?_ waits decrements ?_
  · simpa only [before, after] using value
  · simpa only [counted] using waiters
  · rintro rfl
    exact absurd after (by decide)

theorem sound_parent (sound : Sound clients s) (taken : parentStep clients s = some s') : Sound clients s' := by
  have held (inside : s.parent.Inside) : s.lock = some .parent := sound.holdsParent.mpr inside
  have value := sound.value
  have waiters := sound.waiters
  cases pc : s.parent <;> simp only [parentStep, pc] at taken held
  case fork =>
    split at taken
    · rename_i more
      cases taken
      exact sound.fork pc more
    · rename_i last
      cases taken
      have free : s.lock ≠ some .parent := by rw [Ne, sound.holdsParent, pc]; decide
      have present := sound.present_of_idle (by rw [pc]; decide)
      exact ⟨sound.bound, sound.unborn, nofun, ⟨fun held => absurd held free, nofun⟩, sound.holdsChild,
        fun i inside absent => absurd (present i inside) absent, by simpa [pc, Parent.Pending] using value,
        by simpa [pc, Parent.Counted] using waiters, nofun, nofun, nofun,
        fun _ => le_antisymm sound.bound (not_lt.mp last)⟩
  case lock =>
    obtain ⟨free, same⟩ := Option.ite_none_right_eq_some.mp taken
    cases same
    exact sound.walk (.inl free) .test rfl (by rw [pc]; decide) (by decide) (by rw [pc]; decide) nofun nofun
  case test =>
    have locked := held (by decide)
    cases taken
    have pending : s.parent.Pending := by rw [pc]; decide
    split
    · rename_i zero
      exact sound.walk (.inr locked) .addWaiter locked pending (by decide) (by rw [pc]; decide)
        (fun _ => zero) nofun
    · rename_i counted
      have one : s.value = 1 := by
        rw [value] at counted ⊢
        exact if_pos (by_contra fun none => counted (if_neg none))
      exact sound.walk (.inr locked) .decrement locked pending (by decide) (by rw [pc]; decide) nofun
        fun _ => one
  case addWaiter =>
    have locked := held (by decide)
    cases taken
    refine sound.parent (.inr locked) .wait locked (fun _ => by rw [pc]; decide) ?_
      (fun idle => absurd (by decide) idle) ?_ (fun _ => sound.waits (by rw [pc]; decide)) nofun nofun
    · simpa [pc, Parent.Pending] using value
    · simpa [pc, Parent.Counted] using waiters
  case wait =>
    have locked := held (by decide)
    cases taken
    exact sound.walk (.inr locked) .asleep rfl (by rw [pc]; decide) (by decide) (by rw [pc]; decide)
      (fun _ => sound.waits (by rw [pc]; decide)) nofun
  case asleep => cases taken
  case relock =>
    obtain ⟨free, same⟩ := Option.ite_none_right_eq_some.mp taken
    cases same
    exact sound.walk (.inl free) .removeWaiter rfl (by rw [pc]; decide) (by decide) (by rw [pc]; decide) nofun
      nofun
  case removeWaiter =>
    have locked := held (by decide)
    cases taken
    refine sound.parent (.inr locked) .test locked (fun _ => by rw [pc]; decide) ?_
      (fun idle => absurd (by decide) idle) ?_ nofun nofun nofun
    · simpa [pc, Parent.Pending] using value
    · have one : s.waiters = 1 := by simpa [pc, Parent.Counted] using waiters
      simp [one, Parent.Counted]
  case decrement =>
    have locked := held (by decide)
    cases taken
    have one := sound.decrements pc
    refine sound.parent (.inr locked) .unlock locked nofun ?_
      (fun _ => sound.present_of_value (by rw [one]; decide)) ?_ nofun nofun nofun
    · simp [one, Parent.Pending]
    · simpa [pc, Parent.Counted] using waiters
  case unlock =>
    have locked := held (by decide)
    cases taken
    have present := sound.present_of_idle (by rw [pc]; decide)
    refine sound.parent (.inr locked) .fork rfl nofun ?_ (fun _ => present) ?_ nofun nofun nofun
    · simpa [pc, Parent.Pending] using value
    · simpa [pc, Parent.Counted] using waiters
  case running => cases taken

/-- Nobody but this client holds the mutex. -/
def StartUp.ChildAlone (s : StartUp) (i : ℕ) : Prop := s.lock = none ∨ s.lock = some (.child i)

/-- The parent may have been woken. -/
def Woken (p p' : Parent) : Prop := p' = p ∨ p = .asleep ∧ p' = .relock

/-- A step of a client that has been forked. -/
theorem Sound.child (sound : Sound clients s) (alone : s.ChildAlone i) (born : s.children i ≠ .unborn)
    {p : Parent} (woken : Woken s.parent p) (c : Child) (born' : c ≠ .unborn) {lock : Option Process} {value : ℤ}
    (locked : lock = if c.Inside then some (.child i) else none)
    (keeps : (s.children i).Present → c.Present)
    (counted : value =
      if s.parent.Pending ∧ (Function.update s.children i c (s.forked - 1)).Present then 1 else 0)
    (sleeps : p = .asleep → c ≠ .increment ∧ value = 0) :
    Sound clients
      { s with lock, value, parent := p, children := Function.update s.children i c } := by
  have outsideParent : ¬s.parent.Inside := by
    rw [← sound.holdsParent]
    rcases alone with free | own
    · rw [free]
      nofun
    · rw [own]
      nofun
  have outside {j : ℕ} (other : j ≠ i) : ¬(s.children j).Inside := by
    rw [← sound.holdsChild]
    rcases alone with free | own
    · rw [free]
      nofun
    · rw [own, Option.some.injEq, Process.child.injEq]
      exact Ne.symm other
  have same : (p.Pending ↔ s.parent.Pending) ∧ (p.Counted ↔ s.parent.Counted) ∧ ¬p.Inside := by
    rcases woken with rfl | ⟨asleep, rfl⟩
    · exact ⟨.rfl, .rfl, outsideParent⟩
    · rw [asleep]
      decide
  have at_i (c' : Child) : Function.update s.children i c' i = c' := Function.update_self ..
  have other_i {j : ℕ} (other : j ≠ i) : Function.update s.children i c j = s.children j :=
    Function.update_of_ne other _ _
  refine ⟨sound.bound, fun j => ?_, fun pending => sound.pending (same.1.mp pending),
    ⟨fun held => ?_, fun inside => absurd inside same.2.2⟩, fun j => ?_, fun j inside absent => ?_, ?_, ?_,
    fun asleep j => ?_, fun member => ?_, fun decrement => ?_, fun running => ?_⟩ <;> dsimp only at *
  · by_cases here : j = i
    · rw [here, at_i, ← sound.unborn]
      exact iff_of_false born' born
    · rw [other_i here, sound.unborn]
  · rw [locked] at held
    split at held <;> cases held
  · by_cases here : j = i
    · rw [here, at_i, locked]
      split <;> simp [*]
    · rw [other_i here, locked]
      refine iff_of_false (fun held => ?_) (outside here)
      split at held <;> cases held
      exact here rfl
  · rw [same.1]
    by_cases here : j = i
    · subst here
      rw [at_i] at absent
      exact sound.early j inside fun present => absent (keeps present)
    · rw [other_i here] at absent
      exact sound.early j inside absent
  · simpa only [same.1] using counted
  · simpa only [same.2.1] using sound.waiters
  · by_cases here : j = i
    · rw [here, at_i]
      exact (sleeps asleep).1
    · rw [other_i here]
      have slept : s.parent = .asleep := by
        rcases woken with rfl | ⟨slept, -⟩
        · exact asleep
        · exact slept
      exact sound.sleeps slept j
  · simp only [List.mem_cons, List.not_mem_nil, or_false] at member
    rcases member with rfl | rfl | asleep
    · exact absurd (by decide) same.2.2
    · exact absurd (by decide) same.2.2
    · exact (sleeps asleep).2
  · subst decrement
    exact absurd (by decide) same.2.2
  · rcases woken with rfl | ⟨-, rfl⟩
    · exact sound.leaves running
    · cases running

/-- Whether a client is present depends on itself alone. -/
theorem present_update {c : Child} (same : c.Present ↔ (s.children i).Present) (j : ℕ) :
    (Function.update s.children i c j).Present ↔ (s.children j).Present := by
  by_cases here : j = i
  · rw [here, Function.update_self, same]
  · rw [Function.update_of_ne here]

theorem sound_child (sound : Sound clients s) (taken : childStep s i = some s') : Sound clients s' := by
  have held (inside : (s.children i).Inside) : s.lock = some (.child i) := (sound.holdsChild i).mpr inside
  have sleepsAt (asleep : s.parent = .asleep) : s.value = 0 := sound.waits (by rw [asleep]; decide)
  have counted {c : Child} (same : c.Present ↔ (s.children i).Present) : s.value =
      if s.parent.Pending ∧ (Function.update s.children i c (s.forked - 1)).Present then 1 else 0 := by
    simpa only [present_update same] using sound.value
  cases pc : s.children i <;> simp only [childStep, pc] at taken held counted
  case unborn => cases taken
  case lock =>
    obtain ⟨free, same⟩ := Option.ite_none_right_eq_some.mp taken
    cases same
    exact sound.child (.inl free) (by rw [pc]; nofun) (.inl rfl) .test nofun rfl (by rw [pc]; decide)
      (counted (by decide)) fun asleep => ⟨nofun, sleepsAt asleep⟩
  case test =>
    have locked := held (by decide)
    cases taken
    split
    · exact sound.child (.inr locked) (by rw [pc]; nofun) (.inl rfl) .signal nofun locked (by rw [pc]; decide)
        (counted (by decide)) fun asleep => ⟨nofun, sleepsAt asleep⟩
    · rename_i nobody
      refine sound.child (.inr locked) (by rw [pc]; nofun) (.inl rfl) .increment nofun locked
        (by rw [pc]; decide) (counted (by decide)) fun asleep => absurd ⟨sleepsAt asleep, ?_⟩ nobody
      have one : s.waiters = 1 := sound.waiters.trans (if_pos (by rw [asleep]; decide))
      rw [one]
      decide
  case signal =>
    have locked := held (by decide)
    cases taken
    have woken : Woken s.parent s.wake.parent := by
      by_cases asleep : s.parent = .asleep
      · exact .inr ⟨asleep, if_pos asleep⟩
      · exact .inl (if_neg asleep)
    refine sound.child (.inr locked) (by rw [pc]; nofun) woken .increment nofun locked (by rw [pc]; decide)
      (counted (by decide)) fun asleep => ?_
    simp only [StartUp.wake] at asleep
    split at asleep
    · cases asleep
    · contradiction
  case increment =>
    have locked := held (by decide)
    cases taken
    have inside : i < s.forked := by
      rw [← not_le, ← sound.unborn, pc]
      nofun
    obtain ⟨pending, last⟩ := sound.early i inside (by rw [pc]; decide)
    have here : s.forked - 1 = i := by omega
    have zero : s.value = 0 := by
      rw [sound.value, here, pc]
      exact if_neg fun both => absurd both.2 (by decide)
    refine sound.child (.inr locked) (by rw [pc]; nofun) (.inl rfl) .unlock nofun locked (by rw [pc]; decide) ?_
      fun asleep => absurd pc (sound.sleeps asleep i)
    have present : Child.unlock.Present := by decide
    simp [zero, here, pending, present]
  case unlock =>
    have locked := held (by decide)
    cases taken
    exact sound.child (.inr locked) (by rw [pc]; nofun) (.inl rfl) .running nofun rfl (by rw [pc]; decide)
      (counted (by decide)) fun asleep => ⟨nofun, sleepsAt asleep⟩
  case running => cases taken

theorem sound_spurious (sound : Sound clients s) (asleep : s.parent = .asleep) : Sound clients s.wake := by
  have woke : s.wake = { s with parent := .relock } := by simp [StartUp.wake, asleep]
  have free : s.lock ≠ some .parent := by rw [Ne, sound.holdsParent, asleep]; decide
  have same : (Parent.relock.Pending ↔ s.parent.Pending) ∧ (Parent.relock.Counted ↔ s.parent.Counted) := by
    rw [asleep]
    decide
  rw [woke]
  exact ⟨sound.bound, sound.unborn, fun pending => sound.pending (same.1.mp pending),
    ⟨fun held => absurd held free, fun inside => absurd inside (show ¬Parent.relock.Inside by decide)⟩,
    sound.holdsChild,
    fun i inside absent => ⟨show Parent.relock.Pending by decide, (sound.early i inside absent).2⟩,
    by simpa only [same.1] using sound.value, by simpa only [same.2] using sound.waiters, nofun, nofun, nofun,
    nofun⟩

theorem sound_step (s : StartUp) (e : StartEvent) (s' : StartUp) (forks : e ≠ .forkFails)
    (sound : Sound clients s) (stepped : startStep clients s e = some s') : Sound clients s' := by
  cases e with
  | parent => exact sound_parent sound stepped
  | forkFails => exact absurd rfl forks
  | spurious =>
    obtain ⟨asleep, same⟩ := Option.ite_none_right_eq_some.mp stepped
    cases same
    exact sound_spurious sound asleep
  | child i => exact sound_child sound stepped

/-- Whoever holds the mutex can go on, and while nobody does somebody wants it. -/
theorem Sound.progress (sound : Sound clients s) :
    s.parent = .running ∧ (∀ i < clients, s.children i = .running) ∨
      ∃ e, e ∉ [.spurious, .forkFails] ∧ (startStep clients s e).isSome := by
  cases lock : s.lock with
  | some holder =>
    cases holder with
    | parent =>
      have inside := sound.holdsParent.mp lock
      refine .inr ⟨.parent, by simp, ?_⟩
      simp only [startStep, parentStep]
      cases pc : s.parent <;> first | rfl | exact absurd (pc ▸ inside) (by decide)
    | child i =>
      have inside := (sound.holdsChild i).mp lock
      refine .inr ⟨.child i, by simp, ?_⟩
      simp only [startStep, childStep]
      cases pc : s.children i <;> first | rfl | exact absurd (pc ▸ inside) (by decide)
  | none =>
    have wants {i : ℕ} (inside : i < s.forked) (absent : s.children i ≠ .running) :
        ∃ e, e ∉ [.spurious, .forkFails] ∧ (startStep clients s e).isSome := by
      have born : s.children i ≠ .unborn := by
        rw [Ne, sound.unborn]
        exact not_le.mpr inside
      have outside : ¬(s.children i).Inside := by
        rw [← sound.holdsChild, lock]
        nofun
      refine ⟨.child i, by simp, ?_⟩
      simp only [startStep, childStep]
      cases pc : s.children i <;> simp_all [Child.Inside]
    have outside : ¬s.parent.Inside := by
      rw [← sound.holdsParent, lock]
      nofun
    cases pc : s.parent with
    | fork =>
      refine .inr ⟨.parent, by simp, ?_⟩
      simp only [startStep, parentStep, pc]
      split <;> rfl
    | lock => exact .inr ⟨.parent, by simp, by simp [startStep, parentStep, pc, lock]⟩
    | relock => exact .inr ⟨.parent, by simp, by simp [startStep, parentStep, pc, lock]⟩
    | asleep =>
      have pending : s.parent.Pending := by rw [pc]; decide
      have forked := sound.pending pending
      refine .inr (wants (show s.forked - 1 < s.forked by omega) fun running => ?_)
      have zero := sound.waits (by rw [pc]; decide)
      rw [sound.value, running, if_pos ⟨pending, by decide⟩] at zero
      cases zero
    | running =>
      by_cases all : ∀ i < clients, s.children i = .running
      · exact .inl ⟨rfl, all⟩
      · obtain ⟨i, inside, absent⟩ : ∃ i < clients, s.children i ≠ .running := by simpa using all
        exact .inr (wants (sound.leaves pc ▸ inside) absent)
    | _ => exact absurd (by rw [pc]; decide) outside

end Steps

/-- After a `fork` that has failed: all clients have been seen, and the parent waits for one that does not
exist. -/
structure Lost (s : StartUp) : Prop where
  value : s.value = 0
  parent : s.parent ∈ [.lock, .test, .addWaiter, .wait, .asleep, .relock, .removeWaiter]
  children : ∀ i, s.children i ∈ [.unborn, .unlock, .running]

section Lost

variable {clients : ℕ} {s s' : StartUp} {i : ℕ}

theorem lost_forkFails (sound : Sound clients s) (failed : forkFails clients s = some s') : Lost s' := by
  obtain ⟨⟨forking, -⟩, same⟩ := Option.ite_none_right_eq_some.mp failed
  cases same
  have idle : ¬s.parent.Pending := by rw [forking]; decide
  refine ⟨sound.value.trans (if_neg fun both => idle both.1), by simp, fun i => ?_⟩
  by_cases inside : i < s.forked
  · exact List.mem_cons_of_mem _ (sound.present_of_idle idle i inside)
  · rw [(sound.unborn i).mpr (not_lt.mp inside)]
    exact List.mem_cons_self

/-- The counter stays 0, so `sem_down` does not return. -/
theorem Lost.parentStep (lost : Lost s) (taken : parentStep clients s = some s') : Lost s' := by
  cases pc : s.parent <;> simp only [Latency.parentStep, pc] at taken
  case lock | relock =>
    obtain ⟨-, same⟩ := Option.ite_none_right_eq_some.mp taken
    cases same
    exact ⟨lost.value, by simp, lost.children⟩
  case test =>
    rw [if_pos lost.value] at taken
    cases taken
    exact ⟨lost.value, by simp, lost.children⟩
  case addWaiter | wait | removeWaiter =>
    cases taken
    exact ⟨lost.value, by simp, lost.children⟩
  case asleep => cases taken
  case fork | decrement | unlock | running => exact absurd (pc ▸ lost.parent) (by decide)

/-- Nobody is left who could count. -/
theorem Lost.childStep (lost : Lost s) (taken : childStep s i = some s') : Lost s' := by
  cases pc : s.children i <;> simp only [Latency.childStep, pc] at taken
  case unborn | running => cases taken
  case unlock =>
    cases taken
    refine ⟨lost.value, lost.parent, fun j => ?_⟩
    by_cases here : j = i
    · simp [StartUp.goto, here]
    · simpa [StartUp.goto, Function.update_of_ne here] using lost.children j
  case lock | test | signal | increment => exact absurd (pc ▸ lost.children i) (by decide)

theorem lost_step (s : StartUp) (e : StartEvent) (s' : StartUp) (lost : Lost s)
    (stepped : startStep clients s e = some s') : Lost s' := by
  cases e with
  | parent => exact lost.parentStep stepped
  | forkFails =>
    obtain ⟨⟨forking, -⟩, -⟩ := Option.ite_none_right_eq_some.mp stepped
    exact absurd (forking ▸ lost.parent) (by decide)
  | spurious =>
    obtain ⟨asleep, same⟩ := Option.ite_none_right_eq_some.mp stepped
    cases same
    exact ⟨lost.value, by simp [StartUp.wake, asleep], lost.children⟩
  | child i => exact lost.childStep stepped

/-- A run in which a `fork` fails. -/
theorem lost_run {events : List StartEvent} (failed : .forkFails ∈ events)
    (ran : run (startStep clients) .start events = some s) : Lost s := by
  obtain ⟨first, rest, rfl, forks⟩ := List.eq_append_cons_of_mem failed
  obtain ⟨t, early, ran⟩ := run_split ran
  obtain ⟨t', fails, ran⟩ := Option.bind_eq_some_iff.mp ran
  have sound : Sound clients t := run_invariant_of_steps sound_step (sound_start clients)
    (.of_forall fun e member _ same => forks (same ▸ member)) early
  exact run_invariant lost_step (lost_forkFails sound fails) ran

end Lost

section Work

variable {clients : ℕ} {s s' : StartUp} {i : ℕ}

/-- Somebody has counted itself, or is about to. -/
def StartUp.Real (clients : ℕ) (s : StartUp) : Prop := s.value ≠ 0 ∨ ∃ i < clients, s.children i = .increment

instance (clients : ℕ) (s : StartUp) : Decidable (s.Real clients) := inferInstanceAs (Decidable (_ ∨ _))

/-- How many steps the parent may take before it forks again. -/
def Parent.left (real : Bool) : Parent → ℕ
  | .fork => 1
  | .lock => 11
  | .test => if real then 4 else 10
  | .addWaiter => 9
  | .wait => 8
  | .asleep => 7
  | .relock => if real then 6 else 12
  | .removeWaiter => if real then 5 else 11
  | .decrement => 3
  | .unlock => 2
  | .running => 0

/-- How many steps a client may take; those of the parent are counted with a client that is not forked yet. -/
def Child.left : Child → ℕ
  | .unborn => 17
  | .lock => 5
  | .test => 4
  | .signal => 3
  | .increment => 2
  | .unlock => 1
  | .running => 0

def StartUp.left (clients : ℕ) (s : StartUp) : ℕ :=
  s.parent.left (s.Real clients) + ∑ i ∈ Finset.range clients, (s.children i).left

theorem left_anti {real real' : Bool} (sooner : real → real') (p : Parent) : p.left real' ≤ p.left real := by
  cases p <;> cases real <;> cases real' <;> simp_all [Parent.left]

theorem left_parent (sound : Sound clients s) (taken : parentStep clients s = some s') :
    s'.left clients < s.left clients := by
  cases pc : s.parent <;> simp only [parentStep, pc] at taken
  case fork =>
    split at taken
    · rename_i more
      cases taken
      have sum := sum_range_update more s.children Child.left .lock
      rw [(sound.unborn s.forked).mpr le_rfl] at sum
      simp only [StartUp.left, pc, Parent.left, Child.left] at sum ⊢
      omega
    · cases taken
      simp only [StartUp.left, pc, Parent.left]
      omega
  case lock =>
    obtain ⟨-, same⟩ := Option.ite_none_right_eq_some.mp taken
    cases same
    simp only [StartUp.left, pc, Parent.left]
    split <;> omega
  case test =>
    have outside := sound.outside (.inr (sound.holdsParent.mpr (by rw [pc]; decide)))
    have real : s.Real clients ↔ s.value ≠ 0 := by
      refine or_iff_left fun ⟨i, _, increment⟩ => outside i ?_
      rw [increment]
      decide
    cases taken
    by_cases zero : s.value = 0 <;> simp [StartUp.left, pc, Parent.left, real, zero]
  case asleep => cases taken
  case relock =>
    obtain ⟨-, same⟩ := Option.ite_none_right_eq_some.mp taken
    cases same
    have same : StartUp.Real clients { s with lock := some .parent, parent := .removeWaiter } ↔
        s.Real clients := .rfl
    by_cases real : s.Real clients <;> simp [StartUp.left, pc, Parent.left, same, real]
  case removeWaiter =>
    cases taken
    have same : StartUp.Real clients { s with waiters := s.waiters - 1, parent := .test } ↔
        s.Real clients := .rfl
    by_cases real : s.Real clients <;> simp [StartUp.left, pc, Parent.left, same, real]
  case running => cases taken
  all_goals
    cases taken
    simp only [StartUp.left, pc, Parent.left]
    omega

/-- A client that comes closer to its loop, while the parent has no more to do than before. -/
theorem left_update (inside : i < clients) {c : Child} {p : Parent} {lock : Option Process} {value : ℤ}
    (closer : c.left < (s.children i).left)
    (parent : p.left (StartUp.Real clients
        { s with lock, value, parent := p, children := Function.update s.children i c }) ≤
      s.parent.left (s.Real clients)) :
    StartUp.left clients { s with lock, value, parent := p, children := Function.update s.children i c } <
      s.left clients := by
  have sum := sum_range_update inside s.children Child.left c
  simp only [StartUp.left] at parent ⊢
  omega

/-- Nobody who was about to count is forgotten. -/
theorem real_update {c : Child} (other : s.children i ≠ .increment) {p : Parent} {lock : Option Process}
    (real : s.Real clients) :
    StartUp.Real clients { s with lock, parent := p, children := Function.update s.children i c } := by
  refine real.imp_right fun ⟨j, inside, increment⟩ => ⟨j, inside, ?_⟩
  have different : j ≠ i := fun same => other (same ▸ increment)
  exact (Function.update_of_ne different _ _).trans increment

theorem left_child (sound : Sound clients s) (taken : childStep s i = some s') :
    s'.left clients < s.left clients := by
  have inside (born : s.children i ≠ .unborn) : i < clients := by
    rw [Ne, sound.unborn] at born
    exact (not_le.mp born).trans_le sound.bound
  have sooner {c : Child} {lock : Option Process} (other : s.children i ≠ .increment) :
      s.parent.left (StartUp.Real clients
          { s with lock, parent := s.parent, children := Function.update s.children i c }) ≤
        s.parent.left (s.Real clients) :=
    left_anti (by simpa using real_update other) s.parent
  cases pc : s.children i <;> simp only [childStep, pc] at taken
  case unborn => cases taken
  case lock =>
    obtain ⟨-, same⟩ := Option.ite_none_right_eq_some.mp taken
    cases same
    exact left_update (inside (by rw [pc]; nofun)) (by rw [pc]; decide) (sooner (by rw [pc]; nofun))
  case test =>
    cases taken
    refine left_update (inside (by rw [pc]; nofun)) ?_ (sooner (by rw [pc]; nofun))
    rw [pc]
    split <;> decide
  case signal =>
    cases taken
    have born := inside (by rw [pc]; nofun)
    have other : s.children i ≠ .increment := by rw [pc]; nofun
    refine left_update born (show Child.increment.left < _ by rw [pc]; decide) ?_
    by_cases asleep : s.parent = .asleep
    · have woke : s.wake.parent = .relock := if_pos asleep
      rw [woke, asleep, decide_eq_true (.inr ⟨i, born, Function.update_self ..⟩)]
      exact (show Parent.relock.left true ≤ 7 by decide)
    · have woke : s.wake.parent = s.parent := if_neg asleep
      rw [woke]
      exact sooner other
  case increment =>
    cases taken
    refine left_update (inside (by rw [pc]; nofun)) (by rw [pc]; decide) (left_anti (fun _ => ?_) s.parent)
    have counted : s.value = 0 ∨ s.value = 1 := by
      rw [sound.value]
      split <;> simp
    have real : s.value + 1 ≠ 0 := by omega
    exact decide_eq_true (.inl real)
  case unlock =>
    cases taken
    exact left_update (inside (by rw [pc]; nofun)) (by rw [pc]; decide) (sooner (by rw [pc]; nofun))
  case running => cases taken

theorem left_spurious (asleep : s.parent = .asleep) : s.wake.left clients ≤ s.left clients + 5 := by
  have woke : s.wake.parent = .relock := if_pos asleep
  have bound (real : Bool) : Parent.relock.left real ≤ 12 := by cases real <;> decide
  have same : s.wake.children = s.children := rfl
  have seven (real : Bool) : Parent.asleep.left real = 7 := rfl
  rw [StartUp.left, StartUp.left, woke, asleep, same, seven]
  have twelve := bound (s.wake.Real clients)
  omega

/-- Every step but a spurious return brings the start nearer to its end. -/
theorem left_run {events : List StartEvent} (sound : Sound clients s) (forks : .forkFails ∉ events)
    (ran : run (startStep clients) s events = some s') :
    s'.left clients + events.length ≤ s.left clients + 6 * events.count .spurious := by
  have steps : Steps (startStep clients) (fun _ e => e ≠ .forkFails) s events :=
    .of_forall fun e member _ same => forks (same ▸ member)
  have bound := run_bounded (fun s => (s.left clients : ℤ)) (· != .spurious) 5 sound_step ?_ ?_ sound steps ran
  · have spurious : events.countP (fun e => !(e != .spurious)) = events.count .spurious :=
      List.countP_congr fun e _ => by simp
    have whole := List.length_eq_countP_add_countP (· != .spurious) (l := events)
    simp only [Bool.not_eq_true, Bool.decide_eq_false] at whole
    omega
  · intro s e s' forks sound taken kind
    cases e with
    | parent => exact Int.ofNat_lt.mpr (left_parent sound taken)
    | forkFails => exact absurd rfl forks
    | child i => exact Int.ofNat_lt.mpr (left_child sound taken)
    | spurious => simp at kind
  · intro s e s' forks sound taken kind
    cases e with
    | spurious =>
      obtain ⟨asleep, same⟩ := Option.ite_none_right_eq_some.mp taken
      cases same
      exact_mod_cast (left_spurious asleep : s.wake.left clients ≤ s.left clients + 5)
    | forkFails => exact absurd rfl forks
    | parent | child => simp at kind

end Work

/-- Whatever order the processes run in: the parent forks a further client, and enters `run_parent`, only when
all clients so far have called `sem_up`. While no `fork` fails the start is never stuck, and apart from returns of
`pthread_cond_wait` that nobody has caused it is over after a bounded number of steps, with all the clients; after
a `fork` that has failed the parent never gets there. -/
theorem clients_start {clients : ℕ} {events : List StartEvent} {s : StartUp}
    (ran : run (startStep clients) .start events = some s) :
    (s.parent = .fork ∨ s.parent = .running → ∀ i < s.forked, (s.children i).Present) ∧
      (s.parent = .running → s.forked = clients) ∧
      (.forkFails ∉ events →
        (s.parent = .running ∧ (∀ i < clients, s.children i = .running) ∨
          ∃ e, e ∉ [.spurious, .forkFails] ∧ (startStep clients s e).isSome) ∧
        events.length ≤ 17 * clients + 1 + 6 * events.count .spurious) ∧
      (.forkFails ∈ events → s.parent ≠ .fork ∧ s.parent ≠ .running) := by
  by_cases failed : .forkFails ∈ events
  · have lost := lost_run failed ran
    have forking : s.parent ≠ .fork := fun pc => absurd (pc ▸ lost.parent) (by decide)
    have running : s.parent ≠ .running := fun pc => absurd (pc ▸ lost.parent) (by decide)
    exact ⟨fun either => (either.elim forking running).elim, fun pc => absurd pc running,
      fun forks => absurd failed forks, fun _ => ⟨forking, running⟩⟩
  · have sound : Sound clients s := run_invariant_of_steps sound_step (sound_start clients)
      (.of_forall fun e member _ same => failed (same ▸ member)) ran
    have work := left_run (sound_start clients) failed ran
    have whole : StartUp.left clients .start = 17 * clients + 1 := by
      simp [StartUp.left, StartUp.start, Parent.left, Child.left]
      omega
    refine ⟨fun idle => sound.present_of_idle ?_, sound.leaves, fun _ => ⟨sound.progress, by omega⟩,
      fun member => absurd member failed⟩
    rcases idle with pc | pc <;> rw [pc] <;> decide

private def oneStart : List StartEvent :=
  List.replicate 5 .parent ++ List.replicate 5 (.child 0) ++ List.replicate 6 .parent

/-- One client, which signals the parent. -/
theorem clients_start_one : ∃ s, run (startStep 1) .start oneStart = some s ∧
    (s.parent = .fork ∨ s.parent = .running → ∀ i < s.forked, (s.children i).Present) ∧
      (s.parent = .running → s.forked = 1) ∧
      (.forkFails ∉ oneStart →
        (s.parent = .running ∧ (∀ i < 1, s.children i = .running) ∨
          ∃ e, e ∉ [.spurious, .forkFails] ∧ (startStep 1 s e).isSome) ∧
        oneStart.length ≤ 17 * 1 + 1 + 6 * oneStart.count .spurious) ∧
      (.forkFails ∈ oneStart → s.parent ≠ .fork ∧ s.parent ≠ .running) := by
  obtain ⟨s, ran⟩ : ∃ s, run (startStep 1) .start oneStart = some s := Option.isSome_iff_exists.mp (by decide)
  exact ⟨s, ran, clients_start ran⟩

end Operativsystem.Latency
