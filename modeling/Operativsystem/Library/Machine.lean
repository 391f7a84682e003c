import Mathlib.Data.List.Basic

/-! # Runs of partial machines

A machine is a partial step function: `none` is an event that is not possible in the state. A
run performs a finite list of events. Invariants and simulations are proved for one step and
hold for every run; `Steps` says that each step of a run meets a condition on the state before
it, and `trace` collects the answers of a machine that answers every event.
-/

namespace Operativsystem.Machine

variable {σ τ ε ε' ο : Type*}

def run (step : σ → ε → Option σ) : σ → List ε → Option σ
  | s, [] => some s
  | s, e :: rest => (step s e).bind fun next => run step next rest

@[simp] theorem run_nil (step : σ → ε → Option σ) (s : σ) : run step s [] = some s := rfl

theorem run_cons (step : σ → ε → Option σ) (s : σ) (e : ε) (rest : List ε) :
    run step s (e :: rest) = (step s e).bind fun next => run step next rest := rfl

/-- What every step preserves holds in every state reached. -/
theorem run_invariant {step : σ → ε → Option σ} {Inv : σ → Prop}
    (preserve : ∀ s e s', Inv s → step s e = some s' → Inv s') {s t : σ} {events : List ε}
    (initial : Inv s) (ran : run step s events = some t) : Inv t := by
  induction events generalizing s with
  | nil => exact Option.some.inj ran ▸ initial
  | cons e rest ih =>
    obtain ⟨next, taken, ran⟩ := Option.bind_eq_some_iff.mp ran
    exact ih (preserve s e next initial taken) ran

/-- Every step of the run meets `P` in the state before it. -/
def Steps (step : σ → ε → Option σ) (P : σ → ε → Prop) : σ → List ε → Prop
  | _, [] => True
  | s, e :: rest => P s e ∧ ∀ next, step s e = some next → Steps step P next rest

/-- Whether the steps of a run meet a condition can be computed along the run. -/
instance decidableSteps {step : σ → ε → Option σ} {P : σ → ε → Prop} [∀ s e, Decidable (P s e)] :
    (s : σ) → (events : List ε) → Decidable (Steps step P s events)
  | _, [] => isTrue trivial
  | s, e :: rest =>
    have : Decidable (∀ next, step s e = some next → Steps step P next rest) :=
      match step s e with
      | none => isTrue fun _ impossible => nomatch impossible
      | some next =>
        have : Decidable (Steps step P next rest) := decidableSteps next rest
        decidable_of_iff (Steps step P next rest)
          ⟨fun steps _ same => Option.some.inj same ▸ steps, fun steps => steps next rfl⟩
    inferInstanceAs (Decidable (_ ∧ _))

theorem Steps.cons {step : σ → ε → Option σ} {P : σ → ε → Prop} {s next : σ} {e : ε} {rest : List ε}
    (meets : P s e) (taken : step s e = some next) (later : Steps step P next rest) :
    Steps step P s (e :: rest) :=
  ⟨meets, fun _ taken' => Option.some.inj (taken.symm.trans taken') ▸ later⟩

theorem Steps.of_forall {step : σ → ε → Option σ} {P : σ → ε → Prop} {s : σ} {events : List ε}
    (meets : ∀ e ∈ events, ∀ s, P s e) : Steps step P s events := by
  induction events generalizing s with
  | nil => trivial
  | cons e rest ih =>
    exact ⟨meets e List.mem_cons_self s, fun _ _ => ih fun e member => meets e (List.mem_cons_of_mem _ member)⟩

/-- A condition on the events alone holds of all events of a run. -/
theorem Steps.forall_iff {step : σ → ε → Option σ} {P : ε → Prop} {s t : σ} {events : List ε}
    (ran : run step s events = some t) : Steps step (fun _ e => P e) s events ↔ ∀ e ∈ events, P e := by
  refine ⟨fun steps => ?_, fun meets => .of_forall fun e member _ => meets e member⟩
  induction events generalizing s with
  | nil => exact fun e member => absurd member List.not_mem_nil
  | cons e rest ih =>
    obtain ⟨next, taken, ran⟩ := Option.bind_eq_some_iff.mp ran
    exact List.forall_mem_cons.mpr ⟨steps.1, ih ran (steps.2 next taken)⟩

theorem Steps.append {step : σ → ε → Option σ} {P : σ → ε → Prop} {s : σ} {first second : List ε}
    (early : Steps step P s first) (late : ∀ t, run step s first = some t → Steps step P t second) :
    Steps step P s (first ++ second) := by
  induction first generalizing s with
  | nil => exact late s rfl
  | cons e rest ih =>
    refine ⟨early.1, fun next taken => ih (early.2 next taken) fun t ran => late t ?_⟩
    rw [run_cons, taken, Option.bind_some, ran]

/-- An invariant of the steps that meet a condition holds in every run of such steps. -/
theorem run_invariant_of_steps {step : σ → ε → Option σ} {P : σ → ε → Prop} {Inv : σ → Prop}
    (preserve : ∀ s e s', P s e → Inv s → step s e = some s' → Inv s') {s t : σ} {events : List ε}
    (initial : Inv s) (steps : Steps step P s events) (ran : run step s events = some t) : Inv t := by
  induction events generalizing s with
  | nil => exact Option.some.inj ran ▸ initial
  | cons e rest ih =>
    obtain ⟨next, taken, ran⟩ := Option.bind_eq_some_iff.mp ran
    exact ih (preserve s e next steps.1 initial taken) (steps.2 next taken) ran

/-- Every state that the run passes is good. -/
def Throughout (step : σ → ε → Option σ) (Good : σ → Prop) : σ → List ε → Prop
  | s, [] => Good s
  | s, e :: rest => Good s ∧ ∀ next, step s e = some next → Throughout step Good next rest

/-- If a step from a good state leads to a good state exactly if it meets a condition, then all states
of a run are good exactly if all its steps meet it. -/
theorem throughout_iff {step : σ → ε → Option σ} {P : σ → ε → Prop} {Inv Good : σ → Prop}
    (preserve : ∀ s e s', P s e → Inv s → step s e = some s' → Inv s')
    (exact : ∀ s e s', Inv s → Good s → step s e = some s' → (Good s' ↔ P s e)) {s t : σ}
    {events : List ε} (initial : Inv s) (good : Good s) (ran : run step s events = some t) :
    Throughout step Good s events ↔ Steps step P s events := by
  induction events generalizing s with
  | nil => exact iff_of_true good trivial
  | cons e rest ih =>
    obtain ⟨next, taken, ran⟩ := Option.bind_eq_some_iff.mp ran
    have later := exact s e next initial good taken
    constructor
    · rintro ⟨-, through⟩
      have through := through next taken
      have good' : Good next := by cases rest <;> first | exact through | exact through.1
      have meets := later.mp good'
      exact .cons meets taken ((ih (preserve s e next meets initial taken) good' ran).mp through)
    · rintro ⟨meets, steps⟩
      refine ⟨good, fun next' taken' => ?_⟩
      cases taken.symm.trans taken'
      exact (ih (preserve s e next meets initial taken) (later.mpr meets) ran).mpr (steps next taken)

/-- Steps that meet a condition keep what is right; the first other step spoils it for good. -/
theorem run_dichotomy {step : σ → ε → Option σ} {P : σ → ε → Prop} {Right Wrong : σ → Prop}
    (keeps : ∀ s e s', P s e → Right s → step s e = some s' → Right s')
    (spoils : ∀ s e s', ¬P s e → Right s → step s e = some s' → Wrong s')
    (stays : ∀ s e s', Wrong s → step s e = some s' → Wrong s') {s t : σ} {events : List ε}
    (initial : Right s) (ran : run step s events = some t) :
    (Steps step P s events → Right t) ∧ (¬Steps step P s events → Wrong t) := by
  refine ⟨fun steps => run_invariant_of_steps keeps initial steps ran, fun broken => ?_⟩
  induction events generalizing s with
  | nil => exact absurd trivial broken
  | cons e rest ih =>
    obtain ⟨next, taken, ran⟩ := Option.bind_eq_some_iff.mp ran
    by_cases meets : P s e
    · exact ih (keeps s e next meets initial taken) ran fun later => broken (.cons meets taken later)
    · exact run_invariant stays (spoils s e next meets initial taken) ran

/-- If a step leads to a good state exactly if it meets a condition in one, a run does exactly if its steps
all meet it. -/
theorem run_iff_steps {step : σ → ε → Option σ} {P : σ → ε → Prop} {Good : σ → Prop}
    (exact : ∀ s e s', step s e = some s' → (Good s' ↔ Good s ∧ P s e)) {s t : σ} {events : List ε}
    (initial : Good s) (ran : run step s events = some t) : Good t ↔ Steps step P s events := by
  obtain ⟨keeps, spoils⟩ := @run_dichotomy _ _ step P Good (fun t => ¬Good t)
    (fun s e s' meets good taken => (exact s e s' taken).mpr ⟨good, meets⟩)
    (fun s e s' fails _ taken good => fails ((exact s e s' taken).mp good).2)
    (fun s e s' bad taken good => bad ((exact s e s' taken).mp good).1) s t events initial ran
  exact ⟨fun good => by_contra fun broken => spoils broken good, keeps⟩

/-- Two runs of a machine without a choice: the shorter one is the beginning of the longer. -/
theorem run_of_run {step : σ → Unit → Option σ} {s t u : σ} {first second : List Unit}
    (ran : run step s first = some t) (ran' : run step s second = some u) :
    (∃ rest, run step t rest = some u) ∨ ∃ rest, run step u rest = some t := by
  induction first generalizing s second with
  | nil => exact .inl ⟨second, Option.some.inj ran ▸ ran'⟩
  | cons e first ih =>
    cases second with
    | nil => exact .inr ⟨e :: first, Option.some.inj ran' ▸ ran⟩
    | cons e' second =>
      obtain ⟨next, taken, ran⟩ := Option.bind_eq_some_iff.mp ran
      obtain ⟨next', taken', ran'⟩ := Option.bind_eq_some_iff.mp ran'
      cases taken.symm.trans taken'
      exact ih ran ran'

/-- A machine without a choice comes to a good end exactly if every state before its end is one from which
it gets on: from the others it never comes to one, and getting on makes a measure smaller. -/
theorem reaches_iff {step : σ → Unit → Option σ} {Over Goes Done : σ → Prop} (measure : σ → ℕ)
    (advance : ∀ s, ¬Over s → Goes s → ∃ s', step s () = some s' ∧ measure s' < measure s ∧ (Over s' → Done s'))
    (stuck : ∀ s, ¬Over s → ¬Goes s → ∀ events t, run step s events = some t → ¬Done t)
    (final : ∀ s, Over s → step s () = none) (ends : ∀ s, Done s → Over s) {s : σ} (begun : ¬Over s) :
    (∃ events t, run step s events = some t ∧ Done t) ↔
      ∀ events t, run step s events = some t → ¬Over t → Goes t := by
  constructor
  · rintro ⟨events, t, ran, done⟩ others u ran' running
    by_contra stops
    rcases run_of_run ran' ran with ⟨rest, later⟩ | ⟨rest, later⟩
    · exact stuck u running stops rest t later done
    · cases rest with
      | nil =>
        cases later
        exact running (ends _ done)
      | cons e rest => simp [run_cons, final t (ends t done)] at later
  · intro goes
    induction size : measure s using Nat.strongRecOn generalizing s with
    | ind n ih =>
      obtain ⟨s', taken, smaller, good⟩ := advance s begun (goes [] s rfl begun)
      by_cases ended : Over s'
      · exact ⟨[()], s', by rw [run_cons, taken]; rfl, good ended⟩
      · have goes' : ∀ events t, run step s' events = some t → ¬Over t → Goes t := fun events t ran =>
          goes (() :: events) t (by rw [run_cons, taken]; exact ran)
        obtain ⟨events, t, ran, done⟩ := ih _ (size ▸ smaller) ended goes' rfl
        exact ⟨() :: events, t, by rw [run_cons, taken]; exact ran, done⟩

/-- A step simulation carries over to runs. -/
theorem run_simulates {step : σ → ε → Option σ} {step' : τ → ε' → Option τ} {R : σ → τ → Prop}
    (label : ε → ε')
    (simulate : ∀ s t e s', R s t → step s e = some s' → ∃ t', step' t (label e) = some t' ∧ R s' t')
    {s s' : σ} {t : τ} {events : List ε} (related : R s t) (ran : run step s events = some s') :
    ∃ t', run step' t (events.map label) = some t' ∧ R s' t' := by
  induction events generalizing s t with
  | nil => exact ⟨t, rfl, Option.some.inj ran ▸ related⟩
  | cons e rest ih =>
    obtain ⟨next, taken, ran⟩ := Option.bind_eq_some_iff.mp ran
    obtain ⟨other, taken', related⟩ := simulate s t e next related taken
    obtain ⟨t', ran', related⟩ := ih related ran
    exact ⟨t', by rw [List.map_cons, run_cons, taken', Option.bind_some, ran'], related⟩

theorem run_append {step : σ → ε → Option σ} {s t : σ} {first : List ε} (ran : run step s first = some t)
    (second : List ε) : run step s (first ++ second) = run step t second := by
  induction first generalizing s with
  | nil => rw [List.nil_append, Option.some.inj ran]
  | cons e rest ih =>
    obtain ⟨next, taken, ran⟩ := Option.bind_eq_some_iff.mp ran
    rw [List.cons_append, run_cons, taken, Option.bind_some, ih ran]

/-- The state in the middle of a run. -/
theorem run_split {step : σ → ε → Option σ} {s t : σ} {first second : List ε}
    (ran : run step s (first ++ second) = some t) :
    ∃ mid, run step s first = some mid ∧ run step mid second = some t := by
  induction first generalizing s with
  | nil => exact ⟨s, rfl, ran⟩
  | cons e rest ih =>
    obtain ⟨next, taken, ran⟩ := Option.bind_eq_some_iff.mp ran
    obtain ⟨mid, early, late⟩ := ih ran
    exact ⟨mid, by rw [run_cons, taken, Option.bind_some, early], late⟩

/-- A simulation that answers a step by any number of steps carries over to runs. -/
theorem run_simulated {step : σ → ε → Option σ} {step' : τ → ε' → Option τ} {R : σ → τ → Prop}
    (simulate : ∀ s t e s', R s t → step s e = some s' → ∃ events t', run step' t events = some t' ∧ R s' t')
    {s s' : σ} {t : τ} {events : List ε} (related : R s t) (ran : run step s events = some s') :
    ∃ events' t', run step' t events' = some t' ∧ R s' t' := by
  induction events generalizing s t with
  | nil => exact ⟨[], t, rfl, Option.some.inj ran ▸ related⟩
  | cons e rest ih =>
    obtain ⟨next, taken, ran⟩ := Option.bind_eq_some_iff.mp ran
    obtain ⟨first, mid, ran₁, related⟩ := simulate s t e next related taken
    obtain ⟨second, t', ran₂, related⟩ := ih related ran
    exact ⟨first ++ second, t', (run_append ran₁ second).trans ran₂, related⟩

/-- An invariant may speak of the events so far and of a record that each step may prolong. -/
theorem run_records {α : Type*} {step : σ → ε → Option σ} {P : ε → Prop} {I : List ε → List α → σ → Prop}
    (preserve : ∀ done record s e s', P e → I done record s → step s e = some s' →
      ∃ more, I (done ++ [e]) (record ++ more) s')
    {done : List ε} {record : List α} {s t : σ} {events : List ε} (initial : I done record s)
    (meets : ∀ e ∈ events, P e) (ran : run step s events = some t) :
    ∃ more, I (done ++ events) (record ++ more) t := by
  induction events generalizing s done record with
  | nil =>
    refine ⟨[], ?_⟩
    rw [List.append_nil, List.append_nil, ← Option.some.inj ran]
    exact initial
  | cons e rest ih =>
    obtain ⟨next, taken, ran⟩ := Option.bind_eq_some_iff.mp ran
    obtain ⟨first, early⟩ := preserve done record s e next (meets e List.mem_cons_self) initial taken
    obtain ⟨second, late⟩ := ih early (fun e member => meets e (List.mem_cons_of_mem _ member)) ran
    exact ⟨first ++ second, by simpa using late⟩

/-- Run a machine that answers every event, and collect the answers. -/
def trace (step : σ → ε → Option (σ × ο)) : σ → List ε → Option (σ × List ο)
  | s, [] => some (s, [])
  | s, e :: rest => do
    let (next, out) ← step s e
    let (last, outs) ← trace step next rest
    some (last, out :: outs)

/-- The answers to more events follow those that there are. -/
theorem trace_append {step : σ → ε → Option (σ × ο)} {s t u : σ} {first second : List ε} {outs more : List ο}
    (early : trace step s first = some (t, outs)) (late : trace step t second = some (u, more)) :
    trace step s (first ++ second) = some (u, outs ++ more) := by
  induction first generalizing s outs with
  | nil =>
    cases early
    exact late
  | cons e rest ih =>
    obtain ⟨⟨next, out⟩, taken, early⟩ := Option.bind_eq_some_iff.mp early
    obtain ⟨⟨last, outs'⟩, traced, same⟩ := Option.bind_eq_some_iff.mp early
    cases same
    simp [trace, taken, ih traced]

/-- Run a machine that is never stuck, and collect its answers. -/
def respond (spec : τ → ε' → τ × ο) : τ → List ε' → τ × List ο
  | t, [] => (t, [])
  | t, e :: rest =>
    let (next, out) := spec t e
    let (last, outs) := respond spec next rest
    (last, out :: outs)

/-- What a machine answers to more events follows what it has answered so far. -/
theorem respond_append (spec : τ → ε' → τ × ο) (t : τ) (first second : List ε') :
    respond spec t (first ++ second) =
      ((respond spec (respond spec t first).1 second).1,
        (respond spec t first).2 ++ (respond spec (respond spec t first).1 second).2) := by
  induction first generalizing t with
  | nil => rfl
  | cons e rest ih => simp only [List.cons_append, respond, ih]

theorem respond_length (spec : τ → ε' → τ × ο) (t : τ) (events : List ε') :
    (respond spec t events).2.length = events.length := by
  induction events generalizing t with
  | nil => rfl
  | cons e rest ih => simp only [respond, List.length_cons, ih]

/-- A machine that refines a total one step by step refines it over every run. -/
theorem trace_refines {step : σ → ε → Option (σ × ο)} {spec : τ → ε' → τ × ο} {R : σ → τ → Prop}
    (label : ε → ε')
    (refine : ∀ s t e, R s t → ∃ s', step s e = some (s', (spec t (label e)).2) ∧
      R s' (spec t (label e)).1)
    {s : σ} {t : τ} (related : R s t) (events : List ε) :
    ∃ s', trace step s events = some (s', (respond spec t (events.map label)).2) ∧
      R s' (respond spec t (events.map label)).1 := by
  induction events generalizing s t with
  | nil => exact ⟨s, rfl, related⟩
  | cons e rest ih =>
    obtain ⟨next, taken, related⟩ := refine s t e related
    obtain ⟨s', ran, related⟩ := ih related
    exact ⟨s', by simp [trace, respond, taken, ran], related⟩

end Operativsystem.Machine
