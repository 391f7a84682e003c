import Operativsystem.Kernel.Lifecycle

/-! # The hash table is used while it exists

`hashtable_initialized` keeps INIT from initialising the table twice and `exit` from destroying a table
that was never made. The handlers of INSERT, GET and DELETE do not look at it, and `exit` destroys the table
before it waits for the queue. So the table is used only while it exists if such a request is handled only after an
INIT has succeeded, and `exit` comes to `rhashtable_free_and_destroy` when none is left.
-/

namespace Operativsystem.Kernel.Lifecycle

open Memory Resources Machine

/-- No use of the table comes before an INIT that succeeded or after the destruction, and both happen at
most once. -/
structure UsedWhileLive (deeds : List Deed) : Prop where
  between : ∀ before operation after, deeds = before ++ .access operation :: after →
    .initialised ∈ before ∧ .destroyed ∉ before
  initialised : deeds.count .initialised ≤ 1
  destroyed : deeds.count .destroyed ≤ 1

/-- The request is one of those whose handlers use the table. -/
def usesTable (request : Bytes) : Bool :=
  request.head? = some INSERT || request.head? = some GET || request.head? = some DELETE

/-- The handler comes to its use of the table, unless an allocation fails before. -/
def reachesTable (o : Outcomes) (request : Bytes) : Bool :=
  o.response && usesTable request && (o.object || request.head? != some INSERT)

/-- The worker has begun to handle a request and has a use of the table before it. -/
def Worker.usesTable : Worker → Bool
  | .insert _ | .get _ | .delete _ | .remove _ => true
  | _ => false

def Worker.isIdle : Worker → Bool
  | .idle => true
  | _ => false

/-- The worker is about to make the table, or to say that it has been made. -/
def Worker.makesTable : Worker → Bool
  | .initTable | .setFlag => true
  | _ => false

/-- An INSERT, GET or DELETE is taken from the queue only after an INIT has succeeded, and `exit` destroys the
table only when no such request is queued or being handled. -/
def Careful (s : State) : Event → Prop
  | .initExit _ => s.phase = .freeAndDestroy →
    s.worker.usesTable = false ∧ ∀ request ∈ s.wq, usesTable request = false
  | .recieveData .. => True
  | .work o => s.worker.isIdle = true → ∀ request ∈ s.wq.head?, reachesTable o request = true →
    s.hashtableInitialized = true

instance : (s : State) → (e : Event) → Decidable (Careful s e)
  | _, .initExit _ => inferInstanceAs (Decidable (_ → _))
  | _, .recieveData .. => inferInstanceAs (Decidable True)
  | _, .work _ => inferInstanceAs (Decidable (_ → _))

section Moves

variable {o : Outcomes} {s s' : State}

/-- What a step of the worker does to the table, the flag and the queue. -/
inductive Works (o : Outcomes) (s s' : State) : Prop where
  | begins (request : Bytes) (rest : List Bytes) (worker : Worker) (idle : s.worker = .idle)
      (queued : s.wq = request :: rest) (reaches : worker.usesTable = true → reachesTable o request = true)
      (other : worker.makesTable = false) (same : s' = { s with wq := rest, worker })
  | tests (waiting : s.worker = .testFlag) (unset : s.hashtableInitialized = false)
      (same : s' = { s with worker := .initTable })
  | makes (waiting : s.worker = .initTable)
      (same : s' = { s with worker := .setFlag, ht := .live ∅, deeds := s.deeds ++ [.initialised] })
  | sets (response : Pdu) (waiting : s.worker = .setFlag)
      (same : s' = { s with worker := .answer response, hashtableInitialized := true })
  | uses (operation : Operation) (table table' : Table) (worker : Worker) (waiting : s.worker.usesTable = true)
      (live : s.ht = .live table) (other : worker.makesTable = false)
      (same : s' = { s with ht := .live table', worker, deeds := s.deeds ++ [.access operation] })
  | misuses (operation : Operation) (waiting : s.worker.usesTable = true) (dead : ∀ table, s.ht ≠ .live table)
      (same : s' = { s with worker := .crashed, deeds := s.deeds ++ [.access operation] })
  | answers (worker : Worker) (answers : List Bytes) (busy : s.worker ≠ .idle) (notFlag : s.worker ≠ .setFlag)
      (unused : worker.usesTable = false) (other : worker.makesTable = false)
      (same : s' = { s with worker, answers })

theorem answering_cases {text : String} (stepped : s.answering text = some s') :
    ∃ response, s' = { s with worker := .answer response } := by
  obtain ⟨response, -, same⟩ := Option.bind_eq_some_iff.mp stepped
  exact ⟨response, (Option.some.inj same).symm⟩

/-- The table is there and the use leads on, or it is not and the worker crashes. -/
theorem use_cases {operation : Operation} {withTable : Table → State → Option State}
    (stepped : s.use operation withTable = some s') :
    (∃ table, s.ht = .live table ∧
      withTable table { s with deeds := s.deeds ++ [.access operation] } = some s') ∨
      (∀ table, s.ht ≠ .live table) ∧
        s' = { s with worker := .crashed, deeds := s.deeds ++ [.access operation] } := by
  rw [State.use] at stepped
  split at stepped
  · rename_i table live
    exact .inl ⟨table, live, stepped⟩
  · rename_i dead
    exact .inr ⟨dead, (Option.some.inj stepped).symm⟩

theorem begin_cases {request : Bytes} (idle : s.worker = .idle) (stepped : begin o s request = some s') :
    ∃ worker, s' = { s with worker } ∧ (worker.usesTable = true → reachesTable o request = true) ∧
      worker.makesTable = false := by
  rw [begin] at stepped
  split at stepped
  · rename_i allocated
    obtain ⟨opCode, head, stepped⟩ := Option.bind_eq_some_iff.mp stepped
    split_ifs at stepped with init insert object get delete
    · cases stepped
      exact ⟨.testFlag, rfl, nofun, rfl⟩
    · simp only [Option.bind_eq_bind, Option.bind_eq_some_iff] at stepped
      obtain ⟨dataBytes, -, key, -, data, -, same⟩ := stepped
      cases same
      refine ⟨.insert ⟨key, dataBytes, data⟩, rfl, fun _ => ?_, rfl⟩
      simp [reachesTable, usesTable, allocated, object, head, insert]
    · obtain ⟨response, rfl⟩ := answering_cases stepped
      exact ⟨.answer response, rfl, nofun, rfl⟩
    · obtain ⟨key, -, same⟩ := Option.bind_eq_some_iff.mp stepped
      cases same
      refine ⟨.get key, rfl, fun _ => ?_, rfl⟩
      simp [reachesTable, usesTable, allocated, head, get, show GET ≠ INSERT by decide]
    · obtain ⟨key, -, same⟩ := Option.bind_eq_some_iff.mp stepped
      cases same
      refine ⟨.delete key, rfl, fun _ => ?_, rfl⟩
      simp [reachesTable, usesTable, allocated, head, delete, show DELETE ≠ INSERT by decide]
    · obtain ⟨response, rfl⟩ := answering_cases stepped
      exact ⟨.answer response, rfl, nofun, rfl⟩
  · cases stepped
    exact ⟨.idle, by rw [← idle], nofun, rfl⟩

/-- An operation on the table leaves it a table. -/
theorem withTable_cases {operation : Operation} {withTable : Table → State → Option State}
    (waiting : s.worker.usesTable = true) (stepped : s.use operation withTable = some s')
    (leads : ∀ table t, t.ht = .live table → withTable table t = some s' → ∃ worker table',
      s' = { t with worker, ht := .live table' } ∧ worker.makesTable = false) : Works o s s' := by
  rcases use_cases stepped with ⟨table, live, stepped⟩ | ⟨dead, same⟩
  · obtain ⟨worker, table', same, other⟩ :=
      leads table { s with deeds := s.deeds ++ [.access operation] } live stepped
    exact .uses operation table table' worker waiting live other same
  · exact .misuses operation waiting dead same

theorem answering_live {t : State} {table : Table} {text : String} (live : t.ht = .live table)
    (stepped : t.answering text = some s') : ∃ worker table',
      s' = { t with worker, ht := .live table' } ∧ worker.makesTable = false := by
  obtain ⟨response, rfl⟩ := answering_cases stepped
  exact ⟨.answer response, table, by rw [live], rfl⟩

theorem insertObject_live {obj : RhashObject} {t : State} {table : Table} (live : t.ht = .live table)
    (inserted : insertObject o obj table t = some s') : ∃ worker table',
      s' = { t with worker, ht := .live table' } ∧ worker.makesTable = false := by
  simp only [insertObject] at inserted
  split_ifs at inserted
  · exact answering_live live inserted
  cases entered : rhashtableLookupInsertFast table obj with
  | none =>
    rw [entered] at inserted
    exact answering_live live inserted
  | some table' =>
    rw [entered] at inserted
    obtain ⟨response, same⟩ := answering_cases inserted
    exact ⟨.answer response, table', same, rfl⟩

theorem getObject_live {key : Bytes} {t : State} {table : Table} (live : t.ht = .live table)
    (found : getObject key table t = some s') : ∃ worker table',
      s' = { t with worker, ht := .live table' } ∧ worker.makesTable = false := by
  simp only [getObject] at found
  cases looked : rhashtableLookupFast table key with
  | none =>
    rw [looked] at found
    exact answering_live live found
  | some obj =>
    rw [looked] at found
    dsimp only at found
    split_ifs at found
    · cases found
      exact ⟨.answer ⟨KERNEL, obj.dataBytes, .bytes obj.data⟩, table, by rw [live], rfl⟩
    · exact answering_live live found

theorem findObject_live {key : Bytes} {t : State} {table : Table} (live : t.ht = .live table)
    (found : findObject key table t = some s') : ∃ worker table',
      s' = { t with worker, ht := .live table' } ∧ worker.makesTable = false := by
  simp only [findObject] at found
  cases looked : rhashtableLookupFast table key with
  | none =>
    rw [looked] at found
    exact answering_live live found
  | some obj =>
    rw [looked] at found
    cases found
    exact ⟨.remove obj, table, by rw [live], rfl⟩

theorem workStep_cases (stepped : workStep o s = some s') : Works o s s' := by
  cases waiting : s.worker with
  | idle =>
    cases queued : s.wq with
    | nil => simp only [workStep, waiting, queued, reduceCtorEq] at stepped
    | cons request rest =>
      simp only [workStep, waiting, queued] at stepped
      obtain ⟨worker, rfl, reaches, other⟩ := begin_cases rfl stepped
      exact .begins request rest worker waiting queued reaches other rfl
  | testFlag =>
    simp only [workStep, waiting] at stepped
    split_ifs at stepped with set
    · obtain ⟨response, same⟩ := answering_cases stepped
      exact .answers (.answer response) s.answers (by simp [waiting]) (by simp [waiting]) rfl rfl same
    · exact .tests waiting (by simpa using set) (Option.some.inj stepped).symm
  | initTable =>
    simp only [workStep, waiting] at stepped
    split_ifs at stepped with failing
    · obtain ⟨response, same⟩ := answering_cases stepped
      exact .answers (.answer response) s.answers (by simp [waiting]) (by simp [waiting]) rfl rfl same
    · exact .makes waiting (Option.some.inj stepped).symm
  | setFlag =>
    simp only [workStep, waiting] at stepped
    obtain ⟨response, same⟩ := answering_cases stepped
    exact .sets response waiting same
  | insert obj =>
    simp only [workStep, waiting] at stepped
    exact withTable_cases (by rw [waiting]; rfl) stepped fun _ _ => insertObject_live
  | get key =>
    simp only [workStep, waiting] at stepped
    exact withTable_cases (by rw [waiting]; rfl) stepped fun _ _ => getObject_live
  | delete key =>
    simp only [workStep, waiting] at stepped
    exact withTable_cases (by rw [waiting]; rfl) stepped fun _ _ => findObject_live
  | remove obj =>
    simp only [workStep, waiting] at stepped
    apply withTable_cases (by rw [waiting]; rfl) stepped
    intro table t live removed
    obtain ⟨response, same⟩ := answering_cases removed
    exact ⟨.answer response, rhashtableRemoveFast table obj.key, same, rfl⟩
  | answer response =>
    simp only [workStep, waiting] at stepped
    obtain ⟨buffer, -, same⟩ := Option.bind_eq_some_iff.mp stepped
    exact .answers .idle _ (by simp [waiting]) (by simp [waiting]) rfl rfl (Option.some.inj same).symm
  | crashed => simp only [workStep, waiting, reduceCtorEq] at stepped

/-- The `exit` has come past the destruction of the table. -/
def Phase.isEnding : Phase → Bool
  | .flushWorkqueue | .destroyWorkqueue | .gone => true
  | _ => false

/-- What a step of `init` or `exit` does: it resets the flag, destroys the table, or only goes on. -/
inductive Goes (s s' : State) : Prop where
  | resets (start : s.phase = .resetFlag)
      (same : s' = { s with phase := .createSend, hashtableInitialized := false })
  | goes (phase : Phase) (notStart : phase ≠ .resetFlag)
      (destroying : phase = .freeAndDestroy → s.hashtableInitialized = true)
      (ended : s.phase.isEnding = true → phase.isEnding = true) (same : s' = { s with phase })
  | destroys (here : s.phase = .freeAndDestroy)
      (same : s' = { s with phase := .flushWorkqueue, ht := .destroyed, deeds := s.deeds ++ [.destroyed] })

theorem moduleStep_cases {created : Bool} (stepped : moduleStep s created = some s') : Goes s s' := by
  cases here : s.phase with
  | resetFlag =>
    simp only [moduleStep, here] at stepped
    exact .resets here (Option.some.inj stepped).symm
  | createSend =>
    simp only [moduleStep, here] at stepped
    apply Goes.goes (if created then .createReceive else .gone) _ _ (by rw [here]; nofun)
      (Option.some.inj stepped).symm <;> cases created <;> nofun
  | createReceive =>
    simp only [moduleStep, here] at stepped
    apply Goes.goes (if created then .createWorkqueue else .gone) _ _ (by rw [here]; nofun)
      (Option.some.inj stepped).symm <;> cases created <;> nofun
  | createWorkqueue =>
    simp only [moduleStep, here] at stepped
    exact .goes .loaded nofun nofun (by rw [here]; nofun) (Option.some.inj stepped).symm
  | loaded =>
    simp only [moduleStep, here] at stepped
    exact .goes .releaseReceive nofun nofun (by rw [here]; nofun) (Option.some.inj stepped).symm
  | releaseReceive =>
    simp only [moduleStep, here] at stepped
    exact .goes .testFlag nofun nofun (by rw [here]; nofun) (Option.some.inj stepped).symm
  | testFlag =>
    simp only [moduleStep, here] at stepped
    split_ifs at stepped with set
    · exact .goes .freeAndDestroy nofun (fun _ => set) (by rw [here]; nofun) (Option.some.inj stepped).symm
    · exact .goes .flushWorkqueue nofun nofun (by rw [here]; nofun) (Option.some.inj stepped).symm
  | freeAndDestroy =>
    simp only [moduleStep, here] at stepped
    exact .destroys here (Option.some.inj stepped).symm
  | flushWorkqueue =>
    simp only [moduleStep, here] at stepped
    split at stepped
    · exact .goes .destroyWorkqueue nofun nofun (fun _ => rfl) (Option.some.inj stepped).symm
    · cases stepped
  | destroyWorkqueue =>
    simp only [moduleStep, here] at stepped
    exact .goes .gone nofun nofun (fun _ => rfl) (Option.some.inj stepped).symm
  | gone => simp only [moduleStep, here, reduceCtorEq] at stepped

end Moves

section Invariants

def Ht.initialisations : Ht → ℕ
  | .absent => 0
  | _ => 1

def Ht.destructions : Ht → ℕ
  | .destroyed => 1
  | _ => 0

/-- The flag says whether the table has been made, except between the two steps of the INIT that makes it,
and the table has been destroyed at most by `exit`. -/
structure Made (s : State) : Prop where
  unset : s.phase = .resetFlag → s.ht.initialisations = 0 ∧ s.wq = [] ∧ s.worker = .idle
  flagged : s.hashtableInitialized = true → s.ht.initialisations = 1
  unflagged : s.hashtableInitialized = false → s.ht.initialisations = 0 ∨ s.worker = .setFlag
  making : s.worker.makesTable = true → s.hashtableInitialized = false
  made : s.worker = .setFlag → s.ht.initialisations = 1
  destroying : s.phase = .freeAndDestroy → s.hashtableInitialized = true
  ended : s.ht.destructions = 1 → s.phase.isEnding = true
  initialised : s.deeds.count .initialised = s.ht.initialisations
  destroyed : s.deeds.count .destroyed = s.ht.destructions

theorem made_start : Made .start :=
  ⟨fun _ => ⟨rfl, rfl, rfl⟩, nofun, fun _ => .inl rfl, nofun, nofun, nofun, nofun, rfl, rfl⟩

theorem Ht.eq_absent {ht : Ht} (none : ht.initialisations = 0) : ht = .absent := by
  cases ht with
  | absent => rfl
  | _ => cases none

theorem Ht.exists_live {ht : Ht} (made : ht.initialisations = 1) (kept : ht.destructions ≠ 1) :
    ∃ table, ht = .live table := by
  cases ht with
  | absent => cases made
  | live table => exact ⟨table, rfl⟩
  | destroyed => exact absurd rfl kept

theorem count_access {deed : Deed} (deeds : List Deed) (operation : Operation)
    (other : deed ≠ .access operation) : (deeds ++ [Deed.access operation]).count deed = deeds.count deed := by
  rw [List.count_append, List.count_singleton, if_neg (by simpa using other.symm), Nat.add_zero]

variable {o : Outcomes} {s s' : State}

/-- A step of the worker that has nothing to do with the making of the table. -/
theorem Made.other (made : Made s) (started : s.worker ≠ .idle ∨ s.wq ≠ []) (notFlag : s.worker ≠ .setFlag)
    (other : s'.worker.makesTable = false) (phase : s'.phase = s.phase)
    (flag : s'.hashtableInitialized = s.hashtableInitialized)
    (initialisations : s'.ht.initialisations = s.ht.initialisations)
    (destructions : s'.ht.destructions = s.ht.destructions)
    (initialised : s'.deeds.count .initialised = s.deeds.count .initialised)
    (destroyed : s'.deeds.count .destroyed = s.deeds.count .destroyed) : Made s' := by
  constructor
  · intro start
    obtain ⟨-, empty, idle⟩ := made.unset (phase ▸ start)
    rcases started with busy | queued
    · exact absurd idle busy
    · exact absurd empty queued
  · rw [flag, initialisations]
    exact made.flagged
  · rw [flag, initialisations]
    intro unset
    exact .inl ((made.unflagged unset).resolve_right notFlag)
  · rw [other]
    exact nofun
  · intro flagging
    rw [flagging] at other
    cases other
  · rw [phase, flag]
    exact made.destroying
  · rw [phase, destructions]
    exact made.ended
  · rw [initialised, initialisations]
    exact made.initialised
  · rw [destroyed, destructions]
    exact made.destroyed

theorem Worker.busy_of_usesTable (uses : s.worker.usesTable = true) :
    s.worker ≠ .idle ∧ s.worker ≠ .setFlag := by
  constructor
  · intro idle
    rw [idle] at uses
    cases uses
  · intro flagging
    rw [flagging] at uses
    cases uses

theorem Made.workStep (made : Made s) (works : Works o s s') : Made s' := by
  cases works with
  | begins request rest worker idle queued reaches other same =>
    subst same
    exact made.other (.inr (by simp [queued])) (by simp [idle]) other rfl rfl rfl rfl rfl rfl
  | tests waiting unset same =>
    subst same
    refine ⟨fun start => ?_, made.flagged, fun _ => ?_, fun _ => unset, nofun, made.destroying, made.ended,
      made.initialised, made.destroyed⟩
    · cases waiting.symm.trans (made.unset start).2.2
    · rcases made.unflagged unset with absent | flagging
      · exact .inl absent
      · cases waiting.symm.trans flagging
  | makes waiting same =>
    have unset := made.making (by rw [waiting]; rfl)
    have absent : s.ht = .absent := by
      rcases made.unflagged unset with absent | flagging
      · exact Ht.eq_absent absent
      · cases waiting.symm.trans flagging
    have initialised := made.initialised
    have destroyed := made.destroyed
    rw [absent] at initialised destroyed
    subst same
    refine ⟨fun start => ?_, fun _ => rfl, fun _ => .inr rfl, fun _ => unset, fun _ => rfl, made.destroying,
      nofun, ?_, ?_⟩
    · cases waiting.symm.trans (made.unset start).2.2
    · rw [List.count_append, initialised]
      rfl
    · rw [List.count_append, destroyed]
      rfl
  | sets response waiting same =>
    have present := made.made waiting
    subst same
    refine ⟨fun start => ?_, fun _ => present, nofun, nofun, nofun, fun _ => rfl, made.ended, made.initialised,
      made.destroyed⟩
    cases waiting.symm.trans (made.unset start).2.2
  | uses operation table table' worker waiting live other same =>
    obtain ⟨busy, notFlag⟩ := Worker.busy_of_usesTable waiting
    subst same
    exact made.other (.inl busy) notFlag other rfl rfl (by rw [live]; rfl) (by rw [live]; rfl)
      (count_access _ _ nofun) (count_access _ _ nofun)
  | misuses operation waiting dead same =>
    obtain ⟨busy, notFlag⟩ := Worker.busy_of_usesTable waiting
    subst same
    exact made.other (.inl busy) notFlag rfl rfl rfl rfl rfl (count_access _ _ nofun) (count_access _ _ nofun)
  | answers worker answers busy notFlag unused other same =>
    subst same
    exact made.other (.inl busy) notFlag other rfl rfl rfl rfl rfl rfl

theorem Made.moduleStep (made : Made s) (goes : Goes s s') : Made s' := by
  cases goes with
  | resets start same =>
    obtain ⟨absent, empty, idle⟩ := made.unset start
    subst same
    refine ⟨nofun, nofun, fun _ => .inl absent, fun _ => rfl, made.made, nofun, fun gone => ?_,
      made.initialised, made.destroyed⟩
    cases start ▸ made.ended gone
  | goes phase notStart destroying ended same =>
    subst same
    exact ⟨fun start => absurd start notStart, made.flagged, made.unflagged, made.making, made.made, destroying,
      fun gone => ended (made.ended gone), made.initialised, made.destroyed⟩
  | destroys here same =>
    have set := made.destroying here
    have kept : s.ht.destructions ≠ 1 := fun gone => by cases here ▸ made.ended gone
    obtain ⟨table, live⟩ := Ht.exists_live (made.flagged set) kept
    have initialised := made.initialised
    have destroyed := made.destroyed
    rw [live] at initialised destroyed
    subst same
    refine ⟨nofun, fun _ => rfl, fun unset => ?_, made.making, fun _ => rfl, nofun, fun _ => rfl, ?_, ?_⟩
    · cases set.symm.trans unset
    · rw [List.count_append, initialised]
      rfl
    · rw [List.count_append, destroyed]
      rfl

theorem Made.recieveData (made : Made s) {allocated : Bool} {request : Bytes}
    (stepped : recieveData s allocated request = some s') :
    Made s' ∧ s'.ht.destructions ≠ 1 ∧ s' = { s with wq := s.wq ++ [request] } := by
  simp only [Lifecycle.recieveData, Option.ite_none_right_eq_some] at stepped
  obtain ⟨⟨here, -⟩, same⟩ := stepped
  cases same
  refine ⟨⟨?_, made.flagged, made.unflagged, made.making, made.made, made.destroying, made.ended,
    made.initialised, made.destroyed⟩, ?_, rfl⟩
  · rintro start
    rcases here with here | here <;> cases here.symm.trans start
  · intro gone
    have ending := made.ended gone
    rcases here with here | here <;> cases here ▸ ending

theorem step_made (s : State) (e : Event) (s' : State) (made : Made s) (stepped : step s e = some s') :
    Made s' := by
  cases e with
  | initExit created => exact made.moduleStep (moduleStep_cases stepped)
  | recieveData allocated request => exact (made.recieveData stepped).1
  | work o => exact made.workStep (workStep_cases stepped)

/-- In every run the table is made at most once and destroyed at most once. -/
theorem made_once {events : List Event} (ran : run step .start events = some s) :
    s.deeds.count .initialised ≤ 1 ∧ s.deeds.count .destroyed ≤ 1 := by
  have made := run_invariant step_made made_start ran
  rw [made.initialised, made.destroyed]
  cases s.ht <;> simp [Ht.initialisations, Ht.destructions]

/-- What a use of the table at the end of the deeds needs. -/
theorem between_concat {deeds : List Deed} {deed : Deed}
    (between : ∀ before operation after, deeds = before ++ .access operation :: after →
      .initialised ∈ before ∧ .destroyed ∉ before)
    (last : ∀ operation, deed = .access operation → .initialised ∈ deeds ∧ .destroyed ∉ deeds) :
    ∀ before operation after, deeds ++ [deed] = before ++ .access operation :: after →
      .initialised ∈ before ∧ .destroyed ∉ before := by
  intro before operation after split
  rcases List.eq_nil_or_concat after with rfl | ⟨after, final, rfl⟩
  · obtain ⟨rfl, same⟩ := List.append_inj' split rfl
    exact last operation (List.cons.inj same).1
  · have split : deeds ++ [deed] = (before ++ .access operation :: after) ++ [final] := by simpa using split
    exact between before operation after (List.append_inj' split rfl).1

/-- Besides, the worker has a table when it comes to use it, and once the table is destroyed nobody asks for
it. -/
structure InUse (s : State) : Prop where
  made : Made s
  waiting : s.worker.usesTable = true → ∃ table, s.ht = .live table
  cleared : s.ht.destructions = 1 → ∀ request ∈ s.wq, usesTable request = false
  between : ∀ before operation after, s.deeds = before ++ .access operation :: after →
    .initialised ∈ before ∧ .destroyed ∉ before

theorem inUse_start : InUse .start :=
  ⟨made_start, nofun, nofun, fun before _ _ split => by cases before <;> cases split⟩

theorem InUse.moduleStep (inUse : InUse s) {created : Bool} (careful : Careful s (.initExit created))
    (goes : Goes s s') : InUse s' := by
  have made := inUse.made.moduleStep goes
  cases goes with
  | resets start same =>
    subst same
    exact ⟨made, inUse.waiting, inUse.cleared, inUse.between⟩
  | goes phase notStart destroying ended same =>
    subst same
    exact ⟨made, inUse.waiting, inUse.cleared, inUse.between⟩
  | destroys here same =>
    obtain ⟨unused, clear⟩ := careful here
    subst same
    refine ⟨made, fun uses => ?_, fun _ => clear, between_concat inUse.between nofun⟩
    cases unused.symm.trans uses

/-- A table that is there has been made and not been destroyed. -/
theorem Made.live (made : Made s) {table : Table} (live : s.ht = .live table) :
    .initialised ∈ s.deeds ∧ .destroyed ∉ s.deeds := by
  have initialised := made.initialised
  have destroyed := made.destroyed
  rw [live] at initialised destroyed
  exact ⟨List.count_pos_iff.mp (initialised ▸ Nat.one_pos), List.count_eq_zero.mp destroyed⟩

theorem InUse.workStep (inUse : InUse s) (careful : Careful s (.work o)) (works : Works o s s') : InUse s' := by
  have made := inUse.made.workStep works
  cases works with
  | begins request rest worker idle queued reaches other same =>
    subst same
    refine ⟨made, fun uses => ?_, fun gone other member => ?_, inUse.between⟩
    · -- the flag is set, and a table that had been destroyed would have left no such request
      have comes := reaches uses
      have set := careful (by rw [idle]; rfl) request (by rw [queued]; rfl) comes
      apply Ht.exists_live (inUse.made.flagged set)
      intro gone
      have clear := inUse.cleared gone request (by rw [queued]; exact List.mem_cons_self)
      simp [reachesTable, clear] at comes
    · exact inUse.cleared gone other (queued ▸ List.mem_cons_of_mem _ member)
  | tests waiting unset same =>
    subst same
    exact ⟨made, nofun, inUse.cleared, inUse.between⟩
  | makes waiting same =>
    subst same
    exact ⟨made, nofun, nofun, between_concat inUse.between nofun⟩
  | sets response waiting same =>
    subst same
    exact ⟨made, nofun, inUse.cleared, inUse.between⟩
  | uses operation table table' worker waiting live other same =>
    have there := inUse.made.live live
    subst same
    exact ⟨made, fun _ => ⟨table', rfl⟩, nofun, between_concat inUse.between fun _ _ => there⟩
  | misuses operation waiting dead same =>
    obtain ⟨table, live⟩ := inUse.waiting waiting
    exact absurd live (dead table)
  | answers worker answers busy notFlag unused other same =>
    subst same
    refine ⟨made, fun uses => ?_, inUse.cleared, inUse.between⟩
    cases unused.symm.trans uses

theorem step_inUse (s : State) (e : Event) (s' : State) (careful : Careful s e) (inUse : InUse s)
    (stepped : step s e = some s') : InUse s' := by
  cases e with
  | initExit created => exact inUse.moduleStep careful (moduleStep_cases stepped)
  | recieveData allocated request =>
    obtain ⟨made, kept, same⟩ := inUse.made.recieveData stepped
    subst same
    exact ⟨made, inUse.waiting, fun gone => absurd gone kept, inUse.between⟩
  | work o => exact inUse.workStep careful (workStep_cases stepped)

end Invariants

/-- In every run in which INSERT, GET and DELETE are handled only after an INIT has succeeded, and `exit` comes
to destroy the table when none of them is left, the table is used only while it exists. -/
theorem used_while_live {s : State} {events : List Event} (ran : run step .start events = some s)
    (careful : Steps step Careful .start events) : UsedWhileLive s.deeds :=
  ⟨(run_invariant_of_steps step_inUse inUse_start careful ran).between, (made_once ran).1, (made_once ran).2⟩

def loads : List Event := List.replicate 4 (.initExit true)

/-- A request comes in and is handled in so many steps. -/
def handles (request : Bytes) (steps : ℕ) : List Event :=
  .recieveData true request :: List.replicate steps (.work (.smooth 0))

/-- The table is made, asked for a key, and destroyed. -/
def oneGet : List Event :=
  loads ++ handles [INIT, 0, 0, 0] 5 ++ handles (keyFrame GET (ascii "k")) 3 ++
    List.replicate 6 (Event.initExit true)

theorem used_while_live_once : ∃ s, run step .start oneGet = some s ∧
    s.deeds = [.initialised, .access .lookup, .destroyed] ∧ UsedWhileLive s.deeds := by
  have result : (run step .start oneGet).map State.deeds =
      some [.initialised, .access .lookup, .destroyed] := by decide +kernel
  obtain ⟨s, ran, deeds⟩ := Option.map_eq_some_iff.mp result
  exact ⟨s, ran, deeds, used_while_live ran (by decide +kernel)⟩

/-- A GET comes in before any INIT. -/
def earlyGet : List Event := loads ++ handles (keyFrame GET (ascii "k")) 2

/-- A GET is still queued when `exit` destroys the table. -/
def lateGet : List Event :=
  loads ++ handles [INIT, 0, 0, 0] 5 ++ handles (keyFrame GET (ascii "k")) 0 ++
    List.replicate 4 (Event.initExit true) ++ List.replicate 2 (Event.work (.smooth 0))

theorem table_misused :
    (∃ s, run step .start earlyGet = some s ∧ ¬UsedWhileLive s.deeds) ∧
    (∃ s, run step .start lateGet = some s ∧ ¬UsedWhileLive s.deeds) := by
  constructor
  · have result : (run step .start earlyGet).map State.deeds = some [.access .lookup] := by decide +kernel
    obtain ⟨s, ran, deeds⟩ := Option.map_eq_some_iff.mp result
    refine ⟨s, ran, fun used => ?_⟩
    have early := (used.between [] .lookup [] deeds).1
    cases early
  · have result : (run step .start lateGet).map State.deeds =
        some [.initialised, .destroyed, .access .lookup] := by decide +kernel
    obtain ⟨s, ran, deeds⟩ := Option.map_eq_some_iff.mp result
    refine ⟨s, ran, fun used => ?_⟩
    exact (used.between [.initialised, .destroyed] .lookup [] deeds).2 (by decide)

end Operativsystem.Kernel.Lifecycle
