import Operativsystem.Kernel.NetlinkKernel
import Operativsystem.Library.Machine

/-! # The kernel module from its `init` to its `exit`

Requests are queued as they come in and handled one after the other by a worker, while the functions
`init` and `exit` of the module are performed step by step. The worker goes from one access of shared data
to the next: `hashtable_initialized` and `ht` are each read and written in a step of their own. A handler
that uses `ht` while it does not exist gets no further. What `exit` has released of the sockets does not
keep an answer from being built; the answers are collected here.
-/

namespace Operativsystem.Kernel.Lifecycle

open Memory Resources Machine

/-- `ht`: not yet initialised, in use, or after `rhashtable_free_and_destroy`. -/
inductive Ht where
  | absent
  | live (table : Table)
  | destroyed

inductive Operation where
  | lookup
  | insert
  | remove
deriving DecidableEq, Repr

/-- What has been done to `ht`. -/
inductive Deed where
  | initialised
  | access (operation : Operation)
  | destroyed
deriving DecidableEq, Repr

/-- What the module does next in `init` and `exit`. -/
inductive Phase where
  | resetFlag
  | createSend
  | createReceive
  | createWorkqueue
  | loaded
  | releaseReceive
  | testFlag
  | freeAndDestroy
  | flushWorkqueue
  | destroyWorkqueue
  | gone
deriving DecidableEq, Repr

/-- What the worker does next with its request. -/
inductive Worker where
  | idle
  | testFlag
  | initTable
  | setFlag
  | insert (obj : RhashObject)
  | get (key : Bytes)
  | delete (key : Bytes)
  | remove (obj : RhashObject)
  | answer (response : Pdu)
  | crashed

structure State where
  phase : Phase
  hashtableInitialized : Bool
  ht : Ht
  wq : List Bytes
  worker : Worker
  answers : List Bytes
  deeds : List Deed

def State.start : State := ⟨.resetFlag, false, .absent, [], .idle, [], []⟩

/-- A step of `init` or of `exit`; `created` is whether `netlink_kernel_create` succeeds. -/
def moduleStep (s : State) (created : Bool) : Option State :=
  match s.phase with
  | .resetFlag => some { s with phase := .createSend, hashtableInitialized := false }
  | .createSend => some { s with phase := if created then .createReceive else .gone }
  | .createReceive => some { s with phase := if created then .createWorkqueue else .gone }
  | .createWorkqueue => some { s with phase := .loaded }
  | .loaded => some { s with phase := .releaseReceive } -- `exit` has released `nl_sk_send`
  | .releaseReceive => some { s with phase := .testFlag }
  | .testFlag => some { s with phase := if s.hashtableInitialized then .freeAndDestroy else .flushWorkqueue }
  | .freeAndDestroy =>
    some { s with phase := .flushWorkqueue, ht := .destroyed, deeds := s.deeds ++ [.destroyed] }
  | .flushWorkqueue =>
    match s.wq, s.worker with
    | [], .idle => some { s with phase := .destroyWorkqueue }
    | _, _ => none
  | .destroyWorkqueue => some { s with phase := .gone }
  | .gone => none

/-- `recieve_data`: called while `nl_sk_receive` exists. Without a queue, or with a `kmalloc` that fails, it
follows NULL. -/
def recieveData (s : State) (allocated : Bool) (request : Bytes) : Option State :=
  if (s.phase = .loaded ∨ s.phase = .releaseReceive) ∧ allocated then some { s with wq := s.wq ++ [request] }
  else none

def State.answering (s : State) (text : String) : Option State := do
  let response ← literal text
  some { s with worker := .answer response }

/-- The beginning of `work_handler`, up to the first access of shared data. -/
def begin (o : Outcomes) (s : State) (request : Bytes) : Option State :=
  if o.response then do
    let opCode ← request.head?
    if opCode = INIT then some { s with worker := .testFlag }
    else if opCode = INSERT then
      if o.object then do
        let dataBytes ← read16 request 1
        let key ← readKey request
        let data ← copyValue o (request.drop (HEADERSIZE + KEY_SIZE)) dataBytes
        some { s with worker := .insert ⟨key, dataBytes, data⟩ }
      else s.answering "Error when kmalloc."
    else if opCode = GET then do
      let key ← readKey request
      some { s with worker := .get key }
    else if opCode = DELETE then do
      let key ← readKey request
      some { s with worker := .delete key }
    else s.answering "Error wrong OP_code to kernel"
  else some s

/-- A handler uses `ht`. -/
def State.use (s : State) (operation : Operation) (withTable : Table → State → Option State) : Option State :=
  match s.ht with
  | .live table => withTable table { s with deeds := s.deeds ++ [.access operation] }
  | _ => some { s with worker := .crashed, deeds := s.deeds ++ [.access operation] }

/-- `read_INSERT_struct`, from `rhashtable_lookup_insert_fast` on. -/
def insertObject (o : Outcomes) (obj : RhashObject) (table : Table) (s : State) : Option State :=
  if o.insertError then s.answering "Error when insert to rhashtable."
  else
    match rhashtableLookupInsertFast table obj with
    | none => s.answering "Error, duplicated key."
    | some table => { s with ht := .live table }.answering "Inserted object to rhashtable"

/-- `read_GET_struct`, from `rhashtable_lookup_fast` on. -/
def getObject (key : Bytes) (table : Table) (s : State) : Option State :=
  match rhashtableLookupFast table key with
  | none => s.answering "Error when getting object."
  | some obj =>
    if obj.key.take KEY_SIZE = key.take KEY_SIZE then
      some { s with worker := .answer ⟨KERNEL, obj.dataBytes, .bytes obj.data⟩ }
    else s.answering "Error, key does not match..."

/-- `read_DELETE_struct`, from `rhashtable_lookup_fast` on. -/
def findObject (key : Bytes) (table : Table) (s : State) : Option State :=
  match rhashtableLookupFast table key with
  | none => s.answering "Error when getting object."
  | some obj => some { s with worker := .remove obj }

/-- `read_DELETE_struct`, from `rhashtable_remove_fast` on: the object has been found, so removing it reports
no error. -/
def removeObject (obj : RhashObject) (table : Table) (s : State) : Option State :=
  { s with ht := .live (rhashtableRemoveFast table obj.key) }.answering
    "Successful deleting object from rhashtable."

/-- A step of the worker. -/
def workStep (o : Outcomes) (s : State) : Option State :=
  match s.worker with
  | .idle =>
    match s.wq with
    | [] => none
    | request :: rest => begin o { s with wq := rest } request
  | .testFlag =>
    if s.hashtableInitialized then s.answering "Hashtable already initialized."
    else some { s with worker := .initTable }
  | .initTable =>
    if o.initError then s.answering "Unable to initialize hashtable."
    else some { s with worker := .setFlag, ht := .live ∅, deeds := s.deeds ++ [.initialised] }
  | .setFlag => { s with hashtableInitialized := true }.answering "Initialized hashtable."
  | .insert obj => s.use .insert (insertObject o obj)
  | .get key => s.use .lookup (getObject key)
  | .delete key => s.use .lookup (findObject key)
  | .remove obj => s.use .remove (removeObject obj)
  | .answer response => do
    let responseBuffer ← pduToBufferKernel o response
    some { s with worker := .idle, answers := if o.skb then s.answers ++ [responseBuffer] else s.answers }
  | .crashed => none

inductive Event where
  | initExit (created : Bool)
  | recieveData (allocated : Bool) (request : Bytes)
  | work (o : Outcomes)

def step (s : State) : Event → Option State
  | .initExit created => moduleStep s created
  | .recieveData allocated request => recieveData s allocated request
  | .work o => workStep o s

section Handlers

variable {o : Outcomes} {s t u : State} {k k' : KernelState} {request : Bytes} {response : Pdu}

/-- The worker gets there by steps of its own. -/
def Reaches (o : Outcomes) (s t : State) : Prop := ∃ n, run step s (List.replicate n (.work o)) = some t

theorem Reaches.refl : Reaches o s s := ⟨0, rfl⟩

theorem Reaches.head (first : workStep o s = some t) (later : Reaches o t u) : Reaches o s u := by
  obtain ⟨n, ran⟩ := later
  refine ⟨n + 1, ?_⟩
  rw [List.replicate_succ, run_cons, step, first, Option.bind_some, ran]

/-- `hashtable_initialized` and `ht` are as the handler of a request, taken as a whole, finds them. -/
structure Agrees (s : State) (k : KernelState) : Prop where
  ht : s.ht = match k.ht with
    | none => .absent
    | some table => .live table
  flag : s.hashtableInitialized = k.ht.isSome

/-- The worker has only its answer left to send, and the state is as after the whole handler. -/
structure Answers (s t : State) (k : KernelState) (response : Pdu) : Prop where
  agrees : Agrees t k
  worker : t.worker = .answer response
  wq : t.wq = s.wq
  phase : t.phase = s.phase
  answers : t.answers = s.answers

theorem answering_eq {text : String} (written : literal text = some response) :
    s.answering text = some { s with worker := .answer response } := by
  rw [State.answering, written]
  rfl

theorem answers_kept (agrees : Agrees s k) : Answers s { s with worker := .answer response } k response :=
  ⟨⟨agrees.ht, agrees.flag⟩, rfl, rfl, rfl, rfl⟩

theorem use_live {operation : Operation} {withTable : Table → State → Option State} {table : Table}
    (live : s.ht = .live table) :
    s.use operation withTable = withTable table { s with deeds := s.deeds ++ [.access operation] } := by
  rw [State.use, live]

theorem readInitStruct_reaches (agrees : Agrees s k) (waiting : s.worker = .testFlag)
    (handled : readInitStruct o k = some (k', response)) : ∃ t, Reaches o s t ∧ Answers s t k' response := by
  simp only [readInitStruct] at handled
  split_ifs at handled with present failing
  · obtain ⟨response, written, same⟩ := Option.bind_eq_some_iff.mp handled
    cases same
    refine ⟨_, .head ?_ .refl, answers_kept agrees⟩
    simp only [workStep, waiting, agrees.flag, present, if_true, answering_eq written]
  · obtain ⟨response, written, same⟩ := Option.bind_eq_some_iff.mp handled
    cases same
    have tested : workStep o s = some { s with worker := .initTable } := by
      simp [workStep, waiting, agrees.flag, present]
    refine ⟨_, .head tested (.head ?_ .refl), answers_kept agrees⟩
    simp only [workStep, failing, if_true]
    exact answering_eq written
  · obtain ⟨response, written, same⟩ := Option.bind_eq_some_iff.mp handled
    cases same
    have tested : workStep o s = some { s with worker := .initTable } := by
      simp [workStep, waiting, agrees.flag, present]
    have made : workStep o { s with worker := .initTable } = some { s with
        worker := .setFlag, ht := .live ∅, deeds := s.deeds ++ [.initialised] } := by
      simp [workStep, failing]
    exact ⟨_, .head tested (.head made (.head (answering_eq written) .refl)), ⟨rfl, rfl⟩, rfl, rfl, rfl, rfl⟩

/-- The table that a whole handler finds is the one that the steps find. -/
theorem Agrees.live {ht : Table} (agrees : Agrees s k) (found : k.ht = some ht) : s.ht = .live ht := by
  rw [agrees.ht, found]

theorem workStep_live {operation : Operation} {withTable : Table → State → Option State} {ht : Table}
    (agrees : Agrees s k) (found : k.ht = some ht) (uses : workStep o s = s.use operation withTable) :
    workStep o s = withTable ht { s with deeds := s.deeds ++ [.access operation] } :=
  uses.trans (use_live (agrees.live found))

theorem readGetStruct_reaches (agrees : Agrees s k) {key : Bytes} (read : readKey request = some key)
    (waiting : s.worker = .get key) (handled : readGetStruct k request = some (k', response)) :
    ∃ t, Reaches o s t ∧ Answers s t k' response := by
  simp only [readGetStruct, read, Option.bind_eq_bind, Option.bind_some, Option.bind_eq_some_iff] at handled
  obtain ⟨ht, found, handled⟩ := handled
  have used := workStep_live agrees found (show workStep o s = s.use .lookup (getObject key) by
    simp only [workStep, waiting])
  rw [getObject] at used
  split at handled
  · rename_i absent
    obtain ⟨response, written, same⟩ := Option.bind_eq_some_iff.mp handled
    cases same
    rw [absent] at used
    exact ⟨_, .head (used.trans (answering_eq written)) .refl, ⟨agrees.ht, agrees.flag⟩, rfl, rfl, rfl, rfl⟩
  · rename_i obj present
    rw [present] at used
    dsimp only at used
    split_ifs at handled with same
    · cases handled
      rw [if_pos same] at used
      exact ⟨_, .head used .refl, ⟨agrees.ht, agrees.flag⟩, rfl, rfl, rfl, rfl⟩
    · obtain ⟨response, written, same'⟩ := Option.bind_eq_some_iff.mp handled
      cases same'
      rw [if_neg same] at used
      exact ⟨_, .head (used.trans (answering_eq written)) .refl, ⟨agrees.ht, agrees.flag⟩, rfl, rfl, rfl, rfl⟩

theorem readDeleteStruct_reaches (agrees : Agrees s k) {key : Bytes} (read : readKey request = some key)
    (waiting : s.worker = .delete key) (handled : readDeleteStruct k request = some (k', response)) :
    ∃ t, Reaches o s t ∧ Answers s t k' response := by
  simp only [readDeleteStruct, read, Option.bind_eq_bind, Option.bind_some, Option.bind_eq_some_iff] at handled
  obtain ⟨ht, found, handled⟩ := handled
  have used := workStep_live agrees found (show workStep o s = s.use .lookup (findObject key) by
    simp only [workStep, waiting])
  rw [findObject] at used
  split at handled
  · rename_i absent
    obtain ⟨response, written, same⟩ := Option.bind_eq_some_iff.mp handled
    cases same
    rw [absent] at used
    exact ⟨_, .head (used.trans (answering_eq written)) .refl, ⟨agrees.ht, agrees.flag⟩, rfl, rfl, rfl, rfl⟩
  · rename_i obj present
    obtain ⟨response, written, same⟩ := Option.bind_eq_some_iff.mp handled
    cases same
    rw [present] at used
    have agrees' : Agrees { s with worker := .remove obj, deeds := s.deeds ++ [.access .lookup] } k :=
      ⟨agrees.ht, agrees.flag⟩
    have removed := @workStep_live o _ k .remove (removeObject obj) ht agrees' found rfl
    have flag : s.hashtableInitialized = true := by rw [agrees.flag, found]; rfl
    exact ⟨_, .head used (.head (removed.trans (answering_eq written)) .refl), ⟨rfl, flag⟩, rfl, rfl, rfl, rfl⟩

theorem insertObject_reaches (agrees : Agrees s k) {obj : RhashObject} {ht : Table}
    (waiting : s.worker = .insert obj) (found : k.ht = some ht)
    (handled : (if o.insertError then do
        let response ← literal "Error when insert to rhashtable."
        some (k, response)
      else
        match rhashtableLookupInsertFast ht obj with
        | none => do
          let response ← literal "Error, duplicated key."
          some (k, response)
        | some ht => do
          let response ← literal "Inserted object to rhashtable"
          some (⟨some ht⟩, response)) = some (k', response)) :
    ∃ t, Reaches o s t ∧ Answers s t k' response := by
  have used := workStep_live agrees found (show workStep o s = s.use .insert (insertObject o obj) by
    simp only [workStep, waiting])
  rw [insertObject] at used
  split_ifs at handled with failing
  · obtain ⟨response, written, same⟩ := Option.bind_eq_some_iff.mp handled
    cases same
    rw [if_pos failing] at used
    exact ⟨_, .head (used.trans (answering_eq written)) .refl, ⟨agrees.ht, agrees.flag⟩, rfl, rfl, rfl, rfl⟩
  · rw [if_neg failing] at used
    split at handled
    · rename_i duplicate
      obtain ⟨response, written, same⟩ := Option.bind_eq_some_iff.mp handled
      cases same
      rw [duplicate] at used
      exact ⟨_, .head (used.trans (answering_eq written)) .refl, ⟨agrees.ht, agrees.flag⟩, rfl, rfl, rfl, rfl⟩
    · rename_i table inserted
      obtain ⟨response, written, same⟩ := Option.bind_eq_some_iff.mp handled
      cases same
      rw [inserted] at used
      have flag : s.hashtableInitialized = true := by rw [agrees.flag, found]; rfl
      exact ⟨_, .head (used.trans (answering_eq written)) .refl, ⟨rfl, flag⟩, rfl, rfl, rfl, rfl⟩

theorem Reaches.trans (first : Reaches o s t) (second : Reaches o t u) : Reaches o s u := by
  obtain ⟨m, ran⟩ := first
  obtain ⟨n, ran'⟩ := second
  exact ⟨m + n, by rw [List.replicate_add, run_append ran, ran']⟩

theorem begin_reaches (agrees : Agrees s k) {opCode : Byte} (allocated : o.response = true)
    (head : request.head? = some opCode) (handled : switchOpCode o k opCode request = some (k', response)) :
    ∃ t u, begin o s request = some t ∧ Reaches o t u ∧ Answers s u k' response := by
  have agrees' (worker : Worker) : Agrees { s with worker } k := ⟨agrees.ht, agrees.flag⟩
  have begun : begin o s request = _ := if_pos allocated
  rw [head, Option.bind_eq_bind, Option.bind_some] at begun
  rw [begun]
  simp only [switchOpCode] at handled
  split_ifs at handled ⊢ with init insert object get delete
  · obtain ⟨u, reached, answers⟩ := readInitStruct_reaches (agrees' .testFlag) rfl handled
    exact ⟨_, u, rfl, reached, answers.agrees, answers.worker, answers.wq, answers.phase, answers.answers⟩
  · simp only [readInsertStruct, if_pos object, Option.bind_eq_bind, Option.bind_eq_some_iff] at handled
    obtain ⟨dataBytes, size, key, read, data, copied, ht, found, handled⟩ := handled
    simp only [size, read, copied, Option.bind_eq_bind, Option.bind_some]
    obtain ⟨u, reached, answers⟩ :=
      insertObject_reaches (agrees' (.insert ⟨key, dataBytes, data⟩)) rfl found handled
    exact ⟨_, u, rfl, reached, answers.agrees, answers.worker, answers.wq, answers.phase, answers.answers⟩
  · simp only [readInsertStruct, if_neg object] at handled
    obtain ⟨response, written, same⟩ := Option.bind_eq_some_iff.mp handled
    cases same
    exact ⟨_, _, answering_eq written, .refl, answers_kept agrees⟩
  · obtain ⟨key, read, -⟩ := Option.bind_eq_some_iff.mp handled
    obtain ⟨u, reached, answers⟩ := readGetStruct_reaches (agrees' (.get key)) read rfl handled
    simp only [read, Option.bind_eq_bind, Option.bind_some]
    exact ⟨_, u, rfl, reached, answers.agrees, answers.worker, answers.wq, answers.phase, answers.answers⟩
  · obtain ⟨key, read, -⟩ := Option.bind_eq_some_iff.mp handled
    obtain ⟨u, reached, answers⟩ := readDeleteStruct_reaches (agrees' (.delete key)) read rfl handled
    simp only [read, Option.bind_eq_bind, Option.bind_some]
    exact ⟨_, u, rfl, reached, answers.agrees, answers.worker, answers.wq, answers.phase, answers.answers⟩
  · obtain ⟨response, written, same⟩ := Option.bind_eq_some_iff.mp handled
    cases same
    exact ⟨_, _, answering_eq written, .refl, answers_kept agrees⟩

/-- Undisturbed by `init` and `exit`, the steps of the worker handle a request as `work_handler` does as a
whole. -/
theorem workHandler_reaches {rest : List Bytes} {answer : Option Bytes} (agrees : Agrees s k)
    (waiting : s.worker = .idle) (queued : s.wq = request :: rest)
    (handled : workHandler o k request = some (k', answer)) :
    ∃ t, Reaches o s t ∧ Agrees t k' ∧ t.worker = .idle ∧ t.wq = rest ∧ t.phase = s.phase ∧
      t.answers = s.answers ++ answer.toList := by
  have took : workStep o s = begin o { s with wq := rest } request := by
    simp only [workStep, waiting, queued]
  have agrees' : Agrees { s with wq := rest } k := ⟨agrees.ht, agrees.flag⟩
  obtain ⟨⟨kernel, response⟩, exact, answered⟩ := Option.bind_eq_some_iff.mp handled
  rw [readExactlyFromUser] at exact
  split_ifs at exact with allocated
  · simp only [Option.bind_eq_bind, Option.bind_eq_some_iff] at exact
    obtain ⟨opCode, head, ⟨kernel', response'⟩, switched, same⟩ := exact
    cases same
    obtain ⟨t, u, begun, reached, answers⟩ := begin_reaches agrees' allocated head switched
    obtain ⟨buffer, built, same⟩ := Option.bind_eq_some_iff.mp answered
    cases same
    have sent : workStep o u = some { u with
        worker := .idle, answers := if o.skb then u.answers ++ [buffer] else u.answers } := by
      simp only [workStep, answers.worker, built, Option.bind_eq_bind, Option.bind_some]
    refine ⟨_, .head (took.trans begun) (reached.trans (.head sent .refl)),
      ⟨answers.agrees.ht, answers.agrees.flag⟩, rfl, answers.wq, answers.phase, ?_⟩
    rw [answers.answers]
    cases o.skb <;> simp
  · cases exact
    cases answered
    have skipped : begin o { s with wq := rest } request = some { s with wq := rest } := if_neg allocated
    exact ⟨_, .head (took.trans skipped) .refl, agrees', waiting, rfl, rfl, (List.append_nil _).symm⟩

end Handlers

end Operativsystem.Kernel.Lifecycle
