import Operativsystem.Kernel.NetlinkKernel
import Operativsystem.Library.Ledger
import Operativsystem.Library.Machine

/-! # The objects of the table

`read_INSERT_struct` allocates an object before it knows whether the table takes it, and
`read_DELETE_struct` frees an object whether or not the table has let go of it. Here the table maps the
64 bytes of a key to the number of an object; the objects that were allocated and the calls of `kfree` on
them are recorded. An insertion may be answered with -EEXIST or another error and the removal of an entry
with an error; the table changes only on success.
-/

namespace Operativsystem.Kernel.Objects

open Memory Resources Machine

abbrev ObjectTable := Finmap fun _ : Bytes => ℕ

structure State where
  ht : Option ObjectTable
  objects : List RhashObject
  freed : Multiset ℕ

def State.start : State := ⟨none, [], 0⟩

structure TableOutcomes extends Outcomes where
  /-- `rhashtable_remove_fast` reports an error. -/
  removeError : Bool

/-- What is read through a pointer to an object, until the object is freed. -/
def State.object (s : State) (id : ℕ) : Option RhashObject :=
  if id ∈ s.freed then none else s.objects[id]?

/-- The entry that a key finds. -/
def State.find (s : State) (key : Bytes) : Option ℕ := s.ht.bind fun ht => ht.lookup (key.take KEY_SIZE)

def readDeleteStruct (o : TableOutcomes) (s : State) (request : Bytes) : Option (State × Pdu) := do
  let key ← readKey request
  let ht ← s.ht
  match ht.lookup (key.take KEY_SIZE) with
  | none =>
    let response ← literal "Error when getting object."
    some (s, response)
  | some id =>
    let obj ← s.object id
    if o.removeError then
      let response ← literal "Error when deleting from rhashtable."
      some (⟨ht, s.objects, id ::ₘ s.freed⟩, response)
    else
      let response ← literal "Successful deleting object from rhashtable."
      some (⟨ht.erase (obj.key.take KEY_SIZE), s.objects, id ::ₘ s.freed⟩, response)

def readGetStruct (s : State) (request : Bytes) : Option (State × Pdu) := do
  let key ← readKey request
  let ht ← s.ht
  match ht.lookup (key.take KEY_SIZE) with
  | none =>
    let response ← literal "Error when getting object."
    some (s, response)
  | some id =>
    let obj ← s.object id
    if obj.key.take KEY_SIZE = key.take KEY_SIZE then some (s, ⟨KERNEL, obj.dataBytes, .bytes obj.data⟩)
    else
      let response ← literal "Error, key does not match..."
      some (s, response)

def readInsertStruct (o : TableOutcomes) (s : State) (request : Bytes) : Option (State × Pdu) :=
  if o.object then do
    let dataBytes ← read16 request 1
    let key ← readKey request
    let data ← copyValue o.toOutcomes (request.drop (HEADERSIZE + KEY_SIZE)) dataBytes
    let ht ← s.ht
    let objects := s.objects ++ [⟨key, dataBytes, data⟩]
    if o.insertError then
      let response ← literal "Error when insert to rhashtable."
      some (⟨ht, objects, s.freed⟩, response)
    else
      match ht.lookup (key.take KEY_SIZE) with
      | some _ =>
        let response ← literal "Error, duplicated key."
        some (⟨ht, objects, s.freed⟩, response)
      | none =>
        let response ← literal "Inserted object to rhashtable"
        some (⟨ht.insert (key.take KEY_SIZE) s.objects.length, objects, s.freed⟩, response)
  else do
    let response ← literal "Error when kmalloc."
    some (s, response)

def readInitStruct (o : TableOutcomes) (s : State) : Option (State × Pdu) :=
  if s.ht.isSome then do
    let response ← literal "Hashtable already initialized."
    some (s, response)
  else if o.initError then do
    let response ← literal "Unable to initialize hashtable."
    some (s, response)
  else do
    let response ← literal "Initialized hashtable."
    some ({ s with ht := some ∅ }, response)

def switchOpCode (o : TableOutcomes) (s : State) (opCode : Byte) (request : Bytes) : Option (State × Pdu) :=
  if opCode = INIT then readInitStruct o s
  else if opCode = INSERT then readInsertStruct o s request
  else if opCode = GET then readGetStruct s request
  else if opCode = DELETE then readDeleteStruct o s request
  else do
    let response ← literal "Error wrong OP_code to kernel"
    some (s, response)

def readExactlyFromUser (o : TableOutcomes) (s : State) (request : Bytes) : Option (State × Option Pdu) :=
  if o.response then do
    let opCode ← request.head?
    let (s, response) ← switchOpCode o s opCode request
    some (s, some response)
  else some (s, none)

def workHandler (o : TableOutcomes) (s : State) (request : Bytes) : Option (State × Option Bytes) := do
  let (s, response) ← readExactlyFromUser o s request
  match response with
  | none => some (s, none)
  | some response =>
    let responseBuffer ← pduToBufferKernel o.toOutcomes response
    some (s, if o.skb then some responseBuffer else none)

/-- A request that is handled to its end. -/
def handle (s : State) (e : TableOutcomes × Bytes) : Option State := (workHandler e.1 s e.2).map Prod.fst

/-- `rhashtable_free_and_destroy` with `free_ht_objects`, when the module is removed. -/
def freeAndDestroy (s : State) : State :=
  ⟨none, s.objects, s.freed + (s.ht.getD ∅).entries.map Sigma.snd⟩

/-- The table as the owner of its objects. -/
def State.ledger (s : State) : Ledger Bytes := ⟨s.ht.getD ∅, s.objects.length, s.freed⟩

/-- Every object that was allocated is an entry and not freed, or freed exactly once. -/
def State.Accounted (s : State) : Prop := s.ledger.Accounted

/-- An INSERT that allocates its object finds no entry of its key and is turned down by no error; a DELETE
that finds an entry can remove it. -/
def Clean (s : State) (e : TableOutcomes × Bytes) : Prop :=
  e.1.response = true → ∀ key ∈ readKey e.2,
    (e.2.head? = some INSERT → e.1.object = true → e.1.insertError = false ∧ s.find key = none) ∧
    (e.2.head? = some DELETE → s.find key ≠ none → e.1.removeError = false)

instance (s : State) (e : TableOutcomes × Bytes) : Decidable (Clean s e) :=
  inferInstanceAs (Decidable (_ → _))

/-- What the table holds are objects, each under its own key, and what is freed was allocated. -/
structure Owned (s : State) : Prop where
  keyed : ∀ k id, (s.ht.getD ∅).lookup k = some id →
    ∃ obj, s.objects[id]? = some obj ∧ obj.key.take KEY_SIZE = k
  sound : s.ledger.Sound

theorem owned_start : Owned .start :=
  ⟨fun _ _ impossible => by simp [State.start] at impossible,
    ⟨fun _ ⟨_, impossible⟩ => by simp [State.ledger, State.start] at impossible,
      fun _ impossible => by simp [State.ledger, State.start] at impossible,
      fun _ _ _ impossible => by simp [State.ledger, State.start] at impossible⟩⟩

theorem accounted_start : State.start.Accounted := fun _ impossible => absurd impossible (Nat.not_lt_zero _)

section Steps

variable {o : TableOutcomes} {s s' : State} {request key : Bytes} {response : Pdu}

theorem find_eq {ht : ObjectTable} (live : s.ht = some ht) : s.find key = ht.lookup (key.take KEY_SIZE) := by
  rw [State.find, live, Option.bind_some]

/-- What a handler does with the objects. -/
inductive Handles (o : TableOutcomes) (request : Bytes) (s s' : State) : Prop where
  | keeps (clean : Clean s (o, request)) (same : s' = s)
  | inits (clean : Clean s (o, request)) (absent : s.ht = none) (same : s' = { s with ht := some ∅ })
  | stores (clean : Clean s (o, request)) (ht : ObjectTable) (obj : RhashObject) (live : s.ht = some ht)
      (fresh : ht.lookup (obj.key.take KEY_SIZE) = none)
      (same : s' = ⟨ht.insert (obj.key.take KEY_SIZE) s.objects.length, s.objects ++ [obj], s.freed⟩)
  | loses (dirty : ¬Clean s (o, request)) (obj : RhashObject)
      (same : s' = { s with objects := s.objects ++ [obj] })
  | releases (clean : Clean s (o, request)) (ht : ObjectTable) (k : Bytes) (id : ℕ) (obj : RhashObject)
      (live : s.ht = some ht) (found : ht.lookup k = some id) (here : s.objects[id]? = some obj)
      (same : s' = ⟨ht.erase (obj.key.take KEY_SIZE), s.objects, id ::ₘ s.freed⟩)
  | dangles (dirty : ¬Clean s (o, request)) (ht : ObjectTable) (k : Bytes) (id : ℕ) (live : s.ht = some ht)
      (found : ht.lookup k = some id) (same : s' = { s with freed := id ::ₘ s.freed })

theorem clean_of_head {opCode : Byte} (head : request.head? = some opCode) (insert : opCode ≠ INSERT)
    (delete : opCode ≠ DELETE) : Clean s (o, request) := by
  intro _ key _
  constructor
  · intro same
    exact absurd (Option.some.inj (head.symm.trans same)) insert
  · intro same
    exact absurd (Option.some.inj (head.symm.trans same)) delete

/-- A request that is answered with a literal and changes nothing else. -/
theorem answered_literal {text : String} {next : State}
    (ran : (literal text).bind (fun response => some (next, response)) = some (s', response)) : s' = next := by
  obtain ⟨_, -, same⟩ := Option.bind_eq_some_iff.mp ran
  exact (Prod.mk.inj (Option.some.inj same)).1.symm

theorem readInitStruct_handles (head : request.head? = some INIT)
    (ran : readInitStruct o s = some (s', response)) : Handles o request s s' := by
  have clean : Clean s (o, request) := clean_of_head head (by decide) (by decide)
  rw [readInitStruct] at ran
  split_ifs at ran with live failed
  · exact .keeps clean (answered_literal ran)
  · exact .keeps clean (answered_literal ran)
  · exact .inits clean (by simpa using live) (answered_literal ran)

theorem readGetStruct_handles (head : request.head? = some GET)
    (ran : readGetStruct s request = some (s', response)) : Handles o request s s' := by
  have clean : Clean s (o, request) := clean_of_head head (by decide) (by decide)
  apply Handles.keeps clean
  simp only [readGetStruct, Option.bind_eq_bind, Option.bind_eq_some_iff] at ran
  obtain ⟨key, -, ht, -, ran⟩ := ran
  cases found : ht.lookup (key.take KEY_SIZE) with
  | none =>
    simp only [found] at ran
    exact answered_literal ran
  | some id =>
    simp only [found] at ran
    obtain ⟨obj, -, ran⟩ := Option.bind_eq_some_iff.mp ran
    split_ifs at ran with matched
    · exact (Prod.mk.inj (Option.some.inj ran)).1.symm
    · exact answered_literal ran

/-- Whether an INSERT with a key is clean. -/
theorem clean_insert (head : request.head? = some INSERT) (responding : o.response = true)
    (object : o.object = true) (copied : readKey request = some key) :
    Clean s (o, request) ↔ o.insertError = false ∧ s.find key = none := by
  constructor
  · intro clean
    exact (clean responding key copied).1 head object
  · intro met _ other copied'
    obtain rfl := Option.some.inj (copied.symm.trans copied')
    refine ⟨fun _ _ => met, fun impossible => ?_⟩
    cases head.symm.trans impossible

theorem clean_delete (head : request.head? = some DELETE) (responding : o.response = true)
    (copied : readKey request = some key) :
    Clean s (o, request) ↔ (s.find key ≠ none → o.removeError = false) := by
  constructor
  · intro clean
    exact (clean responding key copied).2 head
  · intro met _ other copied'
    obtain rfl := Option.some.inj (copied.symm.trans copied')
    refine ⟨fun impossible => ?_, fun _ => met⟩
    cases head.symm.trans impossible

theorem readInsertStruct_handles (head : request.head? = some INSERT) (responding : o.response = true)
    (ran : readInsertStruct o s request = some (s', response)) : Handles o request s s' := by
  by_cases object : o.object = true
  · rw [readInsertStruct, if_pos object] at ran
    simp only [Option.bind_eq_bind, Option.bind_eq_some_iff] at ran
    obtain ⟨dataBytes, -, key, copied, data, -, ht, live, ran⟩ := ran
    have clean := clean_insert (s := s) head responding object copied
    by_cases failed : o.insertError = true
    · rw [if_pos failed] at ran
      refine .loses (fun met => ?_) ⟨key, dataBytes, data⟩ ((answered_literal ran).trans (by rw [live]))
      exact Bool.false_ne_true ((clean.mp met).1.symm.trans failed)
    · rw [if_neg failed] at ran
      cases found : ht.lookup (key.take KEY_SIZE) with
      | some id =>
        simp only [found] at ran
        refine .loses (fun met => ?_) ⟨key, dataBytes, data⟩ ((answered_literal ran).trans (by rw [live]))
        cases ((find_eq live).symm.trans (clean.mp met).2).symm.trans found
      | none =>
        simp only [found] at ran
        have met : Clean s (o, request) := clean.mpr ⟨by simpa using failed, (find_eq live).trans found⟩
        exact .stores met ht ⟨key, dataBytes, data⟩ live found (answered_literal ran)
  · rw [readInsertStruct, if_neg object] at ran
    refine .keeps (fun _ key _ => ?_) (answered_literal ran)
    constructor
    · exact fun _ impossible => absurd impossible object
    · intro impossible
      cases head.symm.trans impossible

theorem object_eq_some {id : ℕ} {obj : RhashObject} (read : s.object id = some obj) :
    id ∉ s.freed ∧ s.objects[id]? = some obj := by
  simpa [State.object] using read

theorem readDeleteStruct_handles (head : request.head? = some DELETE) (responding : o.response = true)
    (ran : readDeleteStruct o s request = some (s', response)) : Handles o request s s' := by
  simp only [readDeleteStruct, Option.bind_eq_bind, Option.bind_eq_some_iff] at ran
  obtain ⟨key, copied, ht, live, ran⟩ := ran
  have clean := clean_delete (s := s) head responding copied
  rw [find_eq live] at clean
  cases found : ht.lookup (key.take KEY_SIZE) with
  | none =>
    simp only [found] at ran
    exact .keeps (clean.mpr fun impossible => absurd found impossible) (answered_literal ran)
  | some id =>
    simp only [found] at ran
    obtain ⟨obj, read, ran⟩ := Option.bind_eq_some_iff.mp ran
    have here := (object_eq_some read).2
    split_ifs at ran with failed
    · refine .dangles (fun met => ?_) ht _ id live found ((answered_literal ran).trans (by rw [live]))
      have works := clean.mp met (by simp [found])
      exact Bool.false_ne_true (works.symm.trans failed)
    · exact .releases (clean.mpr fun _ => by simpa using failed) ht _ id obj live found here
        (answered_literal ran)

theorem switchOpCode_handles {opCode : Byte} (head : request.head? = some opCode) (responding : o.response = true)
    (ran : switchOpCode o s opCode request = some (s', response)) : Handles o request s s' := by
  rw [switchOpCode] at ran
  split_ifs at ran with init insert get delete
  · exact readInitStruct_handles (init ▸ head) ran
  · exact readInsertStruct_handles (insert ▸ head) responding ran
  · exact readGetStruct_handles (get ▸ head) ran
  · exact readDeleteStruct_handles (delete ▸ head) responding ran
  · exact .keeps (clean_of_head head insert delete) (answered_literal ran)

theorem handle_handles (ran : handle s (o, request) = some s') : Handles o request s s' := by
  obtain ⟨⟨last, answer⟩, worked, rfl⟩ := Option.map_eq_some_iff.mp ran
  obtain ⟨⟨next, response⟩, read, answered⟩ := Option.bind_eq_some_iff.mp worked
  have same : last = next := by
    cases response with
    | none => exact (Prod.mk.inj (Option.some.inj answered)).1.symm
    | some response =>
      obtain ⟨buffer, -, same⟩ := Option.bind_eq_some_iff.mp answered
      exact (Prod.mk.inj (Option.some.inj same)).1.symm
  obtain rfl := same
  simp only [readExactlyFromUser] at read
  split_ifs at read with responding
  · obtain ⟨opCode, head, read⟩ := Option.bind_eq_some_iff.mp read
    obtain ⟨⟨next, response⟩, handled, same⟩ := Option.bind_eq_some_iff.mp read
    obtain rfl := (Prod.mk.inj (Option.some.inj same)).1
    exact switchOpCode_handles head responding handled
  · obtain rfl := (Prod.mk.inj (Option.some.inj read)).1
    exact .keeps (fun absurd' => absurd absurd' responding) rfl

section Ledger

variable {ht : ObjectTable} {obj : RhashObject} {k : Bytes} {id : ℕ}

theorem ledger_init (absent : s.ht = none) : ({ s with ht := some ∅ } : State).ledger = s.ledger := by
  simp [State.ledger, absent]

theorem ledger_store (live : s.ht = some ht) (k : Bytes) (obj : RhashObject) :
    (⟨ht.insert k s.objects.length, s.objects ++ [obj], s.freed⟩ : State).ledger = s.ledger.hold k := by
  simp [State.ledger, Ledger.hold, live]

theorem ledger_lose (s : State) (obj : RhashObject) :
    ({ s with objects := s.objects ++ [obj] } : State).ledger = s.ledger.make := by
  simp [State.ledger, Ledger.make]

theorem ledger_release (live : s.ht = some ht) (k : Bytes) (id : ℕ) :
    (⟨ht.erase k, s.objects, id ::ₘ s.freed⟩ : State).ledger = s.ledger.release k id := by
  simp [State.ledger, Ledger.release, live]

/-- The key of an object in the table is the key that it is found under. -/
theorem Owned.key_eq (owned : Owned s) (live : s.ht = some ht) (found : ht.lookup k = some id)
    (here : s.objects[id]? = some obj) : obj.key.take KEY_SIZE = k := by
  obtain ⟨other, here', same⟩ := owned.keyed k id (by rwa [live])
  obtain rfl := Option.some.inj (here.symm.trans here')
  exact same

theorem Owned.found (live : s.ht = some ht) (found : ht.lookup k = some id) :
    s.ledger.held.lookup k = some id := by
  rwa [State.ledger, live, Option.getD_some]

end Ledger

/-- An object that is appended leaves the earlier ones in their places. -/
theorem getElem?_objects {objects : List RhashObject} {id : ℕ} {obj : RhashObject}
    (here : objects[id]? = some obj) (later : RhashObject) : (objects ++ [later])[id]? = some obj := by
  rwa [List.getElem?_append_left (List.getElem?_eq_some_iff.mp here).1]

theorem Handles.owned (owned : Owned s) (handles : Handles o request s s') : Owned s' := by
  obtain ⟨keyed, sound⟩ := owned
  cases handles with
  | keeps _ same => exact same ▸ ⟨keyed, sound⟩
  | inits _ absent same =>
    subst same
    refine ⟨?_, (ledger_init absent).symm ▸ sound⟩
    rwa [absent] at keyed
  | stores _ ht obj live fresh same =>
    subst same
    have free : s.ledger.held.lookup (obj.key.take KEY_SIZE) = none := by rwa [State.ledger, live]
    refine ⟨fun k id found => ?_, (ledger_store live _ obj).symm ▸ sound.hold free⟩
    rw [Option.getD_some] at found
    by_cases same : k = obj.key.take KEY_SIZE
    · rw [same, Finmap.lookup_insert, Option.some.injEq] at found
      exact ⟨obj, found ▸ List.getElem?_concat_length, same.symm⟩
    · rw [Finmap.lookup_insert_of_ne _ same] at found
      obtain ⟨other, here, own⟩ := keyed k id (by rwa [live])
      exact ⟨other, getElem?_objects here obj, own⟩
  | loses _ obj same =>
    subst same
    refine ⟨fun k id found => ?_, (ledger_lose s obj).symm ▸ sound.make⟩
    obtain ⟨other, here, own⟩ := keyed k id found
    exact ⟨other, getElem?_objects here obj, own⟩
  | releases _ ht k id obj live found here same =>
    have own := Owned.key_eq ⟨keyed, sound⟩ live found here
    rw [own] at same
    subst same
    refine ⟨fun k' other found' => ?_, (ledger_release live k id).symm ▸ sound.release (Owned.found live found)⟩
    rw [Option.getD_some] at found'
    apply keyed k' other
    rw [live, Option.getD_some]
    by_cases same : k' = k
    · rw [same, Finmap.lookup_erase] at found'
      cases found'
    · rwa [Finmap.lookup_erase_ne same] at found'
  | dangles _ ht k id live found same =>
    subst same
    exact ⟨keyed, sound.free (sound.made id ⟨k, Owned.found live found⟩)⟩

/-- A request keeps the objects accounted for exactly if it is clean. -/
theorem Handles.accounted_iff (owned : Owned s) (accounted : s.Accounted) (handles : Handles o request s s') :
    s'.Accounted ↔ Clean s (o, request) := by
  have sound := owned.sound
  cases handles with
  | keeps clean same => exact iff_of_true (same ▸ accounted) clean
  | inits clean absent same =>
    subst same
    rw [State.Accounted, ledger_init absent]
    exact iff_of_true accounted clean
  | stores clean ht obj live fresh same =>
    subst same
    have free : s.ledger.held.lookup (obj.key.take KEY_SIZE) = none := by rwa [State.ledger, live]
    rw [State.Accounted, ledger_store live]
    exact iff_of_true (.hold sound free accounted) clean
  | loses dirty obj same =>
    subst same
    rw [State.Accounted, ledger_lose]
    exact iff_of_false (Ledger.not_accounted_make sound) dirty
  | releases clean ht k id obj live found here same =>
    rw [owned.key_eq live found here] at same
    subst same
    rw [State.Accounted, ledger_release live]
    exact iff_of_true (.release sound (Owned.found live found) accounted) clean
  | dangles dirty ht k id live found same =>
    subst same
    exact iff_of_false (Ledger.not_accounted_free sound ⟨k, Owned.found live found⟩) dirty

theorem handle_owned (s : State) (e : TableOutcomes × Bytes) (s' : State) (owned : Owned s)
    (ran : handle s e = some s') : Owned s' := (handle_handles ran).owned owned

end Steps

/-- Clean requests keep the objects accounted for. -/
theorem run_accounted {events : List (TableOutcomes × Bytes)} {s : State}
    (ran : run handle .start events = some s) (clean : Steps handle Clean .start events) :
    Owned s ∧ s.Accounted := by
  have keeps : ∀ s e s', Clean s e → Owned s ∧ s.Accounted → handle s e = some s' → Owned s' ∧ s'.Accounted := by
    intro s e s' clean inv ran
    exact ⟨handle_owned s e s' inv.1 ran, ((handle_handles ran).accounted_iff inv.1 inv.2).mpr clean⟩
  exact run_invariant_of_steps keeps ⟨owned_start, accounted_start⟩ clean ran

/-- The first request that is not clean leaves an object that is not accounted for. -/
theorem dirty_breaks {events : List (TableOutcomes × Bytes)} {e : TableOutcomes × Bytes} {s s' : State}
    (ran : run handle .start events = some s) (clean : Steps handle Clean .start events)
    (handled : handle s e = some s') (dirty : ¬Clean s e) : ¬s'.Accounted := by
  obtain ⟨owned, accounted⟩ := run_accounted ran clean
  exact mt ((handle_handles handled).accounted_iff owned accounted).mp dirty

/-- The same for a run that can be computed. -/
theorem dirty_last {events : List (TableOutcomes × Bytes)} {e : TableOutcomes × Bytes}
    (clean : Steps handle Clean .start events) (ends : (run handle .start (events ++ [e])).isSome)
    (dirty : (run handle .start events).map (fun s => decide (Clean s e)) = some false) :
    ∃ s, run handle .start (events ++ [e]) = some s ∧ ¬s.Accounted := by
  obtain ⟨s, ran, unclean⟩ := Option.map_eq_some_iff.mp dirty
  obtain ⟨s', ran'⟩ := Option.isSome_iff_exists.mp ends
  have handled : handle s e = some s' := by
    rw [run_append ran, run_cons] at ran'
    simpa using ran'
  exact ⟨s', ran', dirty_breaks ran clean handled (of_decide_eq_false unclean)⟩

/-- When the module is removed after clean requests, every object has been freed exactly once. -/
theorem freeAndDestroy_frees {events : List (TableOutcomes × Bytes)} {s : State}
    (ran : run handle .start events = some s) (clean : Steps handle Clean .start events) (id : ℕ)
    (made : id < s.objects.length) : (freeAndDestroy s).freed.count id = 1 := by
  obtain ⟨owned, accounted⟩ := run_accounted ran clean
  exact accounted.destroy owned.sound id made

/-- In every run, all objects are accounted for after each request exactly if every request is clean. -/
theorem objects_accounted (events : List (TableOutcomes × Bytes)) (s : State)
    (ran : run handle .start events = some s) :
    Throughout handle State.Accounted .start events ↔ Steps handle Clean .start events :=
  throughout_iff (fun s e s' _ => handle_owned s e s')
    (fun _ _ _ owned accounted ran => (handle_handles ran).accounted_iff owned accounted) owned_start
    accounted_start ran

section Contents

variable {o : TableOutcomes} {s s' : State} {k : KernelState} {ht : ObjectTable} {request key : Bytes}
  {response : Pdu}

/-- The table without the objects' numbers: it holds what the entries point to. -/
structure Models (s : State) (k : KernelState) : Prop where
  absent : s.ht = none → k.ht = none
  present : ∀ ht, s.ht = some ht →
    ∃ table, k.ht = some table ∧ ∀ key, table.lookup key = (ht.lookup key).bind s.object

/-- An entry of accounted objects can be read. -/
theorem object_of_entry (owned : Owned s) (accounted : s.Accounted) (live : s.ht = some ht) {id : ℕ}
    (found : ht.lookup key = some id) :
    ∃ obj, s.object id = some obj ∧ obj.key.take KEY_SIZE = key := by
  obtain ⟨obj, here, own⟩ := owned.keyed key id (by rwa [live])
  have held : s.ledger.Holds id := ⟨key, Owned.found live found⟩
  have kept : id ∉ s.freed := by
    rcases accounted id (owned.sound.made id held) with ⟨-, never⟩ | ⟨gone, -⟩
    · exact Multiset.count_eq_zero.mp never
    · exact absurd held gone
  exact ⟨obj, by rw [State.object, if_neg kept, here], own⟩

theorem Models.insert (owned : Owned s) (models : Models s k) (live : s.ht = some ht) {table : Table}
    (present : k.ht = some table) (obj : RhashObject) :
    Models ⟨ht.insert key s.objects.length, s.objects ++ [obj], s.freed⟩ ⟨table.insert key obj⟩ := by
  refine ⟨nofun, fun grown same => ⟨_, rfl, fun key' => ?_⟩⟩
  obtain rfl := Option.some.inj same
  obtain ⟨table', present', contents⟩ := models.present ht live
  obtain rfl := Option.some.inj (present.symm.trans present')
  by_cases same : key' = key
  · subst same
    have fresh : s.objects.length ∉ s.freed := fun freed => (owned.sound.freed _ freed).false
    simp [State.object, fresh, Finmap.lookup_insert]
  · rw [Finmap.lookup_insert_of_ne _ same, Finmap.lookup_insert_of_ne _ same, contents key']
    cases found : ht.lookup key' with
    | none => rfl
    | some id =>
      obtain ⟨other, here, -⟩ := owned.keyed key' id (by rwa [live])
      simp only [State.object, Option.bind_some, getElem?_objects here obj, here]

/-- An insertion that is turned down leaves an object behind, but not in the table. -/
theorem Models.lose (owned : Owned s) (models : Models s k) (obj : RhashObject) :
    Models { s with objects := s.objects ++ [obj] } k := by
  refine ⟨models.absent, fun ht live => ?_⟩
  obtain ⟨table, present, contents⟩ := models.present ht live
  refine ⟨table, present, fun key => (contents key).trans ?_⟩
  cases found : ht.lookup key with
  | none => rfl
  | some id =>
    have live' : s.ht = some ht := live
    obtain ⟨other, here, -⟩ := owned.keyed key id (by rwa [live'])
    simp only [State.object, Option.bind_some, getElem?_objects here obj, here]

theorem Models.erase (owned : Owned s) (models : Models s k) (live : s.ht = some ht) {table : Table}
    (present : k.ht = some table) {id : ℕ} (found : ht.lookup key = some id) :
    Models ⟨ht.erase key, s.objects, id ::ₘ s.freed⟩ ⟨table.erase key⟩ := by
  refine ⟨nofun, fun less same => ⟨_, rfl, fun key' => ?_⟩⟩
  obtain rfl := Option.some.inj same
  obtain ⟨table', present', contents⟩ := models.present ht live
  obtain rfl := Option.some.inj (present.symm.trans present')
  by_cases own : key' = key
  · rw [own, Finmap.lookup_erase, Finmap.lookup_erase, Option.bind_none]
  · rw [Finmap.lookup_erase_ne own, Finmap.lookup_erase_ne own, contents key']
    cases found' : ht.lookup key' with
    | none => rfl
    | some other =>
      have different : other ≠ id := by
        rintro rfl
        exact own (owned.sound.once key' key other (Owned.found live found') (Owned.found live found))
      simp [State.object, different]

theorem readInitStruct_models (models : Models s k) (ran : readInitStruct o s = some (s', response)) :
    ∃ k', Kernel.readInitStruct o.toOutcomes k = some (k', response) ∧ Models s' k' := by
  cases live : s.ht with
  | some ht =>
    obtain ⟨table, present, -⟩ := models.present ht live
    simp only [readInitStruct, live, Option.isSome_some, if_true] at ran
    obtain ⟨_, answered, same⟩ := Option.bind_eq_some_iff.mp ran
    cases same
    exact ⟨k, by simp [Kernel.readInitStruct, present, answered], models⟩
  | none =>
    have absent := models.absent live
    simp only [readInitStruct, live, Option.isSome_none, Bool.false_eq_true, if_false] at ran
    by_cases failed : o.initError = true
    · rw [if_pos failed] at ran
      obtain ⟨_, answered, same⟩ := Option.bind_eq_some_iff.mp ran
      cases same
      exact ⟨k, by simp [Kernel.readInitStruct, absent, failed, answered], models⟩
    · rw [if_neg failed] at ran
      obtain ⟨_, answered, same⟩ := Option.bind_eq_some_iff.mp ran
      cases same
      refine ⟨⟨some ∅⟩, by simp [Kernel.readInitStruct, absent, failed, answered],
        (fun impossible => by cases impossible),
        fun ht same => ?_⟩
      cases same
      exact ⟨∅, rfl, fun key => by simp⟩

theorem readGetStruct_models (models : Models s k) (ran : readGetStruct s request = some (s', response)) :
    ∃ k', Kernel.readGetStruct k request = some (k', response) ∧ Models s' k' := by
  simp only [readGetStruct, Option.bind_eq_bind, Option.bind_eq_some_iff] at ran
  obtain ⟨key, copied, ht, live, ran⟩ := ran
  obtain ⟨table, present, contents⟩ := models.present ht live
  have lookup := contents (key.take KEY_SIZE)
  cases found : ht.lookup (key.take KEY_SIZE) with
  | none =>
    simp only [found, Option.bind_none] at ran lookup
    obtain ⟨_, answered, same⟩ := Option.bind_eq_some_iff.mp ran
    cases same
    exact ⟨k, by simp [Kernel.readGetStruct, copied, present, rhashtableLookupFast, lookup, answered], models⟩
  | some id =>
    simp only [found, Option.bind_some] at ran lookup
    obtain ⟨obj, read, ran⟩ := Option.bind_eq_some_iff.mp ran
    rw [read] at lookup
    by_cases matched : obj.key.take KEY_SIZE = key.take KEY_SIZE
    · rw [if_pos matched] at ran
      cases ran
      exact ⟨k, by simp [Kernel.readGetStruct, copied, present, rhashtableLookupFast, lookup, matched], models⟩
    · rw [if_neg matched] at ran
      obtain ⟨_, answered, same⟩ := Option.bind_eq_some_iff.mp ran
      cases same
      exact ⟨k, by simp [Kernel.readGetStruct, copied, present, rhashtableLookupFast, lookup, matched, answered],
        models⟩

theorem readDeleteStruct_models (owned : Owned s) (models : Models s k) (removes : o.removeError = false)
    (ran : readDeleteStruct o s request = some (s', response)) :
    ∃ k', Kernel.readDeleteStruct k request = some (k', response) ∧ Models s' k' := by
  simp only [readDeleteStruct, Option.bind_eq_bind, Option.bind_eq_some_iff] at ran
  obtain ⟨key, copied, ht, live, ran⟩ := ran
  obtain ⟨table, present, contents⟩ := models.present ht live
  have lookup := contents (key.take KEY_SIZE)
  cases found : ht.lookup (key.take KEY_SIZE) with
  | none =>
    simp only [found, Option.bind_none] at ran lookup
    obtain ⟨_, answered, same⟩ := Option.bind_eq_some_iff.mp ran
    cases same
    exact ⟨k, by simp [Kernel.readDeleteStruct, copied, present, rhashtableLookupFast, lookup, answered], models⟩
  | some id =>
    simp only [found, Option.bind_some] at ran lookup
    obtain ⟨obj, read, ran⟩ := Option.bind_eq_some_iff.mp ran
    rw [read] at lookup
    rw [removes, if_neg Bool.false_ne_true] at ran
    obtain ⟨_, answered, same⟩ := Option.bind_eq_some_iff.mp ran
    cases same
    rw [owned.key_eq live found (object_eq_some read).2]
    refine ⟨⟨table.erase (key.take KEY_SIZE)⟩, ?_, models.erase owned live present found⟩
    simp [Kernel.readDeleteStruct, copied, present, rhashtableLookupFast, lookup, answered, rhashtableRemoveFast,
      owned.key_eq live found (object_eq_some read).2]

theorem readInsertStruct_models (owned : Owned s) (accounted : s.Accounted) (models : Models s k)
    (ran : readInsertStruct o s request = some (s', response)) :
    ∃ k', Kernel.readInsertStruct o.toOutcomes k request = some (k', response) ∧ Models s' k' := by
  by_cases object : o.object = true
  · rw [readInsertStruct, if_pos object] at ran
    simp only [Option.bind_eq_bind, Option.bind_eq_some_iff] at ran
    obtain ⟨dataBytes, length, key, copied, data, stored, ht, live, ran⟩ := ran
    obtain ⟨table, present, contents⟩ := models.present ht live
    have lookup := contents (key.take KEY_SIZE)
    have lost := models.lose owned ⟨key, dataBytes, data⟩
    rw [live] at lost
    by_cases failed : o.insertError = true
    · rw [if_pos failed] at ran
      obtain ⟨_, answered, same⟩ := Option.bind_eq_some_iff.mp ran
      cases same
      refine ⟨k, ?_, lost⟩
      simp [Kernel.readInsertStruct, object, length, copied, stored, present, failed, answered]
    · rw [if_neg failed] at ran
      cases found : ht.lookup (key.take KEY_SIZE) with
      | some id =>
        obtain ⟨obj, read, -⟩ := object_of_entry owned accounted live found
        simp only [found, Option.bind_some, read] at ran lookup
        obtain ⟨_, answered, same⟩ := Option.bind_eq_some_iff.mp ran
        cases same
        refine ⟨k, ?_, lost⟩
        simp [Kernel.readInsertStruct, object, length, copied, stored, present, failed, answered,
          rhashtableLookupInsertFast, rhashtableLookupFast, lookup]
      | none =>
        simp only [found, Option.bind_none] at ran lookup
        obtain ⟨_, answered, same⟩ := Option.bind_eq_some_iff.mp ran
        cases same
        refine ⟨⟨table.insert (key.take KEY_SIZE) ⟨key, dataBytes, data⟩⟩, ?_,
          models.insert owned live present ⟨key, dataBytes, data⟩⟩
        simp [Kernel.readInsertStruct, object, length, copied, stored, present, failed, answered,
          rhashtableLookupInsertFast, rhashtableLookupFast, lookup]
  · rw [readInsertStruct, if_neg object] at ran
    obtain ⟨_, answered, same⟩ := Option.bind_eq_some_iff.mp ran
    cases same
    exact ⟨k, by simp [Kernel.readInsertStruct, object, answered], models⟩

theorem switchOpCode_models (owned : Owned s) (accounted : s.Accounted) (models : Models s k)
    (removes : o.removeError = false) {opCode : Byte}
    (ran : switchOpCode o s opCode request = some (s', response)) :
    ∃ k', Kernel.switchOpCode o.toOutcomes k opCode request = some (k', response) ∧ Models s' k' := by
  rw [switchOpCode] at ran
  simp only [Kernel.switchOpCode]
  split_ifs at ran ⊢
  · exact readInitStruct_models models ran
  · exact readInsertStruct_models owned accounted models ran
  · exact readGetStruct_models models ran
  · exact readDeleteStruct_models owned models removes ran
  · obtain ⟨_, answered, same⟩ := Option.bind_eq_some_iff.mp ran
    cases same
    exact ⟨k, by simp [answered], models⟩

/-- Where removals work, a request is handled as on the table that holds the objects themselves. -/
theorem workHandler_models (owned : Owned s) (accounted : s.Accounted) (models : Models s k)
    (removes : o.removeError = false) {answer : Option Bytes}
    (ran : workHandler o s request = some (s', answer)) :
    ∃ k', Kernel.workHandler o.toOutcomes k request = some (k', answer) ∧ Models s' k' := by
  obtain ⟨⟨next, response⟩, read, answered⟩ := Option.bind_eq_some_iff.mp ran
  by_cases responding : o.response = true
  · rw [readExactlyFromUser, if_pos responding] at read
    obtain ⟨opCode, head, read⟩ := Option.bind_eq_some_iff.mp read
    obtain ⟨⟨next, response⟩, handled, same⟩ := Option.bind_eq_some_iff.mp read
    cases same
    obtain ⟨k', handled', models'⟩ := switchOpCode_models owned accounted models removes handled
    obtain ⟨buffer, built, same⟩ := Option.bind_eq_some_iff.mp answered
    cases same
    exact ⟨k', by simp [Kernel.workHandler, Kernel.readExactlyFromUser, responding, head, handled', built],
      models'⟩
  · rw [readExactlyFromUser, if_neg responding] at read
    cases read
    cases answered
    exact ⟨k, by simp [Kernel.workHandler, Kernel.readExactlyFromUser, responding], models⟩

end Contents

def smooth : TableOutcomes := ⟨.smooth 0, false⟩

def initRequest : TableOutcomes × Bytes := (smooth, [INIT, 0, 0, 0])

def storeRequest (o : TableOutcomes) : TableOutcomes × Bytes := (o, insertFrame (ascii "k") [1])

def deleteRequest (o : TableOutcomes) : TableOutcomes × Bytes := (o, keyFrame DELETE (ascii "k"))

theorem objects_accounted_once :
    Throughout handle State.Accounted .start [initRequest, storeRequest smooth, deleteRequest smooth] :=
  (objects_accounted _ _ rfl).mpr (by decide +kernel)

/-- An object is lost when its key is taken or the table reports an error, and one that cannot be removed is
freed in the table. -/
theorem objects_unaccounted :
    (∃ s, run handle .start [initRequest, storeRequest smooth, storeRequest smooth] = some s ∧ ¬s.Accounted) ∧
      (∃ s, run handle .start [initRequest, storeRequest { smooth with insertError := true }] = some s ∧
        ¬s.Accounted) ∧
      ∃ s, run handle .start
          [initRequest, storeRequest smooth, deleteRequest { smooth with removeError := true }] =
        some s ∧ ¬s.Accounted := by
  refine ⟨?_, ?_, ?_⟩
  · exact @dirty_last [initRequest, storeRequest smooth] (storeRequest smooth) (by decide +kernel)
      (by decide +kernel) (by decide +kernel)
  · exact @dirty_last [initRequest] (storeRequest { smooth with insertError := true }) (by decide +kernel)
      (by decide +kernel) (by decide +kernel)
  · exact @dirty_last [initRequest, storeRequest smooth] (deleteRequest { smooth with removeError := true })
      (by decide +kernel) (by decide +kernel) (by decide +kernel)

end Operativsystem.Kernel.Objects
