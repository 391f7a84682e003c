import Operativsystem.Pipeline.AnswerAll
import Operativsystem.Store.Lockstep

/-! # The store file follows the order of the requests

Between the answer of the kernel module and the loop over the clients, `kernel_communication` calls `store_data`.
No other thread looks at the file. So whatever the clients and listeners do in between, the file lists what the
requests have left in the table, in the one order in which they were served; while `store_data` is still to be
called it lacks the last request only.
-/

namespace Operativsystem.Pipeline

open Memory Resources Client User Kernel Store LList Machine Server

/-- The system with its files; `storing` holds the request and the answer of the next call of `store_data`. -/
structure StoredSystem where
  system : System
  files : Files
  storing : Option (Pdu × Pdu)

def StoredSystem.start (s : StoreState) : StoredSystem := ⟨.start s.link, s.files, none⟩

/-- Table and file. -/
def StoredSystem.store (s : StoredSystem) : StoreState := ⟨s.system.link, s.files⟩

/-- The exchange with the kernel module, before `store_data`. -/
def StoredSystem.exchange (s : StoredSystem) (o : Outcomes) : Option StoredSystem :=
  match s.system.relay with
  | .holding pduSend => do
    let (link, pduReceive) ← User.exchange o s.system.link pduSend
    some ⟨{ s.system with link, relay := .broadcasting pduReceive .start }, s.files, some (pduSend, pduReceive)⟩
  | _ => none

def StoredSystem.storeData (s : StoredSystem) : Option StoredSystem := do
  let (pduSend, pduReceive) ← s.storing
  let files ← Store.storeData s.files pduSend pduReceive
  some ⟨s.system, files, none⟩

inductive StoredEvent where
  | system (e : SystemEvent)
  | storeData

/-- The loop over the clients comes after `store_data`. -/
def storedStep (clients : Clients) (s : StoredSystem) : StoredEvent → Option StoredSystem
  | .storeData => s.storeData
  | .system (.exchange o) => s.exchange o
  | .system .broadcast =>
    if s.storing.isSome then none
    else (s.system.broadcast clients).map fun system => { s with system }
  | .system e => (systemStep clients s.system e).map fun system => { s with system }

/-- The event of the system, unless it is a call of `store_data`. -/
def StoredEvent.system? : StoredEvent → Option SystemEvent
  | .system e => some e
  | .storeData => none

def systemEvents (events : List StoredEvent) : List SystemEvent := events.filterMap StoredEvent.system?

/-- The key and the value of the request fit a line of the file. -/
def Lined : SystemEvent → Prop
  | .clientSend _ call => ∃ line : LineRequest, call.request = line.request
  | _ => True

section Live

variable {live : List Entry} {lines more : List LineRequest} {answers : List Bytes}

theorem liveAfter_append (enough : answers.length ≤ lines.length) :
    liveAfter live (lines ++ more) answers = liveAfter live lines answers := by
  induction answers generalizing live lines with
  | nil =>
    cases lines <;> cases more <;> rfl
  | cons answer answers ih =>
    cases lines with
    | nil => simp at enough
    | cons line lines => exact ih (by simpa using enough)

theorem liveAfter_snoc {line : LineRequest} (next : lines[answers.length]? = some line) (answer : Bytes) :
    liveAfter live lines (answers ++ [answer]) = liveStep (liveAfter live lines answers) line answer := by
  induction answers generalizing live lines with
  | nil =>
    cases lines with
    | nil => simp at next
    | cons first lines =>
      obtain rfl : first = line := by simpa using next
      cases lines <;> rfl
  | cons first answers ih =>
    cases lines with
    | nil => simp at next
    | cons line' lines => exact ih (by simpa using next)

end Live

/-- The entries that the requests that were exchanged have left. -/
def liveNow (live : List Entry) (outs : List Outcomes) (order : List (ℕ × Request))
    (lines : List LineRequest) : List Entry :=
  liveAfter live lines ((served (mapOf live) outs order).2.map Prod.snd)

section Now

variable {live : List Entry} {outs : List Outcomes} {order more : List (ℕ × Request)}
  {lines lines' : List LineRequest}

/-- Requests that wait in the queue have left nothing yet. -/
theorem liveNow_queued (enough : outs.length ≤ order.length) (enough' : outs.length ≤ lines.length) :
    liveNow live outs (order ++ more) (lines ++ lines') = liveNow live outs order lines := by
  rw [liveNow, served_queued enough, liveAfter_append]
  · rfl
  · rw [List.length_map, served_length enough]
    exact enough'

theorem liveNow_exchange (enough : outs.length ≤ order.length) {client : ℕ} {line : LineRequest}
    (next : order[outs.length]? = some (client, line.request)) (next' : lines[outs.length]? = some line)
    (o : Outcomes) : liveNow live (outs ++ [o]) order lines = liveStep (liveNow live outs order lines) line
      (mapStep o (served (mapOf live) outs order).1 line.request).2 := by
  have length : ((served (mapOf live) outs order).2.map Prod.snd).length = outs.length := by
    rw [List.length_map, served_length enough]
  rw [liveNow, served_exchange next, List.map_append, List.map_singleton]
  exact liveAfter_snoc (by rw [length]; exact next') _

end Now

/-- The file lists the live entries, or those before the request that `store_data` will be called with. -/
structure FileHolds (live : List Entry) (s : StoredSystem) : Prop where
  idle : s.storing = none → s.files.storeFile = live.flatMap Entry.line
  behind : ∀ pduSend pduReceive, s.storing = some (pduSend, pduReceive) →
    ∃ (before : List Entry) (line : LineRequest) (answer : Bytes) (opCode unwritten : Byte) (n m : ℕ),
      s.files.storeFile = before.flatMap Entry.line ∧ live = liveStep before line answer ∧ 0 ∈ answer ∧
      pduSend = ⟨opCode, n, .bytes (line.request.frame ++ [0])⟩ ∧
      pduReceive = ⟨KERNEL, m, .bytes (answerFrame unwritten answer)⟩
  relay : s.storing ≠ none → ∃ pduReceive pc, s.system.relay = .broadcasting pduReceive pc

/-- `store_data` goes through, and brings the file up to the table. -/
theorem FileHolds.storeData {live : List Entry} {s : StoredSystem} (holds : FileHolds live s)
    (pending : s.storing ≠ none) : ∃ s', s.storeData = some s' ∧ s'.system = s.system ∧ s'.storing = none ∧
      FileHolds live s' := by
  obtain ⟨⟨pduSend, pduReceive⟩, storing⟩ := Option.ne_none_iff_exists'.mp pending
  obtain ⟨before, line, answer, opCode, unwritten, n, m, file, rfl, terminated, rfl, rfl⟩ :=
    holds.behind pduSend pduReceive storing
  obtain ⟨files, stored, file'⟩ := storeData_follows file line terminated opCode unwritten n m
  refine ⟨⟨s.system, files, none⟩, ?_, rfl, rfl, fun _ => file', ?_, ?_⟩
  · simp [StoredSystem.storeData, storing, stored]
  · intro pduSend pduReceive impossible
    cases impossible
  · exact fun impossible => absurd rfl impossible

/-- Every request of the order is one about lines, the entries that the served ones leave are those of the table,
and the file follows them. -/
structure Stored (clients : Clients) (live : List Entry) (sent : List (ℕ × Request)) (outs : List Outcomes)
    (order : List (ℕ × Request)) (lines : List LineRequest) (s : StoredSystem) : Prop where
  coherent : Coherent clients (mapOf live) sent outs order s.system
  lined : ∀ x ∈ sent, ∃ line : LineRequest, x.2 = line.request
  named : lines.map LineRequest.request = order.map Prod.snd
  table : mapOf (liveNow live outs order lines) = (served (mapOf live) outs order).1
  distinct : ((liveNow live outs order lines).map fun e => e.key.text).Nodup
  file : FileHolds (liveNow live outs order lines) s

theorem stored_start (clients : Clients) {s : StoreState} {live : List Entry} (lockstep : Lockstep s live)
    (free : KickFreeMap (mapOf live)) : Stored clients live [] [] [] [] (.start s) where
  coherent := coherent_start clients lockstep.serves free
  lined _ member := absurd member List.not_mem_nil
  named := rfl
  table := rfl
  distinct := lockstep.distinct
  file := by
    refine ⟨fun _ => lockstep.file, ?_, fun impossible => absurd rfl impossible⟩
    intro pduSend pduReceive impossible
    cases impossible

theorem exists_lines {more : List (ℕ × Request)} (lined : ∀ x ∈ more, ∃ line : LineRequest, x.2 = line.request) :
    ∃ lines : List LineRequest, lines.map LineRequest.request = more.map Prod.snd := by
  induction more with
  | nil => exact ⟨[], rfl⟩
  | cons x more ih =>
    obtain ⟨line, same⟩ := lined x List.mem_cons_self
    obtain ⟨lines, rest⟩ := ih fun y member => lined y (List.mem_cons_of_mem _ member)
    exact ⟨line :: lines, by rw [List.map_cons, List.map_cons, same, rest]⟩

section Steps

variable {clients : Clients} {live : List Entry} {sent : List (ℕ × Request)} {outs : List Outcomes}
  {order : List (ℕ × Request)} {lines : List LineRequest} {s s' : StoredSystem}

theorem Stored.enough (stored : Stored clients live sent outs order lines s) : outs.length ≤ lines.length := by
  have lengths := congrArg List.length stored.named
  rw [List.length_map, List.length_map] at lengths
  exact lengths ▸ stored.coherent.enough

theorem Coherent.mem_sent {m : Bytes → Option Bytes} {system : System}
    (coherent : Coherent clients m sent outs order system) {x : ℕ × Request} (member : x ∈ order) :
    x ∈ sent := by
  obtain ⟨unread, made, -⟩ := coherent.unread x.1
  refine mem_requestsOf.mp ?_
  rw [made]
  exact List.mem_append_left _ (mem_requestsOf.mpr member)

theorem Stored.next_line (stored : Stored clients live sent outs order lines s) {client : ℕ} {request : Request}
    (next : order[outs.length]? = some (client, request)) :
    ∃ line, lines[outs.length]? = some line ∧ line.request = request := by
  have named := congrArg (·[outs.length]?) stored.named
  simpa [next] using named

/-- A step that exchanges nothing may bring a request into the queue. -/
theorem Stored.grow (stored : Stored clients live sent outs order lines s) {system : System}
    {sent' more : List (ℕ × Request)} (later : Coherent clients (mapOf live) sent' outs (order ++ more) system)
    (lined : ∀ x ∈ sent', ∃ line : LineRequest, x.2 = line.request)
    (relay : s.storing ≠ none → system.relay = s.system.relay ∨ system.relay = s.system.relay.wake) :
    ∃ lines', Stored clients live sent' outs (order ++ more) (lines ++ lines') { s with system } := by
  obtain ⟨lines', named⟩ :=
    exists_lines fun x member => lined x (later.mem_sent (List.mem_append_right order member))
  have same : served (mapOf live) outs (order ++ more) = served (mapOf live) outs order :=
    served_queued stored.coherent.enough
  have now : liveNow live outs (order ++ more) (lines ++ lines') = liveNow live outs order lines :=
    liveNow_queued stored.coherent.enough stored.enough
  refine ⟨lines', later, lined, ?_, ?_, ?_, ?_⟩
  · rw [List.map_append, List.map_append, stored.named, named]
  · rw [now, same]
    exact stored.table
  · rw [now]
    exact stored.distinct
  · rw [now]
    refine ⟨stored.file.idle, stored.file.behind, fun pending => ?_⟩
    obtain ⟨pduReceive, pc, busy⟩ := stored.file.relay pending
    rw [busy] at relay
    exact ⟨pduReceive, pc, (relay pending).elim id id⟩

/-- The exchange of a request: the file is one request behind the table. -/
theorem Stored.exchange (stored : Stored clients live sent outs order lines s) {o : Outcomes} (usual : Usual o)
    (stepped : s.exchange o = some s') : Stored clients live sent (outs ++ [o]) order lines s' := by
  obtain ⟨system, files, storing⟩ := s
  obtain ⟨toServer, toClient, sender, link, relay⟩ := system
  cases relay with
  | testing | falling | waiting | removing | broadcasting => cases stepped
  | holding pduSend =>
    obtain ⟨⟨link', pduReceive⟩, exchanged, same⟩ := Option.bind_eq_some_iff.mp stepped
    cases same
    have coherent := stored.coherent
    obtain ⟨cells, taken, -, inHand⟩ := coherent.queue
    obtain ⟨-, ⟨client, request⟩, next, rfl⟩ := inHand
    have later : Coherent clients (mapOf live) sent (outs ++ [o]) order
        ⟨toServer, toClient, sender, link', .broadcasting pduReceive .start⟩ :=
      coherent.exchange usual (by simp [System.exchange, exchanged])
    have idle : storing = none := by
      by_contra pending
      obtain ⟨pduReceive, pc, impossible⟩ := stored.file.relay pending
      cases impossible
    subst idle
    obtain ⟨line, nextLine, rfl⟩ := stored.next_line next
    obtain ⟨link'', exchanged', -⟩ := exchange_request usual coherent.serves line.request line.request.opCode [0]
    cases exchanged.symm.trans exchanged'
    have now : liveNow live (outs ++ [o]) order lines = liveStep (liveNow live outs order lines) line
        (mapStep o (mapOf (liveNow live outs order lines)) line.request).2 := by
      rw [stored.table]
      exact liveNow_exchange coherent.enough next nextLine o
    obtain ⟨table, distinct⟩ := liveStep_follows o line stored.distinct
    refine ⟨later, stored.lined, stored.named, ?_, ?_, ?_⟩
    · rw [now, table, served_exchange next, stored.table]
    · rw [now]
      exact distinct
    · refine ⟨fun impossible => ?_, fun pduSend pduReceive same => ?_, fun _ => ⟨_, _, rfl⟩⟩
      · cases impossible
      cases same
      rw [← stored.table]
      exact ⟨_, line, _, _, _, _, _, stored.file.idle rfl, now, answer_terminated line.request, rfl, rfl⟩

/-- Each step of the system with its file. -/
theorem Stored.step (stored : Stored clients live sent outs order lines s) {e : StoredEvent}
    (plain : ∀ e' ∈ systemEvents [e], Plain e') (lined : ∀ e' ∈ systemEvents [e], Lined e')
    (stepped : storedStep clients s e = some s') : ∃ more lines', Stored clients live
      (sent ++ calls (systemEvents [e])) (outs ++ outcomes (systemEvents [e])) (order ++ more)
      (lines ++ lines') s' := by
  cases e with
  | storeData =>
    have pending : s.storing ≠ none := fun idle => by simp [storedStep, StoredSystem.storeData, idle] at stepped
    obtain ⟨s'', stored', system, -, holds⟩ := stored.file.storeData pending
    cases stepped.symm.trans stored'
    refine ⟨[], [], ?_⟩
    change Stored clients live (sent ++ []) (outs ++ []) (order ++ []) (lines ++ []) s'
    rw [List.append_nil, List.append_nil, List.append_nil, List.append_nil]
    exact ⟨system ▸ stored.coherent, stored.lined, stored.named, stored.table, stored.distinct, holds⟩
  | system e =>
    change ∃ more lines', Stored clients live (sent ++ calls [e]) (outs ++ outcomes [e]) (order ++ more)
      (lines ++ lines') s'
    replace plain : Plain e := plain e List.mem_cons_self
    replace lined : Lined e := lined e List.mem_cons_self
    have named : ∀ x ∈ sent ++ calls [e], ∃ line : LineRequest, x.2 = line.request := by
      refine List.forall_mem_append.mpr ⟨stored.lined, fun x member => ?_⟩
      cases e with
      | clientSend sock call =>
        obtain rfl := List.mem_singleton.mp member
        exact lined
      | _ => cases member
    -- a step of another thread, or of kernel_communication while no answer is waiting for store_data
    have other (quiet : outcomes [e] = []) {system : System} (taken : systemStep clients s.system e = some system)
        (relay : s.storing ≠ none → system.relay = s.system.relay ∨ system.relay = s.system.relay.wake)
        (same : s' = { s with system }) :
        ∃ more lines', Stored clients live (sent ++ calls [e]) (outs ++ outcomes [e]) (order ++ more)
          (lines ++ lines') s' := by
      obtain ⟨more, later⟩ := stored.coherent.step plain taken
      rw [quiet, List.append_nil] at later ⊢
      obtain ⟨lines', grown⟩ := stored.grow later named relay
      exact ⟨more, lines', same ▸ grown⟩
    cases e with
    | exchange o =>
      refine ⟨[], [], ?_⟩
      simpa only [calls, outcomes, List.append_nil] using stored.exchange plain stepped
    | broadcast =>
      simp only [storedStep, Option.ite_none_left_eq_some] at stepped
      obtain ⟨idle, stepped⟩ := stepped
      obtain ⟨system, taken, same⟩ := Option.map_eq_some_iff.mp stepped
      exact other rfl taken (fun pending => absurd (Option.isSome_iff_ne_none.mpr pending) idle) same.symm
    | clientSend sock call =>
      obtain ⟨system, taken, same⟩ := Option.map_eq_some_iff.mp stepped
      obtain ⟨-, sends⟩ := Option.ite_none_right_eq_some.mp taken
      exact other rfl taken (fun _ => .inl (clientSend_frame sends).1) same.symm
    | clientListener sock script node pdu =>
      obtain ⟨system, taken, same⟩ := Option.map_eq_some_iff.mp stepped
      exact other rfl taken (fun _ => .inr (clientListener_frame taken).1) same.symm
    | isEmpty =>
      obtain ⟨system, taken, same⟩ := Option.map_eq_some_iff.mp stepped
      refine other rfl taken (fun pending => ?_) same.symm
      obtain ⟨pduReceive, pc, busy⟩ := stored.file.relay pending
      cases busy.symm.trans (isEmpty_cases taken).1
    | condWait =>
      obtain ⟨system, taken, same⟩ := Option.map_eq_some_iff.mp stepped
      refine other rfl taken (fun pending => ?_) same.symm
      obtain ⟨pduReceive, pc, busy⟩ := stored.file.relay pending
      cases busy.symm.trans (condWait_cases taken).1
    | removefirst =>
      obtain ⟨system, taken, same⟩ := Option.map_eq_some_iff.mp stepped
      refine other rfl taken (fun pending => ?_) same.symm
      obtain ⟨pduReceive, pc, busy⟩ := stored.file.relay pending
      cases busy.symm.trans (removefirst_cases taken).1
    | clientListen sock script =>
      obtain ⟨system, taken, same⟩ := Option.map_eq_some_iff.mp stepped
      refine other rfl taken (fun _ => ?_) same.symm
      obtain ⟨-, hears⟩ := Option.ite_none_left_eq_some.mp taken
      obtain ⟨client, -, moved⟩ := Option.bind_eq_some_iff.mp hears
      cases moved
      exact .inl rfl

theorem stored_run {store : StoreState} (lockstep : Lockstep store live) (free : KickFreeMap (mapOf live))
    {events : List StoredEvent} (plain : ∀ e ∈ systemEvents events, Plain e ∧ Lined e)
    (ran : run (storedStep clients) (.start store) events = some s) : ∃ order lines,
      Stored clients live (calls (systemEvents events)) (outcomes (systemEvents events)) order lines s := by
  have start : ∃ lines, Stored clients live (calls (systemEvents [])) (outcomes (systemEvents [])) [] lines
      (.start store) := ⟨[], stored_start clients lockstep free⟩
  have each : ∀ e ∈ events, ∀ e' ∈ systemEvents [e], Plain e' ∧ Lined e' := by
    intro e member e' inside
    refine plain e' (List.mem_filterMap.mpr ⟨e, member, ?_⟩)
    obtain ⟨e'', single, same⟩ := List.mem_filterMap.mp inside
    exact List.mem_singleton.mp single ▸ same
  refine run_records (I := fun done order s => ∃ lines,
    Stored clients live (calls (systemEvents done)) (outcomes (systemEvents done)) order lines s)
    (fun done order s e s' plain stored stepped => ?_) start each ran
  obtain ⟨lines, stored⟩ := stored
  obtain ⟨more, lines', later⟩ := stored.step (fun e' member => (plain e' member).1)
    (fun e' member => (plain e' member).2) stepped
  refine ⟨more, lines ++ lines', ?_⟩
  rw [systemEvents, List.filterMap_append, calls_append, outcomes_append]
  exact later

end Steps

/-- In every interleaving there is one order of the requests that explains the table, the answers and the file:
whenever no call of `store_data` is due, the table and the file hold exactly the entries that the served requests
have left; and a call that is due goes through and makes it so. -/
theorem file_in_one_order {clients : Clients} {store : StoreState} {live : List Entry}
    (lockstep : Lockstep store live) (free : KickFreeMap (mapOf live)) {events : List StoredEvent}
    {s : StoredSystem} (plain : ∀ e ∈ systemEvents events, Plain e ∧ Lined e)
    (ran : run (storedStep clients) (.start store) events = some s) :
    ∃ order lines, Explains clients (mapOf live) (systemEvents events) s.system order ∧
      lines.map LineRequest.request = order.map Prod.snd ∧
      (s.storing = none → Lockstep s.store (liveNow live (outcomes (systemEvents events)) order lines)) ∧
      (s.storing ≠ none → ∃ s', storedStep clients s .storeData = some s' ∧ s'.storing = none ∧
        Lockstep s'.store (liveNow live (outcomes (systemEvents events)) order lines)) := by
  obtain ⟨order, lines, stored⟩ := stored_run lockstep free plain ran
  have serves := stored.coherent.serves
  rw [← stored.table] at serves
  refine ⟨order, lines, stored.coherent.explains, stored.named, fun idle => ?_, fun pending => ?_⟩
  · exact ⟨serves, stored.file.idle idle, stored.distinct⟩
  · obtain ⟨s', stepped, system, idle, holds⟩ := stored.file.storeData pending
    refine ⟨s', stepped, idle, ?_, holds.idle idle, stored.distinct⟩
    change Serves s'.system.link _
    rw [system]
    exact serves

private def storedEntry : Entry :=
  ⟨⟨⟨[107], by decide, by decide⟩, by decide, by decide, by decide⟩, ⟨[97], by decide, by decide, by decide⟩⟩

private def storedCall : ClientCall :=
  .insert storedEntry.key.toKey ⟨calloc KEY_SIZE, by decide⟩ storedEntry.text.value []

private def storedPdu : Pdu :=
  ⟨INSERT, storedCall.request.frame.length, .bytes (storedCall.request.frame ++ [0])⟩

/-- A client has asked. -/
private theorem asked_insert (store : StoreState) : ∃ toServer sender,
    run (storedStep oneClient) (.start store)
        [.system (.clientSend 5 storedCall), .system (.clientListener 5 [] 0 10), .system .isEmpty,
          .system .removefirst] =
      some ⟨⟨toServer, fun _ => .start [] [], sender, store.link, .holding storedPdu⟩, store.files, none⟩ :=
  ⟨_, _, rfl⟩

private def storedReply : Pdu := ⟨KERNEL, 34, .bytes (answerFrame 0 (answerText "Inserted object to rhashtable"))⟩

/-- The answer, and the table that is left. -/
private theorem exchange_stored : ∃ link,
    User.exchange (.smooth 0) (initialLink 0) storedPdu = some (link, storedReply) ∧
      Serves link (mapOf [storedEntry]) := by
  obtain ⟨link, exchanged, serves⟩ :=
    exchange_request (smooth_usual 0) (lockstep_start 0).serves storedCall.request INSERT [0]
  refine ⟨link, exchanged, ?_⟩
  have table := (@liveStep_follows [] (.smooth 0) (.insert storedEntry) List.nodup_nil).1
  rw [show (mapStep (.smooth 0) (mapOf []) (LineRequest.insert storedEntry).request).2 =
    answerText "Inserted object to rhashtable" from rfl, liveStep_insert (by decide)] at table
  exact (show mapOf [storedEntry] = _ from table) ▸ serves

/-- An INSERT is answered, and `store_data` writes its line. -/
theorem file_in_one_order_insert :
    let events : List StoredEvent := [.system (.clientSend 5 storedCall), .system (.clientListener 5 [] 0 10),
      .system .isEmpty, .system .removefirst] ++ [.system (.exchange (.smooth 0))]
    ∃ s s', run (storedStep oneClient) (.start (.start 0)) events = some s ∧ s.files.storeFile = [] ∧
      storedStep oneClient s .storeData = some s' ∧ s'.files.storeFile = storedEntry.line ∧
      Serves s'.system.link (mapOf [storedEntry]) ∧
      ∃ order lines, Lockstep s'.store (liveNow [] (outcomes (systemEvents events)) order lines) := by
  intro events
  have lockstep : Lockstep (.start 0) [] := lockstep_start 0
  have plain : ∀ e ∈ systemEvents events, Plain e ∧ Lined e := by
    intro e member
    change e ∈ [.clientSend 5 storedCall, .clientListener 5 [] 0 10, .isEmpty, .removefirst,
      .exchange (.smooth 0)] at member
    simp only [List.mem_cons, List.not_mem_nil, or_false] at member
    rcases member with rfl | rfl | rfl | rfl | rfl
    · exact ⟨show storedEntry.text.value.bytes.head? ≠ _ by decide, .insert storedEntry, rfl⟩
    · exact ⟨whole_nil, trivial⟩
    · exact ⟨trivial, trivial⟩
    · exact ⟨trivial, trivial⟩
    · exact ⟨smooth_usual 0, trivial⟩
  obtain ⟨toServer, sender, asked⟩ := asked_insert (.start 0)
  obtain ⟨link, exchanged, serves⟩ := exchange_stored
  have one : StoredSystem.exchange
      ⟨⟨toServer, fun _ => .start [] [], sender, initialLink 0, .holding storedPdu⟩, ⟨[], []⟩, none⟩ (.smooth 0) =
        some ⟨⟨toServer, fun _ => .start [] [], sender, link, .broadcasting storedReply .start⟩, ⟨[], []⟩,
          some (storedPdu, storedReply)⟩ := by
    simp only [StoredSystem.exchange, exchanged, Option.bind_eq_bind, Option.bind_some]
  have ran : run (storedStep oneClient) (.start (.start 0)) events = _ :=
    (run_append asked _).trans ((run_cons _ _ _ _).trans (congrArg (Option.bind · _) one))
  obtain ⟨files, written, file⟩ : ∃ files, Store.storeData ⟨[], []⟩ storedPdu storedReply = some files ∧
      files.storeFile = (liveStep [] (.insert storedEntry) (answerText "Inserted object to rhashtable")).flatMap
        Entry.line :=
    @storeData_follows [] ⟨[], []⟩ rfl (.insert storedEntry) _ (by decide) INSERT 0 _ 34
  obtain ⟨order, lines, -, -, -, due⟩ := file_in_one_order lockstep kickFreeMap_empty plain ran
  obtain ⟨s', stored, -, lockstep'⟩ := due (Option.some_ne_none _)
  have same : s' = ⟨⟨toServer, fun _ => .start [] [], sender, link, .broadcasting storedReply .start⟩,
      files, none⟩ := by
    refine Option.some.inj (stored.symm.trans ?_)
    simp only [storedStep, StoredSystem.storeData, written, Option.bind_eq_bind, Option.bind_some]
  refine ⟨_, s', ran, rfl, stored, ?_, ?_, order, lines, lockstep'⟩
  · rw [same, file, liveStep_insert (by decide)]
    rfl
  · rw [same]
    exact serves

end Operativsystem.Pipeline
