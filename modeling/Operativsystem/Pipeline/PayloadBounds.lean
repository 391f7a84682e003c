import Operativsystem.Store.KeyRestart
import Operativsystem.User.Listener

/-! # What is copied into the payload

The payload of a netlink message has 1024 bytes, and nothing compares a length with it. Three producers can
exceed it: a line of the store file, a KERNEL frame, whose header may announce any length, and an INSERT
frame with a value of more than 956 bytes. The bound holds exactly if none of these is met.
-/

namespace Operativsystem.Pipeline

open Memory Resources Machine User Store LList Segment

/-- `memcpy(NLMSG_DATA(nlh_user_send), pdu->data, pdu->data_bytes)` stays within both buffers. -/
def CopyBounded (pdu : Pdu) : Prop :=
  ∃ src, pdu.data = .bytes src ∧ pdu.dataBytes ≤ MAX_PAYLOAD ∧ pdu.dataBytes ≤ src.length

/-- The PDUs that `load_stored_values` makes of the lines of a file. -/
def LoaderBounded (storeFile : Bytes) : Prop :=
  ∀ line ∈ lines storeFile, ∀ pdu, loadPdu line = some (some pdu) → CopyBounded pdu

/-- Every line with a colon has a value whose frame, in sixteen bits, is no longer than the payload. -/
def LinesFit (storeFile : Bytes) : Prop :=
  ∀ line ∈ lines storeFile, colon ∈ cstr (line ++ [0]) →
    valueField line = [] ∨ u16 ((valueField line).length + 1 + HEADERSIZE + KEY_SIZE) ≤ MAX_PAYLOAD

/-- The events append what the listeners of the clients append, each in its own order. -/
def Appended (clients : ℕ → Bytes × List RecvChoice) (events : List SenderEvent) : Prop :=
  ∀ client, ∃ calls l, run (listen client) (.start (clients client).1 (clients client).2) calls = some l ∧
    l.deeds.filterMap Deed.inserted = (sentBy client events).map QueuedPdu.pdu

/-- In every interleaving, every PDU that `kernel_communication` takes is copied within the bounds. -/
def KernelBounded (clients : ℕ → Bytes × List RecvChoice) : Prop :=
  ∀ events s, Appended clients events → run senderStep .start events = some s →
    ∀ pduSend ∈ s.taken, CopyBounded pduSend

/-- If the thread is about to decode a KERNEL or an INSERT frame, the header that its reader has read announces
no more than the payload holds. -/
def HeaderFits (l : Listener) (_ : Unit) : Prop :=
  l.listening = .looping → ∀ r script header mid, Heard l.conn r → peekFull l.conn.script = some script →
    readInto r.asked r.peek (calloc r.asked) ⟨l.conn.pending, script⟩ = some (header, mid) →
      (l.conn.pending.head? = some KERNEL → announced header ≤ MAX_PAYLOAD) ∧
        (l.conn.pending.head? = some INSERT → u16 (announced header + HEADERSIZE + KEY_SIZE) ≤ MAX_PAYLOAD)

section Loader

variable {storeFile : Bytes}

/-- The copy into the payload is defined exactly if it stays within both buffers. -/
theorem copyBounded_iff {pdu : Pdu} (payload : Payload) :
    CopyBounded pdu ↔ ∃ src, pdu.data = .bytes src ∧ (payload.memcpy src pdu.dataBytes).isSome := by
  refine exists_congr fun src => and_congr_right fun _ => ⟨?_, fun copies => ?_⟩
  · rintro ⟨fits, source⟩
    have own : (src.take pdu.dataBytes).length = pdu.dataBytes := List.length_take_of_le source
    have copied := payload.memcpy_eq (src.drop pdu.dataBytes) (own.trans_le fits)
    simp only [List.take_append_drop, own] at copied
    exact Option.isSome_of_eq_some copied
  · obtain ⟨payload', copied⟩ := Option.isSome_iff_exists.mp copies
    obtain ⟨source, fits, -⟩ := payload.memcpy_some copied
    exact ⟨fits, source⟩

theorem loadedValue_small (line : Bytes) :
    u16 ((loadedValue line).length + HEADERSIZE + KEY_SIZE) ≤ MAX_PAYLOAD ↔
      valueField line = [] ∨ u16 ((valueField line).length + 1 + HEADERSIZE + KEY_SIZE) ≤ MAX_PAYLOAD := by
  rw [loadedValue_length, valueLength]
  split_ifs with empty
  · exact iff_of_true (by decide) (.inl empty)
  · rw [or_iff_right empty]
    simp only [u16]
    omega

/-- The loader copies within the bounds exactly if all its lines fit. -/
theorem loaderBounded_iff : LoaderBounded storeFile ↔ LinesFit storeFile := by
  refine forall₂_congr fun line _ => ?_
  rw [loadPdu_eq, ← loadedValue_small]
  split_ifs with matched
  · have source : u16 ((loadedValue line).length + HEADERSIZE + KEY_SIZE) ≤
        (insertFrame ((keyField line).take KEY_SIZE) (loadedValue line)).length := by
      rw [insertFrame_length (List.length_take_le ..)]
      exact Nat.mod_le ..
    simp only [Option.some.injEq, forall_eq', matched, forall_const, CopyBounded]
    constructor
    · rintro ⟨-, -, bound, -⟩
      exact bound
    · intro bound
      exact ⟨_, rfl, bound, source⟩
  · simp [matched]

end Loader

section Listeners

variable {sock : ℕ} {l l' t : Listener} {calls : List Unit} {opCode : Byte} {r : Reader}

/-- The length of a request comes from its header if it is a KERNEL or an INSERT frame. -/
theorem reader_bounded (found : readerOf opCode = some r) (quit : opCode ≠ QUIT) (join : opCode ≠ JOIN)
    (header body : Bytes) :
    (r.pdu sock header body).dataBytes ≤ MAX_PAYLOAD ↔ (opCode = KERNEL → announced header ≤ MAX_PAYLOAD) ∧
      (opCode = INSERT → u16 (announced header + HEADERSIZE + KEY_SIZE) ≤ MAX_PAYLOAD) := by
  rw [readerOf] at found
  split_ifs at found with init insert get delete kernel <;> cases found
  · simp [initReader, init, INIT, KERNEL, INSERT, HEADERSIZE, MAX_PAYLOAD]
  · simp [insertReader, insert, KERNEL, INSERT]
  · simp [keyReader, get, GET, KERNEL, INSERT, HEADERSIZE, KEY_SIZE, MAX_PAYLOAD]
  · simp [keyReader, delete, DELETE, KERNEL, INSERT, HEADERSIZE, KEY_SIZE, MAX_PAYLOAD]
  · simp [kernelReader, kernel, KERNEL, INSERT]

/-- All PDUs that the thread has appended fit the payload. -/
def InsertsFit (l : Listener) : Prop := ∀ pdu ∈ l.deeds.filterMap Deed.inserted, pdu.dataBytes ≤ MAX_PAYLOAD

/-- What a turn of the loop appends of a PDU. -/
theorem inserted_looping (value : Pdu) (front : Bytes) (pdu : Pdu) :
    Deed.inserted ⟨(actOn .looping (.pdu value)).1, front, .pdu value⟩ = some pdu ↔
      value.opCode ≠ QUIT ∧ value.opCode ≠ JOIN ∧ value = pdu := by
  simp only [Deed.inserted, actOn]
  split_ifs with quit join <;> simp [*]

/-- Of the PDUs of a reader the thread appends only those that fit exactly if the header fits. -/
theorem appended_bounded (found : readerOf opCode = some r) (front header body : Bytes) :
    (∀ pdu, Deed.inserted ⟨(actOn .looping (.pdu (r.pdu sock header body))).1, front,
      .pdu (r.pdu sock header body)⟩ = some pdu → pdu.dataBytes ≤ MAX_PAYLOAD) ↔
        (opCode = KERNEL → announced header ≤ MAX_PAYLOAD) ∧
          (opCode = INSERT → u16 (announced header + HEADERSIZE + KEY_SIZE) ≤ MAX_PAYLOAD) := by
  simp only [inserted_looping, readerOf_opCode found]
  by_cases quit : opCode = QUIT
  · simp [quit, QUIT, KERNEL, INSERT]
  by_cases join : opCode = JOIN
  · simp [join, JOIN, KERNEL, INSERT]
  rw [← @reader_bounded sock _ _ found quit join header body]
  constructor
  · intro bound
    exact bound _ ⟨quit, join, rfl⟩
  · rintro bound pdu ⟨-, -, rfl⟩
    exact bound

/-- The header of the frame that comes next is the one that its reader reads. -/
theorem headerFits_heard {script : List RecvChoice} {header : Bytes} {mid : Connection} {call : Unit}
    (place : l.listening = .looping) (heard : Heard l.conn r) (peeked : peekFull l.conn.script = some script)
    (first : readInto r.asked r.peek (calloc r.asked) ⟨l.conn.pending, script⟩ = some (header, mid)) :
    HeaderFits l call ↔ (l.conn.pending.head? = some KERNEL → announced header ≤ MAX_PAYLOAD) ∧
      (l.conn.pending.head? = some INSERT → u16 (announced header + HEADERSIZE + KEY_SIZE) ≤ MAX_PAYLOAD) := by
  constructor
  · intro fits
    exact fits place r script header mid heard peeked first
  · intro fits _ r' script' header' mid' heard' peeked' first'
    cases heard.2.2.symm.trans heard'.2.2
    cases peeked.symm.trans peeked'
    cases first.symm.trans first'
    exact fits

/-- A turn appends a PDU that fits exactly if the header that it reads fits. -/
theorem insertsFit_step (l : Listener) (call : Unit) (l' : Listener) (stepped : listen sock l call = some l') :
    InsertsFit l' ↔ InsertsFit l ∧ HeaderFits l call := by
  obtain ⟨going, result, conn, received, rfl⟩ := listen_cases stepped
  have grown : InsertsFit (l.act result conn) ↔ InsertsFit l ∧
      ∀ pdu, Deed.inserted ⟨(actOn l.listening result).1, l.conn.pending, result⟩ = some pdu →
        pdu.dataBytes ≤ MAX_PAYLOAD := by
    simp [InsertsFit, Listener.act, or_imp, forall_and]
  rw [grown]
  refine and_congr_right fun _ => ?_
  by_cases place : l.listening = .looping
  · rcases receivePdu_receives received with ⟨r, script, header, body, heard, peeked, ran, rfl⟩ |
      ⟨empty, -, -, rfl⟩ | ⟨-, -, unheard, rfl⟩
    · obtain ⟨header', mid, body', first, -, same⟩ := r.run_pdu ran
      obtain ⟨opCode, head, found⟩ := Option.bind_eq_some_iff.mp heard.2.2
      rw [headerFits_heard place heard peeked first, place, head, same]
      simp only [Option.some.injEq]
      exact appended_bounded found _ header' body'
    · refine iff_of_true (fun pdu inserted => by simp [Deed.inserted] at inserted) fun _ r _ _ _ heard => ?_
      simp [Heard, empty] at heard
    · exact iff_of_true (fun pdu inserted => by simp [Deed.inserted] at inserted)
        fun _ r _ _ _ heard => absurd heard (unheard r)
  · exact iff_of_true (fun pdu inserted => absurd (inserted_act inserted going).1 place)
      fun looping => absurd looping place

/-- What a thread appends has the data that it announces. -/
theorem inserted_queued {stream : Bytes} {script : List RecvChoice}
    (ran : run (listen sock) (.start stream script) calls = some l) :
    ∃ qs : List QueuedPdu, l.deeds.filterMap Deed.inserted = qs.map QueuedPdu.pdu := by
  refine @run_invariant _ _ (listen sock)
    (fun l => ∃ qs : List QueuedPdu, l.deeds.filterMap Deed.inserted = qs.map QueuedPdu.pdu) ?_ _ _ _
      ⟨[], rfl⟩ ran
  rintro l call l' ⟨qs, queued⟩ stepped
  obtain ⟨going, result, conn, received, rfl⟩ := listen_cases stepped
  rw [Listener.act, List.filterMap_append, queued]
  cases inserted : Deed.inserted ⟨(actOn l.listening result).1, l.conn.pending, result⟩ with
  | none => exact ⟨qs, by simp [inserted]⟩
  | some pdu =>
    obtain ⟨-, rfl, quit, join⟩ := inserted_act inserted going
    have appended : clientListener (.pdu pdu) = some (.insertlast pdu) :=
      actOn_insertlast.mpr ⟨rfl, by simp [actOn, quit, join]⟩
    obtain ⟨q, rfl⟩ := clientListener_insertlast received appended
    exact ⟨qs ++ [q], by simp [inserted]⟩

end Listeners

section Queue

variable {s s' : Sender} {events : List SenderEvent} {client : ℕ} {q : QueuedPdu} {qs : List QueuedPdu}

theorem copyPdu_dataBytes {copy : Pdu} (copied : copyPdu q.pdu = some copy) : copy.dataBytes = q.dataBytes ∧
    ∃ src, copy.data = .bytes src ∧ q.dataBytes ≤ src.length := by
  have made : copyPdu q.pdu = some ⟨q.opCode, q.dataBytes, .bytes (q.content.take q.dataBytes ++ [0])⟩ := by
    simp [copyPdu, QueuedPdu.pdu, q.room]
  cases made.symm.trans copied
  exact ⟨rfl, _, rfl, by simp [q.room]⟩

/-- The copy of a PDU is bounded exactly if its length is. -/
theorem copyBounded_copy {copy : Pdu} (copied : copyPdu q.pdu = some copy) :
    CopyBounded copy ↔ q.dataBytes ≤ MAX_PAYLOAD := by
  obtain ⟨same, src, data, source⟩ := copyPdu_dataBytes copied
  rw [CopyBounded, same]
  exact ⟨fun ⟨_, _, bound, _⟩ => bound, fun bound => ⟨src, data, bound, source⟩⟩

theorem mem_sentBy {node pdu : Addr} (member : SenderEvent.enqueue client node pdu q ∈ events) :
    q ∈ sentBy client events := by
  induction events with
  | nil => cases member
  | cons event events ih =>
    rcases List.mem_cons.mp member with rfl | later
    · simp [sentBy]
    · cases event with
      | dequeue => exact ih later
      | enqueue sender a d other =>
        rw [sentBy]
        split_ifs
        · exact List.mem_cons_of_mem _ (ih later)
        · exact ih later

/-- If the PDUs that are appended fit the payload, so do those that are taken. -/
theorem taken_bounded (ran : run senderStep .start events = some s)
    (fits : ∀ client, ∀ q ∈ sentBy client events, q.dataBytes ≤ MAX_PAYLOAD) :
    ∀ pduSend ∈ s.taken, CopyBounded pduSend := by
  have steps : Steps senderStep (fun _ event => ∀ client node pdu q, event = .enqueue client node pdu q →
      q.dataBytes ≤ MAX_PAYLOAD) .start events := by
    refine .of_forall fun event member _ client node pdu q same => fits client q ?_
    exact mem_sentBy (same ▸ member)
  suffices ∃ cells waiting, Holds s cells waiting ∧ (∀ q ∈ waiting, q.dataBytes ≤ MAX_PAYLOAD) ∧
      ∀ pduSend ∈ s.taken, CopyBounded pduSend by
    obtain ⟨_, _, -, -, bounded⟩ := this
    exact bounded
  refine @run_invariant_of_steps _ _ senderStep _ (fun s => ∃ cells waiting, Holds s cells waiting ∧
    (∀ q ∈ waiting, q.dataBytes ≤ MAX_PAYLOAD) ∧ ∀ pduSend ∈ s.taken, CopyBounded pduSend) ?_ _ _ _
      ⟨[], [], holds_start, by simp, by simp [Sender.start]⟩ steps ran
  · rintro s event s' small ⟨cells, waiting, holds, bound, bounded⟩ stepped
    cases event with
    | enqueue client node pdu q =>
      obtain ⟨holds', kept⟩ := holds.enqueue stepped
      refine ⟨_, _, holds', fun other member => ?_, kept ▸ bounded⟩
      rcases List.mem_append.mp member with early | single
      · exact bound other early
      · obtain rfl := List.mem_singleton.mp single
        exact small client node pdu other rfl
    | dequeue =>
      rcases holds.stored with _ | ⟨read, stored⟩
      · cases holds.dequeue_empty.symm.trans stepped
      · obtain ⟨_, copy, took, holds', taken, copied, -⟩ := holds.dequeue
        obtain rfl := Option.some.inj (took.symm.trans stepped)
        refine ⟨_, _, holds', fun other member => bound other (List.mem_cons_of_mem _ member), ?_⟩
        rw [taken]
        intro pduSend member
        rcases List.mem_append.mp member with early | single
        · exact bounded pduSend early
        · obtain rfl := List.mem_singleton.mp single
          exact (copyBounded_copy copied).mpr (bound _ List.mem_cons_self)

/-- An empty queue takes a PDU. -/
theorem enqueue_empty (holds : Holds s [] []) (client : ℕ) (node pdu : Addr) (q : QueuedPdu) :
    ∃ s', senderStep s (.enqueue client node pdu q) = some s' := by
  have unused : s.senderList.heap node = none := by
    by_contra used
    exact absurd (holds.rep.only node used) List.not_mem_nil
  have free : s.mem pdu = none := by
    by_contra used
    exact absurd (holds.owned pdu used) List.not_mem_nil
  obtain ⟨l', inserted, -⟩ := llistInsertlast_spec holds.rep unused pdu
  simp [senderStep, free, inserted]

/-- One client appends its PDUs, each of which is taken at once. -/
def alternating (client : ℕ) (qs : List QueuedPdu) : List SenderEvent :=
  qs.flatMap fun q => [.enqueue client 0 1 q, .dequeue]

theorem sentBy_alternating (client other : ℕ) (qs : List QueuedPdu) :
    sentBy other (alternating client qs) = if client = other then qs else [] := by
  induction qs with
  | nil => simp [alternating, sentBy]
  | cons q qs ih =>
    rw [alternating, List.flatMap_cons]
    simp only [List.cons_append, List.nil_append, sentBy]
    rw [← alternating, ih]
    split_ifs <;> rfl

/-- So all of them are copied. -/
theorem run_alternating (holds : Holds s [] []) (client : ℕ) (qs : List QueuedPdu) :
    ∃ s', run senderStep s (alternating client qs) = some s' ∧ Holds s' [] [] ∧ (∀ p ∈ s.taken, p ∈ s'.taken) ∧
      ∀ q ∈ qs, ∃ copy ∈ s'.taken, copyPdu q.pdu = some copy := by
  induction qs generalizing s with
  | nil => exact ⟨s, rfl, holds, fun _ member => member, by simp⟩
  | cons q qs ih =>
    obtain ⟨mid, enqueued⟩ := enqueue_empty holds client 0 1 q
    obtain ⟨held, kept⟩ := holds.enqueue enqueued
    obtain ⟨next, copy, dequeued, holds', taken, copied, -⟩ := held.dequeue
    obtain ⟨s', ran, holds'', later, copies⟩ := ih holds'
    refine ⟨s', ?_, holds'', fun p member => later p ?_, fun other member => ?_⟩
    · rw [alternating, List.flatMap_cons]
      simp only [List.cons_append, List.nil_append, run_cons, enqueued, dequeued, Option.bind_some]
      exact ran
    · rw [taken, kept]
      exact List.mem_append_left _ member
    · rcases List.mem_cons.mp member with rfl | member
      · exact ⟨copy, later copy (by simp [taken]), copied⟩
      · exact copies other member

variable {clients : ℕ → Bytes × List RecvChoice} {calls : List Unit} {l : Listener}

/-- If everything that is taken is bounded, so is everything that a listener appends. -/
theorem insertsFit_of_bounded (bounded : KernelBounded clients)
    (ran : run (listen client) (.start (clients client).1 (clients client).2) calls = some l) : InsertsFit l := by
  obtain ⟨qs, queued⟩ := inserted_queued ran
  obtain ⟨s, taking, -, -, copies⟩ := run_alternating holds_start client qs
  have appended : Appended clients (alternating client qs) := by
    intro other
    rw [sentBy_alternating]
    split_ifs with same
    · subst same
      exact ⟨calls, l, ran, queued⟩
    · exact ⟨[], _, rfl, rfl⟩
  rw [InsertsFit, queued]
  intro pdu member
  obtain ⟨q, sent, rfl⟩ := List.mem_map.mp member
  obtain ⟨copy, took, copied⟩ := copies q sent
  exact (copyBounded_copy copied).mp (bounded _ s appended taking copy took)

/-- The exchanges are bounded exactly if the threads read only headers that fit. -/
theorem kernelBounded_iff : KernelBounded clients ↔
    ∀ client calls l, run (listen client) (.start (clients client).1 (clients client).2) calls = some l →
      Steps (listen client) HeaderFits (.start (clients client).1 (clients client).2) calls := by
  have begun (stream : Bytes) (script : List RecvChoice) : InsertsFit (.start stream script) := by
    simp [InsertsFit, Listener.start]
  constructor
  · intro bounded client calls l ran
    exact (run_iff_steps insertsFit_step (begun _ _) ran).mp (insertsFit_of_bounded bounded ran)
  · intro fits events s appended taking
    refine taken_bounded taking fun client q member => ?_
    obtain ⟨calls, l, ran, sent⟩ := appended client
    have small := (run_iff_steps insertsFit_step (begun _ _) ran).mpr (fits client calls l ran)
    rw [InsertsFit, sent] at small
    exact small q.pdu (List.mem_map_of_mem member)

end Queue

/-- For every store file and all clients, what is copied into the payload stays within the payload and within its
source exactly if all lines fit and the threads read only headers that fit. -/
theorem payload_bounded (storeFile : Bytes) (clients : ℕ → Bytes × List RecvChoice) :
    (LoaderBounded storeFile ↔ LinesFit storeFile) ∧
      (KernelBounded clients ↔
        ∀ client calls l, run (listen client) (.start (clients client).1 (clients client).2) calls = some l →
          Steps (listen client) HeaderFits (.start (clients client).1 (clients client).2) calls) :=
  ⟨loaderBounded_iff, kernelBounded_iff⟩

/-- All clients send an empty JOIN and a request. -/
def requesting (request : Frame) (_ : ℕ) : Bytes × List RecvChoice :=
  ((Frame.join 0 [] (by decide)).encode ++ request.encode, [])

/-- A thread appends the request that comes after an empty JOIN. -/
theorem listen_requesting {sock : ℕ} {request : Frame} (quit : (request.pdu sock).opCode ≠ QUIT)
    (join : (request.pdu sock).opCode ≠ JOIN) : ∃ l,
      run (listen sock) (.start (requesting request sock).1 (requesting request sock).2) [(), ()] = some l ∧
        request.pdu sock ∈ l.deeds.filterMap Deed.inserted := by
  have first := receivePdu_frame sock (Frame.join 0 [] (by decide)) request.encode
  have second := receivePdu_frame sock request []
  rw [List.append_nil] at second
  obtain ⟨l, joined, looping, conn⟩ : ∃ l, listen sock (.start (requesting request sock).1 []) () = some l ∧
      l.listening = .looping ∧ l.conn = ⟨request.encode, []⟩ :=
    ⟨_, listen_receivePdu (l := .start (requesting request sock).1 []) nofun first, rfl, rfl⟩
  rw [← conn] at second
  refine ⟨l.act (.pdu (request.pdu sock)) ⟨[], []⟩, ?_, ?_⟩
  · rw [requesting] at joined ⊢
    rw [run_cons, joined, Option.bind_some, run_cons, listen_receivePdu (by simp [looping]) second]
    rfl
  · simp only [Listener.act, looping, List.filterMap_append, List.mem_append, List.mem_filterMap,
      List.mem_singleton, exists_eq_left]
    exact .inr ((inserted_looping _ _ _).mpr ⟨quit, join, rfl⟩)

theorem requesting_overrun {request : Frame} (quit : (request.pdu 0).opCode ≠ QUIT)
    (join : (request.pdu 0).opCode ≠ JOIN) (long : MAX_PAYLOAD < (request.pdu 0).dataBytes) :
    ¬KernelBounded (requesting request) := by
  intro bounded
  obtain ⟨l, ran, appended⟩ := listen_requesting quit join
  exact absurd (insertsFit_of_bounded bounded ran _ appended) (Nat.not_le.mpr long)

theorem not_mem_longText {c : Byte} (other : c ≠ 98) : c ∉ List.replicate 955 98 :=
  fun member => other (List.eq_of_mem_replicate member)

theorem longText_clean : 0 ∉ List.replicate 955 (98 : Byte) := not_mem_longText (by decide)

theorem longText_unbroken : newline ∉ List.replicate 955 (98 : Byte) := not_mem_longText (by decide)

theorem longText_fits : (List.replicate 955 (98 : Byte)).length + 1 + HEADERSIZE + KEY_SIZE ≤ MAX_PAYLOAD := by
  rw [List.length_replicate]
  decide

/-- An entry with the longest text that can be stored. -/
def longEntry : Entry :=
  ⟨⟨plainKey.toKey, plainKey.nonempty, plainKey_whole, plainKey.unbroken⟩,
    ⟨List.replicate 955 98, longText_clean, longText_unbroken, longText_fits⟩⟩

/-- An entry with the longest text comes back too long from the store file; a payload of 1025 bytes in a KERNEL
frame, and a value of 957 bytes in an INSERT frame, are copied beyond the end of the payload. -/
theorem payload_overrun :
    ¬LoaderBounded longEntry.line ∧
      ¬KernelBounded (requesting (.kernel 0 (calloc 1025) (by rw [calloc_length]; decide))) ∧
      ¬KernelBounded (requesting (.insert 0 (calloc KEY_SIZE) (calloc 957) (calloc_length _)
        (by rw [calloc_length]; decide))) := by
  refine ⟨fun bounded => ?_, requesting_overrun (by decide) (by decide) ?_,
    requesting_overrun (by decide) (by decide) ?_⟩
  · have whole : colon ∉ longEntry.text.text := not_mem_longText (by decide)
    have single : longEntry.line ∈ lines longEntry.line := by
      have split := Entry.lines_entries [longEntry]
      rw [List.flatMap_singleton] at split
      simp [split]
    obtain ⟨-, -, short, -⟩ := bounded longEntry.line single _ (loadPdu_line longEntry)
    rw [insertFrame_length longEntry.key.fits.le] at short
    rcases longEntry.loads_iff.mp short with absurd | short
    · exact whole absurd
    · have length : longEntry.text.text.length = 955 := List.length_replicate
      rw [length] at short
      exact absurd short (by decide)
  · rw [Frame.pdu, calloc_length]
    decide
  · simp only [Frame.pdu, Frame.encode, List.length_cons, List.length_append, calloc_length]
    decide

end Operativsystem.Pipeline
