import Operativsystem.Client.Requests
import Operativsystem.Store.RequestMap
import Operativsystem.User.SenderList

/-! # The request pipeline refines a map

One request is outstanding at a time. It is built by the client, decoded by `client_listener`,
queued, copied, exchanged with the kernel module over payloads that keep the tails of earlier
messages, and its answer is decoded by the client. Each stage hands on exactly what the next one
needs, so a run of the pipeline is a run of the map machine.
-/

namespace Operativsystem.Pipeline

open Memory Resources Client User Kernel Store Segment LList Machine

/-- A request as the client makes it, with the memory behind the key and the value. -/
inductive ClientCall where
  | init
  | insert (key : Key) (memory : KeyArgument key.text) (value : Value) (behind : Bytes)
  | get (key : Key) (memory : KeyArgument key.text)
  | delete (key : Key) (memory : KeyArgument key.text)

def ClientCall.request : ClientCall → Request
  | .init => .init
  | .insert key _ value _ => .insert key value
  | .get key _ => .get key
  | .delete key _ => .delete key

def ClientCall.build : ClientCall → Option Pdu
  | .init => createInitToServer
  | .insert _ memory value behind =>
    createInsertToServer memory.memory (value.bytes ++ behind) value.bytes.length
  | .get _ memory => createGetToServer memory.memory
  | .delete _ memory => createDeleteToServer memory.memory

/-- A call and what its surroundings choose: the addresses of the list node and of the PDU, the
socket numbers, and the header byte that the kernel leaves unwritten. -/
structure Call where
  call : ClientCall
  node : Addr
  pdu : Addr
  serverSock : ℕ
  clientSock : ℕ
  unwritten : Byte

/-- The state between two requests. -/
structure State where
  toServer : Connection
  toClient : Connection
  senderList : LList Addr
  mem : Resources.Store
  link : Link

/-- `send` on a connection that takes the whole message. -/
def push (conn : Connection) (message : Bytes) : Connection :=
  { conn with pending := conn.pending ++ message }

/-- The PDU that the listener hands to the queue. -/
def listenerPdu (received : Received) : Option Pdu :=
  match clientListener received with
  | some (.insertlast pdu) => some pdu
  | _ => none

/-- The payload that the client finds in an answer. -/
def payload (received : Received) : Option Bytes :=
  match received with
  | .pdu ⟨_, dataBytes, .bytes data⟩ => some (data.take dataBytes)
  | _ => none

/-- One request through every stage, and the payload that answers it. -/
def pipelineStep (s : State) (c : Call) : Option (State × Bytes) := do
  let request ← c.call.build
  let sent ← sendPdu request
  let (received, toServer) ← receivePdu c.serverSock (push s.toServer sent)
  let queued ← listenerPdu received
  let senderList ← s.senderList.llistInsertlast c.node c.pdu
  let (senderList, mem, pduSend) ← senderList.llistRemovefirstPdu (s.mem.put c.pdu (.pdu queued))
  let (link, pduReceive) ← exchange (.smooth c.unwritten) s.link pduSend
  let answer ← sendPdu pduReceive
  let (reply, toClient) ← receivePdu c.clientSock (push s.toClient answer)
  let content ← payload reply
  some (⟨toServer, toClient, senderList, mem, link⟩, content)

/-- The abstract machine, in which every insertion of a fresh key succeeds. -/
def mapMachine (m : Bytes → Option Bytes) : Request → (Bytes → Option Bytes) × Bytes
  | .init => (m, answerText "Hashtable already initialized.")
  | .insert key value =>
    match m key.text with
    | some _ => (m, answerText "Error, duplicated key.")
    | none =>
      (Function.update m key.text (some value.bytes), answerText "Inserted object to rhashtable")
  | .get key =>
    match m key.text with
    | some value => (m, value)
    | none => (m, answerText "Error when getting object.")
  | .delete key =>
    match m key.text with
    | some _ =>
      (Function.update m key.text none, answerText "Successful deleting object from rhashtable.")
    | none => (m, answerText "Error when getting object.")

theorem mapStep_smooth (unwritten : Byte) (m : Bytes → Option Bytes) (request : Request) :
    mapStep (.smooth unwritten) m request = mapMachine m request := by
  cases request <;> rfl

/-- Between two requests nothing is in flight and the module holds the table of the map. -/
structure Ready (s : State) (m : Bytes → Option Bytes) : Prop where
  toServer : s.toServer = ⟨[], []⟩
  toClient : s.toClient = ⟨[], []⟩
  senderList : Represents s.senderList []
  serves : Serves s.link m

/-- The frame of a request is well formed and decoded to a PDU that holds it whole. -/
theorem frame_of_request (request : Request) : ∃ frame : Frame, frame.encode = request.frame ∧
    ∀ sock, frame.pdu sock = ⟨request.opCode, request.frame.length, .bytes request.frame⟩ := by
  cases request with
  | init => exact ⟨.init 0 0 0, rfl, fun _ => rfl⟩
  | insert key value =>
    have fits := value.fits
    exact ⟨.insert 0 (padded KEY_SIZE key.text) value.bytes (padded_length key.fits.le) (by
      simp only [MAX_PAYLOAD] at fits
      omega), rfl, fun _ => rfl⟩
  | get key => exact ⟨.get 0 0 0 (padded KEY_SIZE key.text) (padded_length key.fits.le), rfl, fun _ => rfl⟩
  | delete key =>
    exact ⟨.delete 0 0 0 (padded KEY_SIZE key.text) (padded_length key.fits.le), rfl, fun _ => rfl⟩

theorem build_eq (call : ClientCall) : call.build =
    some ⟨USER, call.request.frame.length, .bytes call.request.frame⟩ := by
  cases call with
  | init => exact createInitToServer_eq
  | insert key memory value behind =>
    have fits := value.fits
    have small : value.bytes.length + HEADERSIZE + KEY_SIZE < 65536 := by
      simp only [MAX_PAYLOAD] at fits
      omega
    have built := createInsertToServer_eq memory key.clean key.fits value.bytes behind
    rw [u16_of_lt small, ← insertFrame_length key.fits.le] at built
    exact built
  | get key memory =>
    have size : (keyFrame GET key.text).length = HEADERSIZE + KEY_SIZE := keyFrame_length key.fits.le
    exact (createGetToServer_eq memory key.clean key.fits).trans (by rw [← size]; rfl)
  | delete key memory =>
    have size : (keyFrame DELETE key.text).length = HEADERSIZE + KEY_SIZE := keyFrame_length key.fits.le
    exact (createDeleteToServer_eq memory key.clean key.fits).trans (by rw [← size]; rfl)

theorem sendPdu_whole (opCode : Byte) (content : Bytes) :
    sendPdu ⟨opCode, content.length, .bytes content⟩ = some content := by
  simp [sendPdu]

/-- The client's call arrives as a PDU that holds its frame. -/
theorem request_arrives (call : ClientCall) (sock : ℕ) :
    receivePdu sock ⟨call.request.frame, []⟩ =
        some (.pdu ⟨call.request.opCode, call.request.frame.length, .bytes call.request.frame⟩,
          ⟨[], []⟩) := by
  obtain ⟨frame, encoded, decoded⟩ := frame_of_request call.request
  have arrived := receivePdu_frame sock frame []
  rwa [List.append_nil, encoded, decoded] at arrived

/-- The answer arrives at the client as its content. -/
theorem answer_arrives (sock : ℕ) (unwritten : Byte) {content : Bytes}
    (short : content.length + HEADERSIZE ≤ MAX_PAYLOAD) :
    ∃ reply, receivePdu sock ⟨answerFrame unwritten content, []⟩ = some (reply, ⟨[], []⟩) ∧
      payload reply = some content := by
  have fits : content.length + HEADERSIZE < 65536 := by
    simp only [MAX_PAYLOAD] at short
    omega
  have arrived := receivePdu_frame sock (.kernel unwritten content fits) []
  rw [List.append_nil] at arrived
  exact ⟨_, arrived, by simp [payload, Frame.pdu]⟩

/-- The queue passes a request on as a copy with one byte more. -/
theorem queue_passes {l : LList Addr} (empty : Represents l []) (mem : Resources.Store) (node d : Addr)
    (opCode : Byte) (content : Bytes) :
    ∃ l₁ l₂ mem', l.llistInsertlast node d = some l₁ ∧
      l₁.llistRemovefirstPdu (mem.put d (.pdu ⟨opCode, content.length, .bytes content⟩)) =
        some (l₂, mem', ⟨opCode, content.length, .bytes (content ++ [0])⟩) ∧ Represents l₂ [] := by
  have fresh : l.heap node = none := by
    by_contra used
    simpa using empty.only node used
  obtain ⟨l₁, inserted, rep⟩ := llistInsertlast_spec empty fresh d
  obtain ⟨l₂, empty', -, -, -, taken⟩ := removefirst_specs rep
  refine ⟨l₁, l₂, (mem.put d (.pdu ⟨opCode, content.length, .bytes content⟩)).free d, inserted, ?_, empty'⟩
  rw [taken]
  simp [Store.put, Store.readPdu, copyPdu]

theorem listenerPdu_request (request : Request) (dataBytes : ℕ) (data : PduData) :
    listenerPdu (.pdu ⟨request.opCode, dataBytes, data⟩) = some ⟨request.opCode, dataBytes, data⟩ := by
  cases request <;> rfl

theorem smooth_usual (unwritten : Byte) : Usual (.smooth unwritten) := ⟨rfl, rfl, rfl, rfl⟩

/-- One request does what the map machine does, and leaves the pipeline ready. -/
theorem pipelineStep_refines {s : State} {m : Bytes → Option Bytes} (ready : Ready s m) (c : Call) :
    ∃ s', pipelineStep s c = some (s', (mapMachine m c.call.request).2) ∧
      Ready s' (mapMachine m c.call.request).1 := by
  obtain ⟨toServer, toClient, senderList, mem, link⟩ := s
  obtain ⟨rfl, rfl, empty, serves⟩ := ready
  have sent := sendPdu_whole USER c.call.request.frame
  have arrived := request_arrives c.call c.serverSock
  obtain ⟨l₁, l₂, mem', inserted, taken, empty'⟩ :=
    queue_passes empty mem c.node c.pdu c.call.request.opCode c.call.request.frame
  obtain ⟨link', exchanged, serves'⟩ := exchange_request (smooth_usual c.unwritten) serves
    c.call.request c.call.request.opCode [0]
  have short := serves.short.answer (o := .smooth c.unwritten) c.call.request
  rw [mapStep_smooth] at exchanged serves' short
  have answered : sendPdu ⟨KERNEL, (mapMachine m c.call.request).2.length + HEADERSIZE,
      .bytes (answerFrame c.unwritten (mapMachine m c.call.request).2)⟩ =
        some (answerFrame c.unwritten (mapMachine m c.call.request).2) := by
    rw [← answerFrame_length c.unwritten, sendPdu_whole]
  obtain ⟨reply, replied, content⟩ := answer_arrives c.clientSock c.unwritten short
  refine ⟨⟨⟨[], []⟩, ⟨[], []⟩, l₂, mem', link'⟩, ?_, rfl, rfl, empty', serves'⟩
  simp only [pipelineStep, build_eq, sent, push, List.nil_append, arrived, listenerPdu_request,
    inserted, taken, exchanged, Outcomes.smooth_unwritten, answered, replied, content, Option.bind_eq_bind,
    Option.bind_some]

/-- For every sequence of requests, the payloads that the client decodes and the table that is left
are those of the map machine, whatever the payloads of the messages and the memory behind the keys
hold. -/
theorem pipeline_refines_map {s : State} {m : Bytes → Option Bytes} (ready : Ready s m)
    (calls : List Call) :
    let spec := respond mapMachine m (calls.map (·.call.request))
    ∃ s', trace pipelineStep s calls = some (s', spec.2) ∧ Ready s' spec.1 :=
  trace_refines (R := Ready) (·.call.request) (fun _ _ c ready => pipelineStep_refines ready c) ready
    calls

/-- The integer test of the client, right after `init_hashtable`: four bytes are stored and read. -/
theorem pipeline_refines_map_integer :
    let key : Key := ⟨ascii "key1", by decide, by decide⟩
    let memory : KeyArgument key.text := ⟨calloc KEY_SIZE, by decide⟩
    let value : Value := ⟨[0, 4, 0, 0], by decide, by decide⟩
    ∃ s s', Ready s (fun _ => none) ∧
      trace pipelineStep s [⟨.insert key memory value [], 0, 1, 7, 3, 0⟩, ⟨.get key memory, 0, 1, 7, 3, 0⟩] =
        some (s', [answerText "Inserted object to rhashtable", [0, 4, 0, 0]]) := by
  intro key memory value
  obtain ⟨link, -, serves⟩ := initHashtable_serves 0
  have ready : Ready ⟨⟨[], []⟩, ⟨[], []⟩, llistEmpty, fun _ => none, link⟩ fun _ => none :=
    ⟨rfl, rfl, represents_empty, serves⟩
  obtain ⟨s', ran, -⟩ := pipeline_refines_map ready
    [⟨.insert key memory value [], 0, 1, 7, 3, 0⟩, ⟨.get key memory, 0, 1, 7, 3, 0⟩]
  exact ⟨_, s', ready, ran⟩

end Operativsystem.Pipeline
