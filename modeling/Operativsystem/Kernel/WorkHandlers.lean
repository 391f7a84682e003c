import Operativsystem.Kernel.NetlinkKernel
import Operativsystem.Library.Machine

/-! # Handlers and the variables they share

`work_handler` keeps what it works on in global variables: `nlh_kernel_receive`, `nlh_kernel_send`, `pid`,
`msg_size` and `skb_out`. The work queue has a worker on every processor, so two handlers can be on their way at
once, and each access of a global variable is a step of its own here. While no two handlers are under way the
globals are as good as local; a requester that waits for each answer makes sure of that.
-/

namespace Operativsystem.Kernel.Handlers

open Memory Resources Machine

/-- A request as it comes in: the process that sent it, its payload, and how the allocations of its handler
go. -/
structure Message where
  nlmsgPid : ℕ
  payload : Bytes
  outcomes : Outcomes

/-- What a handler does next, with its local variables. -/
inductive Pc where
  | setReceive
  | setSend
  | readExactly
  | toBuffer (response : Pdu)
  | setPid (response : Pdu) (responseBuffer : Bytes)
  | setSize (response : Pdu) (responseBuffer : Bytes)
  | new (responseBuffer : Bytes)
  | put (responseBuffer : Bytes)
  | copy (responseBuffer : Bytes)
  | unicast
  | done

structure Handler where
  message : Message
  pc : Pc

/-- What a `struct nlmsghdr *` points to: the message of a handler, or a buffer of `nlmsg_new`. -/
inductive Header where
  | request (handler : ℕ)
  | answer (skb : ℕ)

/-- The global variables, the payloads of the buffers that have not been given away, the handlers in the order
in which their requests came in, and what has been sent to which process. -/
structure State where
  kernel : KernelState
  nlhKernelReceive : Option ℕ
  nlhKernelSend : Option Header
  pid : ℕ
  msgSize : ℕ
  skbOut : Option ℕ
  skbs : List (Option Bytes)
  handlers : List Handler
  delivered : List (ℕ × Bytes)

def State.start (kernel : KernelState) : State := ⟨kernel, none, none, 0, 0, none, [], [], []⟩

def State.goto (s : State) (i : ℕ) (pc : Pc) : State :=
  { s with handlers := s.handlers.modify i fun h => { h with pc } }

/-- `nlh_kernel_send->nlmsg_pid`; `nlmsg_put` has left 0 in the header of an answer. -/
def State.sendPid (s : State) : Option ℕ :=
  match s.nlhKernelSend with
  | none => none
  | some (.request j) => (s.handlers[j]?).map fun h => h.message.nlmsgPid
  | some (.answer _) => some 0

/-- The payload of a buffer, while it has not been given away. -/
def State.skb (s : State) (skb : Option ℕ) : Option Bytes := (skb.bind fun n => s.skbs[n]?).join

/-- `memcpy(nlmsg_data(nlh_kernel_send), response_buffer, msg_size)`. -/
def State.copy (s : State) (responseBuffer : Bytes) : Option State :=
  match s.nlhKernelSend with
  | none => none
  | some (.request j) => do
    let h ← s.handlers[j]?
    let payload ← memcpy h.message.payload 0 responseBuffer s.msgSize
    some { s with handlers := s.handlers.set j { h with message := { h.message with payload } } }
  | some (.answer skb) => do
    let old ← s.skb (some skb)
    let payload ← memcpy old 0 responseBuffer s.msgSize
    some { s with skbs := s.skbs.set skb (some payload) }

/-- One step of `work_handler`. Without a response, or without a buffer for it, the handler returns. -/
def workHandlerStep (s : State) (i : ℕ) (h : Handler) : Option State :=
  match h.pc with
  | .setReceive => some ({ s with nlhKernelReceive := some i }.goto i .setSend)
  | .setSend => some ({ s with nlhKernelSend := some (.request i) }.goto i .readExactly)
  | .readExactly => do
    let receive ← s.nlhKernelReceive
    let request ← s.handlers[receive]?
    let (kernel, response) ← readExactlyFromUser h.message.outcomes s.kernel request.message.payload
    match response with
    | none => some ({ s with kernel }.goto i .done)
    | some response => some ({ s with kernel }.goto i (.toBuffer response))
  | .toBuffer response => do
    let responseBuffer ← pduToBufferKernel h.message.outcomes response
    some (s.goto i (.setPid response responseBuffer))
  | .setPid response responseBuffer => do
    let pid ← s.sendPid
    some ({ s with pid }.goto i (.setSize response responseBuffer))
  | .setSize response responseBuffer =>
    some ({ s with msgSize := response.dataBytes + HEADERSIZE }.goto i (.new responseBuffer))
  | .new responseBuffer =>
    if h.message.outcomes.skb then
      some ({ s with skbOut := some s.skbs.length, skbs := s.skbs ++ [some (calloc s.msgSize)] }.goto i
        (.put responseBuffer))
    else some ({ s with skbOut := none }.goto i .done)
  | .put responseBuffer => do
    let skb ← s.skbOut
    let payload ← s.skb (some skb)
    if s.msgSize ≤ payload.length then
      let skbs := s.skbs.set skb (some (payload.take s.msgSize))
      some ({ s with nlhKernelSend := some (.answer skb), skbs }.goto i (.copy responseBuffer))
    else none
  | .copy responseBuffer => do
    let s ← s.copy responseBuffer
    some (s.goto i .unicast)
  | .unicast => do
    let skb ← s.skbOut
    let payload ← s.skb (some skb)
    some ({ s with skbs := s.skbs.set skb none, delivered := s.delivered ++ [(s.pid, payload)] }.goto i .done)
  | .done => none

inductive Event where
  | recieveData (message : Message)
  | work (handler : ℕ)

def step (s : State) : Event → Option State
  | .recieveData message => some { s with handlers := s.handlers ++ [⟨message, .setReceive⟩] }
  | .work i => (s.handlers[i]?).bind (workHandlerStep s i)

/-- The handler has not begun, or has returned. -/
def Pc.Idle : Pc → Prop
  | .setReceive => True
  | .done => True
  | _ => False

/-- A step is only taken while every other handler is idle. -/
def Alone (s : State) : Event → Prop
  | .recieveData _ => True
  | .work i => ∀ j h, s.handlers[j]? = some h → j ≠ i → h.pc.Idle

/-- A request is only sent when all earlier ones have been answered. -/
def OneAtATime (s : State) : Event → Prop
  | .recieveData _ => s.delivered.length = s.handlers.length
  | .work _ => True

instance (pc : Pc) : Decidable pc.Idle :=
  match pc with
  | .setReceive | .done => isTrue trivial
  | .setSend | .readExactly | .toBuffer _ | .setPid _ _ | .setSize _ _ | .new _ | .put _ | .copy _ | .unicast =>
    isFalse id

instance (s : State) : DecidablePred (Alone s)
  | .recieveData _ => isTrue trivial
  | .work i => decidable_of_iff (∀ j : Fin s.handlers.length, (j : ℕ) ≠ i → (s.handlers.get j).pc.Idle) <| by
    constructor
    · intro idle j h there other
      obtain ⟨inside, rfl⟩ := List.getElem?_eq_some_iff.mp there
      exact idle ⟨j, inside⟩ other
    · exact fun idle j other => idle j _ (List.getElem?_eq_getElem j.isLt) other

instance (s : State) : DecidablePred (OneAtATime s)
  | .recieveData _ => inferInstanceAs (Decidable (_ = _))
  | .work _ => isTrue trivial

/-- A request that is handled as a whole, and what is sent to whom. -/
def atomic (kernel : KernelState) (message : Message) : Option (KernelState × List (ℕ × Bytes)) := do
  let (kernel, answer) ← workHandler message.outcomes kernel message.payload
  some (kernel, (answer.map fun payload => (message.nlmsgPid, payload)).toList)

/-- The handler, taken as a whole, leaves this kernel state and has this buffer to send. -/
def Answering (m : Message) (k k' : KernelState) (responseBuffer : Bytes) : Prop :=
  workHandler m.outcomes k m.payload = some (k', if m.outcomes.skb then some responseBuffer else none)

/-- What a handler that is alone has done so far, from the kernel state in which it began. -/
def Progress (k : KernelState) (s : State) (i : ℕ) (m : Message) : Pc → Prop
  | .setReceive => s.kernel = k
  | .setSend => s.kernel = k ∧ s.nlhKernelReceive = some i
  | .readExactly => s.kernel = k ∧ s.nlhKernelReceive = some i ∧ s.nlhKernelSend = some (.request i)
  | .toBuffer response =>
    readExactlyFromUser m.outcomes k m.payload = some (s.kernel, some response) ∧
      s.nlhKernelSend = some (.request i)
  | .setPid response responseBuffer =>
    Answering m k s.kernel responseBuffer ∧ responseBuffer.length = response.dataBytes + HEADERSIZE ∧
      s.nlhKernelSend = some (.request i)
  | .setSize response responseBuffer =>
    Answering m k s.kernel responseBuffer ∧ responseBuffer.length = response.dataBytes + HEADERSIZE ∧
      s.pid = m.nlmsgPid
  | .new responseBuffer =>
    Answering m k s.kernel responseBuffer ∧ s.msgSize = responseBuffer.length ∧ s.pid = m.nlmsgPid
  | .put responseBuffer =>
    Answering m k s.kernel responseBuffer ∧ s.msgSize = responseBuffer.length ∧ s.pid = m.nlmsgPid ∧
      m.outcomes.skb = true
  | .copy responseBuffer =>
    Answering m k s.kernel responseBuffer ∧ s.msgSize = responseBuffer.length ∧ s.pid = m.nlmsgPid ∧
      m.outcomes.skb = true ∧ ∃ skb old, s.skbOut = some skb ∧ s.nlhKernelSend = some (.answer skb) ∧
        s.skb (some skb) = some old ∧ old.length = responseBuffer.length
  | .unicast => ∃ responseBuffer, Answering m k s.kernel responseBuffer ∧ s.pid = m.nlmsgPid ∧
      m.outcomes.skb = true ∧ s.skb s.skbOut = some responseBuffer
  | .done => s.kernel = k

/-- The handlers that have returned have been served as wholes, one after the other, and at most one is under
way. -/
structure Serial (k₀ : KernelState) (served : List (ℕ × Message)) (s : State) : Prop where
  traced : ∃ k outs, trace atomic k₀ (served.map Prod.snd) = some (k, outs) ∧ s.delivered = outs.flatten ∧
    ∃ i, (∀ j h, s.handlers[j]? = some h → j ≠ i → h.pc.Idle) ∧
      (s.handlers[i]? = none → s.kernel = k) ∧
      ∀ h, s.handlers[i]? = some h → Progress k s i h.message h.pc
  done : ∀ i m, (i, m) ∈ served ↔ s.handlers[i]? = some ⟨m, .done⟩
  nodup : (served.map Prod.fst).Nodup

/-- The handler has taken a step, and returned with it or not. -/
def Advances (k₀ : KernelState) (served : List (ℕ × Message)) (s : State) (i : ℕ) (m : Message) (s' : State) :
    Prop :=
  (Serial k₀ served s' ∨ Serial k₀ (served ++ [(i, m)]) s') ∧ s'.handlers.length = s.handlers.length

section Steps

variable {k₀ k : KernelState} {served : List (ℕ × Message)} {s s' : State} {i : ℕ} {h : Handler}

theorem Progress.of_idle (progress : Progress k s i h.message h.pc) (idle : h.pc.Idle) : s.kernel = k := by
  obtain ⟨m, pc⟩ := h
  cases pc <;> first | exact progress | exact idle.elim

theorem goto_get (s : State) (i j : ℕ) (pc : Pc) : (s.goto i pc).handlers[j]? =
    if i = j then s.handlers[j]?.map fun h => ⟨h.message, pc⟩ else s.handlers[j]? := by
  simp only [State.goto, List.getElem?_modify]
  split <;> cases s.handlers[j]? <;> rfl

/-- The handler that takes a step is the one that is under way, or none is. -/
theorem Serial.at (serial : Serial k₀ served s) (alone : Alone s (.work i)) (here : s.handlers[i]? = some h) :
    ∃ k outs, trace atomic k₀ (served.map Prod.snd) = some (k, outs) ∧ s.delivered = outs.flatten ∧
      Progress k s i h.message h.pc := by
  obtain ⟨k, outs, traced, delivered, i', others, nobody, progress⟩ := serial.traced
  refine ⟨k, outs, traced, delivered, ?_⟩
  by_cases same : i = i'
  · subst same
    exact progress h here
  · have kernel : s.kernel = k := by
      cases there : s.handlers[i']? with
      | none => exact nobody there
      | some h' => exact (progress h' there).of_idle (alone i' h' there (Ne.symm same))
    have idle := others i h here same
    obtain ⟨m, pc⟩ := h
    cases pc <;> first | exact kernel | exact idle.elim

/-- A step within a handler. -/
theorem Serial.goto (serial : Serial k₀ served s) (alone : Alone s (.work i)) (here : s.handlers[i]? = some h)
    (running : h.pc ≠ .done) (pc : Pc) (going : pc ≠ .done) (handlers : s'.handlers = (s.goto i pc).handlers)
    (delivered : s'.delivered = s.delivered)
    (progress : ∀ k, Progress k s i h.message h.pc → Progress k s' i h.message pc) :
    Advances k₀ served s i h.message s' := by
  have same : s'.handlers[i]? = some ⟨h.message, pc⟩ := by rw [handlers, goto_get, if_pos rfl, here]; rfl
  have others {j : ℕ} (other : j ≠ i) : s'.handlers[j]? = s.handlers[j]? := by
    rw [handlers, goto_get, if_neg (Ne.symm other)]
  obtain ⟨k, outs, traced, sent, made⟩ := serial.at alone here
  refine ⟨.inl ⟨⟨k, outs, traced, delivered.trans sent, i, ?_, ?_, ?_⟩, ?_, serial.nodup⟩, ?_⟩
  · intro j h' there other
    exact alone j h' (others other ▸ there) other
  · intro none
    cases none.symm.trans same
  · intro h' there
    cases same.symm.trans there
    exact progress k made
  · intro j m
    rw [serial.done]
    by_cases other : j = i
    · subst other
      rw [same, here]
      constructor <;> intro done <;> cases done
      · exact absurd rfl running
      · exact absurd rfl going
    · rw [others other]
  · rw [handlers]
    exact List.length_modify ..

/-- The step with which a handler returns. -/
theorem Serial.finish (serial : Serial k₀ served s) (alone : Alone s (.work i)) (here : s.handlers[i]? = some h)
    (running : h.pc ≠ .done) (handlers : s'.handlers = (s.goto i .done).handlers)
    (whole : ∀ k, Progress k s i h.message h.pc → ∃ out, atomic k h.message = some (s'.kernel, out) ∧
      s'.delivered = s.delivered ++ out) : Advances k₀ served s i h.message s' := by
  have same : s'.handlers[i]? = some ⟨h.message, .done⟩ := by rw [handlers, goto_get, if_pos rfl, here]; rfl
  have others {j : ℕ} (other : j ≠ i) : s'.handlers[j]? = s.handlers[j]? := by
    rw [handlers, goto_get, if_neg (Ne.symm other)]
  have fresh : i ∉ served.map Prod.fst := by
    intro member
    obtain ⟨⟨j, m⟩, before, rfl⟩ := List.mem_map.mp member
    cases here.symm.trans ((serial.done j m).mp before)
    exact running rfl
  obtain ⟨k, outs, traced, sent, made⟩ := serial.at alone here
  obtain ⟨out, answered, delivered⟩ := whole k made
  refine ⟨.inr ⟨⟨s'.kernel, outs ++ [out], ?_, ?_, i, ?_, fun _ => rfl, ?_⟩, ?_, ?_⟩, ?_⟩
  · rw [List.map_append]
    exact trace_append traced (by simp [trace, answered])
  · simp [delivered, sent]
  · intro j h' there other
    exact alone j h' (others other ▸ there) other
  · intro h' there
    cases same.symm.trans there
    rfl
  · intro j m
    rw [List.mem_append, List.mem_singleton, serial.done]
    by_cases other : j = i
    · subst other
      rw [same, here]
      constructor
      · rintro (done | new)
        · cases done
          exact absurd rfl running
        · cases new
          rfl
      · intro done
        cases done
        exact .inr rfl
    · rw [others other]
      exact ⟨fun either => either.resolve_right fun new => other (Prod.mk.inj new).1, .inl⟩
  · rw [List.map_append, List.nodup_append]
    refine ⟨serial.nodup, List.nodup_singleton _, ?_⟩
    rintro j old _ new rfl
    obtain rfl := List.mem_singleton.mp new
    exact fresh old
  · rw [handlers]
    exact List.length_modify ..

theorem skb_set {skb : ℕ} {old new : Bytes} (there : s.skb (some skb) = some old) :
    ((s.skbs.set skb (some new))[skb]?).join = some new := by
  have inside : skb < s.skbs.length := by
    by_contra outside
    simp [State.skb, List.getElem?_eq_none (not_lt.mp outside)] at there
  rw [List.getElem?_set_self inside, Option.join_some]

/-- A copy over a whole buffer. -/
theorem memcpy_whole {old new : Bytes} (same : old.length = new.length) :
    memcpy old 0 new new.length = some new := by
  rw [memcpy_front le_rfl same.ge, List.take_length, List.drop_of_length_le same.le, List.append_nil]

theorem pduToBufferKernel_length {o : Outcomes} {response : Pdu} {responseBuffer : Bytes}
    (built : pduToBufferKernel o response = some responseBuffer) :
    responseBuffer.length = response.dataBytes + HEADERSIZE := by
  obtain ⟨opCode, dataBytes, data⟩ := response
  cases data with
  | bytes data =>
    simp only [pduToBufferKernel, Option.ite_none_right_eq_some, Option.some.injEq] at built
    obtain ⟨⟨-, fits⟩, rfl⟩ := built
    simp only [le16Bytes, List.length_cons, List.length_append, List.length_take, List.length_nil, HEADERSIZE]
    omega
  | _ => cases built

/-- Every step of a handler that is alone brings it on, or ends it with what it answers as a whole. -/
theorem serial_work (serial : Serial k₀ served s) (alone : Alone s (.work i)) (here : s.handlers[i]? = some h)
    (stepped : workHandlerStep s i h = some s') : Advances k₀ served s i h.message s' := by
  have running : h.pc ≠ .done := by
    intro done
    simp [workHandlerStep, done] at stepped
  obtain ⟨m, pc⟩ := h
  cases pc with
  | setReceive =>
    cases stepped
    refine serial.goto alone here running .setSend (by simp) rfl rfl ?_
    intro k kernel
    exact ⟨kernel, rfl⟩
  | setSend =>
    cases stepped
    refine serial.goto alone here running .readExactly (by simp) rfl rfl ?_
    rintro k ⟨kernel, receive⟩
    exact ⟨kernel, receive, rfl⟩
  | readExactly =>
    obtain ⟨receive, pointed, stepped⟩ := Option.bind_eq_some_iff.mp stepped
    obtain ⟨request, found, stepped⟩ := Option.bind_eq_some_iff.mp stepped
    obtain ⟨⟨kernel, response⟩, read, stepped⟩ := Option.bind_eq_some_iff.mp stepped
    have own {k : KernelState} (progress : Progress k s i m .readExactly) :
        readExactlyFromUser m.outcomes k m.payload = some (kernel, response) := by
      obtain ⟨same, receive', -⟩ := progress
      cases pointed.symm.trans receive'
      cases found.symm.trans here
      exact same ▸ read
    cases response with
    | none =>
      cases stepped
      refine serial.finish alone here running rfl fun k progress => ⟨[], ?_, (List.append_nil _).symm⟩
      simp [atomic, workHandler, own progress, State.goto]
    | some response =>
      cases stepped
      exact serial.goto alone here running (.toBuffer response) (by simp) rfl rfl
        fun k progress => ⟨own progress, progress.2.2⟩
  | toBuffer response =>
    obtain ⟨responseBuffer, built, same⟩ := Option.bind_eq_some_iff.mp stepped
    cases same
    refine serial.goto alone here running (.setPid response responseBuffer) (by simp) rfl rfl ?_
    rintro k ⟨read, send⟩
    refine ⟨?_, pduToBufferKernel_length built, send⟩
    simp [Answering, workHandler, read, built, State.goto]
  | setPid response responseBuffer =>
    obtain ⟨pid, found, same⟩ := Option.bind_eq_some_iff.mp stepped
    cases same
    refine serial.goto alone here running (.setSize response responseBuffer) (by simp) rfl rfl ?_
    rintro k ⟨answering, length, send⟩
    refine ⟨answering, length, ?_⟩
    simp only [State.sendPid, send, here, Option.map_some, Option.some.injEq] at found
    exact found.symm
  | setSize response responseBuffer =>
    cases stepped
    refine serial.goto alone here running (.new responseBuffer) (by simp) rfl rfl ?_
    rintro k ⟨answering, length, pid⟩
    exact ⟨answering, length.symm, pid⟩
  | new responseBuffer =>
    simp only [workHandlerStep] at stepped
    split at stepped
    · rename_i allocated
      cases stepped
      refine serial.goto alone here running (.put responseBuffer) (by simp) rfl rfl ?_
      rintro k ⟨answering, size, pid⟩
      exact ⟨answering, size, pid, allocated⟩
    · rename_i failed
      cases stepped
      refine serial.finish alone here running rfl ?_
      rintro k ⟨answering, -, -⟩
      refine ⟨[], ?_, (List.append_nil _).symm⟩
      rw [Answering, if_neg failed] at answering
      simp [atomic, answering, State.goto]
  | put responseBuffer =>
    obtain ⟨skb, out, stepped⟩ := Option.bind_eq_some_iff.mp stepped
    obtain ⟨payload, there, stepped⟩ := Option.bind_eq_some_iff.mp stepped
    obtain ⟨room, same⟩ := Option.ite_none_right_eq_some.mp stepped
    cases same
    refine serial.goto alone here running (.copy responseBuffer) (by simp) rfl rfl ?_
    rintro k ⟨answering, size, pid, allocated⟩
    refine ⟨answering, size, pid, allocated, skb, _, out, rfl, skb_set there, ?_⟩
    rw [List.length_take, size, Nat.min_eq_left (size ▸ room)]
  | copy responseBuffer =>
    obtain ⟨t, copied, same⟩ := Option.bind_eq_some_iff.mp stepped
    cases same
    obtain ⟨-, -, -, -, -, -, -, -, skb, old, out, send, there, -⟩ := serial.at alone here
    simp only [State.copy, send, there, Option.bind_eq_bind, Option.bind_some] at copied
    obtain ⟨payload, written, same⟩ := Option.bind_eq_some_iff.mp copied
    cases same
    refine serial.goto alone here running .unicast (by simp) rfl rfl ?_
    rintro k ⟨answering, size, pid, allocated, skb', old', out', send', there', short⟩
    refine ⟨responseBuffer, answering, pid, allocated, ?_⟩
    cases send.symm.trans send'
    cases there.symm.trans there'
    obtain rfl : payload = responseBuffer := by
      rw [size, memcpy_whole short] at written
      exact (Option.some.inj written).symm
    exact out ▸ skb_set there
  | unicast =>
    obtain ⟨skb, out, stepped⟩ := Option.bind_eq_some_iff.mp stepped
    obtain ⟨payload, there, same⟩ := Option.bind_eq_some_iff.mp stepped
    cases same
    refine serial.finish alone here running rfl ?_
    rintro k ⟨responseBuffer, answering, pid, allocated, content⟩
    refine ⟨[(m.nlmsgPid, responseBuffer)], ?_, ?_⟩
    · rw [Answering, if_pos allocated] at answering
      simp [atomic, answering, State.goto]
    · rw [out, there] at content
      cases content
      rw [← pid]
      rfl
  | done => exact absurd rfl running

end Steps

section Runs

variable {k₀ : KernelState} {s s' : State}

theorem serial_start (k₀ : KernelState) : Serial k₀ [] (.start k₀) := by
  have empty (j : ℕ) : (State.start k₀).handlers[j]? = none := rfl
  refine ⟨⟨k₀, [], rfl, rfl, 0, ?_, fun _ => rfl, ?_⟩, ?_, List.nodup_nil⟩ <;> simp [empty]

/-- A request that comes in disturbs nobody. -/
theorem Serial.recieveData {served : List (ℕ × Message)} (serial : Serial k₀ served s) (message : Message) :
    Serial k₀ served { s with handlers := s.handlers ++ [⟨message, .setReceive⟩] } := by
  have get (j : ℕ) : (s.handlers ++ [⟨message, .setReceive⟩])[j]? = s.handlers[j]? ∨
      s.handlers[j]? = none ∧ ∀ h, (s.handlers ++ [⟨message, .setReceive⟩])[j]? = some h →
        h = ⟨message, .setReceive⟩ := by
    rcases lt_or_ge j s.handlers.length with inside | behind
    · exact .inl (List.getElem?_append_left inside)
    · refine .inr ⟨List.getElem?_eq_none behind, fun h there => ?_⟩
      rw [List.getElem?_append_right behind] at there
      exact List.mem_singleton.mp (List.mem_of_getElem? there)
  obtain ⟨k, outs, traced, delivered, i, others, nobody, progress⟩ := serial.traced
  refine ⟨⟨k, outs, traced, delivered, i, ?_, ?_, ?_⟩, ?_, serial.nodup⟩
  · intro j h there other
    rcases get j with same | ⟨-, new⟩
    · exact others j h (same ▸ there) other
    · cases new h there
      trivial
  · intro none
    exact nobody (List.getElem?_eq_none ((List.getElem?_eq_none_iff.mp none).trans' (by simp)))
  · intro h there
    rcases get i with same | ⟨none, new⟩
    · obtain ⟨m, pc⟩ := h
      have made := progress ⟨m, pc⟩ (same ▸ there)
      cases pc <;> exact made
    · cases new h there
      exact nobody none
  · intro j m
    rw [serial.done]
    rcases get j with same | ⟨none, new⟩
    · rw [same]
    · rw [none]
      exact ⟨nofun, fun there => by cases new _ there⟩

/-- As long as no two handlers are under way at the same time, the handlers that have returned have been served
one after the other as if each had been a single step, and each answer has gone to the process that asked. -/
theorem handlers_serialize {events : List Event} (alone : Steps step Alone (.start k₀) events)
    (ran : run step (.start k₀) events = some s) :
    ∃ (served : List (ℕ × Message)) (k : KernelState) (outs : List (List (ℕ × Bytes))),
      (served.map Prod.fst).Nodup ∧ (∀ i m, (i, m) ∈ served ↔ s.handlers[i]? = some ⟨m, .done⟩) ∧
      trace atomic k₀ (served.map Prod.snd) = some (k, outs) ∧ s.delivered = outs.flatten ∧
      ((∀ h ∈ s.handlers, h.pc.Idle) → s.kernel = k) := by
  have kept (t : State) (e : Event) (t' : State) (alone : Alone t e) (serial : ∃ served, Serial k₀ served t)
      (stepped : step t e = some t') : ∃ served, Serial k₀ served t' := by
    obtain ⟨served, serial⟩ := serial
    cases e with
    | recieveData message =>
      cases stepped
      exact ⟨served, serial.recieveData message⟩
    | work i =>
      obtain ⟨h, here, stepped⟩ := Option.bind_eq_some_iff.mp stepped
      obtain ⟨same | more, -⟩ := serial_work serial alone here stepped
      · exact ⟨_, same⟩
      · exact ⟨_, more⟩
  obtain ⟨served, serial⟩ := run_invariant_of_steps kept ⟨[], serial_start k₀⟩ alone ran
  obtain ⟨k, outs, traced, delivered, i, -, nobody, progress⟩ := serial.traced
  refine ⟨served, k, outs, serial.nodup, serial.done, traced, delivered, fun idle => ?_⟩
  cases there : s.handlers[i]? with
  | none => exact nobody there
  | some h => exact (progress h there).of_idle (idle h (List.mem_of_getElem? there))

private def storing : Message := ⟨7, INSERT :: 2 :: 0 :: 0 :: (padded KEY_SIZE [97] ++ [97, 0]), .smooth 0⟩

private def fetching : Message := ⟨8, GET :: 0 :: 0 :: 0 :: padded KEY_SIZE [97], .smooth 0⟩

private def bothDelivered : List (ℕ × Bytes) :=
  [(7, answerFrame 0 (answerText "Inserted object to rhashtable")), (8, answerFrame 0 [97, 0])]

private def overtaking : List Event :=
  .recieveData fetching :: .recieveData storing :: (List.replicate 10 (.work 1) ++ List.replicate 10 (.work 0))

/-- A GET and an INSERT come in, and the INSERT is handled first. -/
theorem handlers_serialize_two : ∃ s,
    run step (.start ⟨some ∅⟩) overtaking = some s ∧ s.delivered = bothDelivered ∧
      ∃ (served : List (ℕ × Message)) (k : KernelState) (outs : List (List (ℕ × Bytes))),
        (served.map Prod.fst).Nodup ∧ (∀ i m, (i, m) ∈ served ↔ s.handlers[i]? = some ⟨m, .done⟩) ∧
        trace atomic ⟨some ∅⟩ (served.map Prod.snd) = some (k, outs) ∧ s.delivered = outs.flatten ∧
        ((∀ h ∈ s.handlers, h.pc.Idle) → s.kernel = k) := by
  have alone : Steps step Alone (.start ⟨some ∅⟩) overtaking := by decide +kernel
  have sent : (run step (.start ⟨some ∅⟩) overtaking).map (·.delivered) = some bothDelivered := by decide +kernel
  obtain ⟨s, ran, delivered⟩ := Option.map_eq_some_iff.mp sent
  exact ⟨s, ran, delivered, handlers_serialize alone ran⟩

/-- A request with an opcode that the module does not know. -/
private def unknown (nlmsgPid : ℕ) : Message := ⟨nlmsgPid, [9], .smooth 0⟩

/-- Without that, a process gets the answer to another process: the second handler has set `pid` when the first
one sends. -/
theorem overlap_misdelivers :
    (run step (.start ⟨none⟩) (.recieveData (unknown 7) :: .recieveData (unknown 8) ::
        (List.replicate 9 (.work 0) ++ List.replicate 5 (.work 1) ++ [.work 0]))).map (·.delivered) =
      some [(8, answerFrame 0 (answerText "Error wrong OP_code to kernel"))] := by
  decide +kernel

/-- The requests have been served in the order in which they came in, all but perhaps the last. -/
structure InOrder (k₀ : KernelState) (served : List (ℕ × Message)) (s : State) : Prop where
  serial : Serial k₀ served s
  order : served.map Prod.fst = List.range served.length
  almost : s.handlers.length ≤ served.length + 1

theorem answers_le {messages : List Message} {k : KernelState} {outs : List (List (ℕ × Bytes))}
    (traced : trace atomic k₀ messages = some (k, outs)) : outs.flatten.length ≤ messages.length := by
  induction messages generalizing k₀ outs with
  | nil =>
    cases traced
    exact le_rfl
  | cons m messages ih =>
    obtain ⟨⟨next, out⟩, taken, traced⟩ := Option.bind_eq_some_iff.mp traced
    obtain ⟨⟨last, outs'⟩, later, same⟩ := Option.bind_eq_some_iff.mp traced
    cases same
    obtain ⟨⟨kernel, answer⟩, -, same⟩ := Option.bind_eq_some_iff.mp taken
    cases same
    have one : (answer.map fun payload => (m.nlmsgPid, payload)).toList.length ≤ 1 := by
      cases answer <;> simp
    rw [List.flatten_cons, List.length_append, List.length_cons]
    have rest := ih later
    omega

theorem InOrder.mem_iff {served : List (ℕ × Message)} (inOrder : InOrder k₀ served s) {i : ℕ} :
    i < served.length ↔ ∃ m, s.handlers[i]? = some ⟨m, .done⟩ := by
  rw [← List.mem_range, ← inOrder.order, List.mem_map]
  constructor
  · rintro ⟨⟨i, m⟩, member, rfl⟩
    exact ⟨m, (inOrder.serial.done i m).mp member⟩
  · rintro ⟨m, done⟩
    exact ⟨(i, m), (inOrder.serial.done i m).mpr done, rfl⟩

theorem inOrder_step (t : State) (e : Event) (t' : State) (waits : OneAtATime t e)
    (ordered : ∃ served, InOrder k₀ served t) (stepped : step t e = some t') :
    ∃ served, InOrder k₀ served t' := by
  obtain ⟨served, inOrder⟩ := ordered
  cases e with
  | recieveData message =>
    cases stepped
    obtain ⟨k, outs, traced, delivered, -⟩ := inOrder.serial.traced
    have bound := answers_le traced
    rw [← delivered, waits, List.length_map] at bound
    refine ⟨served, inOrder.serial.recieveData message, inOrder.order, ?_⟩
    simpa using bound
  | work i =>
    obtain ⟨h, here, stepped⟩ := Option.bind_eq_some_iff.mp stepped
    have last : i = served.length := by
      have inside : i < t.handlers.length := (List.getElem?_eq_some_iff.mp here).1
      have running : ¬i < served.length := by
        intro before
        obtain ⟨m, done⟩ := inOrder.mem_iff.mp before
        cases here.symm.trans done
        cases stepped
      have almost := inOrder.almost
      omega
    have alone : Alone t (.work i) := by
      intro j h' there other
      have inside : j < t.handlers.length := (List.getElem?_eq_some_iff.mp there).1
      have almost := inOrder.almost
      obtain ⟨m, done⟩ := inOrder.mem_iff.mp (show j < served.length by omega)
      cases there.symm.trans done
      trivial
    obtain ⟨same | more, length⟩ := serial_work inOrder.serial alone here stepped
    · exact ⟨served, same, inOrder.order, length ▸ inOrder.almost⟩
    · refine ⟨_, more, ?_, ?_⟩
      · rw [List.map_append, inOrder.order, List.length_append, List.length_singleton, List.range_succ, last]
        rfl
      · rw [length, List.length_append]
        exact inOrder.almost.trans (Nat.le_succ _)

/-- A requester that sends a request only when all earlier ones have been answered: whatever the processors do,
the requests are served in their order, each as a whole by a module that handles one at a time, and the answers
go to the processes that asked. -/
theorem one_at_a_time {events : List Event} (waits : Steps step OneAtATime (.start k₀) events)
    (ran : run step (.start k₀) events = some s) :
    ∃ (n : ℕ) (k : KernelState) (outs : List (List (ℕ × Bytes))), n ≤ s.handlers.length ∧
      s.handlers.length ≤ n + 1 ∧ (∀ i h, s.handlers[i]? = some h → (i < n ↔ h.pc = .done)) ∧
      trace atomic k₀ ((s.handlers.map (·.message)).take n) = some (k, outs) ∧ s.delivered = outs.flatten := by
  obtain ⟨served, inOrder⟩ := run_invariant_of_steps inOrder_step
    ⟨[], serial_start k₀, rfl, Nat.zero_le _⟩ waits ran
  obtain ⟨k, outs, traced, delivered, -⟩ := inOrder.serial.traced
  have messages : served.map Prod.snd = (s.handlers.map (·.message)).take served.length := by
    apply List.ext_getElem?
    intro i
    rcases lt_or_ge i served.length with inside | behind
    · obtain ⟨⟨j, m⟩, there⟩ : ∃ x, served[i]? = some x := ⟨_, List.getElem?_eq_getElem inside⟩
      have number : (served.map Prod.fst)[i]? = some j := by rw [List.getElem?_map, there]; rfl
      rw [inOrder.order, List.getElem?_range inside] at number
      cases number
      have done := (inOrder.serial.done i m).mp (List.mem_of_getElem? there)
      rw [List.getElem?_take_of_lt inside, List.getElem?_map, List.getElem?_map, there, done]
      rfl
    · rw [List.getElem?_eq_none (by simpa using behind), List.getElem?_eq_none]
      exact (List.length_take_le ..).trans behind
  refine ⟨served.length, k, outs, ?_, inOrder.almost, ?_, messages ▸ traced, delivered⟩
  · rw [← List.length_map Prod.snd, messages, List.length_take, List.length_map]
    exact Nat.min_le_right ..
  · intro i h here
    rw [inOrder.mem_iff]
    constructor
    · rintro ⟨m, done⟩
      cases here.symm.trans done
      rfl
    · obtain ⟨m, pc⟩ := h
      rintro rfl
      exact ⟨m, here⟩

private def waiting : List Event :=
  .recieveData storing :: (List.replicate 10 (.work 0) ++ .recieveData fetching :: List.replicate 10 (.work 1))

/-- An INSERT, and a GET once the answer has been sent. -/
theorem one_at_a_time_two : ∃ s,
    run step (.start ⟨some ∅⟩) waiting = some s ∧ s.delivered = bothDelivered ∧
      ∃ (n : ℕ) (k : KernelState) (outs : List (List (ℕ × Bytes))), n ≤ s.handlers.length ∧
        s.handlers.length ≤ n + 1 ∧ (∀ i h, s.handlers[i]? = some h → (i < n ↔ h.pc = .done)) ∧
        trace atomic ⟨some ∅⟩ ((s.handlers.map (·.message)).take n) = some (k, outs) ∧
        s.delivered = outs.flatten := by
  have waits : Steps step OneAtATime (.start ⟨some ∅⟩) waiting := by decide +kernel
  have sent : (run step (.start ⟨some ∅⟩) waiting).map (·.delivered) = some bothDelivered := by decide +kernel
  obtain ⟨s, ran, delivered⟩ := Option.map_eq_some_iff.mp sent
  exact ⟨s, ran, delivered, one_at_a_time waits ran⟩

end Runs

end Operativsystem.Kernel.Handlers
