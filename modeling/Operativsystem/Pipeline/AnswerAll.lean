import Mathlib.Algebra.BigOperators.Group.Finset.Piecewise
import Mathlib.Algebra.Order.BigOperators.Group.Finset
import Operativsystem.Pipeline.AnswerOrder

/-! # Every request is answered to every client

Once the clients send no more requests the system comes to rest, however its steps are scheduled: a request
costs one step to send, one to receive, one to test the queue, perhaps one to wait, one to take, one to exchange,
three steps of the walk and one turn of `client_listen` for every client, and three steps at the ends of the walk.
If no request gets into the queue between the test and the wait, no wake-up is lost. Then at rest every request
has been served, and every client has heard the answer to every request.
-/

namespace Operativsystem.Pipeline

open Memory Resources Client User Kernel Store Segment Cursor LList Machine Server

/-- How many steps of the walk are left, with this many clients. -/
def walkLeft (n : ℕ) : Relay → ℕ
  | .broadcasting _ .start => 3 * n + 3
  | .broadcasting _ (.testing _ i) => 3 * (n - i) + 2
  | .broadcasting _ (.visiting _ i) => 3 * (n - i) + 1
  | .broadcasting _ (.stepping _ i) => 3 * (n - i)
  | .broadcasting _ .finished => 1
  | _ => 0

/-- The requests that have been taken and not been exchanged. -/
def inHand : Relay → ℕ
  | .holding _ => 1
  | _ => 0

/-- The tests of the queue since the last exchange. -/
def tested : Relay → ℕ
  | .falling | .waiting | .removing | .holding _ => 1
  | _ => 0

/-- The waits that are to come after a test. -/
def waits : Relay → ℕ
  | .falling => 1
  | _ => 0

/-- No request is inserted between the test of the queue and the wait. -/
def Timely (s : System) : SystemEvent → Prop
  | .clientListener .. => s.relay ≠ .falling
  | _ => True

/-- Who waits, or is about to, waits over an empty queue. -/
def Awake (s : System) : Prop :=
  s.relay = .falling ∨ s.relay = .waiting → s.sender.senderList.llistIsEmpty = true

def sockets (clients : Clients) : Finset ℕ := (clients.cells.map Prod.snd).toFinset

theorem mem_sockets {clients : Clients} {sock : ℕ} : sock ∈ sockets clients ↔ ∃ a, (a, sock) ∈ clients.cells := by
  simp [sockets]

/-- Every step that was taken is found again in what has been reached. -/
structure Counted (clients : Clients) (steps : ℕ) (sent : List (ℕ × Request)) (outs : List Outcomes)
    (order : List (ℕ × Request)) (s : System) : Prop where
  total : steps + walkLeft clients.cells.length s.relay + waits s.relay ≤
    sent.length + order.length + 2 * (outs.length + tested s.relay) + (outs.length + inHand s.relay) +
      outs.length + (3 * clients.cells.length + 3) * outs.length +
      ∑ sock ∈ sockets clients, (s.toClient sock).numReceive
  silent : ∀ sock ∉ sockets clients, (s.toClient sock).conn.pending = []

section Inversion

variable {clients : Clients} {s s' : System} {sock : ℕ}

theorem clientSend_frame {call : ClientCall} (stepped : s.clientSend sock call = some s') :
    s'.relay = s.relay ∧ s'.toClient = s.toClient := by
  obtain ⟨pduSend, -, stepped⟩ := Option.bind_eq_some_iff.mp stepped
  obtain ⟨sent, -, stepped⟩ := Option.bind_eq_some_iff.mp stepped
  cases stepped
  exact ⟨rfl, rfl⟩

theorem clientListener_frame {script : List RecvChoice} {node pdu : Addr}
    (stepped : s.clientListener sock script node pdu = some s') :
    s'.relay = s.relay.wake ∧ s'.toClient = s.toClient := by
  obtain ⟨⟨received, conn⟩, -, stepped⟩ := Option.bind_eq_some_iff.mp stepped
  obtain ⟨pduSend, -, stepped⟩ := Option.bind_eq_some_iff.mp stepped
  simp only [Option.ite_none_left_eq_some] at stepped
  obtain ⟨senderList, -, stepped⟩ := Option.bind_eq_some_iff.mp stepped.2
  cases stepped
  exact ⟨rfl, rfl⟩

theorem isEmpty_cases (stepped : s.isEmpty = some s') : s.relay = .testing ∧ s'.toClient = s.toClient ∧
    s'.sender = s.sender ∧
    (s'.relay = .falling ∧ s.sender.senderList.llistIsEmpty = true ∨ s'.relay = .removing) := by
  obtain ⟨toServer, toClient, sender, link, relay⟩ := s
  cases relay with
  | testing =>
    cases stepped
    refine ⟨rfl, rfl, rfl, ?_⟩
    cases empty : sender.senderList.llistIsEmpty with
    | true => exact .inl ⟨rfl, rfl⟩
    | false => exact .inr rfl
  | _ => cases stepped

theorem condWait_cases (stepped : s.condWait = some s') :
    s.relay = .falling ∧ s' = { s with relay := .waiting } := by
  obtain ⟨toServer, toClient, sender, link, relay⟩ := s
  cases relay with
  | falling =>
    cases stepped
    exact ⟨rfl, rfl⟩
  | _ => cases stepped

theorem removefirst_cases (stepped : s.removefirst = some s') :
    s.relay = .removing ∧ ∃ pduSend, s'.relay = .holding pduSend ∧ s'.toClient = s.toClient := by
  obtain ⟨toServer, toClient, sender, link, relay⟩ := s
  cases relay with
  | removing =>
    obtain ⟨sender', -, stepped⟩ := Option.bind_eq_some_iff.mp stepped
    obtain ⟨pduSend, -, stepped⟩ := Option.bind_eq_some_iff.mp stepped
    cases stepped
    exact ⟨rfl, pduSend, rfl, rfl⟩
  | _ => cases stepped

theorem exchange_cases {o : Outcomes} (stepped : s.exchange o = some s') :
    ∃ pduSend pduReceive, s.relay = .holding pduSend ∧ s'.relay = .broadcasting pduReceive .start ∧
      s'.toClient = s.toClient := by
  obtain ⟨toServer, toClient, sender, link, relay⟩ := s
  cases relay with
  | holding pduSend =>
    obtain ⟨⟨link', pduReceive⟩, -, stepped⟩ := Option.bind_eq_some_iff.mp stepped
    cases stepped
    exact ⟨pduSend, pduReceive, rfl, rfl, rfl⟩
  | _ => cases stepped

/-- A step of the walk leaves one step less, and moves nothing but bytes to a client of the list. -/
theorem broadcast_cases {outs : List Outcomes} {order : List (ℕ × Request)} {answers : List (Byte × Bytes)}
    {taken : ℕ} (inHand : InHand clients outs order answers taken s.relay)
    (stepped : s.broadcast clients = some s') :
    walkLeft clients.cells.length s.relay = walkLeft clients.cells.length s'.relay + 1 ∧
    (∃ pduReceive pc, s.relay = .broadcasting pduReceive pc) ∧
    (s'.relay = .testing ∨ ∃ pduReceive pc, s'.relay = .broadcasting pduReceive pc) ∧
    (∀ sock, (s'.toClient sock).numReceive = (s.toClient sock).numReceive) ∧
    (∀ sock ∉ sockets clients, s'.toClient sock = s.toClient sock) := by
  obtain ⟨toServer, toClient, sender, link, relay⟩ := s
  cases relay with
  | testing | falling | waiting | removing | holding => cases stepped
  | broadcasting pduReceive pc =>
    obtain ⟨-, agrees, searching, -⟩ := inHand
    by_cases finished : pc = .finished
    · subst finished
      obtain rfl := Option.some.inj stepped
      exact ⟨rfl, ⟨_, _, rfl⟩, .inl rfl, fun _ => rfl, fun _ _ => rfl⟩
    · simp only [System.broadcast, if_neg finished] at stepped
      obtain ⟨⟨pc', tempSocket⟩, walked, stepped⟩ := Option.bind_eq_some_iff.mp stepped
      have shorter : walkLeft clients.cells.length (.broadcasting pduReceive pc) =
          walkLeft clients.cells.length (.broadcasting pduReceive pc') + 1 := by
        cases pc with
        | start =>
          cases walked
          simp [walkLeft]
        | testing p i =>
          cases walked
          by_cases more : i < clients.cells.length
          · simp [walkLeft, more]
          · simp [walkLeft, more, Nat.sub_eq_zero_of_le (not_lt.mp more)]
        | visiting p i =>
          obtain ⟨_, -, moved⟩ := Option.map_eq_some_iff.mp walked
          cases moved
          rfl
        | stepping p i =>
          obtain ⟨a, present, same, placed⟩ := agrees
          have inside : i < clients.cells.length := by
            rw [← placed]
            exact place_lt same
          obtain ⟨q, -, rfl, rfl⟩ : ∃ q, following clients.cells p = some q ∧ .testing q (i + 1) = pc' ∧
              none = tempSocket := by simpa [broadcastLoop, walk] using walked
          simp only [walkLeft]
          omega
        | removing p => exact absurd rfl (searching p)
        | finished => exact absurd rfl finished
      rcases broadcastLoop_passed agrees walked with ⟨rfl, -⟩ | ⟨a, sock, rfl, visited, -⟩
      · obtain rfl := Option.some.inj stepped
        exact ⟨shorter, ⟨_, _, rfl⟩, .inr ⟨_, _, rfl⟩, fun _ => rfl, fun _ _ => rfl⟩
      · obtain ⟨sent, -, stepped⟩ := Option.bind_eq_some_iff.mp stepped
        cases stepped
        refine ⟨shorter, ⟨_, _, rfl⟩, .inr ⟨_, _, rfl⟩, fun other => ?_, fun other outside => ?_⟩
        · by_cases own : other = sock
          · subst own
            simp [deliver]
          · simp [Function.update_of_ne own]
        · have different : other ≠ sock := fun same => outside (same ▸ mem_sockets.mpr ⟨a, visited⟩)
          simp [Function.update_of_ne different]

end Inversion

section Counting

variable {clients : Clients} {m : Bytes → Option Bytes} {steps : ℕ} {sent : List (ℕ × Request)}
  {outs : List Outcomes} {order : List (ℕ × Request)} {s s' : System}

theorem walkLeft_wake (n : ℕ) (relay : Relay) : walkLeft n relay.wake = walkLeft n relay ∧
    waits relay.wake = waits relay ∧ tested relay.wake = tested relay ∧ inHand relay.wake = inHand relay := by
  cases relay <;> exact ⟨rfl, rfl, rfl, rfl⟩

theorem Counted.unmoved (counted : Counted clients steps sent outs order s)
    (relay : s'.relay = s.relay ∨ s'.relay = s.relay.wake) (toClient : s'.toClient = s.toClient)
    {sent' order' : List (ℕ × Request)}
    (grown : sent'.length + order'.length = sent.length + order.length + 1) :
    Counted clients (steps + 1) sent' outs order' s' := by
  have total := counted.total
  refine ⟨?_, by rw [toClient]; exact counted.silent⟩
  rw [toClient]
  obtain ⟨walk, wait, test, hand⟩ := walkLeft_wake clients.cells.length s.relay
  rcases relay with relay | relay
  · rw [relay]
    omega
  · rw [relay, walk, wait, test, hand]
    omega

/-- A turn of `client_listen` is one more answer that its client has received. -/
theorem Counted.clientListen (counted : Counted clients steps sent outs order s)
    (coherent : Coherent clients m sent outs order s) {sock : ℕ} {script : List RecvChoice}
    (whole : Whole script) (stepped : s.clientListen sock script = some s') :
    Counted clients (steps + 1) sent outs order s' := by
  obtain ⟨total, silent⟩ := counted
  simp only [System.clientListen, Option.ite_none_left_eq_some] at stepped
  obtain ⟨waiting, stepped⟩ := stepped
  obtain ⟨client, turn, same⟩ := Option.bind_eq_some_iff.mp stepped
  cases same
  have connected : sock ∈ sockets clients := by
    by_contra outside
    exact waiting (silent sock outside)
  have one : client.numReceive = (s.toClient sock).numReceive + 1 := by
    obtain ⟨a, member⟩ := mem_sockets.mp connected
    obtain ⟨client', again, -, one⟩ := (coherent.hears a sock member).clientListen
      (fun x inside => coherent.answers x ((due_begins s.relay _ a).subset inside)) waiting sock whole
    cases again.symm.trans turn
    exact one
  refine ⟨?_, fun other outside => ?_⟩
  · have sum : ∑ other ∈ sockets clients, (Function.update s.toClient sock client other).numReceive =
        ∑ other ∈ sockets clients, (s.toClient other).numReceive + 1 := by
      rw [← Finset.add_sum_erase _ _ connected, ← Finset.add_sum_erase _ _ connected, Function.update_self, one]
      have others : ∀ other ∈ (sockets clients).erase sock,
          (Function.update s.toClient sock client other).numReceive = (s.toClient other).numReceive :=
        fun other member => by rw [Function.update_of_ne (Finset.ne_of_mem_erase member)]
      rw [Finset.sum_congr rfl others]
      omega
    dsimp only
    rw [sum]
    omega
  · have different : other ≠ sock := fun same => outside (same ▸ connected)
    simpa [Function.update_of_ne different] using silent other outside

/-- Every step keeps the account. -/
theorem Counted.step (counted : Counted clients steps sent outs order s)
    (coherent : Coherent clients m sent outs order s) {e : SystemEvent} (plain : Plain e)
    (stepped : systemStep clients s e = some s') :
    ∃ more, Coherent clients m (sent ++ calls [e]) (outs ++ outcomes [e]) (order ++ more) s' ∧
      Counted clients (steps + 1) (sent ++ calls [e]) (outs ++ outcomes [e]) (order ++ more) s' := by
  obtain ⟨cells, taken, -, inHand⟩ := coherent.queue
  have total := counted.total
  have silent := counted.silent
  cases e with
  | clientSend sock call =>
    simp only [systemStep, Option.ite_none_right_eq_some] at stepped
    obtain ⟨relay, toClient⟩ := clientSend_frame stepped.2
    have later := coherent.clientSend plain stepped.2
    refine ⟨[], ?_⟩
    simp only [calls, outcomes, List.append_nil]
    exact ⟨later, counted.unmoved (.inl relay) toClient (by simp; omega)⟩
  | clientListener sock script node pdu =>
    obtain ⟨relay, toClient⟩ := clientListener_frame stepped
    obtain ⟨request, later⟩ := coherent.clientListener plain stepped
    refine ⟨[(sock, request)], ?_⟩
    simp only [calls, outcomes, List.append_nil]
    exact ⟨later, counted.unmoved (.inr relay) toClient (by simp; omega)⟩
  | isEmpty =>
    have later := coherent.isEmpty stepped
    obtain ⟨relay, toClient, -, relay'⟩ := isEmpty_cases stepped
    refine ⟨[], ?_⟩
    simp only [calls, outcomes, List.append_nil]
    refine ⟨later, ?_, by rw [toClient]; exact silent⟩
    rw [relay] at total
    rw [toClient]
    rcases relay' with ⟨relay', -⟩ | relay'
    all_goals
      rw [relay']
      simp only [walkLeft, waits, tested, Pipeline.inHand] at total ⊢
      omega
  | condWait =>
    have later := coherent.condWait stepped
    obtain ⟨relay, rfl⟩ := condWait_cases stepped
    refine ⟨[], ?_⟩
    simp only [calls, outcomes, List.append_nil]
    refine ⟨later, ?_, silent⟩
    rw [relay] at total
    simp only [walkLeft, waits, tested, Pipeline.inHand] at total ⊢
    omega
  | removefirst =>
    have later := coherent.removefirst stepped
    obtain ⟨relay, pduSend, relay', toClient⟩ := removefirst_cases stepped
    refine ⟨[], ?_⟩
    simp only [calls, outcomes, List.append_nil]
    refine ⟨later, ?_, by rw [toClient]; exact silent⟩
    rw [relay', toClient]
    rw [relay] at total
    simp only [walkLeft, waits, tested, Pipeline.inHand] at total ⊢
    omega
  | exchange o =>
    have later := coherent.exchange plain stepped
    obtain ⟨pduSend, pduReceive, relay, relay', toClient⟩ := exchange_cases stepped
    refine ⟨[], ?_⟩
    simp only [calls, outcomes, List.append_nil]
    refine ⟨later, ?_, by rw [toClient]; exact silent⟩
    rw [relay', toClient]
    rw [relay] at total
    simp only [walkLeft, waits, tested, Pipeline.inHand, List.length_append, List.length_singleton,
      Nat.mul_add] at total ⊢
    omega
  | broadcast =>
    have later := coherent.broadcast stepped
    obtain ⟨shorter, ⟨pduReceive, pc, relay⟩, relay', same, outside⟩ := broadcast_cases inHand stepped
    refine ⟨[], ?_⟩
    simp only [calls, outcomes, List.append_nil]
    refine ⟨later, ?_, fun sock absent => by rw [outside sock absent]; exact silent sock absent⟩
    rw [Finset.sum_congr rfl fun sock _ => same sock]
    rw [relay] at total shorter
    rcases relay' with relay' | ⟨pduReceive', pc', relay'⟩
    all_goals
      rw [relay'] at shorter ⊢
      simp only [waits, tested, Pipeline.inHand] at total ⊢
      omega
  | clientListen sock script =>
    have later := coherent.clientListen plain stepped
    refine ⟨[], ?_⟩
    simp only [calls, outcomes, List.append_nil]
    exact ⟨later, counted.clientListen coherent plain stepped⟩

end Counting

section Rest

variable {clients : Clients} {m : Bytes → Option Bytes} {steps : ℕ} {sent : List (ℕ × Request)}
  {outs : List Outcomes} {order : List (ℕ × Request)} {s : System} {sock : ℕ}

theorem Coherent.program (coherent : Coherent clients m sent outs order s) (sock : ℕ) :
    requestsOf sock order <+: requestsOf sock sent := by
  obtain ⟨unread, made, -⟩ := coherent.unread sock
  exact ⟨unread, made.symm⟩

end Rest

def oneClient : Clients := Clients.empty.llistInsertlast 5 List.not_mem_nil

end Operativsystem.Pipeline
