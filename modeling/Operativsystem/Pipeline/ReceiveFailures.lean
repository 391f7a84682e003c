import Operativsystem.Client.ClientListen
import Operativsystem.Server.Clients
import Operativsystem.User.Listener

/-! # Results of `receive_pdu` that are no PDU

The server handles one case, and that in part: when the stream has ended and the thread is in its loop, the slot
is announced and the socket leaves the list, but nobody closes it. A thread that waits for a JOIN uses the
sentinel as a PDU and calls again after NULL, the loop follows NULL, and the client follows both.
-/

namespace Operativsystem.Pipeline

open Memory Segment Cursor Resources Machine User Client
open Server (Clients WalkPc closeConnectedClient walk)

/-- What the server knows of its clients: their sockets, the slots of those that have left, and the sockets that
are open. -/
structure Registry where
  clients : Clients
  terminatedThreads : List ℕ
  descriptors : List ℕ

/-- The search of `close_connected_client`, when no other thread changes the list. -/
def closeAlone (sock : ℕ) : ℕ → WalkPc × Clients → Option Clients
  | 0, _ => none
  | fuel + 1, (pc, c) =>
    if pc = .finished then some c else (closeConnectedClient c [] sock pc).bind (closeAlone sock fuel)

/-- `close_connected_client`: with `cliC = 1` the socket is neither shut down nor closed. -/
def Registry.closeConnectedClient (r : Registry) (sock cliC : ℕ) : Option Registry :=
  (closeAlone sock (3 + 3 * r.clients.cells.length) (.start, r.clients)).map fun clients =>
    { r with clients, descriptors := if cliC = 0 then r.descriptors.filter (· ≠ sock) else r.descriptors }

/-- The termination branch of `client_listener`. -/
def terminate (sock threadNum : ℕ) (r : Registry) : Option Registry :=
  { r with terminatedThreads := threadNum :: r.terminatedThreads }.closeConnectedClient sock 1

/-- The other things that a thread does with a result leave everything as it is. -/
def perform (sock threadNum : ℕ) : Act → Registry → Option Registry
  | .leave, r => terminate sock threadNum r
  | _, r => some r

/-- The slot has been announced, and the socket is gone from the list. -/
structure Announced (sock threadNum : ℕ) (r r' : Registry) : Prop where
  slot : r'.terminatedThreads = threadNum :: r.terminatedThreads
  removed : r'.clients.cells = r.clients.cells.filter (·.2 ≠ sock)

/-- Besides, the connection is closed. -/
structure Closed (sock threadNum : ℕ) (r r' : Registry) : Prop extends Announced sock threadNum r r' where
  shut : sock ∉ r'.descriptors

/-- The result is a PDU, or what the thread does with it announces the slot and removes the socket. -/
def Left (sock threadNum : ℕ) (d : Deed) : Prop :=
  (∃ pdu, d.result = .pdu pdu) ∨
    ∀ r, ∃ r', perform sock threadNum d.act r = some r' ∧ Announced sock threadNum r r'

/-- The result is a PDU, or what the thread does with it also closes the connection. -/
def Handled (sock threadNum : ℕ) (d : Deed) : Prop :=
  (∃ pdu, d.result = .pdu pdu) ∨
    ∀ r, ∃ r', perform sock threadNum d.act r = some r' ∧ Closed sock threadNum r r'

/-- The call of `receive_pdu` that is next is about to make a PDU. -/
def Hearing (conn : Connection) : Prop := ∃ r, Heard conn r

/-- So it is, or the thread is in its loop and the stream at its end. -/
def Hears (l : Listener) : Prop :=
  l.listening = .looping ∧ l.conn.pending = [] ∧ l.conn.script.head? ≠ some .fail ∨ Hearing l.conn

section Closing

variable {sock threadNum : ℕ} {c : Clients} {front rest : List (Addr × ℕ)}

theorem closeAlone_step {pc pc' : WalkPc} {c' : Clients} (fuel : ℕ) (running : pc ≠ .finished)
    (stepped : closeConnectedClient c [] sock pc = some (pc', c')) :
    closeAlone sock (fuel + 1) (pc, c) = closeAlone sock fuel (pc', c') := by
  rw [closeAlone, if_neg running, stepped, Option.bind_some]

theorem closeAlone_finished {fuel : ℕ} (left : 0 < fuel) : closeAlone sock fuel (.finished, c) = some c := by
  obtain ⟨fuel, rfl⟩ := Nat.exists_eq_add_one.mpr left
  rw [closeAlone, if_pos rfl]

theorem filter_others {cells : List (Addr × ℕ)} (others : ∀ cell ∈ cells, cell.2 ≠ sock) :
    cells.filter (·.2 ≠ sock) = cells :=
  List.filter_eq_self.mpr fun cell member => decide_eq_true (others cell member)

/-- Without its own entry, the list has the entries of the other sockets. -/
theorem without_cells {a : Addr} (split : c.cells = front ++ (a, sock) :: rest) :
    (c.without a).cells = c.cells.filter (·.2 ≠ sock) := by
  have distinct := c.distinct
  have sockets := c.sockets
  rw [split] at distinct sockets
  obtain ⟨before, after, -⟩ := distinct_split distinct
  rw [List.map_append, List.map_cons, List.nodup_append] at sockets
  obtain ⟨-, behind, apart⟩ := sockets
  have early : ∀ cell ∈ front, cell.2 ≠ sock := fun cell member =>
    apart _ (List.mem_map_of_mem member) _ List.mem_cons_self
  have late : ∀ cell ∈ rest, cell.2 ≠ sock := fun cell member same =>
    (List.nodup_cons.mp behind).1 (List.mem_map.mpr ⟨cell, member, same⟩)
  calc erase c.cells a = front ++ rest := by rw [split, erase_split before after]
    _ = c.cells.filter (·.2 ≠ sock) := by
      rw [split, List.filter_append, List.filter_cons_of_neg (by simp), filter_others early, filter_others late]

/-- The search goes past the other sockets, and removes its own if it comes to it. -/
theorem closeAlone_testing (split : c.cells = front ++ rest) (passed : ∀ cell ∈ front, cell.2 ≠ sock)
    (extra : ℕ) :
    ∃ c', closeAlone sock (extra + 2 + 3 * rest.length) (.testing (first rest none) front.length, c) = some c' ∧
      c'.cells = c.cells.filter (·.2 ≠ sock) := by
  induction rest generalizing front with
  | nil =>
    rw [List.append_nil] at split
    have ended : closeConnectedClient c [] sock (.testing none front.length) = some (.finished, c) := by
      simp [closeConnectedClient, walk, split]
    refine ⟨c, ?_, by rw [split, filter_others passed]⟩
    exact (closeAlone_step (extra + 1) (by simp) ended).trans (closeAlone_finished (by omega))
  | cons cell rest ih =>
    obtain ⟨a, d⟩ := cell
    have distinct := c.distinct
    rw [split] at distinct
    obtain ⟨before, -, -⟩ := distinct_split distinct
    have tested : closeConnectedClient c [] sock (.testing (some a) front.length) =
        some (.visiting (some a) front.length, c) := by
      simp [closeConnectedClient, walk, split]
    have read : c.inspectSocket [] (some a) = some d := by
      simp [Clients.inspectSocket, split, datum_split before]
    have visited : closeConnectedClient c [] sock (.visiting (some a) front.length) =
        some (if sock = d then .removing (some a) else .stepping (some a) front.length, c) := by
      simp only [closeConnectedClient, read, Option.map_some]
    have arrived := (closeAlone_step (extra + 2 + 3 * rest.length + 2) (by simp) tested).trans
      (closeAlone_step (extra + 2 + 3 * rest.length + 1) (by simp) visited)
    by_cases mine : sock = d
    · subst mine
      have present : a ∈ addresses c.cells := by simp [split]
      have removed : closeConnectedClient c [] sock (.removing (some a)) = some (.finished, c.without a) := by
        simp only [closeConnectedClient, Clients.llistRemove_present present, Option.map_some]
      rw [if_pos rfl] at arrived
      refine ⟨c.without a, arrived.trans ?_, without_cells split⟩
      exact (closeAlone_step (extra + 2 + 3 * rest.length) (by simp) removed).trans
        (closeAlone_finished (by omega))
    · have stepped : closeConnectedClient c [] sock (.stepping (some a) front.length) =
          some (.testing (first rest none) (front ++ [(a, d)]).length, c) := by
        simp [closeConnectedClient, walk, split, following_split before]
      have passed : ∀ cell ∈ front ++ [(a, d)], cell.2 ≠ sock := by
        simpa [or_imp, forall_and, Ne.symm mine] using passed
      obtain ⟨c', closed, cells⟩ := ih (by simp [split]) passed
      rw [if_neg mine] at arrived
      exact ⟨c', arrived.trans ((closeAlone_step _ (by simp) stepped).trans closed), cells⟩

/-- The termination branch announces the slot and removes the socket, and closes nothing. -/
theorem terminate_announces (sock threadNum : ℕ) (r : Registry) :
    ∃ r', terminate sock threadNum r = some r' ∧ Announced sock threadNum r r' ∧
      r'.descriptors = r.descriptors := by
  have split : r.clients.cells = [] ++ r.clients.cells := rfl
  obtain ⟨c', closed, cells⟩ := @closeAlone_testing sock _ [] _ split (by simp) 0
  have started : closeConnectedClient r.clients [] sock .start =
      some (.testing (first r.clients.cells none) 0, r.clients) := rfl
  have fuel : 3 + 3 * r.clients.cells.length = 0 + 2 + 3 * r.clients.cells.length + 1 := by omega
  have searched : closeAlone sock (3 + 3 * r.clients.cells.length) (.start, r.clients) = some c' := by
    rw [fuel, closeAlone_step _ (by simp) started]
    exact closed
  refine ⟨⟨c', threadNum :: r.terminatedThreads, r.descriptors⟩, ?_, ⟨rfl, cells⟩, rfl⟩
  simp [terminate, Registry.closeConnectedClient, searched]

/-- No other branch does as much. -/
theorem left_iff {d : Deed} : Left sock threadNum d ↔ (∃ pdu, d.result = .pdu pdu) ∨ d.act = .leave := by
  refine or_congr_right ⟨fun leaves => ?_, fun leaves r => ?_⟩
  · by_contra other
    obtain ⟨r', performed, announced⟩ := leaves ⟨.empty, [], []⟩
    have kept : perform sock threadNum d.act ⟨.empty, [], []⟩ = some ⟨.empty, [], []⟩ := by
      cases act : d.act <;> first | rfl | exact absurd act other
    cases kept.symm.trans performed
    cases announced.slot
  · rw [leaves]
    obtain ⟨r', terminated, announced, -⟩ := terminate_announces sock threadNum r
    exact ⟨r', terminated, announced⟩

/-- No branch closes a socket that is open. -/
theorem handled_iff {d : Deed} : Handled sock threadNum d ↔ ∃ pdu, d.result = .pdu pdu := by
  refine ⟨fun handled => ?_, .inl⟩
  rcases handled with pdu | closes
  · exact pdu
  · obtain ⟨r', performed, closed⟩ := closes ⟨.empty, [], [sock]⟩
    have kept : r'.descriptors = [sock] := by
      cases act : d.act with
      | leave =>
        obtain ⟨r'', terminated, -, same⟩ := terminate_announces sock threadNum ⟨.empty, [], [sock]⟩
        rw [act] at performed
        cases terminated.symm.trans performed
        exact same
      | _ =>
        rw [act] at performed
        cases performed
        rfl
    exact absurd (kept ▸ List.mem_singleton_self sock) closed.shut

end Closing

theorem receivePdu_hearing {sock : ℕ} {conn next : Connection} {result : Received}
    (received : receivePdu sock conn = some (result, next)) : (∃ pdu, result = .pdu pdu) ↔ Hearing conn := by
  rcases receivePdu_receives received with ⟨r, script, header, body, heard, -, -, rfl⟩ | ⟨empty, -, -, rfl⟩ |
    ⟨-, -, unheard, rfl⟩
  · exact iff_of_true ⟨_, rfl⟩ ⟨r, heard⟩
  · refine iff_of_false nofun ?_
    rintro ⟨r, heard⟩
    have enough := heard.1
    simp [empty, HEADERSIZE] at enough
  · exact iff_of_false nofun fun ⟨r, heard⟩ => unheard r heard

section Server

variable {sock threadNum : ℕ} {l l' t : Listener} {calls : List Unit}

/-- One result of the server. -/
theorem left_iff_hears {result : Received} {conn : Connection} (going : l.listening ≠ .left)
    (received : receivePdu sock l.conn = some (result, conn)) :
    Left sock threadNum ⟨(actOn l.listening result).1, l.conn.pending, result⟩ ↔ Hears l := by
  rw [left_iff, Hears, ← receivePdu_hearing received, or_comm]
  refine or_congr_left ?_
  rcases receivePdu_receives received with ⟨r, script, header, body, heard, -, -, rfl⟩ |
    ⟨empty, usual, -, rfl⟩ | ⟨-, failed, -, rfl⟩
  · have pending : l.conn.pending ≠ [] := fun empty => by simp [Heard, empty, HEADERSIZE] at heard
    refine iff_of_false (fun leaves => ?_) fun ended => pending ended.2.1
    cases place : l.listening with
    | left => exact absurd place going
    | waiting => simp [actOn, place] at leaves
    | looping =>
      simp only [actOn, place] at leaves
      split_ifs at leaves
  · cases place : l.listening with
    | left => exact absurd place going
    | waiting => simp [actOn]
    | looping => simp [actOn, empty, usual]
  · refine iff_of_false ?_ fun ended => ended.2.2 (failed ended.2.1)
    cases place : l.listening with
    | left => exact absurd place going
    | waiting => simp [actOn]
    | looping => simp [actOn]

theorem left_step (l : Listener) (call : Unit) (l' : Listener) (stepped : listen sock l call = some l') :
    (∀ d ∈ l'.deeds, Left sock threadNum d) ↔ (∀ d ∈ l.deeds, Left sock threadNum d) ∧ Hears l := by
  obtain ⟨going, result, conn, received, rfl⟩ := listen_cases stepped
  rw [← @left_iff_hears sock threadNum l _ _ going received]
  simp [Listener.act, or_imp, forall_and]

theorem handled_step (l : Listener) (call : Unit) (l' : Listener) (stepped : listen sock l call = some l') :
    (∀ d ∈ l'.deeds, Handled sock threadNum d) ↔ (∀ d ∈ l.deeds, Handled sock threadNum d) ∧ Hearing l.conn := by
  obtain ⟨-, result, conn, received, rfl⟩ := listen_cases stepped
  rw [← receivePdu_hearing received]
  simp [Listener.act, handled_iff, or_imp, forall_and]

end Server

section Client

variable {clientServer : ℕ}

theorem client_step (c : ClientListener) (call : Unit) (c' : ClientListener)
    (stepped : clientListen clientServer c call = some c') :
    (∀ result ∈ c'.results, ∃ pdu, result = .pdu pdu) ↔
      (∀ result ∈ c.results, ∃ pdu, result = .pdu pdu) ∧ Hearing c.conn := by
  obtain ⟨-, result, conn, received, heard⟩ := clientListen_cases stepped
  rw [← receivePdu_hearing received, hear_results heard]
  simp [or_imp, forall_and]

end Client

/-- In a session of the server every result is a PDU or closes its connection exactly if each call makes a PDU.
All but the closing is right exactly if each call makes a PDU or finds the end of the stream in the loop. The
client tests no result, so each must be a PDU there too. -/
theorem failures_handled {sock threadNum clientServer : ℕ} {stream answers : Bytes}
    {script script' : List RecvChoice} {turns calls : List Unit} {l : Listener} {c : ClientListener}
    (serves : run (listen sock) (.start stream script) turns = some l)
    (listens : run (clientListen clientServer) (.start answers script') calls = some c) :
    ((∀ d ∈ l.deeds, Handled sock threadNum d) ↔
        Steps (listen sock) (fun l _ => Hearing l.conn) (.start stream script) turns) ∧
      ((∀ d ∈ l.deeds, Left sock threadNum d) ↔
        Steps (listen sock) (fun l _ => Hears l) (.start stream script) turns) ∧
      ((∀ result ∈ c.results, ∃ pdu, result = .pdu pdu) ↔
        Steps (clientListen clientServer) (fun c _ => Hearing c.conn) (.start answers script') calls) :=
  ⟨run_iff_steps handled_step (by simp [Listener.start]) serves,
    run_iff_steps left_step (by simp [Listener.start]) serves,
    run_iff_steps client_step (by simp [ClientListener.start]) listens⟩

/-- A client that joins and leaves, and one that is kicked: all is right until the end of the first stream, and
there all but the closing. -/
theorem failures_handled_join :
    Steps (listen 5) (fun l _ => Hearing l.conn) (.start [JOIN, 0, 0, 0] []) [()] ∧
      Steps (listen 5) (fun l _ => Hears l) (.start [JOIN, 0, 0, 0] []) [(), ()] ∧
      Steps (clientListen 3) (fun c _ => Hearing c.conn) (.start [QUIT, 0, 0, 0] []) [()] := by
  have joins : run (listen 5) (.start [JOIN, 0, 0, 0] []) [()] = some ⟨.looping, ⟨[], []⟩,
      [⟨.join, [JOIN, 0, 0, 0], .pdu ⟨JOIN, 0, .join 0 [0]⟩⟩]⟩ := rfl
  have leaves : run (listen 5) (.start [JOIN, 0, 0, 0] []) [(), ()] = some ⟨.left, ⟨[], []⟩,
      [⟨.join, [JOIN, 0, 0, 0], .pdu ⟨JOIN, 0, .join 0 [0]⟩⟩, ⟨.leave, [], .endOfStream⟩]⟩ := rfl
  have listens : run (clientListen 3) (.start [QUIT, 0, 0, 0] []) [()] =
      some ⟨.kicked, 0, ⟨[], []⟩, [.pdu ⟨QUIT, 0, .quit 3⟩]⟩ := rfl
  obtain ⟨handled, -, client⟩ := @failures_handled 5 0 3 _ _ _ _ _ _ _ _ joins listens
  obtain ⟨-, left, -⟩ := @failures_handled 5 0 3 _ _ _ _ _ _ _ _ leaves listens
  refine ⟨handled.mp fun d member => ?_, left.mp fun d member => ?_, client.mp fun result member => ?_⟩
  · exact .inl ⟨_, congrArg Deed.result (List.mem_singleton.mp member)⟩
  · rw [left_iff]
    rcases List.mem_pair.mp member with rfl | rfl
    · exact .inl ⟨_, rfl⟩
    · exact .inr rfl
  · exact ⟨_, List.mem_singleton.mp member⟩

/-- The end of the stream before a JOIN is used as a PDU, an invalid opcode behind it makes the loop follow
NULL, the end of the stream in the loop leaves the connection open, and the client follows the sentinel. -/
theorem failures_followed :
    (∃ l, run (listen 5) (.start [] []) [()] = some l ∧ ⟨.join, [], .endOfStream⟩ ∈ l.deeds ∧
      ¬Handled 5 0 ⟨.join, [], .endOfStream⟩) ∧
    (∃ l, run (listen 5) (.start [JOIN, 0, 0, 0, 99, 0, 0, 0] []) [(), ()] = some l ∧
      ⟨.follow, [99, 0, 0, 0], .null⟩ ∈ l.deeds ∧ ¬Handled 5 0 ⟨.follow, [99, 0, 0, 0], .null⟩) ∧
    (∃ l, run (listen 5) (.start [JOIN, 0, 0, 0] []) [(), ()] = some l ∧
      ⟨.leave, [], .endOfStream⟩ ∈ l.deeds ∧ ¬Handled 5 0 ⟨.leave, [], .endOfStream⟩) ∧
    run (clientListen 3) (.start [] []) [()] = some ⟨.following, 0, ⟨[], []⟩, [.endOfStream]⟩ := by
  refine ⟨⟨_, rfl, List.mem_singleton_self _, ?_⟩, ⟨_, rfl, List.mem_pair.mpr (.inr rfl), ?_⟩,
    ⟨_, rfl, List.mem_pair.mpr (.inr rfl), ?_⟩, rfl⟩
  all_goals
    rw [handled_iff]
    simp

end Operativsystem.Pipeline
