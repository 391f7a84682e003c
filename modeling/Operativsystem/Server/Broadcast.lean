import Operativsystem.Server.Clients

/-! # The broadcast reaches every client that stays

`kernel_communication` walks `clients_sockets` without its mutex while clients come and go. The
loop counts the entries it has passed and compares with the length of the list at that time, so it
is right as long as its count is the place of its position. An entry that is removed in front of
the position breaks that, and the last clients do not get the response.
-/

namespace Operativsystem.Server

open Segment Cursor Machine

structure BroadcastState where
  clients : Clients
  pc : WalkPc
  sent : List ℕ

def BroadcastState.start (c : Clients) : BroadcastState := ⟨c, .start, []⟩

/-- A step of the loop, a new client, or the removal of a client by its listener thread. -/
inductive BroadcastEvent where
  | loop
  | insertlast (sock : ℕ)
  | remove (a : Addr)
deriving DecidableEq

def broadcastStep (s : BroadcastState) : BroadcastEvent → Option BroadcastState
  | .loop => (broadcastLoop s.clients [] s.pc).map fun (pc, sock) =>
    { s with pc := pc, sent := s.sent ++ sock.toList }
  | .insertlast sock =>
    if new : sock ∉ s.clients.cells.map Prod.snd then
      some { s with clients := s.clients.llistInsertlast sock new }
    else none
  | .remove a => (s.clients.llistRemove (some a)).map fun c => { s with clients := c }

/-- The position is at an entry, and `i` entries are in front of it. -/
def AtPlace (c : Clients) (p : Ptr) (i : ℕ) : Prop :=
  ∃ a, p = some a ∧ a ∈ addresses c.cells ∧ place c.cells a = i

/-- The count and the position agree on what is left to do: the position is at the entry with that
many in front of it, or it is at no entry and the count has reached the length. -/
def Agrees (c : Clients) : WalkPc → Prop
  | .testing p i => AtPlace c p i ∨ ((∀ a, p = some a → a ∉ addresses c.cells) ∧ c.cells.length ≤ i)
  | .visiting p i => AtPlace c p i
  | .stepping p i => AtPlace c p i
  | _ => True

/-- The change that another thread makes to the list leaves count and position in agreement. -/
def Steady (s : BroadcastState) (e : BroadcastEvent) : Prop :=
  e = .loop ∨ ∀ s', broadcastStep s e = some s' → Agrees s'.clients s.pc

/-- How many entries of the list, from the front, the loop is done with. -/
def passed (c : Clients) : WalkPc → ℕ
  | .start => 0
  | .testing _ i => i
  | .visiting _ i => i
  | .stepping _ i => i + 1
  | .removing _ => 0
  | .finished => c.cells.length

/-- Every client of `old` that is still in the list has been sent the response once if the loop is
done with it, and not at all otherwise. -/
structure Served (old c : Clients) (pc : WalkPc) (sent : List ℕ) : Prop where
  agrees : Agrees c pc
  searching : ∀ p, pc ≠ .removing p
  nodes : old.nodes ≤ c.nodes
  done : ∀ a sock, (a, sock) ∈ old.cells → (a, sock) ∈ c.cells → place c.cells a < passed c pc →
    sent.count sock = 1
  left : ∀ a sock, (a, sock) ∈ old.cells → (a, sock) ∈ c.cells → passed c pc ≤ place c.cells a →
    sent.count sock = 0

theorem served_start (c : Clients) : Served c c .start [] :=
  ⟨trivial, by simp, le_rfl, fun _ _ _ _ early => absurd early (Nat.not_lt_zero _), fun _ _ _ _ _ => rfl⟩

section Places

variable {c : Clients}

theorem Clients.socket_inj {a b : Addr} {sock : ℕ} (left : (a, sock) ∈ c.cells)
    (right : (b, sock) ∈ c.cells) : a = b :=
  congrArg Prod.fst (List.inj_on_of_nodup_map c.sockets left right rfl)

theorem Clients.address_inj {a : Addr} {sock other : ℕ} (left : (a, sock) ∈ c.cells)
    (right : (a, other) ∈ c.cells) : sock = other :=
  congrArg Prod.snd (List.inj_on_of_nodup_map c.distinct left right rfl)

/-- The position behind the first entries of the list. -/
theorem agrees_first (front rest : List (Addr × ℕ)) (split : c.cells = front ++ rest) :
    Agrees c (.testing (first rest none) front.length) := by
  cases rest with
  | nil => exact .inr ⟨by simp, by simp [split]⟩
  | cons cell rest =>
    obtain ⟨a, sock⟩ := cell
    have outside : a ∉ addresses front := by
      have distinct := c.distinct
      rw [split] at distinct
      exact (distinct_split distinct).1
    exact .inl ⟨a, rfl, by simp [split], by rw [split, place_split outside]⟩

/-- The position of a running loop that agrees with its count can be read. -/
theorem AtPlace.split {p : Ptr} {i : ℕ} (atPlace : AtPlace c p i) :
    ∃ a sock front rest, p = some a ∧ c.cells = front ++ (a, sock) :: rest ∧ front.length = i ∧
      c.inspectSocket [] p = some sock ∧ following c.cells p = some (first rest none) := by
  obtain ⟨a, rfl, present, placed⟩ := atPlace
  obtain ⟨front, sock, rest, split, outside⟩ := exists_split present
  refine ⟨a, sock, front, rest, rfl, split, ?_, ?_, ?_⟩
  · rw [split, place_split outside] at placed
    exact placed
  · simp [Clients.inspectSocket, split, datum_split outside]
  · rw [split, following_split outside]

end Places

section Loop

variable {old c : Clients} {pc pc' : WalkPc} {sent : List ℕ} {sock : Option ℕ}

/-- The loop sends the response to the client at its position, which it has not sent to before. -/
theorem visiting_served {p : Ptr} {i : ℕ} (served : Served old c (.visiting p i) sent)
    (stepped : broadcastLoop c [] (.visiting p i) = some (pc', sock)) :
    Served old c pc' (sent ++ sock.toList) := by
  obtain ⟨agrees, -, nodes, done, left⟩ := served
  obtain ⟨a, tempSocket, front, rest, rfl, split, length, read, -⟩ := AtPlace.split agrees
  have visited : (a, tempSocket) ∈ c.cells := by simp [split]
  have placed : place c.cells a = i := by
    obtain ⟨a', same, -, placed⟩ := agrees
    exact Option.some.inj same ▸ placed
  obtain ⟨rfl, rfl⟩ : .stepping (some a) i = pc' ∧ some tempSocket = sock := by
    simpa [broadcastLoop, read] using stepped
  refine ⟨agrees, by simp, nodes, ?_, ?_⟩
  · intro b other known member early
    simp only [passed, Option.toList_some, List.count_append] at early ⊢
    by_cases self : b = a
    · subst self
      obtain rfl := c.address_inj member visited
      simp [left b other known member placed.ge]
    · have different : tempSocket ≠ other := fun same => self (c.socket_inj member (same ▸ visited))
      have apart : place c.cells b ≠ place c.cells a := fun same =>
        self (place_inj (mem_addresses member) same)
      rw [done b other known member (show place c.cells b < i by omega)]
      simp [different]
  · intro b other known member late
    simp only [passed, Option.toList_some, List.count_append] at late ⊢
    have different : tempSocket ≠ other := by
      rintro rfl
      obtain rfl := c.socket_inj member visited
      omega
    rw [left b other known member (show i ≤ place c.cells b by omega)]
    simp [different]

theorem loop_served (served : Served old c pc sent)
    (stepped : broadcastLoop c [] pc = some (pc', sock)) : Served old c pc' (sent ++ sock.toList) := by
  cases pc with
  | visiting p i => exact visiting_served served stepped
  | removing p => exact absurd rfl (served.searching p)
  | finished => cases stepped
  | start =>
    obtain ⟨rfl, rfl⟩ := Prod.mk.inj (Option.some.inj stepped)
    rw [Option.toList_none, List.append_nil]
    exact ⟨agrees_first [] c.cells rfl, by simp, served.nodes, served.done, served.left⟩
  | testing p i =>
    obtain ⟨rfl, rfl⟩ := Prod.mk.inj (Option.some.inj stepped)
    rw [Option.toList_none, List.append_nil]
    by_cases more : i < c.cells.length
    · have placed : AtPlace c p i := served.agrees.resolve_right fun beyond => not_le.mpr more beyond.2
      rw [if_pos more]
      exact ⟨placed, by simp, served.nodes, served.done, served.left⟩
    · rw [if_neg more]
      refine ⟨trivial, by simp, served.nodes, ?_, ?_⟩
      · intro a sock known member inside
        exact served.done a sock known member (inside.trans_le (not_lt.mp more))
      · intro a sock known member outside
        exact absurd (place_lt (mem_addresses member)) (not_lt.mpr outside)
  | stepping p i =>
    obtain ⟨a, tempSocket, front, rest, rfl, split, length, -, next⟩ := AtPlace.split served.agrees
    obtain ⟨rfl, rfl⟩ : .testing (first rest none) (i + 1) = pc' ∧ none = sock := by
      simpa [broadcastLoop, walk, next] using stepped
    have behind := agrees_first (c := c) (front ++ [(a, tempSocket)]) rest (by simp [split])
    rw [List.length_append, length] at behind
    rw [Option.toList_none, List.append_nil]
    exact ⟨behind, by simp, served.nodes, served.done, served.left⟩

/-- A running loop that can be in agreement with its list takes its next step. -/
theorem loop_enabled (agrees : Agrees c pc) (searching : ∀ p, pc ≠ .removing p) (running : pc ≠ .finished) :
    (broadcastLoop c [] pc).isSome := by
  cases pc with
  | start => rfl
  | testing p i => rfl
  | visiting p i =>
    obtain ⟨a, tempSocket, front, rest, -, -, -, read, -⟩ := AtPlace.split agrees
    simp [broadcastLoop, read]
  | stepping p i =>
    obtain ⟨a, tempSocket, front, rest, -, -, -, -, next⟩ := AtPlace.split agrees
    simp [broadcastLoop, walk, next]
  | removing p => exact absurd rfl (searching p)
  | finished => exact absurd rfl running

end Loop

section Changes

variable {old c : Clients} {pc : WalkPc} {sent : List ℕ}

theorem insertlast_served (served : Served old c pc sent) {sock : ℕ} (new : sock ∉ c.cells.map Prod.snd)
    (agrees : Agrees (c.llistInsertlast sock new) pc) :
    Served old (c.llistInsertlast sock new) pc sent := by
  have kept {a : Addr} {other : ℕ} (known : (a, other) ∈ old.cells)
      (member : (a, other) ∈ (c.llistInsertlast sock new).cells) :
      (a, other) ∈ c.cells ∧ place (c.llistInsertlast sock new).cells a = place c.cells a := by
    have early : a < c.nodes := (old.allocated a (mem_addresses known)).trans_le served.nodes
    have member : (a, other) ∈ c.cells := by
      apply (List.mem_append.mp member).resolve_right
      intro same
      obtain ⟨rfl, -⟩ := Prod.mk.inj (List.mem_singleton.mp same)
      exact lt_irrefl _ early
    exact ⟨member, place_front (mem_addresses member) _⟩
  refine ⟨agrees, served.searching, served.nodes.trans (Nat.le_succ _), ?_, ?_⟩
  · intro a other known member inside
    obtain ⟨member, same⟩ := kept known member
    apply served.done a other known member
    rw [same] at inside
    cases pc <;> first | exact inside | exact place_lt (mem_addresses member)
  · intro a other known member outside
    obtain ⟨member, same⟩ := kept known member
    apply served.left a other known member
    rw [same] at outside
    cases pc <;> first
      | exact outside
      | exact (Nat.le_succ _).trans ((List.length_append ..).symm.trans_le outside)

/-- A removal that leaves count and position in agreement removes no entry that the loop still has
in front of it, or the one at its position when no other is left. -/
theorem remove_served (served : Served old c pc sent) {q : Addr} (present : q ∈ addresses c.cells)
    (agrees : Agrees (c.without q) pc) : Served old (c.without q) pc sent := by
  have sizes : (c.without q).cells.length + 1 = c.cells.length := erase_length c.distinct present
  have kept {a : Addr} {other : ℕ} (member : (a, other) ∈ (c.without q).cells) :
      (a, other) ∈ c.cells ∧
        (place (c.without q).cells a < passed (c.without q) pc ↔ place c.cells a < passed c pc) := by
    obtain ⟨inside, different⟩ := mem_erase.mp member
    have stays := mem_addresses inside
    have moved := place_erase c.distinct present stays different
    have short := place_lt (mem_addresses member)
    have shortBefore := place_lt stays
    -- with the position at an entry before and after, the removed entry is behind it
    have fixed {p : Ptr} {i : ℕ} (before : AtPlace c p i) (after : AtPlace (c.without q) p i) :
        i < place c.cells q ∧ (place c.cells a = i → place (c.without q).cells a = i) := by
      obtain ⟨b, rfl, there, placed⟩ := before
      obtain ⟨b', same, there', placed'⟩ := after
      obtain rfl := Option.some.inj same
      have other := (mem_addresses_erase.mp there').2
      have steady := place_erase c.distinct present there other
      have apart : place c.cells b ≠ place c.cells q := fun same => other (place_inj there same)
      change place (erase c.cells q) b = i at placed'
      refine ⟨?_, fun same => ?_⟩
      · split_ifs at steady <;> omega
      · obtain rfl := place_inj stays (same.trans placed.symm)
        exact placed'
    change place (c.without q).cells a + _ = _ at moved
    refine ⟨inside, ?_⟩
    cases pc with
    | start => simp [passed]
    | removing p => exact absurd rfl (served.searching p)
    | finished => exact iff_of_true short shortBefore
    | visiting p i =>
      obtain ⟨behind, self⟩ := fixed served.agrees agrees
      simp only [passed]
      split_ifs at moved <;> omega
    | stepping p i =>
      obtain ⟨behind, self⟩ := fixed served.agrees agrees
      simp only [passed]
      split_ifs at moved <;> omega
    | testing p i =>
      simp only [passed]
      rcases served.agrees with before | ⟨-, beyond⟩
      · rcases agrees with after | ⟨outside, beyond⟩
        · obtain ⟨behind, self⟩ := fixed before after
          split_ifs at moved <;> omega
        · obtain ⟨b, rfl, there, placed⟩ := before
          have gone : b = q := by
            by_contra other
            exact outside b rfl (mem_addresses_erase.mpr ⟨there, other⟩)
          have apart : place c.cells a ≠ place c.cells b := fun same =>
            different (gone ▸ place_inj stays same)
          omega
      · omega
  refine ⟨agrees, served.searching, served.nodes, ?_, ?_⟩
  · intro a other known member inside
    obtain ⟨member, same⟩ := kept member
    exact served.done a other known member (same.mp inside)
  · intro a other known member outside
    obtain ⟨member, same⟩ := kept member
    exact served.left a other known member (not_lt.mp fun early => not_lt.mpr outside (same.mpr early))

end Changes

theorem step_served (old : Clients) (s : BroadcastState) (e : BroadcastEvent) (s' : BroadcastState)
    (steady : Steady s e) (served : Served old s.clients s.pc s.sent)
    (stepped : broadcastStep s e = some s') : Served old s'.clients s'.pc s'.sent := by
  obtain ⟨c, pc, sent⟩ := s
  cases e with
  | loop =>
    obtain ⟨⟨pc', sock⟩, moved, rfl⟩ := Option.map_eq_some_iff.mp stepped
    exact loop_served served moved
  | insertlast sock =>
    have agrees := steady.resolve_left (by simp) s' stepped
    simp only [broadcastStep] at stepped
    split_ifs at stepped with new
    obtain rfl := Option.some.inj stepped
    exact insertlast_served served new agrees
  | remove a =>
    have agrees := steady.resolve_left (by simp) s' stepped
    obtain ⟨c', removed, rfl⟩ := Option.map_eq_some_iff.mp stepped
    by_cases present : a ∈ addresses c.cells
    · obtain rfl := Option.some.inj ((Clients.llistRemove_present present).symm.trans removed)
      exact remove_served served present agrees
    · by_cases empty : c.cells = []
      · obtain rfl : c = c' := by simpa [Clients.llistRemove, empty] using removed
        exact served
      · simp [Clients.llistRemove, empty, present] at removed

/-- A client stays in the list until its own entry is removed. -/
theorem step_stays (a : Addr) (sock : ℕ) (s : BroadcastState) (e : BroadcastEvent) (s' : BroadcastState)
    (other : e ≠ .remove a) (member : (a, sock) ∈ s.clients.cells)
    (stepped : broadcastStep s e = some s') : (a, sock) ∈ s'.clients.cells := by
  cases e with
  | loop =>
    obtain ⟨moved, -, rfl⟩ := Option.map_eq_some_iff.mp stepped
    exact member
  | insertlast sock =>
    simp only [broadcastStep] at stepped
    split_ifs at stepped
    obtain rfl := Option.some.inj stepped
    exact List.mem_append_left _ member
  | remove b =>
    obtain ⟨c', removed, rfl⟩ := Option.map_eq_some_iff.mp stepped
    by_cases present : b ∈ addresses s.clients.cells
    · obtain rfl := Option.some.inj ((Clients.llistRemove_present present).symm.trans removed)
      exact mem_erase.mpr ⟨member, fun same => other (same ▸ rfl)⟩
    · simp [Clients.llistRemove, present, List.ne_nil_of_mem member] at removed

/-- While other threads leave count and position in agreement, the loop never follows NULL or a
released node, and once it is through, every client that was in the list before it and has not been
removed has been sent the response exactly once. -/
theorem broadcast_reaches_all {c : Clients} {events : List BroadcastEvent} {s : BroadcastState}
    (ran : run broadcastStep (.start c) events = some s)
    (steady : Steps broadcastStep Steady (.start c) events) :
    (s.pc ≠ .finished → ∃ s', broadcastStep s .loop = some s') ∧
    (s.pc = .finished → ∀ a sock, (a, sock) ∈ c.cells → .remove a ∉ events → s.sent.count sock = 1) := by
  have served : Served c s.clients s.pc s.sent :=
    run_invariant_of_steps (step_served c) (served_start c) steady ran
  constructor
  · intro running
    obtain ⟨moved, next⟩ := Option.isSome_iff_exists.mp
      (loop_enabled served.agrees served.searching running)
    exact ⟨_, by rw [broadcastStep, next]; rfl⟩
  · intro finished a sock known stays
    have member : (a, sock) ∈ s.clients.cells := by
      refine run_invariant_of_steps (step_stays a sock) known (Steps.of_forall fun e member _ => ?_) ran
      rintro rfl
      exact stays member
    apply served.done a sock known member
    rw [finished]
    exact place_lt (mem_addresses member)

/-- Two connected clients. -/
def twoClients : Clients := (Clients.empty.llistInsertlast 5 (by decide)).llistInsertlast 6 (by decide)

/-- A third client joins while the loop is at the first of two. -/
theorem broadcast_reaches_all_newcomer :
    let events : List BroadcastEvent := [.loop, .loop, .insertlast 7] ++ List.replicate 9 .loop
    ∃ s, run broadcastStep (.start twoClients) events = some s ∧ s.pc = .finished ∧
      s.sent = [5, 6, 7] ∧ s.sent.count 6 = 1 := by
  intro events
  have steady : Steps broadcastStep Steady (.start twoClients) events := by
    refine .cons (.inl rfl) rfl (.cons (.inl rfl) rfl (.cons (.inr ?_) rfl
      (.of_forall fun e member _ => .inl (List.eq_of_mem_replicate member))))
    intro s' stepped
    obtain rfl := Option.some.inj stepped
    exact ⟨0, rfl, by decide, by decide⟩
  obtain ⟨-, sent⟩ := broadcast_reaches_all
    (s := ⟨twoClients.llistInsertlast 7 (by decide), .finished, [5, 6, 7]⟩) rfl steady
  exact ⟨_, rfl, rfl, rfl, sent rfl 1 6 (by decide) (by decide)⟩

/-- The loop has sent to the first client and is at the second when the first one leaves: the
second gets nothing. When a client leaves while the loop is at its entry, or joins when the loop
has run off the end, the loop follows a pointer to no entry. -/
theorem broadcast_skips_last :
    (∃ s, run broadcastStep (.start twoClients) (List.replicate 4 .loop ++ [.remove 0, .loop]) = some s ∧
      s.pc = .finished ∧ (1, 6) ∈ twoClients.cells ∧ s.sent.count 6 = 0) ∧
    (∃ s, run broadcastStep (.start twoClients) [.loop, .loop, .remove 0] = some s ∧
      s.pc = .visiting (some 0) 0 ∧ broadcastStep s .loop = none) ∧
    (∃ s, run broadcastStep (.start Clients.empty) [.loop, .insertlast 5, .loop] = some s ∧
      s.pc = .visiting none 0 ∧ broadcastStep s .loop = none) := by
  refine ⟨⟨⟨twoClients.without 0, .finished, [5]⟩, rfl, rfl, by decide, rfl⟩,
    ⟨⟨twoClients.without 0, .visiting (some 0) 0, []⟩, rfl, rfl, rfl⟩,
    ⟨⟨Clients.empty.llistInsertlast 5 (by decide), .visiting none 0, []⟩, rfl, rfl, rfl⟩⟩

end Operativsystem.Server
