import Operativsystem.Library.Machine
import Operativsystem.Resources.ListCursor

/-! # The connected clients and the loops over them

`clients_sockets` has one entry for each client; the entry points to the socket number in the
client's record. The descriptors of open connections are distinct, and so are the addresses of the
nodes: an address that has been released is not used again, so following it shows. Two loops walk
the list while other threads change it, the broadcast of `kernel_communication` and the search of
`close_connected_client`; both read the length anew in every round.
-/

namespace Operativsystem.Server

open Segment Cursor Resources

/-- `clients_sockets`, and how many nodes have been allocated for it. -/
structure Clients where
  cells : List (Addr × ℕ)
  nodes : ℕ
  allocated : ∀ a ∈ addresses cells, a < nodes
  distinct : (addresses cells).Nodup
  sockets : (cells.map Prod.snd).Nodup

namespace Clients

def empty : Clients := ⟨[], 0, by simp, .nil, .nil⟩

/-- `llist_insertlast` of a client whose socket is not in the list. -/
def llistInsertlast (c : Clients) (sock : ℕ) (new : sock ∉ c.cells.map Prod.snd) : Clients where
  cells := c.cells ++ [(c.nodes, sock)]
  nodes := c.nodes + 1
  allocated a member := by
    rcases List.mem_append.mp (addresses_append .. ▸ member) with old | same
    · exact (c.allocated a old).trans (Nat.lt_succ_self _)
    · simp_all
  distinct := by
    have outside : c.nodes ∉ addresses c.cells := fun inside => lt_irrefl _ (c.allocated _ inside)
    simpa using List.Nodup.concat outside c.distinct
  sockets := by
    simpa using List.Nodup.concat new c.sockets

/-- The list without the entry at an address. -/
def without (c : Clients) (a : Addr) : Clients where
  cells := erase c.cells a
  nodes := c.nodes
  allocated b member := c.allocated b (mem_addresses_erase.mp member).1
  distinct := c.distinct.sublist ((erase_sublist c.cells a).map _)
  sockets := c.sockets.sublist ((erase_sublist c.cells a).map _)

/-- `llist_remove`, which leaves an empty list as it is. -/
def llistRemove (c : Clients) (p : Ptr) : Option Clients :=
  if c.cells = [] then some c
  else p.bind fun a => if a ∈ addresses c.cells then some (c.without a) else none

/-- `*(int *)llist_inspect(p, clients_sockets)`, where the records in `released` are gone. -/
def inspectSocket (c : Clients) (released : List ℕ) (p : Ptr) : Option ℕ := do
  let sock ← datum c.cells p
  if sock ∈ released then none else some sock

theorem llistRemove_present {c : Clients} {a : Addr} (present : a ∈ addresses c.cells) :
    c.llistRemove (some a) = some (c.without a) := by
  have nonempty : c.cells ≠ [] := by
    rintro none
    simp [none] at present
  simp [llistRemove, nonempty, present]

/-- A removal from several entries leaves one. -/
theorem llistRemove_leaves {c c' : Clients} {p : Ptr} (several : 1 < c.cells.length)
    (removed : c.llistRemove p = some c') : c'.cells ≠ [] := by
  have nonempty : c.cells ≠ [] := List.ne_nil_of_length_pos (by omega)
  rw [llistRemove, if_neg nonempty] at removed
  obtain ⟨a, -, removed⟩ := Option.bind_eq_some_iff.mp removed
  split_ifs at removed with present
  cases removed
  have size : (c.without a).cells.length + 1 = c.cells.length := erase_length c.distinct present
  exact List.ne_nil_of_length_pos (by omega)

/-- On the pointer list the removal does the same. -/
theorem llistRemove_refines {l : LList ℕ} {c c' : Clients} (rep : LList.Represents l c.cells) {a : Addr}
    (removed : c.llistRemove (some a) = some c') :
    ∃ l' nextpos, l.llistRemove (some a) = some (l', nextpos) ∧ LList.Represents l' c'.cells := by
  by_cases empty : c.cells = []
  · obtain rfl : c = c' := by simpa [llistRemove, empty] using removed
    have head : l.headNext = none := rep.head.trans (by rw [empty]; rfl)
    refine ⟨l, some a, ?_, rep⟩
    obtain ⟨headNext, tailPrevious, heap, held⟩ := l
    obtain rfl : held = false := rep.unlocked
    simp_all [LList.llistRemove, LList.lock, LList.unlock, LList.llistIsEmpty]
  · by_cases present : a ∈ addresses c.cells
    · obtain rfl := Option.some.inj ((llistRemove_present present).symm.trans removed)
      exact Resources.llistRemove_present rep present
    · simp [llistRemove, empty, present] at removed

end Clients

/-- Where a thread is in `p = llist_first(l); for (i = 0; i < list_length(l); ++i) { .. }`: before
it, at its test, at the inspection of `p`, at `p = llist_next(p)`, at the removal of `p`, or out. -/
inductive WalkPc where
  | start
  | testing (p : Ptr) (i : ℕ)
  | visiting (p : Ptr) (i : ℕ)
  | stepping (p : Ptr) (i : ℕ)
  | removing (p : Ptr)
  | finished
deriving DecidableEq, Repr

/-- The steps that the loops share. -/
def walk (c : Clients) : WalkPc → Option WalkPc
  | .start => some (.testing (first c.cells none) 0)
  | .testing p i => some (if i < c.cells.length then .visiting p i else .finished)
  | .visiting _ _ => none
  | .stepping p i => (following c.cells p).map fun q => .testing q (i + 1)
  | .removing _ => none
  | .finished => none

/-- One step of the broadcast, and the socket that is sent the response in it. -/
def broadcastLoop (c : Clients) (released : List ℕ) : WalkPc → Option (WalkPc × Option ℕ)
  | .visiting p i => (c.inspectSocket released p).map fun tempSocket => (.stepping p i, some tempSocket)
  | pc => (walk c pc).map fun pc => (pc, none)

/-- One step of `close_connected_client(client_sock, 1)`. -/
def closeConnectedClient (c : Clients) (released : List ℕ) (clientSock : ℕ) :
    WalkPc → Option (WalkPc × Clients)
  | .visiting p i => (c.inspectSocket released p).map fun sock =>
    (if clientSock = sock then .removing p else .stepping p i, c)
  | .removing p => (c.llistRemove p).map fun c => (.finished, c)
  | pc => (walk c pc).map fun pc => (pc, c)

/-- The pointer is at the entry of the socket. -/
def Own (c : Clients) (sock : ℕ) (p : Ptr) : Prop := ∃ b, p = some b ∧ (b, sock) ∈ c.cells

theorem inspectSocket_own {c : Clients} {released : List ℕ} {p : Ptr} {sock : ℕ}
    (read : c.inspectSocket released p = some sock) : Own c sock p := by
  obtain ⟨d, found, same⟩ := Option.bind_eq_some_iff.mp read
  split_ifs at same
  obtain rfl := Option.some.inj same
  cases p with
  | none => cases found
  | some b =>
    by_cases present : b ∈ addresses c.cells
    · obtain ⟨xs, e, ys, split, outside⟩ := exists_split present
      rw [split, datum_split outside] at found
      obtain rfl := Option.some.inj found
      exact ⟨b, rfl, by simp [split]⟩
    · cases (datum_eq_none present).symm.trans found

/-- A search goes on and leaves the list as it is, or it removes the entry it has found. -/
theorem closeConnectedClient_cases {c c' : Clients} {released : List ℕ} {sock : ℕ} {pc pc' : WalkPc}
    (stepped : closeConnectedClient c released sock pc = some (pc', c')) :
    (c' = c ∧ (∀ p, pc ≠ .removing p) ∧ ∀ p, pc' = .removing p → Own c sock p) ∨
    (∃ p, pc = .removing p ∧ pc' = .finished ∧ c.llistRemove p = some c') := by
  cases pc with
  | start =>
    obtain ⟨rfl, rfl⟩ := Prod.mk.inj (Option.some.inj stepped)
    exact .inl ⟨rfl, by simp, by simp⟩
  | testing p i =>
    obtain ⟨rfl, rfl⟩ := Prod.mk.inj (Option.some.inj stepped)
    exact .inl ⟨rfl, by simp, by split_ifs <;> simp⟩
  | visiting p i =>
    obtain ⟨temp, read, same⟩ := Option.map_eq_some_iff.mp stepped
    obtain ⟨rfl, rfl⟩ := Prod.mk.inj same
    refine .inl ⟨rfl, by simp, fun q removing => ?_⟩
    split_ifs at removing with mine
    obtain rfl := WalkPc.removing.inj removing
    exact mine ▸ inspectSocket_own read
  | stepping p i =>
    simp only [closeConnectedClient, walk, Option.map_map] at stepped
    obtain ⟨q, -, same⟩ := Option.map_eq_some_iff.mp stepped
    obtain ⟨rfl, rfl⟩ := Prod.mk.inj same
    exact .inl ⟨rfl, by simp, by simp⟩
  | removing p =>
    obtain ⟨removed, found, same⟩ := Option.map_eq_some_iff.mp stepped
    obtain ⟨rfl, rfl⟩ := Prod.mk.inj same
    exact .inr ⟨p, rfl, rfl, found⟩
  | finished => cases stepped

/-- A search only takes entries away. -/
theorem closeConnectedClient_subset {c c' : Clients} {released : List ℕ} {sock : ℕ} {pc pc' : WalkPc}
    (stepped : closeConnectedClient c released sock pc = some (pc', c')) : c'.cells ⊆ c.cells := by
  rcases closeConnectedClient_cases stepped with ⟨rfl, -⟩ | ⟨p, -, -, removed⟩
  · exact List.Subset.refl _
  · rw [Clients.llistRemove] at removed
    split_ifs at removed
    · cases removed
      exact List.Subset.refl _
    · obtain ⟨a, -, removed⟩ := Option.bind_eq_some_iff.mp removed
      split_ifs at removed
      cases removed
      exact (erase_sublist _ _).subset

end Operativsystem.Server
