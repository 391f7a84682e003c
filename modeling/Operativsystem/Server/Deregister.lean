import Operativsystem.Library.Conservation
import Operativsystem.Server.Broadcast

/-! # Clients that disconnect at the same time

Each listener thread whose client has left searches the list for its own entry and removes it,
without a lock around the search. A removal by another thread moves the entries that follow, while
the count of a thread that has passed the removed entry stays: it stops too early when fewer entries
are behind its own than were removed in front of its position.
-/

namespace Operativsystem.Server

open Segment Cursor Machine

/-- A thread in `close_connected_client`. -/
structure Search where
  sock : ℕ
  pc : WalkPc
deriving DecidableEq

structure SearchState where
  clients : Clients
  searches : List Search

def SearchState.start (c : Clients) (socks : List ℕ) : SearchState := ⟨c, socks.map (⟨·, .start⟩)⟩

/-- One step of the thread with the given number. -/
def searchStep (s : SearchState) (t : ℕ) : Option SearchState :=
  match s.searches[t]? with
  | none => none
  | some x => (closeConnectedClient s.clients [] x.sock x.pc).map fun (pc, c) =>
    ⟨c, s.searches.set t { x with pc := pc }⟩

/-- The position is `ahead` entries or more in front of the own entry, and the count will still be
below the length when the position gets there. -/
def OnTrack (c : Clients) (sock : ℕ) (p : Ptr) (i ahead : ℕ) : Prop :=
  ∃ a b, p = some a ∧ a ∈ addresses c.cells ∧ (b, sock) ∈ c.cells ∧
    place c.cells a + ahead ≤ place c.cells b ∧ i + place c.cells b < c.cells.length + place c.cells a

/-- A search that has not found its entry yet will find it if no other thread removes an entry. -/
def Search.Finds (c : Clients) (x : Search) : Prop :=
  match x.pc with
  | .start => True
  | .testing p i => OnTrack c x.sock p i 0
  | .visiting p i => Own c x.sock p ∨ OnTrack c x.sock p i 1
  | .stepping p i => OnTrack c x.sock p i 1
  | .removing p => Own c x.sock p
  | .finished => True

/-- A thread that removes its entry leaves all other searches on their way to theirs. -/
def Spares (s : SearchState) (t : ℕ) : Prop :=
  ∀ sock a, s.searches[t]? = some ⟨sock, .removing (some a)⟩ →
    ∀ u y, u ≠ t → s.searches[u]? = some y → y.Finds (s.clients.without a)

/-- The position is at no entry, or the count is too high to get to the own entry. -/
def Astray (c : Clients) (sock : ℕ) (p : Ptr) (i ahead : ℕ) : Prop :=
  (∀ a, p = some a → a ∉ addresses c.cells) ∨
    ∃ a b, p = some a ∧ a ∈ addresses c.cells ∧ (b, sock) ∈ c.cells ∧
      place c.cells a + ahead ≤ place c.cells b ∧ c.cells.length + place c.cells a ≤ i + place c.cells b

/-- The entry is in the list, and the thread will not find it or has given up. -/
def Search.Misses (c : Clients) (x : Search) : Prop :=
  match x.pc with
  | .start => False
  | .testing p i => Astray c x.sock p i 0
  | .visiting p i => Astray c x.sock p i 1
  | .stepping p i => Astray c x.sock p i 1
  | .removing _ => False
  | .finished => True

def Search.Right (c : Clients) (x : Search) : Prop :=
  (x.pc = .finished → x.sock ∉ c.cells.map Prod.snd) ∧
  (x.pc ≠ .finished → x.sock ∈ c.cells.map Prod.snd ∧ x.Finds c)

def Search.Wrong (c : Clients) (x : Search) : Prop := x.sock ∈ c.cells.map Prod.snd ∧ x.Misses c

theorem exists_entry {c : Clients} {sock : ℕ} (connected : sock ∈ c.cells.map Prod.snd) :
    ∃ b, (b, sock) ∈ c.cells := by
  obtain ⟨⟨b, _⟩, member, rfl⟩ := List.mem_map.mp connected
  exact ⟨b, member⟩

section Own

variable {c c' : Clients} {sock : ℕ} {pc pc' : WalkPc}

/-- The entry under a position, and the position behind it. -/
theorem read_entry {a : Addr} (present : a ∈ addresses c.cells) : ∃ temp front rest,
    c.cells = front ++ (a, temp) :: rest ∧ place c.cells a = front.length ∧
      c.inspectSocket [] (some a) = some temp ∧ following c.cells (some a) = some (first rest none) := by
  obtain ⟨a', temp, front, rest, same, split, length, read, next⟩ :=
    AtPlace.split (c := c) ⟨a, rfl, present, rfl⟩
  obtain rfl := Option.some.inj same
  exact ⟨temp, front, rest, split, length.symm, read, next⟩

/-- The position behind an entry in front of `b` is one further on. -/
theorem following_place {a b : Addr} (present : a ∈ addresses c.cells) (there : b ∈ addresses c.cells)
    (before : place c.cells a < place c.cells b) : ∃ a', following c.cells (some a) = some (some a') ∧
      a' ∈ addresses c.cells ∧ place c.cells a' = place c.cells a + 1 := by
  obtain ⟨temp, front, rest, split, length, -, next⟩ := read_entry present
  have agrees := agrees_first (c := c) (front ++ [(a, temp)]) rest (by simp [split])
  have short := place_lt there
  have size : (front ++ [(a, temp)]).length = front.length + 1 := List.length_append
  rcases agrees with ⟨a', found, present', placed⟩ | ⟨-, beyond⟩
  · exact ⟨a', by rw [next, found], present', by omega⟩
  · omega

/-- A search with its entry in front of it goes on towards it. -/
theorem search_right (right : Search.Right c ⟨sock, pc⟩) (searching : ∀ p, pc ≠ .removing p)
    (stepped : closeConnectedClient c [] sock pc = some (pc', c')) :
    c' = c ∧ Search.Right c ⟨sock, pc'⟩ := by
  have unfinished : pc ≠ .finished := by
    rintro rfl
    cases stepped
  obtain ⟨connected, finds⟩ := right.2 unfinished
  have keep {pc' : WalkPc} (running : pc' ≠ .finished) (finds : Search.Finds c ⟨sock, pc'⟩) :
      Search.Right c ⟨sock, pc'⟩ := ⟨fun ended => absurd ended running, fun _ => ⟨connected, finds⟩⟩
  cases pc with
  | start =>
    obtain ⟨rfl, rfl⟩ := Prod.mk.inj (Option.some.inj stepped)
    refine ⟨rfl, keep (by simp) ?_⟩
    obtain ⟨b, member⟩ := exists_entry connected
    have short := place_lt (mem_addresses member)
    rcases agrees_first [] c.cells rfl with ⟨a, head, present, placed⟩ | ⟨-, empty⟩
    · rw [List.length_nil] at placed
      exact ⟨a, b, head, present, member, by omega, by omega⟩
    · rw [List.length_nil] at empty
      omega
  | testing p i =>
    obtain ⟨a, b, rfl, present, member, order, room⟩ := finds
    obtain ⟨rfl, rfl⟩ := Prod.mk.inj (Option.some.inj stepped)
    have more : i < c.cells.length := by omega
    rw [if_pos more]
    refine ⟨rfl, keep (by simp) ?_⟩
    by_cases self : a = b
    · exact .inl ⟨a, rfl, self ▸ member⟩
    · have apart : place c.cells a ≠ place c.cells b := fun same => self (place_inj present same)
      exact .inr ⟨a, b, rfl, present, member, by omega, room⟩
  | visiting p i =>
    rcases finds with ⟨b, rfl, member⟩ | ⟨a, b, rfl, present, member, order, room⟩
    · obtain ⟨temp, front, rest, split, -, read, -⟩ := read_entry (mem_addresses member)
      obtain rfl : temp = sock := c.address_inj (a := b) (by simp [split]) member
      obtain ⟨rfl, rfl⟩ : .removing (some b) = pc' ∧ c = c' := by
        simpa [closeConnectedClient, read] using stepped
      exact ⟨rfl, keep (by simp) ⟨b, rfl, member⟩⟩
    · obtain ⟨temp, front, rest, split, -, read, -⟩ := read_entry present
      have visited : (a, temp) ∈ c.cells := by simp [split]
      have different : sock ≠ temp := by
        rintro rfl
        obtain rfl := c.socket_inj visited member
        omega
      obtain ⟨rfl, rfl⟩ : .stepping (some a) i = pc' ∧ c = c' := by
        simpa [closeConnectedClient, read, different] using stepped
      exact ⟨rfl, keep (by simp) ⟨a, b, rfl, present, member, order, room⟩⟩
  | stepping p i =>
    obtain ⟨a, b, rfl, present, member, order, room⟩ := finds
    obtain ⟨a', next, present', placed⟩ := following_place present (mem_addresses member) (by omega)
    obtain ⟨rfl, rfl⟩ : .testing (some a') (i + 1) = pc' ∧ c = c' := by
      simpa [closeConnectedClient, walk, next] using stepped
    exact ⟨rfl, keep (by simp) ⟨a', b, rfl, present', member, by omega, by omega⟩⟩
  | removing p => exact absurd rfl (searching p)
  | finished => exact absurd rfl unfinished

/-- A search that has lost its way does not find it again. -/
theorem search_wrong (wrong : Search.Wrong c ⟨sock, pc⟩)
    (stepped : closeConnectedClient c [] sock pc = some (pc', c')) :
    c' = c ∧ Search.Wrong c ⟨sock, pc'⟩ := by
  obtain ⟨connected, misses⟩ := wrong
  have unread {p : Ptr} (outside : ∀ a, p = some a → a ∉ addresses c.cells) :
      c.inspectSocket [] p = none ∧ following c.cells p = none := by
    cases p with
    | none => exact ⟨rfl, rfl⟩
    | some a =>
      have gone := outside a rfl
      exact ⟨by simp [Clients.inspectSocket, datum_eq_none gone], following_eq_none gone⟩
  cases pc with
  | start => exact misses.elim
  | removing p => exact misses.elim
  | finished => cases stepped
  | testing p i =>
    obtain ⟨rfl, rfl⟩ := Prod.mk.inj (Option.some.inj stepped)
    refine ⟨rfl, connected, ?_⟩
    by_cases more : i < c.cells.length
    · rw [if_pos more]
      rcases misses with outside | ⟨a, b, rfl, present, member, order, behind⟩
      · exact .inl outside
      · exact .inr ⟨a, b, rfl, present, member, by omega, behind⟩
    · rw [if_neg more]
      trivial
  | visiting p i =>
    rcases misses with outside | ⟨a, b, rfl, present, member, order, behind⟩
    · simp [closeConnectedClient, (unread outside).1] at stepped
    · obtain ⟨temp, front, rest, split, -, read, -⟩ := read_entry present
      have visited : (a, temp) ∈ c.cells := by simp [split]
      have different : sock ≠ temp := by
        rintro rfl
        obtain rfl := c.socket_inj visited member
        omega
      obtain ⟨rfl, rfl⟩ : .stepping (some a) i = pc' ∧ c = c' := by
        simpa [closeConnectedClient, read, different] using stepped
      exact ⟨rfl, connected, .inr ⟨a, b, rfl, present, member, order, behind⟩⟩
  | stepping p i =>
    rcases misses with outside | ⟨a, b, rfl, present, member, order, behind⟩
    · simp [closeConnectedClient, walk, (unread outside).2] at stepped
    · obtain ⟨a', next, present', placed⟩ := following_place present (mem_addresses member) (by omega)
      obtain ⟨rfl, rfl⟩ : .testing (some a') (i + 1) = pc' ∧ c = c' := by
        simpa [closeConnectedClient, walk, next] using stepped
      exact ⟨rfl, connected, .inr ⟨a', b, rfl, present', member, by omega, by omega⟩⟩

end Own

section Others

variable {c : Clients} {sock gone : ℕ} {q : Addr}

/-- The removal of an entry keeps the order of two others. -/
theorem place_without {a b : Addr} (present : q ∈ addresses c.cells) (left : a ∈ addresses c.cells)
    (right : b ∈ addresses c.cells) (other : a ≠ q) (other' : b ≠ q) {ahead : ℕ} (near : ahead ≤ 1)
    (order : place c.cells a + ahead ≤ place c.cells b) :
    place (c.without q).cells a + ahead ≤ place (c.without q).cells b ∧
      (c.without q).cells.length + 1 = c.cells.length ∧
      place c.cells b ≤ place (c.without q).cells b + 1 ∧
      (place (c.without q).cells b = place c.cells b → place (c.without q).cells a = place c.cells a) ∧
      place (c.without q).cells a ≤ place c.cells a := by
  have moved := place_erase c.distinct present left other
  have moved' := place_erase c.distinct present right other'
  have apart : place c.cells a ≠ place c.cells q := fun same => other (place_inj left same)
  have apart' : place c.cells b ≠ place c.cells q := fun same => other' (place_inj right same)
  have size := erase_length c.distinct present
  change place (c.without q).cells a + _ = _ at moved
  change place (c.without q).cells b + _ = _ at moved'
  change (c.without q).cells.length + 1 = _ at size
  refine ⟨?_, size, ?_, ?_, ?_⟩ <;> split_ifs at moved moved' <;> omega

theorem mem_without {b : Addr} (member : (b, sock) ∈ c.cells) (removed : (q, gone) ∈ c.cells)
    (other : sock ≠ gone) : b ≠ q ∧ (b, sock) ∈ (c.without q).cells := by
  have different : b ≠ q := by
    rintro rfl
    exact other (c.address_inj member removed)
  exact ⟨different, mem_erase.mpr ⟨member, different⟩⟩

/-- A removal leaves a search on its way or leads it astray. -/
theorem onTrack_without {p : Ptr} {i ahead : ℕ} (onTrack : OnTrack c sock p i ahead) (near : ahead ≤ 1)
    (removed : (q, gone) ∈ c.cells) (other : sock ≠ gone) :
    OnTrack (c.without q) sock p i ahead ∨ Astray (c.without q) sock p i ahead := by
  obtain ⟨a, b, rfl, present, member, order, -⟩ := onTrack
  obtain ⟨different, member'⟩ := mem_without member removed other
  by_cases self : a = q
  · refine .inr (.inl ?_)
    rintro _ ⟨rfl⟩ inside
    exact (mem_addresses_erase.mp inside).2 self
  · obtain ⟨order', -⟩ := place_without (mem_addresses removed) present (mem_addresses member) self
      different near order
    have present' : a ∈ addresses (c.without q).cells := mem_addresses_erase.mpr ⟨present, self⟩
    rcases lt_or_ge (i + place (c.without q).cells b)
      ((c.without q).cells.length + place (c.without q).cells a) with room | behind
    · exact .inl ⟨a, b, rfl, present', member', order', room⟩
    · exact .inr (.inr ⟨a, b, rfl, present', member', order', behind⟩)

theorem astray_without {p : Ptr} {i ahead : ℕ} (astray : Astray c sock p i ahead) (near : ahead ≤ 1)
    (removed : (q, gone) ∈ c.cells) (other : sock ≠ gone) : Astray (c.without q) sock p i ahead := by
  rcases astray with outside | ⟨a, b, rfl, present, member, order, behind⟩
  · exact .inl fun a same inside => outside a same (mem_addresses_erase.mp inside).1
  · obtain ⟨different, member'⟩ := mem_without member removed other
    by_cases self : a = q
    · left
      rintro _ ⟨rfl⟩ inside
      exact (mem_addresses_erase.mp inside).2 self
    · obtain ⟨order', size, near', same, up⟩ := place_without (mem_addresses removed) present
        (mem_addresses member) self different near order
      refine .inr ⟨a, b, rfl, mem_addresses_erase.mpr ⟨present, self⟩, member', order', ?_⟩
      by_cases moved : place (c.without q).cells b = place c.cells b
      · have := same moved
        omega
      · omega

theorem own_without {p : Ptr} (own : Own c sock p) (removed : (q, gone) ∈ c.cells) (other : sock ≠ gone) :
    Own (c.without q) sock p := by
  obtain ⟨b, rfl, member⟩ := own
  exact ⟨b, rfl, (mem_without member removed other).2⟩

theorem mem_sockets_without (connected : sock ∈ c.cells.map Prod.snd) (removed : (q, gone) ∈ c.cells)
    (other : sock ≠ gone) : sock ∈ (c.without q).cells.map Prod.snd := by
  obtain ⟨b, member⟩ := exists_entry connected
  exact List.mem_map_of_mem (mem_without member removed other).2

/-- The removal by another thread either leaves a search on its way or makes it fail. -/
theorem right_without {x : Search} (right : x.Right c) (removed : (q, gone) ∈ c.cells)
    (other : x.sock ≠ gone) :
    (x.Finds (c.without q) → x.Right (c.without q)) ∧ (¬x.Finds (c.without q) → x.Wrong (c.without q)) := by
  obtain ⟨sock, pc⟩ := x
  obtain ⟨ended, running⟩ := right
  constructor
  · intro finds
    refine ⟨fun finished inside => ended finished ?_, fun unfinished => ⟨?_, finds⟩⟩
    · obtain ⟨b, member⟩ := exists_entry inside
      exact List.mem_map_of_mem (mem_erase.mp member).1
    · exact mem_sockets_without (running unfinished).1 removed other
  · intro lost
    have unfinished : pc ≠ .finished := by
      rintro rfl
      exact lost trivial
    obtain ⟨connected, finds⟩ := running unfinished
    refine ⟨mem_sockets_without connected removed other, ?_⟩
    cases pc with
    | start => exact (lost trivial).elim
    | finished => trivial
    | removing p => exact (lost (own_without finds removed other)).elim
    | testing p i => exact (onTrack_without finds (by omega) removed other).resolve_left lost
    | stepping p i => exact (onTrack_without finds (by omega) removed other).resolve_left lost
    | visiting p i =>
      rcases finds with own | onTrack
      · exact (lost (.inl (own_without own removed other))).elim
      · exact (onTrack_without onTrack le_rfl removed other).resolve_left fun kept => lost (.inr kept)

theorem wrong_without {x : Search} (wrong : x.Wrong c) (removed : (q, gone) ∈ c.cells)
    (other : x.sock ≠ gone) : x.Wrong (c.without q) := by
  obtain ⟨sock, pc⟩ := x
  obtain ⟨connected, misses⟩ := wrong
  refine ⟨mem_sockets_without connected removed other, ?_⟩
  cases pc with
  | start => exact misses.elim
  | removing p => exact misses.elim
  | finished => trivial
  | testing p i => exact astray_without misses (by omega) removed other
  | visiting p i => exact astray_without misses le_rfl removed other
  | stepping p i => exact astray_without misses le_rfl removed other

end Others

/-- What holds in every run: a thread removes nothing but its own entry. -/
structure Sound (c : Clients) (socks : List ℕ) (s : SearchState) : Prop where
  names : s.searches.map Search.sock = socks
  owns : ∀ (t : ℕ) (x : Search) (p : Ptr), s.searches[t]? = some x → x.pc = .removing p →
    Own s.clients x.sock p
  sub : s.clients.cells.Sublist c.cells
  others : ∀ cell ∈ c.cells, cell.2 ∉ socks → cell ∈ s.clients.cells

section Steps

variable {c : Clients} {socks : List ℕ} {s s' : SearchState} {t : ℕ}

theorem Sound.apart (distinct : socks.Nodup) (sound : Sound c socks s) {u : ℕ} {x y : Search} (other : u ≠ t)
    (present : s.searches[t]? = some x) (present' : s.searches[u]? = some y) : y.sock ≠ x.sock := by
  intro same
  have equal : socks[u]? = socks[t]? := by
    rw [← sound.names, List.getElem?_map, List.getElem?_map, present, present', Option.map_some,
      Option.map_some, same]
  have bound : u < socks.length := by
    rw [← sound.names, List.length_map]
    exact (List.getElem?_eq_some_iff.mp present').1
  exact other ((List.getElem?_inj bound distinct).mp equal)

/-- A step either goes on with a search and changes nothing else, or removes the entry of its thread. -/
theorem searchStep_cases (sound : Sound c socks s) (stepped : searchStep s t = some s') :
    (∃ sock pc pc', s.searches[t]? = some ⟨sock, pc⟩ ∧ (∀ p, pc ≠ .removing p) ∧
      (∀ p, pc' = .removing p → Own s.clients sock p) ∧
      closeConnectedClient s.clients [] sock pc = some (pc', s.clients) ∧
      s' = ⟨s.clients, s.searches.set t ⟨sock, pc'⟩⟩) ∨
    (∃ sock a, s.searches[t]? = some ⟨sock, .removing (some a)⟩ ∧ (a, sock) ∈ s.clients.cells ∧
      s' = ⟨s.clients.without a, s.searches.set t ⟨sock, .finished⟩⟩) := by
  rw [searchStep] at stepped
  split at stepped
  · cases stepped
  rename_i x present
  obtain ⟨sock, pc⟩ := x
  obtain ⟨⟨pc', c'⟩, moved, rfl⟩ := Option.map_eq_some_iff.mp stepped
  rcases closeConnectedClient_cases moved with ⟨rfl, searching, own⟩ | ⟨p, removing, rfl, removed⟩
  · exact .inl ⟨sock, pc, pc', present, searching, own, moved, rfl⟩
  · obtain rfl : pc = .removing p := removing
    obtain ⟨a, rfl, member⟩ := sound.owns t _ p present rfl
    obtain rfl := Option.some.inj ((Clients.llistRemove_present (mem_addresses member)).symm.trans removed)
    exact .inr ⟨sock, a, present, member, rfl⟩

theorem step_sound (distinct : socks.Nodup) (sound : Sound c socks s) (stepped : searchStep s t = some s') :
    Sound c socks s' := by
  have renamed {sock : ℕ} {pc : WalkPc} (pc' : WalkPc) (present : s.searches[t]? = some ⟨sock, pc⟩) :
      (s.searches.set t ⟨sock, pc'⟩).map Search.sock = socks := by
    have name : Search.sock ⟨sock, pc'⟩ = Search.sock ⟨sock, pc⟩ := rfl
    rw [map_set_kept present name, sound.names]
  rcases searchStep_cases sound stepped with ⟨sock, pc, pc', present, -, own, -, rfl⟩ |
    ⟨sock, a, present, member, rfl⟩
  · refine ⟨renamed pc' present, ?_, sound.sub, sound.others⟩
    intro u y p found removing
    rw [List.getElem?_set] at found
    split_ifs at found with self
    · obtain rfl := Option.some.inj found
      exact own p removing
    · exact sound.owns u y p found removing
  · refine ⟨renamed .finished present, ?_, (erase_sublist _ a).trans sound.sub, ?_⟩
    · intro u y p found removing
      rw [List.getElem?_set] at found
      split_ifs at found with self
      · obtain rfl := Option.some.inj found
        cases removing
      · exact own_without (sound.owns u y p found removing) member
          (sound.apart distinct (Ne.symm self) present found)
    · intro cell known outside
      refine mem_erase.mpr ⟨sound.others cell known outside, ?_⟩
      rintro rfl
      have same := s.clients.address_inj (sound.others cell known outside) member
      refine outside (same ▸ ?_)
      rw [← sound.names]
      exact List.mem_map_of_mem (List.mem_of_getElem? present)

/-- The step of one thread, seen by all searches. -/
theorem right_of_set {c : Clients} {searches : List Search} {t : ℕ} {x' : Search} (own : x'.Right c)
    (rest : ∀ u y, u ≠ t → searches[u]? = some y → y.Right c) :
    ∀ (u : ℕ) (y : Search), (searches.set t x')[u]? = some y → y.Right c := by
  intro u y found
  rw [List.getElem?_set] at found
  split_ifs at found with self
  · obtain rfl := Option.some.inj found
    exact own
  · exact rest u y (Ne.symm self) found

theorem step_keeps (distinct : socks.Nodup)
    (right : Sound c socks s ∧ ∀ (u : ℕ) (y : Search), s.searches[u]? = some y → y.Right s.clients)
    (spares : Spares s t) (stepped : searchStep s t = some s') :
    Sound c socks s' ∧ ∀ (u : ℕ) (y : Search), s'.searches[u]? = some y → y.Right s'.clients := by
  obtain ⟨sound, right⟩ := right
  refine ⟨step_sound distinct sound stepped, ?_⟩
  rcases searchStep_cases sound stepped with ⟨sock, pc, pc', present, searching, -, moved, rfl⟩ |
    ⟨sock, a, present, member, rfl⟩
  · obtain ⟨-, own⟩ := search_right (right t _ present) searching moved
    exact right_of_set own fun u y _ found => right u y found
  · have gone : Search.Right (s.clients.without a) ⟨sock, .finished⟩ := by
      refine ⟨fun _ inside => ?_, fun running => absurd rfl running⟩
      obtain ⟨b, member'⟩ := exists_entry inside
      obtain ⟨member', other⟩ := mem_erase.mp member'
      exact other (s.clients.socket_inj member' member)
    apply right_of_set gone
    intro u y other found
    exact (right_without (right u y found) member (sound.apart distinct other present found)).1
      (spares sock a present u y other found)

theorem step_spoils (distinct : socks.Nodup)
    (right : Sound c socks s ∧ ∀ (u : ℕ) (y : Search), s.searches[u]? = some y → y.Right s.clients)
    (harms : ¬Spares s t) (stepped : searchStep s t = some s') :
    Sound c socks s' ∧ ∃ (u : ℕ) (y : Search), s'.searches[u]? = some y ∧ y.Wrong s'.clients := by
  obtain ⟨sound, right⟩ := right
  refine ⟨step_sound distinct sound stepped, ?_⟩
  simp only [Spares, not_forall] at harms
  obtain ⟨sock, a, present, u, y, other, found, lost⟩ := harms
  rcases searchStep_cases sound stepped with ⟨_, _, _, present', searching, -⟩ |
    ⟨sock', a', present', member, rfl⟩
  · obtain ⟨rfl, rfl⟩ := Search.mk.inj (Option.some.inj (present.symm.trans present'))
    exact absurd rfl (searching _)
  · obtain ⟨rfl, same⟩ := Search.mk.inj (Option.some.inj (present.symm.trans present'))
    obtain rfl := Option.some.inj (WalkPc.removing.inj same)
    refine ⟨u, y, by rw [List.getElem?_set_ne (Ne.symm other), found], ?_⟩
    exact (right_without (right u y found) member (sound.apart distinct other present found)).2 lost

theorem step_stays_wrong (distinct : socks.Nodup)
    (wrong : Sound c socks s ∧ ∃ (u : ℕ) (y : Search), s.searches[u]? = some y ∧ y.Wrong s.clients)
    (stepped : searchStep s t = some s') :
    Sound c socks s' ∧ ∃ (u : ℕ) (y : Search), s'.searches[u]? = some y ∧ y.Wrong s'.clients := by
  obtain ⟨sound, u, y, found, wrong⟩ := wrong
  refine ⟨step_sound distinct sound stepped, ?_⟩
  rcases searchStep_cases sound stepped with ⟨sock, pc, pc', present, -, -, moved, rfl⟩ |
    ⟨sock, a, present, member, rfl⟩
  · by_cases self : u = t
    · obtain rfl := self
      obtain rfl := Option.some.inj (present.symm.trans found)
      exact ⟨u, _, List.getElem?_set_self (List.getElem?_eq_some_iff.mp present).1,
        (search_wrong wrong moved).2⟩
    · exact ⟨u, y, by rw [List.getElem?_set_ne (Ne.symm self), found], wrong⟩
  · by_cases self : u = t
    · obtain rfl := self
      obtain rfl := Option.some.inj (present.symm.trans found)
      exact wrong.2.elim
    · exact ⟨u, y, by rw [List.getElem?_set_ne (Ne.symm self), found],
        wrong_without wrong member (sound.apart distinct self present found)⟩

end Steps

theorem sound_start {c : Clients} {socks : List ℕ} (connected : socks ⊆ c.cells.map Prod.snd) :
    Sound c socks (.start c socks) ∧
      ∀ (u : ℕ) (y : Search), (SearchState.start c socks).searches[u]? = some y → y.Right c := by
  refine ⟨⟨by simp [SearchState.start, Function.comp_def], ?_, .refl _, fun _ member _ => member⟩, ?_⟩
  · intro t x p found removing
    rw [SearchState.start, List.getElem?_map] at found
    obtain ⟨sock, -, rfl⟩ := Option.map_eq_some_iff.mp found
    cases removing
  · intro u y found
    rw [SearchState.start, List.getElem?_map] at found
    obtain ⟨sock, member, rfl⟩ := Option.map_eq_some_iff.mp found
    exact ⟨by simp, fun _ => ⟨connected (List.mem_of_getElem? member), trivial⟩⟩

/-- A search that is on its way takes its next step. -/
theorem search_enabled {c : Clients} {x : Search} (right : x.Right c) (running : x.pc ≠ .finished) :
    (closeConnectedClient c [] x.sock x.pc).isSome := by
  obtain ⟨sock, pc⟩ := x
  obtain ⟨-, finds⟩ := right.2 running
  have readable {p : Ptr} {i ahead : ℕ} (onTrack : OnTrack c sock p i ahead) :
      (c.inspectSocket [] p).isSome ∧ (following c.cells p).isSome := by
    obtain ⟨a, b, rfl, present, -⟩ := onTrack
    obtain ⟨temp, front, rest, -, -, read, next⟩ := read_entry present
    simp [read, next]
  cases pc with
  | start => rfl
  | testing p i => rfl
  | visiting p i =>
    have read : (c.inspectSocket [] p).isSome := by
      rcases finds with ⟨b, rfl, member⟩ | onTrack
      · obtain ⟨temp, front, rest, -, -, read, -⟩ := read_entry (mem_addresses member)
        simp [read]
      · exact (readable onTrack).1
    simpa [closeConnectedClient] using read
  | stepping p i => simpa [closeConnectedClient, walk] using (readable finds).2
  | removing p =>
    obtain ⟨b, rfl, member⟩ := finds
    simp [closeConnectedClient, Clients.llistRemove_present (mem_addresses member)]
  | finished => exact absurd rfl running

/-- When all listed sockets are gone and the others are there, the list is what was filtered. -/
theorem cells_eq_filter {c₀ c : Clients} {socks : List ℕ} (sub : c.cells.Sublist c₀.cells)
    (others : ∀ cell ∈ c₀.cells, cell.2 ∉ socks → cell ∈ c.cells)
    (gone : ∀ cell ∈ c.cells, cell.2 ∉ socks) : c.cells = c₀.cells.filter (·.2 ∉ socks) := by
  have kept : c.cells.Sublist (c₀.cells.filter (·.2 ∉ socks)) := by
    have filtered := sub.filter fun cell => decide (cell.2 ∉ socks)
    rwa [List.filter_eq_self.mpr (by simpa using gone)] at filtered
  have distinct : (c₀.cells.filter (·.2 ∉ socks)).Nodup := c₀.distinct.of_map.filter _
  refine kept.eq_of_length_le (List.subperm_of_subset distinct fun cell member => ?_).length_le
  obtain ⟨known, outside⟩ := List.mem_filter.mp member
  exact others cell known (by simpa using outside)

/-- Any number of listener threads disconnect at the same time. If every removal leaves the other
searches on their way, no search follows NULL or a released node; and once all have returned, their
entries are gone and all others are there in order exactly if every removal did so. -/
theorem deregistered_iff {c : Clients} {socks : List ℕ} (distinct : socks.Nodup)
    (connected : socks ⊆ c.cells.map Prod.snd) {events : List ℕ} {s : SearchState}
    (ran : run searchStep (.start c socks) events = some s) :
    (Steps searchStep Spares (.start c socks) events → ∀ (t : ℕ) (x : Search), s.searches[t]? = some x →
      x.pc ≠ .finished → ∃ s', searchStep s t = some s') ∧
    ((∀ x ∈ s.searches, x.pc = .finished) → (s.clients.cells = c.cells.filter (·.2 ∉ socks) ↔
      Steps searchStep Spares (.start c socks) events)) := by
  obtain ⟨keeps, spoils⟩ := run_dichotomy (fun s t s' spares right => step_keeps distinct right spares)
    (fun s t s' harms right => step_spoils distinct right harms)
    (fun s t s' => step_stays_wrong distinct) (sound_start connected) ran
  refine ⟨fun spares t x found running => ?_, fun returned => ⟨fun cleared => ?_, fun spares => ?_⟩⟩
  · obtain ⟨-, right⟩ := keeps spares
    obtain ⟨moved, next⟩ := Option.isSome_iff_exists.mp (search_enabled (right t x found) running)
    exact ⟨_, by simp only [searchStep, found, next]; rfl⟩
  · by_contra harmed
    obtain ⟨sound, u, y, found, connected', -⟩ := spoils harmed
    obtain ⟨b, member⟩ := exists_entry connected'
    rw [cleared] at member
    have listed : y.sock ∈ socks := by
      rw [← sound.names]
      exact List.mem_map_of_mem (List.mem_of_getElem? found)
    simpa [listed] using (List.mem_filter.mp member).2
  · obtain ⟨sound, right⟩ := keeps spares
    apply cells_eq_filter sound.sub sound.others
    intro cell member listed
    rw [← sound.names] at listed
    obtain ⟨x, searching, same⟩ := List.mem_map.mp listed
    obtain ⟨t, found⟩ := List.mem_iff_getElem?.mp searching
    exact (right t x found).1 (returned x searching) (same ▸ List.mem_map_of_mem member)

def threeClients : Clients := twoClients.llistInsertlast 7 (by decide)

/-- Two of three clients search at the same time; the entry of the later one goes first. -/
theorem deregistered_iff_two :
    let events := [1, 0, 1, 0, 1, 0, 1, 1, 1, 1, 0]
    ∃ s, run searchStep (.start threeClients [5, 6]) events = some s ∧ s.clients.cells = [(2, 7)] ∧
      Steps searchStep Spares (.start threeClients [5, 6]) events := by
  intro events
  have ran : run searchStep (.start threeClients [5, 6]) events =
      some ⟨(threeClients.without 1).without 0, [⟨5, .finished⟩, ⟨6, .finished⟩]⟩ := rfl
  obtain ⟨-, cleared⟩ := deregistered_iff (by decide) (by decide) ran
  exact ⟨_, ran, rfl, (cleared (by decide)).mp rfl⟩

/-- The second client has passed the entry of the first when that is removed: its search ends and
its entry stays. A search that is at the entry when it is removed follows a released node. -/
theorem deregister_leaves_entry :
    (∃ s, run searchStep (.start twoClients [5, 6]) [1, 1, 1, 1, 0, 0, 0, 0, 1] = some s ∧
      (∀ x ∈ s.searches, x.pc = .finished) ∧ s.clients.cells = [(1, 6)]) ∧
    (∃ s, run searchStep (.start twoClients [5, 6]) [1, 1, 0, 0, 0, 0] = some s ∧
      s.searches[1]? = some ⟨6, .visiting (some 0) 0⟩ ∧ searchStep s 1 = none) := by
  constructor
  · exact ⟨⟨twoClients.without 0, [⟨5, .finished⟩, ⟨6, .finished⟩]⟩, rfl, by decide, rfl⟩
  · exact ⟨⟨twoClients.without 0, [⟨5, .finished⟩, ⟨6, .visiting (some 0) 0⟩]⟩, rfl, rfl, rfl⟩

end Operativsystem.Server
