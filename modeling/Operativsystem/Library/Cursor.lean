import Operativsystem.Library.Segment

/-! # Cursors into a list whose nodes come and go

A list of cells is read through a pointer: the pointer names a cell or it names none, because it is
NULL or because its node has been released. The place of a cell is the number of cells before it.
Erasing another cell moves it by at most one place, and only if that cell was before it.
-/

namespace Operativsystem.Cursor

open Segment

variable {α : Type*}

def addresses (cells : List (Addr × α)) : List Addr := cells.map Prod.fst

/-- How many cells lie before the one at `a`. -/
def place (cells : List (Addr × α)) (a : Addr) : ℕ := (addresses cells).idxOf a

/-- What the cell under a pointer holds. -/
def datum (cells : List (Addr × α)) (p : Ptr) : Option α := p.bind fun a => cells.lookup a

/-- The cells from an address on, behind the one at that address. -/
def behind (a : Addr) : List (Addr × α) → Option (List (Addr × α))
  | [] => none
  | (b, _) :: rest => if b = a then some rest else behind a rest

/-- The pointer to the successor of the cell under a pointer. -/
def following (cells : List (Addr × α)) (p : Ptr) : Option Ptr :=
  p.bind fun a => (behind a cells).map fun rest => first rest none

def erase (cells : List (Addr × α)) (a : Addr) : List (Addr × α) := cells.filter (·.1 ≠ a)

@[simp] theorem addresses_nil : addresses ([] : List (Addr × α)) = [] := rfl

@[simp] theorem addresses_cons (a : Addr) (d : α) (rest : List (Addr × α)) :
    addresses ((a, d) :: rest) = a :: addresses rest := rfl

@[simp] theorem addresses_append (xs ys : List (Addr × α)) :
    addresses (xs ++ ys) = addresses xs ++ addresses ys := List.map_append

theorem mem_addresses {cells : List (Addr × α)} {a : Addr} {d : α} (member : (a, d) ∈ cells) :
    a ∈ addresses cells := List.mem_map_of_mem member

/-- A cell splits the list at its first occurrence. -/
theorem exists_split {cells : List (Addr × α)} {a : Addr} (present : a ∈ addresses cells) :
    ∃ xs d ys, cells = xs ++ (a, d) :: ys ∧ a ∉ addresses xs := by
  induction cells with
  | nil => cases present
  | cons cell rest ih =>
    obtain ⟨b, e⟩ := cell
    by_cases same : a = b
    · exact ⟨[], e, rest, by rw [same]; rfl, List.not_mem_nil⟩
    · obtain ⟨xs, d, ys, rfl, outside⟩ := ih ((List.mem_cons.mp present).resolve_left same)
      exact ⟨(b, e) :: xs, d, ys, rfl, by simp [same, outside]⟩

section Split

variable {xs ys : List (Addr × α)} {a : Addr} {d : α}

theorem place_front (early : a ∈ addresses xs) (ys : List (Addr × α)) :
    place (xs ++ ys) a = place xs a := by
  rw [place, addresses_append, List.idxOf_append_of_mem early, place]

theorem place_back (outside : a ∉ addresses xs) (ys : List (Addr × α)) :
    place (xs ++ ys) a = xs.length + place ys a := by
  rw [place, addresses_append, List.idxOf_append_of_notMem outside, place, addresses, List.length_map,
    Nat.add_comm]

theorem place_split (outside : a ∉ addresses xs) : place (xs ++ (a, d) :: ys) a = xs.length := by
  rw [place_back outside, place, addresses_cons, List.idxOf_cons_self, Nat.add_zero]

theorem behind_split (outside : a ∉ addresses xs) : behind a (xs ++ (a, d) :: ys) = some ys := by
  induction xs with
  | nil => simp [behind]
  | cons cell rest ih =>
    obtain ⟨b, e⟩ := cell
    obtain ⟨other, outside⟩ : a ≠ b ∧ a ∉ addresses rest := by simpa using outside
    simp [behind, Ne.symm other, ih outside]

theorem following_split (outside : a ∉ addresses xs) :
    following (xs ++ (a, d) :: ys) (some a) = some (first ys none) := by
  simp [following, behind_split outside]

theorem datum_split (outside : a ∉ addresses xs) : datum (xs ++ (a, d) :: ys) (some a) = some d := by
  have skipped : xs.lookup a = none := by
    rw [List.lookup_eq_none_iff]
    intro cell member
    simpa using fun same : a = cell.1 => outside (same ▸ List.mem_map_of_mem member)
  simp [datum, List.lookup_append, skipped]

theorem erase_split (before : a ∉ addresses xs) (after : a ∉ addresses ys) :
    erase (xs ++ (a, d) :: ys) a = xs ++ ys := by
  have untouched {cells : List (Addr × α)} (outside : a ∉ addresses cells) :
      cells.filter (·.1 ≠ a) = cells := by
    apply List.filter_eq_self.mpr
    intro cell member
    simpa using fun same : cell.1 = a => outside (same ▸ List.mem_map_of_mem member)
  rw [erase, List.filter_append, List.filter_cons_of_neg (by simp), untouched before, untouched after]

end Split

theorem datum_eq_none {cells : List (Addr × α)} {a : Addr} (outside : a ∉ addresses cells) :
    datum cells (some a) = none := by
  change cells.lookup a = none
  rw [List.lookup_eq_none_iff]
  intro cell member
  simpa using fun same : a = cell.1 => outside (same ▸ List.mem_map_of_mem member)

theorem following_eq_none {cells : List (Addr × α)} {a : Addr} (outside : a ∉ addresses cells) :
    following cells (some a) = none := by
  suffices behind a cells = none by simp [following, this]
  induction cells with
  | nil => rfl
  | cons cell rest ih =>
    obtain ⟨b, e⟩ := cell
    obtain ⟨other, outside⟩ : a ≠ b ∧ a ∉ addresses rest := by simpa using outside
    simp [behind, Ne.symm other, ih outside]

section Erase

variable {cells : List (Addr × α)} {a q : Addr}

theorem erase_sublist (cells : List (Addr × α)) (q : Addr) : (erase cells q).Sublist cells :=
  List.filter_sublist

theorem mem_erase {cell : Addr × α} : cell ∈ erase cells q ↔ cell ∈ cells ∧ cell.1 ≠ q := by
  simp [erase, List.mem_filter]

theorem mem_addresses_erase : a ∈ addresses (erase cells q) ↔ a ∈ addresses cells ∧ a ≠ q := by
  simp only [addresses, List.mem_map, mem_erase]
  constructor
  · rintro ⟨cell, ⟨member, other⟩, rfl⟩
    exact ⟨⟨cell, member, rfl⟩, other⟩
  · rintro ⟨⟨cell, member, rfl⟩, other⟩
    exact ⟨cell, ⟨member, other⟩, rfl⟩

theorem erase_length (distinct : (addresses cells).Nodup) (present : q ∈ addresses cells) :
    (erase cells q).length + 1 = cells.length := by
  obtain ⟨xs, d, ys, rfl, -⟩ := exists_split present
  obtain ⟨before, after, -⟩ := distinct_split distinct
  rw [erase_split before after]
  simp
  omega

theorem place_lt (present : a ∈ addresses cells) : place cells a < cells.length := by
  simpa [place, addresses] using List.idxOf_lt_length_of_mem present

theorem place_inj (present : a ∈ addresses cells) (same : place cells a = place cells q) : a = q :=
  (List.idxOf_inj present).mp same

/-- A cell keeps its place when a cell behind it is erased, and moves up by one otherwise. -/
theorem place_erase (distinct : (addresses cells).Nodup) (present : q ∈ addresses cells)
    (stays : a ∈ addresses cells) (other : a ≠ q) :
    place (erase cells q) a + (if place cells q < place cells a then 1 else 0) = place cells a := by
  obtain ⟨xs, d, ys, rfl, -⟩ := exists_split present
  obtain ⟨before, after, -⟩ := distinct_split distinct
  rw [erase_split before after, place_split before]
  by_cases early : a ∈ addresses xs
  · have short : place xs a < xs.length := place_lt early
    rw [place_front early, place_front early, if_neg (by omega), Nat.add_zero]
  · have shifted : place ((q, d) :: ys) a = place ys a + 1 := by
      rw [place, addresses_cons, List.idxOf_cons_ne _ other.symm, place]
    rw [place_back early, place_back early, shifted, if_pos (by omega)]
    omega

end Erase

end Operativsystem.Cursor
