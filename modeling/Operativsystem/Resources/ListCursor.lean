import Operativsystem.Library.Cursor
import Operativsystem.Resources.ListSequence

/-! # Walking a list that others change

Threads that walk a list hold a position in it while other threads insert and remove. On a list
that represents a sequence of cells, `llist_first`, `llist_next`, `llist_inspect` and
`llist_remove` do what the cursor operations do on the cells; a position whose node has been
released cannot be followed.
-/

namespace Operativsystem.Resources

open Segment Cursor LList

variable {α : Type} {l : LList α} {cells : List (Addr × α)}

theorem llistFirst_spec (rep : Represents l cells) : l.llistFirst = first cells none := rep.head

/-- The node under a pointer: there for the cells of the list, and only for them. -/
theorem node_spec (rep : Represents l cells) (p : Ptr) :
    (l.node p).map Node.data = datum cells p ∧ (l.node p).map Node.next = following cells p := by
  cases p with
  | none => exact ⟨rfl, rfl⟩
  | some a =>
    by_cases present : a ∈ addresses cells
    · obtain ⟨xs, d, ys, rfl, outside⟩ := exists_split present
      rw [datum_split outside, following_split outside, node, Option.bind_some, rep.node_eq]
      exact ⟨rfl, rfl⟩
    · have released : l.heap a = none := by
        by_contra used
        exact present (rep.only a used)
      rw [datum_eq_none present, following_eq_none present, node, Option.bind_some, released]
      exact ⟨rfl, rfl⟩

theorem llistNext_spec (rep : Represents l cells) (p : Ptr) : l.llistNext p = following cells p :=
  (node_spec rep p).2

theorem llistInspect_spec (rep : Represents l cells) (nonempty : cells ≠ []) (p : Ptr) :
    l.llistInspect p = (datum cells p).map fun d => (l, some d) := by
  have head : l.headNext ≠ none := rep.head ▸ first_ne_none nonempty none
  have locked : l.lock = some { l with mtx := true } := by simp [lock, rep.unlocked]
  have released : unlock { l with mtx := true } = l := by
    obtain ⟨headNext, tailPrevious, heap, held⟩ := l
    obtain rfl : held = false := rep.unlocked
    rfl
  simp only [llistInspect, locked, Option.bind_eq_bind, Option.bind_some, llistIsEmpty, released,
    Option.isNone_iff_eq_none, if_neg head]
  rw [← (node_spec rep p).1]
  cases l.node p <;> rfl

/-- On an empty list the caller gets NULL, whatever its position is. -/
theorem llistInspect_empty (rep : Represents l []) (p : Ptr) :
    l.llistInspect p = some ({ l with mtx := true }, none) := by
  have head : l.headNext = none := rep.head
  simp [llistInspect, lock, rep.unlocked, llistIsEmpty, head]

theorem llistRemove_present (rep : Represents l cells) {a : Addr} (present : a ∈ addresses cells) :
    ∃ l' nextpos, l.llistRemove (some a) = some (l', nextpos) ∧ Represents l' (erase cells a) := by
  obtain ⟨xs, d, ys, rfl, outside⟩ := exists_split present
  obtain ⟨l', removed, rep'⟩ := llistRemove_spec rep
  rw [erase_split outside (distinct_split rep.distinct).2.1]
  exact ⟨l', _, removed, rep'⟩

/-- Removing at a position that is not in a nonempty list follows a released node. -/
theorem llistRemove_released (rep : Represents l cells) (nonempty : cells ≠ []) {a : Addr}
    (outside : a ∉ addresses cells) : l.llistRemove (some a) = none := by
  have head : l.headNext ≠ none := rep.head ▸ first_ne_none nonempty none
  have released : l.heap a = none := by
    by_contra used
    exact outside (rep.only a used)
  simp [llistRemove, lock, rep.unlocked, llistIsEmpty, head, node, released]

end Operativsystem.Resources
