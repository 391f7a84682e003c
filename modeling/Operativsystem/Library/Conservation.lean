import Operativsystem.Library.Machine
import Mathlib.Algebra.BigOperators.Group.List.Basic
import Mathlib.Data.List.Perm.Basic

/-! # Items that move between places

The state of a machine holds items in several places, `total` lists all of them. When the steps
that meet a condition only move items and every other step loses one, a run has kept its items
exactly if all its steps met the condition. The last lemmas follow a list whose members change.
-/

namespace Operativsystem.Machine

variable {σ ε α : Type*}

theorem run_conserves {step : σ → ε → Option σ} {P : σ → ε → Prop} {total : σ → List α}
    (moves : ∀ s e s', P s e → step s e = some s' → (total s').Perm (total s))
    (loses : ∀ s e s', ¬P s e → step s e = some s' → ∃ x, (total s).Perm (x :: total s'))
    {s t : σ} {events : List ε} (ran : run step s events = some t) :
    ∃ lost, (total t ++ lost).Perm (total s) ∧ (lost = [] ↔ Steps step P s events) := by
  induction events generalizing s with
  | nil =>
    obtain rfl := Option.some.inj ran
    exact ⟨[], by rw [List.append_nil], by simp [Steps]⟩
  | cons e rest ih =>
    obtain ⟨next, taken, ran⟩ := Option.bind_eq_some_iff.mp ran
    obtain ⟨lost, kept, none⟩ := ih ran
    have later : (∀ next', step s e = some next' → Steps step P next' rest) ↔ Steps step P next rest := by
      simp [taken]
    by_cases met : P s e
    · refine ⟨lost, kept.trans (moves s e next met taken), ?_⟩
      rw [none, Steps, later]
      simp [met]
    · obtain ⟨x, gone⟩ := loses s e next met taken
      refine ⟨x :: lost, List.perm_middle.trans ((kept.cons x).trans gone.symm), ?_⟩
      simp [Steps, met]

section Members

variable {p : α → Bool} {l : List α} {i : ℕ} {x y : α}

/-- A member that stops to satisfy the predicate leaves the filtered list. -/
theorem filter_set_leave (present : l[i]? = some x) (before : p x = true) (after : p y = false) :
    (l.filter p).Perm (x :: (l.set i y).filter p) := by
  induction l generalizing i with
  | nil => cases present
  | cons a l ih =>
    cases i with
    | zero =>
      obtain rfl := Option.some.inj present
      simp [before, after]
    | succ i =>
      have rest := ih present
      rw [List.set_cons_succ, List.filter_cons, List.filter_cons]
      split
      · exact (rest.cons a).trans (List.Perm.swap x a _)
      · exact rest

theorem filter_set_outside (present : l[i]? = some x) (before : p x = false) (after : p y = false) :
    (l.set i y).filter p = l.filter p := by
  induction l generalizing i with
  | nil => rfl
  | cons a l ih =>
    cases i with
    | zero =>
      obtain rfl := Option.some.inj present
      simp [before, after]
    | succ i =>
      rw [List.set_cons_succ, List.filter_cons, List.filter_cons, ih present]

/-- What holds of a member that is changed and of all others holds of the changed list. -/
theorem forall_set {P : ℕ → α → Prop} (own : P i y) (rest : ∀ j x, j ≠ i → l[j]? = some x → P j x) :
    ∀ j x, (l.set i y)[j]? = some x → P j x := by
  intro j x found
  rw [List.getElem?_set] at found
  split_ifs at found with same
  · cases found
    exact same ▸ own
  · exact rest j x (Ne.symm same) found

theorem forall_concat {P : ℕ → α → Prop} (own : P l.length y) (rest : ∀ j x, l[j]? = some x → P j x) :
    ∀ j x, (l ++ [y])[j]? = some x → P j x := by
  intro j x found
  rcases Nat.lt_trichotomy j l.length with early | rfl | late
  · rw [List.getElem?_append_left early] at found
    exact rest j x found
  · rw [List.getElem?_concat_length] at found
    cases found
    exact own
  · rw [List.getElem?_eq_none (by simp; omega)] at found
    cases found

/-- A change that `f` does not see. -/
theorem map_set_kept {β : Type*} {f : α → β} (present : l[i]? = some x) (same : f y = f x) :
    (l.set i y).map f = l.map f := by
  obtain ⟨bound, found⟩ := List.getElem?_eq_some_iff.mp present
  have inside : i < (l.map f).length := by simpa using bound
  have value : (l.map f)[i] = f y := by rw [List.getElem_map, found, same]
  rw [List.map_set, ← value, List.set_getElem_self]

/-- A sum over the members trades the old one for the new one. -/
theorem sum_map_set {β : Type*} [AddCommMonoid β] {f : α → β} (present : l[i]? = some x) (y : α) :
    ((l.set i y).map f).sum + f x = (l.map f).sum + f y := by
  induction l generalizing i with
  | nil => cases present
  | cons a l ih =>
    cases i with
    | zero =>
      obtain rfl := Option.some.inj present
      simp only [List.set_cons_zero, List.map_cons, List.sum_cons]
      rw [add_right_comm, add_comm (f y), add_right_comm]
    | succ i => simp only [List.set_cons_succ, List.map_cons, List.sum_cons, add_assoc, ih present]

/-- Members at different places that agree on `f` do not both satisfy the predicate. -/
theorem nodup_map_filter {β : Type*} {f : α → β}
    (apart : ∀ (i j : ℕ) (x y : α), l[i]? = some x → l[j]? = some y → p x = true → p y = true → f x = f y →
      i = j) : ((l.filter p).map f).Nodup := by
  induction l with
  | nil => exact List.nodup_nil
  | cons a l ih =>
    have tail : ((l.filter p).map f).Nodup :=
      ih fun i j x y first second holds holds' same =>
        Nat.succ.inj (apart (i + 1) (j + 1) x y first second holds holds' same)
    rw [List.filter_cons]
    split
    · rename_i holds
      rw [List.map_cons, List.nodup_cons]
      refine ⟨fun member => ?_, tail⟩
      obtain ⟨y, inside, same⟩ := List.mem_map.mp member
      obtain ⟨present, holds'⟩ := List.mem_filter.mp inside
      obtain ⟨j, found⟩ := List.mem_iff_getElem?.mp present
      exact absurd (apart 0 (j + 1) a y rfl found holds holds' same.symm) (Nat.succ_ne_zero j).symm
    · exact tail

end Members

end Operativsystem.Machine
