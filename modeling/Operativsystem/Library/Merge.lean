import Mathlib.Data.List.Basic
import Mathlib.Logic.Function.Basic

/-! # Merges of several sequences

A merge lets a family of sequences flow into one: each element of the whole comes from exactly one
of them, and the elements of each keep their order.
-/

namespace Operativsystem

variable {ι α β : Type*} [DecidableEq ι]

/-- The whole takes the elements of the sequences one by one, always the next of one of them. -/
inductive Merge : (ι → List α) → List α → Prop
  | nil : Merge (fun _ => []) []
  | cons {seqs : ι → List α} {whole : List α} (i : ι) (x : α) (merge : Merge seqs whole) :
      Merge (Function.update seqs i (x :: seqs i)) (x :: whole)

/-- Seen through a function, the sequences still merge. -/
theorem Merge.map (f : α → β) {seqs : ι → List α} {whole : List α} (merge : Merge seqs whole) :
    Merge (fun i => (seqs i).map f) (whole.map f) := by
  induction merge with
  | nil => exact .nil
  | @cons seqs whole i x _ ih =>
    have pushed : (fun j => (Function.update seqs i (x :: seqs i) j).map f) =
        Function.update (fun j => (seqs j).map f) i (f x :: (seqs i).map f) := by
      funext j
      by_cases same : j = i
      · subst same
        simp
      · simp [Function.update_of_ne same]
    rw [pushed, List.map_cons]
    exact .cons i (f x) ih

end Operativsystem
