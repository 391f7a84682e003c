import Mathlib.Algebra.BigOperators.Group.Finset.Basic
import Operativsystem.Library.Machine

/-! # Work that is left

A measure of the state bounds the length of a run: each step of one kind makes it smaller, and a step of any
other kind makes it larger by no more than a known gain. A measure of a family is the sum over its members.
-/

namespace Operativsystem.Machine

variable {σ ε α : Type*}

theorem run_bounded {step : σ → ε → Option σ} {P : σ → ε → Prop} {Inv : σ → Prop} (work : σ → ℤ)
    (working : ε → Bool) (gain : ℕ)
    (preserve : ∀ s e s', P s e → Inv s → step s e = some s' → Inv s')
    (less : ∀ s e s', P s e → Inv s → step s e = some s' → working e = true → work s' < work s)
    (more : ∀ s e s', P s e → Inv s → step s e = some s' → working e = false → work s' ≤ work s + gain)
    {s t : σ} {events : List ε} (initial : Inv s) (steps : Steps step P s events)
    (ran : run step s events = some t) :
    work t + events.countP working ≤ work s + gain * events.countP (fun e => !working e) := by
  induction events generalizing s with
  | nil =>
    cases ran
    simp
  | cons e rest ih =>
    obtain ⟨next, taken, ran⟩ := Option.bind_eq_some_iff.mp ran
    have later := ih (preserve s e next steps.1 initial taken) (steps.2 next taken) ran
    rw [List.countP_cons, List.countP_cons]
    cases kind : working e with
    | true =>
      have smaller := less s e next steps.1 initial taken kind
      simp only [if_true, Bool.not_true, Bool.false_eq_true, if_false, Nat.add_zero]
      omega
    | false =>
      have larger := more s e next steps.1 initial taken kind
      simp only [Bool.false_eq_true, if_false, Nat.add_zero, Bool.not_false, if_true, Int.natCast_add,
        Int.mul_add]
      omega

/-- The measure of a family of which one member changes. -/
theorem sum_range_update {n i : ℕ} (inside : i < n) (family : ℕ → α) (measure : α → ℕ) (x : α) :
    ∑ j ∈ Finset.range n, measure (Function.update family i x j) + measure (family i) =
      ∑ j ∈ Finset.range n, measure (family j) + measure x := by
  have member := Finset.mem_range.mpr inside
  rw [← Finset.add_sum_erase _ _ member, ← Finset.add_sum_erase _ _ member, Function.update_self]
  have others : ∀ j ∈ (Finset.range n).erase i, measure (Function.update family i x j) = measure (family j) :=
    fun j other => by rw [Function.update_of_ne (Finset.ne_of_mem_erase other)]
  rw [Finset.sum_congr rfl others]
  omega

end Operativsystem.Machine
