import Mathlib.Algebra.BigOperators.Group.List.Basic
import Mathlib.Algebra.Field.Basic
import Mathlib.Data.List.Induction
import Mathlib.Tactic.FieldSimp
import Mathlib.Tactic.LinearCombination
import Mathlib.Tactic.Ring

/-! # Running mean and squared deviations

A count, a mean and a sum of squared deviations are updated with one value after the other, without the values
before it. They are those of all the values so far, in every field of characteristic 0.
-/

namespace Operativsystem.RunningMean

variable {K : Type*} [Field K]

structure Moments (K : Type*) where
  n : K
  mean : K
  m2 : K

def Moments.push (s : Moments K) (x : K) : Moments K :=
  let mean := s.mean + (x - s.mean) / (s.n + 1)
  ⟨s.n + 1, mean, s.m2 + (x - s.mean) * (x - mean)⟩

def moments (xs : List K) : Moments K := xs.foldl Moments.push ⟨0, 0, 0⟩

@[simp] theorem moments_nil : moments ([] : List K) = ⟨0, 0, 0⟩ := rfl

@[simp] theorem moments_snoc (xs : List K) (x : K) : moments (xs ++ [x]) = (moments xs).push x :=
  List.foldl_append ..

theorem moments_n (xs : List K) : (moments xs).n = xs.length := by
  induction xs using List.reverseRecOn with
  | nil => simp
  | append_singleton xs x ih => simp [Moments.push, ih]

theorem moments_mean [CharZero K] (xs : List K) : (moments xs).mean * xs.length = xs.sum := by
  induction xs using List.reverseRecOn with
  | nil => simp
  | append_singleton xs x ih =>
    have positive : (xs.length : K) + 1 ≠ 0 := Nat.cast_add_one_ne_zero _
    simp only [moments_snoc, Moments.push, moments_n, List.length_append, List.length_singleton, Nat.cast_add,
      Nat.cast_one, List.sum_append, List.sum_singleton, ← ih]
    field_simp
    ring

/-- Squared deviations from any value, by the sum of the values and of their squares. -/
theorem sum_sq_sub (xs : List K) (m : K) : (xs.map fun x => (x - m) ^ 2).sum =
    (xs.map fun x => x ^ 2).sum - 2 * m * xs.sum + xs.length * m ^ 2 := by
  induction xs with
  | nil => simp
  | cons x xs ih =>
    simp only [List.map_cons, List.sum_cons, List.length_cons, Nat.cast_add, Nat.cast_one, ih]
    ring

theorem moments_sq [CharZero K] (xs : List K) :
    (moments xs).m2 = (xs.map fun x => x ^ 2).sum - (moments xs).mean * xs.sum := by
  induction xs using List.reverseRecOn with
  | nil => simp
  | append_singleton xs x ih =>
    have before := moments_mean xs
    have after := moments_mean (xs ++ [x])
    simp only [List.length_append, List.length_singleton, Nat.cast_add, Nat.cast_one, List.sum_append,
      List.sum_singleton] at after
    have step : (moments (xs ++ [x])).m2 =
        (moments xs).m2 + (x - (moments xs).mean) * (x - (moments (xs ++ [x])).mean) := by
      rw [moments_snoc, Moments.push]
    rw [step, ih]
    simp only [List.map_append, List.map_singleton, List.sum_append, List.sum_singleton]
    linear_combination (moments xs).mean * after - (moments (xs ++ [x])).mean * before

/-- The sum that is kept is that of the squared deviations from the mean of all values. -/
theorem moments_m2 [CharZero K] (xs : List K) :
    (moments xs).m2 = (xs.map fun x => (x - (moments xs).mean) ^ 2).sum := by
  rw [sum_sq_sub, moments_sq]
  linear_combination -(moments xs).mean * moments_mean xs

end Operativsystem.RunningMean
