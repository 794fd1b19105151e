import Mathlib.Tactic.FieldSimp
import Mathlib.Tactic.Positivity

namespace Deviations

section Field
variable {K : Type*} [Field K]

def mean (s : Multiset K) : K := s.sum / s.card

def squares (s : Multiset K) (m : K) : K := (s.map fun x => (x - m) ^ 2).sum

def variance (s : Multiset K) : K := squares s (mean s) / s.card

@[simp] theorem squares_zero (m : K) : squares 0 m = 0 := by simp [squares]

@[simp] theorem squares_cons (x : K) (s : Multiset K) (m : K) :
    squares (x ::ₘ s) m = (x - m) ^ 2 + squares s m := by simp [squares]

end Field

section Ordered
variable {K : Type*} [Field K] [LinearOrder K] [IsStrictOrderedRing K] {s : Multiset K} {m : K}

theorem squares_nonneg (s : Multiset K) (m : K) : 0 ≤ squares s m := by
  induction s using Multiset.induction with
  | empty => simp
  | cons x s ih =>
    simp only [squares_cons]
    positivity

theorem squares_eq_zero_iff : squares s m = 0 ↔ ∀ x ∈ s, x = m := by
  induction s using Multiset.induction with
  | empty => simp
  | cons x s ih =>
    rw [squares_cons, add_eq_zero_iff_of_nonneg (sq_nonneg _) (squares_nonneg s m), ih]
    simp [sub_eq_zero]

theorem card_ne_zero (h : s ≠ 0) : (s.card : K) ≠ 0 := by
  simpa using h

theorem mean_const (h : s ≠ 0) (hall : ∀ x ∈ s, x = m) : mean s = m := by
  have hcard : (s.card : K) ≠ 0 := card_ne_zero h
  rw [mean, Multiset.eq_replicate_of_mem hall]
  simp only [Multiset.sum_replicate, Multiset.card_replicate, nsmul_eq_mul]
  field_simp

theorem all_mean_iff (h : s ≠ 0) : (∀ x ∈ s, x = mean s) ↔ ∀ x ∈ s, ∀ y ∈ s, x = y := by
  constructor
  · intro hall x hx y hy
    exact (hall x hx).trans (hall y hy).symm
  · intro hall x hx
    exact (mean_const h fun y hy => hall y hy x hx).symm

theorem squares_eq_variance_iff (h : s ≠ 0) :
    squares s (mean s) = variance s ↔ ∀ x ∈ s, ∀ y ∈ s, x = y := by
  have hcard : (s.card : K) ≠ 0 := card_ne_zero h
  rw [← all_mean_iff h, ← squares_eq_zero_iff, variance, eq_div_iff hcard]
  constructor
  · intro hsame
    by_cases hone : s.card = 1
    · obtain ⟨x, rfl⟩ := Multiset.card_eq_one.mp hone
      simp [squares, mean]
    · have hfactor : squares s (mean s) * ((s.card : K) - 1) = 0 := by
        rw [mul_sub, hsame, mul_one, sub_self]
      refine (mul_eq_zero.mp hfactor).resolve_right fun hnone => hone ?_
      exact_mod_cast sub_eq_zero.mp hnone
  · intro hnone
    simp [hnone]

end Ordered

end Deviations
