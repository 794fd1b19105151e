import Mathlib.Algebra.Order.Floor.Div

-- Quotients of numbers that were cut to a word first, and how they differ from the exact ones.
namespace Wrapped

variable {m d x : ℕ}

theorem mod_div_le : x % m / d ≤ x / d :=
  Nat.div_le_div_right (Nat.mod_le x m)

theorem mod_div_lt (hd : 0 < d) (hdm : d ≤ m) (hx : m ≤ x) : x % m / d < x / d := by
  have hlow : x % m + m ≤ x := by
    have h := Nat.mod_add_div x m
    have hone : 1 ≤ x / m := (Nat.one_le_div_iff (by omega)).2 hx
    have hmul : m * 1 ≤ m * (x / m) := Nat.mul_le_mul_left m hone
    omega
  calc x % m / d < x % m / d + 1 := Nat.lt_succ_self _
    _ = (x % m + d) / d := (Nat.add_div_right _ hd).symm
    _ ≤ x / d := Nat.div_le_div_right (by omega)

theorem mod_div_eq_iff (hd : 0 < d) (hdm : d ≤ m) : x % m / d = x / d ↔ x < m := by
  constructor
  · intro h
    by_contra hx
    exact absurd h (mod_div_lt hd hdm (by omega)).ne
  · exact fun h => by rw [Nat.mod_eq_of_lt h]

theorem pred_div (hd : 0 < d) : (x + (d - 1)) / d = x ⌈/⌉ d := by
  rw [Nat.ceilDiv_eq_add_pred_div]
  congr 1
  omega

end Wrapped
