import Cs111.Lib.Wrapped
import Mathlib.Tactic.Ring

-- Time values and clock ticks, as VFS and PM convert them.
namespace Minix

structure Timeval where
  tvSec : BitVec 32
  tvUsec : BitVec 32
  deriving DecidableEq, Repr

def Timeval.usecs (tv : Timeval) : ℕ := tv.tvSec.toNat * 1000000 + tv.tvUsec.toNat

structure AdmittedHz (systemHz : BitVec 32) : Prop where
  low : 2 ≤ systemHz.toNat
  high : systemHz.toNat ≤ 50000

theorem toNat_of_nonneg {x : BitVec 32} (h : 0 ≤ x.toInt) :
    x.toInt = x.toNat ∧ x.toNat < 2 ^ 31 := by
  rw [BitVec.toInt_eq_toNat_cond] at *
  omega

section Ticks
variable {hz sec usec n : ℕ}

def exactTicks (hz sec usec : ℕ) : ℕ := sec * hz + (usec * hz) ⌈/⌉ 1000000

def roundedUsecs (hz usec : ℕ) : ℕ := usec * hz + 999999

def cutTicks (hz sec usec : ℕ) : ℕ := sec * hz + roundedUsecs hz usec % 2 ^ 32 / 1000000

theorem exactTicks_eq : exactTicks hz sec usec = sec * hz + roundedUsecs hz usec / 1000000 := by
  rw [exactTicks, roundedUsecs, ← Wrapped.pred_div (by decide)]

theorem exactTicks_le_iff :
    exactTicks hz sec usec ≤ n ↔ (sec * 1000000 + usec) * hz ≤ n * 1000000 := by
  have hsplit : (sec * 1000000 + usec) * hz = sec * hz * 1000000 + usec * hz := by ring
  rw [hsplit, exactTicks_eq, roundedUsecs]
  omega

theorem cutTicks_le : cutTicks hz sec usec ≤ exactTicks hz sec usec := by
  rw [exactTicks_eq]
  exact Nat.add_le_add_left Wrapped.mod_div_le _

theorem cutTicks_eq_iff :
    cutTicks hz sec usec = exactTicks hz sec usec ↔ roundedUsecs hz usec < 2 ^ 32 := by
  rw [exactTicks_eq, cutTicks, Nat.add_left_cancel_iff]
  exact Wrapped.mod_div_eq_iff (by decide) (by decide)

theorem exactTicks_pos (hz0 : 0 < hz) (h : 0 < sec * 1000000 + usec) :
    0 < exactTicks hz sec usec := by
  by_contra h0
  have hle := exactTicks_le_iff.1 (Nat.le_of_not_lt h0)
  have := Nat.mul_pos h hz0
  omega

end Ticks

end Minix
