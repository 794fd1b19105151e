import Mathlib.Logic.Function.Iterate
import Mathlib.Tactic.Common

-- A search that goes around a ring of numbers, one place after the other.
namespace RingScan
variable {β : Type*} {low high : ℕ} {test : ℕ → Option β} {x y fuel : ℕ} {b : β}

def next (low high x : ℕ) : ℕ := if x < high then x + 1 else low

def scan (low high : ℕ) (test : ℕ → Option β) : ℕ → ℕ → Option β
  | 0, _ => none
  | fuel + 1, x =>
    match test x with
    | some b => some b
    | none => scan low high test fuel (next low high x)

def Within (low high x : ℕ) : Prop := low ≤ x ∧ x ≤ high

theorem next_within (h : low ≤ high) (hx : low ≤ x) : Within low high (next low high x) := by
  unfold next Within
  split_ifs <;> omega

theorem iterate_next (hx : Within low high x) (k : ℕ) :
    (next low high)^[k] x = low + (x - low + k) % (high - low + 1) := by
  obtain ⟨hlow, hhigh⟩ := hx
  induction k with
  | zero =>
    rw [Function.iterate_zero_apply, Nat.add_zero, Nat.mod_eq_of_lt (by omega)]
    omega
  | succ k ih =>
    rw [Function.iterate_succ_apply', ih, next]
    have hlt := Nat.mod_lt (x - low + k) (show 0 < high - low + 1 by omega)
    have hstep := Nat.add_mod (x - low + k) 1 (high - low + 1)
    rcases Nat.lt_or_ge ((x - low + k) % (high - low + 1)) (high - low) with h | h
    · rw [if_pos (by omega), ← Nat.add_assoc (x - low), hstep, Nat.mod_eq_of_lt (a := 1) (by omega),
        Nat.mod_eq_of_lt (a := _ + 1) (by omega)]
      omega
    · have heq : (x - low + k) % (high - low + 1) + 1 = high - low + 1 := by omega
      rw [if_neg (by omega), ← Nat.add_assoc (x - low), ← Nat.mod_add_mod, heq, Nat.mod_self]
      omega

theorem reached (hx : Within low high x) (hy : Within low high y) :
    ∃ k < high - low + 1, (next low high)^[k] x = y := by
  obtain ⟨hlow, hhigh⟩ := hx
  obtain ⟨hlow', hhigh'⟩ := hy
  rcases Nat.lt_or_ge y x with h | h
  · refine ⟨high - low + 1 - (x - y), by omega, ?_⟩
    rw [iterate_next ⟨hlow, hhigh⟩, show x - low + (high - low + 1 - (x - y)) =
      y - low + (high - low + 1) by omega, Nat.add_mod_right, Nat.mod_eq_of_lt (by omega)]
    omega
  · refine ⟨y - x, by omega, ?_⟩
    rw [iterate_next ⟨hlow, hhigh⟩, Nat.mod_eq_of_lt (by omega)]
    omega

theorem scan_some (h : scan low high test fuel x = some b) :
    ∃ k < fuel, test ((next low high)^[k] x) = some b := by
  induction fuel generalizing x with
  | zero => cases h
  | succ fuel ih =>
    rw [scan] at h
    split at h
    · rename_i htest
      cases h
      exact ⟨0, Nat.succ_pos _, htest⟩
    · obtain ⟨k, hk, htest⟩ := ih h
      exact ⟨k + 1, Nat.succ_lt_succ hk, htest⟩

theorem scan_none (h : scan low high test fuel x = none) :
    ∀ k < fuel, test ((next low high)^[k] x) = none := by
  induction fuel generalizing x with
  | zero => exact fun k hk => absurd hk k.not_lt_zero
  | succ fuel ih =>
    rw [scan] at h
    split at h
    · cases h
    · rename_i htest
      intro k hk
      cases k with
      | zero => exact htest
      | succ k => exact ih h k (Nat.lt_of_succ_lt_succ hk)

theorem scan_turn (hx : Within low high x) (hfuel : high - low + 1 ≤ fuel)
    (h : scan low high test fuel x = none) (hy : Within low high y) : test y = none := by
  obtain ⟨k, hk, rfl⟩ := reached hx hy
  exact scan_none h k (Nat.lt_of_lt_of_le hk hfuel)

theorem scan_within (hx : Within low high x) (h : scan low high test fuel x = some b) :
    ∃ y, Within low high y ∧ test y = some b := by
  obtain ⟨k, -, htest⟩ := scan_some h
  refine ⟨_, ?_, htest⟩
  have hlt := Nat.mod_lt (x - low + k) (show 0 < high - low + 1 by omega)
  rw [iterate_next hx, Within]
  unfold Within at hx
  omega

end RingScan
