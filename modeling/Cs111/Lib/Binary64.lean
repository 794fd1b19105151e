import Mathlib.Data.Int.Log
import Mathlib.Data.Rat.Floor

namespace Binary64

-- Normal range only: exponents are unbounded and 53 significant bits are kept.
def ulp (q : ℚ) : ℚ := (2 : ℚ) ^ (Int.log 2 |q| - 52)

def roundEven (q : ℚ) : ℤ :=
  let low := ⌊q⌋
  let rest := q - low
  if rest < 1 / 2 then low
  else if 1 / 2 < rest then low + 1
  else if low % 2 = 0 then low else low + 1

def round (q : ℚ) : ℚ := if q = 0 then 0 else roundEven (q / ulp q) * ulp q

def mul (a b : ℚ) : ℚ := round (a * b)

def div (a b : ℚ) : ℚ := round (a / b)

def truncate (q : ℚ) : ℤ := if 0 ≤ q then ⌊q⌋ else ⌈q⌉

def toUnsigned (w : ℕ) (q : ℚ) : BitVec w := BitVec.ofInt w (truncate q)

@[simp] theorem round_zero : round 0 = 0 := if_pos rfl

@[simp] theorem div_zero_left (b : ℚ) : div 0 b = 0 := by simp [div]

@[simp] theorem mul_zero_left (b : ℚ) : mul 0 b = 0 := by simp [mul]

@[simp] theorem toUnsigned_zero (w : ℕ) : toUnsigned w 0 = 0#w := by
  simp [toUnsigned, truncate]

end Binary64
