import Mathlib.Data.BitVec

namespace FlagWord
variable {w : ℕ} {x f g : BitVec w}

def isset (x f : BitVec w) : Bool := x &&& f == f

theorem isset_iff : isset x f = true ↔ x &&& f = f := by simp [isset]

theorem or_and_of_disjoint (h : f &&& g = 0) : (x ||| f) &&& g = x &&& g := by
  rw [BitVec.and_comm, BitVec.and_or_distrib_left, BitVec.and_comm g f, h, BitVec.and_comm g x]
  simp

theorem clear_and_of_disjoint (h : f &&& g = 0) : x &&& ~~~f &&& g = x &&& g := by
  ext i hi
  have hbit := congrArg (fun y => y[i]) h
  simp only [BitVec.getElem_and, BitVec.getElem_not] at hbit ⊢
  cases hf : f[i] <;> cases hg : g[i] <;> simp_all

theorem clear_and_of_subset (h : g &&& f = g) : x &&& ~~~f &&& g = 0 := by
  ext i hi
  have hbit := congrArg (fun y => y[i]) h
  simp only [BitVec.getElem_and, BitVec.getElem_not] at hbit ⊢
  cases hf : f[i] <;> cases hg : g[i] <;> simp_all

theorem clear_of_disjoint (h : f &&& g = 0) : g &&& ~~~f = g := by
  ext i hi
  have hbit := congrArg (fun y => y[i]) h
  simp only [BitVec.getElem_and, BitVec.getElem_not] at hbit ⊢
  cases hf : f[i] <;> cases hg : g[i] <;> simp_all

theorem isset_of_clear (h : isset (x &&& ~~~f) g = true) : isset x g = true := by
  rw [isset_iff] at h ⊢
  ext i hi
  have hbit := congrArg (fun y => y[i]) h
  simp only [BitVec.getElem_and, BitVec.getElem_not] at hbit ⊢
  cases hx : x[i] <;> cases hg : g[i] <;> simp_all

@[simp] theorem isset_or_self : isset (x ||| f) f = true := by
  rw [isset_iff, BitVec.and_comm, BitVec.and_or_distrib_left]
  ext i hi
  simp +contextual

theorem isset_or (h : f &&& g = 0) : isset (x ||| f) g = isset x g := by
  rw [isset, isset, or_and_of_disjoint h]

theorem isset_clear (h : f &&& g = 0) : isset (x &&& ~~~f) g = isset x g := by
  rw [isset, isset, clear_and_of_disjoint h]

theorem isset_clear_self (h : g &&& f = g) (hg : g ≠ 0) : isset (x &&& ~~~f) g = false := by
  rw [isset, clear_and_of_subset h]
  simpa using hg.symm

theorem and_eq_zero_of_twoPow {i : ℕ} (hf : f = BitVec.twoPow w i) (h : isset x f = false) :
    x &&& f = 0 := by
  rw [isset, hf, BitVec.and_twoPow] at h
  rw [hf, BitVec.and_twoPow]
  split_ifs at h ⊢
  · simp at h
  · rfl

end FlagWord
