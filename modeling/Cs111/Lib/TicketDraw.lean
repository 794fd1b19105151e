import Mathlib.Algebra.BigOperators.Fin
import Mathlib.Algebra.Order.BigOperators.Group.Finset

namespace TicketDraw
variable {n : ℕ}

section Below
variable {M N : Type*} [AddCommMonoid M] [AddCommMonoid N] (w : Fin n → M)

def below (k : ℕ) : M := ∑ j with j.val < k, w j

@[simp] theorem below_zero : below w 0 = 0 := by simp [below]

theorem below_succ {k : ℕ} (h : k < n) : below w (k + 1) = below w k + w ⟨k, h⟩ := by
  have hsplit : Finset.univ.filter (fun j : Fin n => j.val < k + 1) =
      insert ⟨k, h⟩ (Finset.univ.filter fun j : Fin n => j.val < k) := by
    ext j
    simp only [Finset.mem_filter, Finset.mem_univ, true_and, Finset.mem_insert, Fin.ext_iff]
    omega
  rw [below, hsplit, Finset.sum_insert (by simp), add_comm]
  rfl

theorem below_all : below w n = ∑ j, w j := by simp [below]

end Below

section Draws
variable (w : Fin n → ℕ) {d : ℕ} {i : Fin n}

theorem below_mono {k l : ℕ} (h : k ≤ l) : below w k ≤ below w l :=
  Finset.sum_le_sum_of_subset fun j hj => by
    simp only [Finset.mem_filter, Finset.mem_univ, true_and] at hj ⊢
    omega

theorem below_le_total (k : ℕ) : below w k ≤ ∑ j, w j :=
  Finset.sum_le_sum_of_subset (Finset.filter_subset ..)

def Holds (d : ℕ) (i : Fin n) : Prop := below w i ≤ d ∧ d < below w i + w i

instance : Decidable (Holds w d i) := inferInstanceAs (Decidable (_ ∧ _))

theorem holds_iff : Holds w d i ↔ below w i ≤ d ∧ d < below w (i + 1) := by
  rw [below_succ w i.isLt, Holds]

theorem exists_holds (h : d < ∑ j, w j) : ∃ i, Holds w d i := by
  have hscan : ∀ k ≤ n, d < below w k → ∃ i, Holds w d i := by
    intro k
    induction k with
    | zero => simp
    | succ k ih =>
      intro hk hd
      by_cases hlow : d < below w k
      · exact ih (by omega) hlow
      · exact ⟨⟨k, hk⟩, (holds_iff w).mpr ⟨not_lt.mp hlow, hd⟩⟩
  exact hscan n le_rfl (by rwa [below_all])

theorem card_held_next (i : Fin n) :
    ((Finset.range (∑ j, w j)).filter fun d => Holds w (d + 1) i).card =
      if below w i = 0 then w i - 1 else w i := by
  have hle := below_le_total w (i + 1)
  have hsucc := below_succ w i.isLt
  have hico : (Finset.range (∑ j, w j)).filter (fun d => Holds w (d + 1) i) =
      Finset.Ico (below w i - 1) (below w (i + 1) - 1) := by
    ext d
    rw [Finset.mem_filter, Finset.mem_range, Finset.mem_Ico, holds_iff]
    omega
  rw [hico, Nat.card_Ico, hsucc]
  simp only [Fin.eta]
  split <;> omega

end Draws

end TicketDraw
