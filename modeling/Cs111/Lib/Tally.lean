import Mathlib.Algebra.Order.BigOperators.Group.Finset

-- How many of the first n slots of a table fit a predicate.
namespace Tally
variable {α β : Type*} {p q : α → Prop} [DecidablePred p] [DecidablePred q] {n i : ℕ}
  {f g : ℕ → α} {v : α}

def tally (n : ℕ) (p : α → Prop) [DecidablePred p] (f : ℕ → α) : ℕ :=
  ((Finset.range n).filter fun i => p (f i)).card

theorem tally_congr (h : ∀ i < n, p (f i) ↔ q (g i)) : tally n p f = tally n q g := by
  rw [tally, tally]
  congr 1
  refine Finset.filter_congr fun i hi => ?_
  exact h i (Finset.mem_range.mp hi)

theorem tally_succ : tally (n + 1) p f = tally n p f + if p (f n) then 1 else 0 := by
  rw [tally, Finset.range_add_one, Finset.filter_insert]
  split
  · exact Finset.card_insert_of_notMem fun hmem =>
      Finset.notMem_range_self (Finset.mem_of_mem_filter n hmem)
  · rfl

theorem tally_update (hi : i < n) :
    tally n p (Function.update f i v) + (if p (f i) then 1 else 0) =
      tally n p f + if p v then 1 else 0 := by
  have hrest : ((Finset.range n).erase i).filter (fun j => p (Function.update f i v j)) =
      ((Finset.range n).erase i).filter fun j => p (f j) :=
    Finset.filter_congr fun j hj => by rw [Function.update_of_ne (Finset.ne_of_mem_erase hj)]
  have hsplit : ∀ g : ℕ → α, tally n p g =
      (((Finset.range n).erase i).filter fun j => p (g j)).card + if p (g i) then 1 else 0 := by
    intro g
    rw [tally, ← Finset.insert_erase (Finset.mem_range.mpr hi), Finset.filter_insert,
      Finset.erase_insert (Finset.notMem_erase i _)]
    split
    · rw [Finset.card_insert_of_notMem fun hmem =>
        Finset.notMem_erase i _ (Finset.mem_of_mem_filter i hmem)]
    · rfl
  rw [hsplit, hsplit f, hrest, Function.update_self]
  omega

theorem tally_same (hi : i < n) (h : p (f i) ↔ p v) :
    tally n p (Function.update f i v) = tally n p f := by
  have hupdate := tally_update (p := p) (f := f) (v := v) hi
  by_cases hv : p v
  · rw [if_pos (h.mpr hv), if_pos hv] at hupdate
    exact Nat.add_right_cancel hupdate
  · rw [if_neg fun hf => hv (h.mp hf), if_neg hv] at hupdate
    exact hupdate

theorem tally_enter (hi : i < n) (hold : ¬ p (f i)) (hnew : p v) :
    tally n p (Function.update f i v) = tally n p f + 1 := by
  have hupdate := tally_update (p := p) (f := f) (v := v) hi
  rwa [if_neg hold, if_pos hnew] at hupdate

theorem tally_leave (hi : i < n) (hold : p (f i)) (hnew : ¬ p v) :
    tally n p (Function.update f i v) + 1 = tally n p f := by
  have hupdate := tally_update (p := p) (f := f) (v := v) hi
  rwa [if_pos hold, if_neg hnew] at hupdate

theorem tally_pos (hi : i < n) (h : p (f i)) : 0 < tally n p f :=
  Finset.card_pos.mpr ⟨i, Finset.mem_filter.mpr ⟨Finset.mem_range.mpr hi, h⟩⟩

theorem tally_zero_iff : tally n p f = 0 ↔ ∀ i < n, ¬ p (f i) := by
  rw [tally, Finset.card_eq_zero, Finset.filter_eq_empty_iff]
  simp only [Finset.mem_range]

theorem exists_of_tally_pos (h : 0 < tally n p f) : ∃ i < n, p (f i) := by
  obtain ⟨i, hi⟩ := Finset.card_pos.mp h
  obtain ⟨hmem, hp⟩ := Finset.mem_filter.mp hi
  exact ⟨i, Finset.mem_range.mp hmem, hp⟩

theorem tally_le (h : ∀ i < n, p (f i) → q (g i)) : tally n p f ≤ tally n q g := by
  refine Finset.card_le_card fun i hi => ?_
  obtain ⟨hmem, hp⟩ := Finset.mem_filter.mp hi
  exact Finset.mem_filter.mpr ⟨hmem, h i (Finset.mem_range.mp hmem) hp⟩

-- The weights of the first n slots taken together.
section Total
variable {w w' : α → ℕ} {w₂ : β → ℕ} {g : ℕ → β}

def total (n : ℕ) (w : α → ℕ) (f : ℕ → α) : ℕ := ∑ i ∈ Finset.range n, w (f i)

theorem total_congr (h : ∀ i < n, w (f i) = w₂ (g i)) : total n w f = total n w₂ g :=
  Finset.sum_congr rfl fun i hi => h i (Finset.mem_range.mp hi)

theorem total_update (hi : i < n) :
    total n w (Function.update f i v) + w (f i) = total n w f + w v := by
  have hrest : ∑ j ∈ (Finset.range n).erase i, w (Function.update f i v j) =
      ∑ j ∈ (Finset.range n).erase i, w (f j) :=
    Finset.sum_congr rfl fun j hj => by rw [Function.update_of_ne (Finset.ne_of_mem_erase hj)]
  rw [total, total, ← Finset.sum_erase_add _ _ (Finset.mem_range.mpr hi),
    ← Finset.sum_erase_add (Finset.range n) (fun j => w (f j)) (Finset.mem_range.mpr hi), hrest,
    Function.update_self]
  omega

theorem total_zero (h : ∀ i < n, w (f i) = 0) : total n w f = 0 :=
  Finset.sum_eq_zero fun i hi => h i (Finset.mem_range.mp hi)

theorem weight_le (hi : i < n) : w (f i) ≤ total n w f :=
  Finset.single_le_sum (f := fun j => w (f j)) (fun _ _ => Nat.zero_le _) (Finset.mem_range.mpr hi)

end Total

end Tally
