import Mathlib.Algebra.BigOperators.Group.Finset.Piecewise
import Mathlib.Data.Fintype.Basic

-- A table of slots, each empty or holding a value, as the multiset of what it holds.
namespace SlotTable
variable {ι α : Type*} [Fintype ι]

def total (f : ι → Multiset α) : Multiset α := ∑ i, f i

def contents (t : ι → Option α) : Multiset α := total fun i => (t i).elim 0 fun a => {a}

theorem mem_total {f : ι → Multiset α} {a : α} : a ∈ total f ↔ ∃ i, a ∈ f i := by
  simp [total, Multiset.mem_sum]

theorem mem_contents {t : ι → Option α} {a : α} : a ∈ contents t ↔ ∃ i, t i = some a := by
  rw [contents, mem_total]
  refine exists_congr fun i => ?_
  cases h : t i with
  | none => simp
  | some b => simp [eq_comm]

theorem contents_empty {t : ι → Option α} (h : ∀ i, t i = none) : contents t = 0 := by
  rw [Multiset.eq_zero_iff_forall_notMem]
  intro a ha
  obtain ⟨i, hi⟩ := mem_contents.mp ha
  rw [h i] at hi
  cases hi

section Updates
variable [DecidableEq ι] {f : ι → Multiset α} {t : ι → Option α} {i : ι} {a : α}

theorem total_update (i : ι) (m : Multiset α) :
    total (Function.update f i m) + f i = total f + m := by
  rw [total, total, Finset.sum_update_of_mem (Finset.mem_univ i),
    ← Finset.add_sum_erase _ f (Finset.mem_univ i), Finset.sdiff_singleton_eq_erase]
  ac_rfl

theorem total_add (i : ι) (m : Multiset α) :
    total (Function.update f i (f i + m)) = total f + m := by
  have h := total_update (f := f) i (f i + m)
  rw [add_comm (f i) m, ← add_assoc] at h
  rw [add_comm (f i) m]
  exact add_right_cancel h

theorem contents_update (i : ι) (v : Option α) :
    contents (Function.update t i v) + (t i).elim 0 ({·}) = contents t + v.elim 0 ({·}) := by
  have hslots : (fun j => (Function.update t i v j).elim 0 fun a => ({a} : Multiset α)) =
      Function.update (fun j => (t j).elim 0 fun a => {a}) i (v.elim 0 fun a => {a}) := by
    funext j
    by_cases hj : j = i
    · subst hj
      simp
    · simp [Function.update_of_ne hj]
  rw [contents, hslots]
  exact total_update i _

theorem contents_fill (h : t i = none) :
    contents (Function.update t i (some a)) = contents t + {a} := by
  simpa [h] using contents_update (t := t) i (some a)

theorem contents_clear (h : t i = some a) :
    contents (Function.update t i none) + {a} = contents t := by
  simpa [h] using contents_update (t := t) i none

theorem filter_contents {p : α → Prop} [DecidablePred p] (h : t i = some a) (hp : p a)
    (honly : ∀ j b, t j = some b → p b → j = i) : (contents t).filter p = {a} := by
  have hnone : (contents (Function.update t i none)).filter p = 0 := by
    rw [Multiset.filter_eq_nil]
    intro b hb hpb
    obtain ⟨j, hj⟩ := mem_contents.mp hb
    by_cases hji : j = i
    · subst hji
      simp at hj
    · rw [Function.update_of_ne hji] at hj
      exact hji (honly j b hj hpb)
  rw [← contents_clear h, Multiset.filter_add, hnone, Multiset.filter_singleton, if_pos hp, zero_add]

end Updates

end SlotTable
