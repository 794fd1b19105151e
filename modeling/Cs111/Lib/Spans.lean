import Mathlib.Algebra.GroupWithZero.Nat
import Mathlib.Order.Interval.Finset.Nat

structure Span where
  addr : ℕ
  size : ℕ
  deriving DecidableEq, Repr

namespace Span

def Covers (s : Span) (n : ℕ) : Prop := s.addr ≤ n ∧ n < s.addr + s.size

instance (s : Span) (n : ℕ) : Decidable (s.Covers n) := inferInstanceAs (Decidable (_ ∧ _))

def Before (s t : Span) : Prop := s.addr + s.size < t.addr

def covered (l : List Span) (n : ℕ) : Prop := ∃ s ∈ l, s.Covers n

instance (l : List Span) (n : ℕ) : Decidable (covered l n) :=
  inferInstanceAs (Decidable (∃ s ∈ l, s.Covers n))

structure Spread (l : List Span) : Prop where
  nonempty : ∀ s ∈ l, 0 < s.size
  sorted : l.Pairwise Before

section Covered
variable {l l' : List Span} {s : Span} {n : ℕ}

@[simp] theorem covered_nil : ¬ covered [] n := by simp [covered]

@[simp] theorem covered_cons : covered (s :: l) n ↔ s.Covers n ∨ covered l n := by
  simp [covered]

@[simp] theorem covered_append : covered (l ++ l') n ↔ covered l n ∨ covered l' n := by
  simp [covered, or_and_right, exists_or]

end Covered

section Spread
variable {lo hi l : List Span} {s t : Span} {a n : ℕ}

theorem spread_append : Spread (lo ++ hi) ↔
    Spread lo ∧ Spread hi ∧ ∀ s ∈ lo, ∀ t ∈ hi, s.Before t := by
  constructor
  · rintro ⟨hpos, hsorted⟩
    obtain ⟨hlo, hhi, hcross⟩ := List.pairwise_append.mp hsorted
    exact ⟨⟨fun s hs => hpos s (List.mem_append_left hi hs), hlo⟩,
      ⟨fun s hs => hpos s (List.mem_append_right lo hs), hhi⟩, hcross⟩
  · rintro ⟨hlo, hhi, hcross⟩
    refine ⟨fun s hs => ?_, List.pairwise_append.mpr ⟨hlo.sorted, hhi.sorted, hcross⟩⟩
    rcases List.mem_append.mp hs with hs | hs
    · exact hlo.nonempty s hs
    · exact hhi.nonempty s hs

theorem spread_cons : Spread (s :: l) ↔ 0 < s.size ∧ Spread l ∧ ∀ t ∈ l, s.Before t := by
  constructor
  · rintro ⟨hpos, hsorted⟩
    obtain ⟨hbefore, hl⟩ := List.pairwise_cons.mp hsorted
    exact ⟨hpos s List.mem_cons_self, ⟨fun t ht => hpos t (List.mem_cons_of_mem s ht), hl⟩,
      hbefore⟩
  · rintro ⟨hpos, hl, hbefore⟩
    refine ⟨fun t ht => ?_, List.pairwise_cons.mpr ⟨hbefore, hl.sorted⟩⟩
    rcases List.mem_cons.mp ht with rfl | ht
    · exact hpos
    · exact hl.nonempty t ht

theorem spread_middle : Spread (lo ++ s :: hi) ↔ 0 < s.size ∧ Spread (lo ++ hi) ∧
    (∀ t ∈ lo, t.Before s) ∧ ∀ t ∈ hi, s.Before t := by
  rw [spread_append, spread_append, spread_cons]
  constructor
  · rintro ⟨hlo, ⟨hpos, hhi, hafter⟩, hcross⟩
    exact ⟨hpos, ⟨hlo, hhi, fun t ht u hu => hcross t ht u (List.mem_cons_of_mem s hu)⟩,
      fun t ht => hcross t ht s List.mem_cons_self, hafter⟩
  · rintro ⟨hpos, ⟨hlo, hhi, hcross⟩, hbefore, hafter⟩
    refine ⟨hlo, ⟨hpos, hhi, hafter⟩, fun t ht u hu => ?_⟩
    rcases List.mem_cons.mp hu with rfl | hu
    · exact hbefore t ht
    · exact hcross t ht u hu

theorem Spread.gap (h : Spread l) (hn : 0 < n) (hfree : ∀ m, a ≤ m → m < a + n → ¬ covered l m) :
    ∃ lo hi, l = lo ++ hi ∧ (∀ s ∈ lo, s.addr + s.size ≤ a) ∧ ∀ s ∈ hi, a + n ≤ s.addr := by
  induction l with
  | nil => exact ⟨[], [], rfl, by simp, by simp⟩
  | cons s l ih =>
    obtain ⟨hpos, hl, hbefore⟩ := spread_cons.mp h
    have hs : ∀ m, a ≤ m → m < a + n → ¬ s.Covers m :=
      fun m hm hm' hcovers => hfree m hm hm' (covered_cons.mpr (.inl hcovers))
    by_cases hbelow : s.addr + s.size ≤ a
    · obtain ⟨lo, hi, rfl, hlo, hhi⟩ :=
        ih hl fun m hm hm' hcovers => hfree m hm hm' (covered_cons.mpr (.inr hcovers))
      refine ⟨s :: lo, hi, rfl, fun t ht => ?_, hhi⟩
      rcases List.mem_cons.mp ht with rfl | ht
      · exact hbelow
      · exact hlo t ht
    · have habove : a + n ≤ s.addr := by
        by_contra hlt
        exact hs (max a s.addr) (by omega) (by omega) ⟨by omega, by omega⟩
      refine ⟨[], s :: l, rfl, by simp, fun t ht => ?_⟩
      rcases List.mem_cons.mp ht with rfl | ht
      · exact habove
      · have hafter : s.addr + s.size < t.addr := hbefore t ht
        omega

theorem Spread.carve (h : Spread (lo ++ s :: hi)) (hn : n < s.size) :
    Spread (lo ++ ⟨s.addr, s.size - n⟩ :: hi) := by
  obtain ⟨-, hrest, hbefore, hafter⟩ := spread_middle.mp h
  refine spread_middle.mpr ⟨by change 0 < s.size - n; omega, hrest, hbefore, fun t ht => ?_⟩
  have hlt : s.addr + s.size < t.addr := hafter t ht
  change s.addr + (s.size - n) < t.addr
  omega

end Spread

section Counting
variable {l : List Span} {m limit : ℕ}

def numbers : List Span → Finset ℕ
  | [] => ∅
  | s :: l => Finset.Ico s.addr (s.addr + s.size) ∪ numbers l

theorem mem_numbers : m ∈ numbers l ↔ covered l m := by
  induction l with
  | nil => simp [numbers]
  | cons s l ih => simp [numbers, ih, Covers]

theorem card_numbers (h : l.Pairwise fun s t => ∀ m, ¬ (s.Covers m ∧ t.Covers m)) :
    (numbers l).card = (l.map Span.size).sum := by
  induction l with
  | nil => rfl
  | cons s l ih =>
    obtain ⟨hs, hl⟩ := List.pairwise_cons.mp h
    have hapart : Disjoint (Finset.Ico s.addr (s.addr + s.size)) (numbers l) := by
      rw [Finset.disjoint_left]
      intro m hm hmem
      obtain ⟨t, ht, hcovers⟩ := mem_numbers.mp hmem
      exact hs t ht m ⟨Finset.mem_Ico.mp hm, hcovers⟩
    rw [numbers, Finset.card_union_of_disjoint hapart, ih hl, Nat.card_Ico]
    simp

theorem sizes_lt (h : l.Pairwise fun s t => ∀ m, ¬ (s.Covers m ∧ t.Covers m))
    (hinside : ∀ s ∈ l, s.addr + s.size ≤ limit) (hzero : ¬ covered l 0) (hlimit : 0 < limit) :
    (l.map Span.size).sum < limit := by
  have hsub : numbers l ⊆ Finset.Ico 1 limit := by
    intro m hm
    obtain ⟨s, hs, hge, hlt⟩ := mem_numbers.mp hm
    have hend := hinside s hs
    have hpos : m ≠ 0 := by
      rintro rfl
      exact hzero ⟨s, hs, hge, hlt⟩
    rw [Finset.mem_Ico]
    omega
  have hcard := Finset.card_le_card hsub
  rw [card_numbers h, Nat.card_Ico] at hcard
  omega

end Counting

end Span
