import Cs111.Mfs.CacheContents

-- The sort of rw_scattered(): its loops end, and the buffers come out in order.
namespace Mfs

variable {key : ℕ → ℕ} {q : Array ℕ} {i j : ℕ}

def keyAt (key : ℕ → ℕ) (q : Array ℕ) (a : ℕ) : ℕ := key (q.getD a 0)

theorem keyAt_swap (hi : i < q.size) (hj : j < q.size) (a : ℕ) :
    keyAt key (q.swap i j hi hj) a =
      if a = i then keyAt key q j else if a = j then keyAt key q i else keyAt key q a := by
  by_cases ha : a < q.size
  · simp only [keyAt, Array.getD, Array.size_swap, ha, hi, hj, dif_pos, Array.getElem_swap,
      Array.getInternal_eq_getElem]
    split_ifs <;> rfl
  · have hai : a ≠ i := fun h => ha (h ▸ hi)
    have haj : a ≠ j := fun h => ha (h ▸ hj)
    simp only [keyAt, Array.getD, Array.size_swap, ha, dif_neg, not_false_iff, if_neg hai,
      if_neg haj]

def SortedBut (key : ℕ → ℕ) (q : Array ℕ) (j hole : ℕ) : Prop :=
  ∀ a b, a < b → b ≤ j → b ≠ hole → keyAt key q a ≤ keyAt key q b

theorem SortedBut.swap (h : SortedBut key q j (i + 1)) (hi : i + 1 ≤ j) (hj : j < q.size)
    (hlt : keyAt key q (i + 1) < keyAt key q i) :
    SortedBut key (q.swap i (i + 1) (by omega) (by omega)) j i := by
  intro a b hab hb hne
  simp only [keyAt_swap]
  rcases lt_trichotomy b (i + 1) with hlow | rfl | hhigh
  · rw [if_neg (by omega), if_neg (by omega), if_neg hne, if_neg (by omega)]
    exact h a b hab hb (by omega)
  · rw [if_neg (by omega : i + 1 ≠ i), if_pos rfl]
    rcases Nat.eq_or_lt_of_le (Nat.lt_succ_iff.mp hab) with rfl | hai
    · rw [if_pos rfl]
      exact hlt.le
    · rw [if_neg (by omega), if_neg (by omega)]
      exact h a i hai (by omega) (by omega)
  · rw [if_neg hne, if_neg (by omega : b ≠ i + 1)]
    split
    · exact h (i + 1) b hhigh hb (by omega)
    · split
      · exact h i b (by omega) hb (by omega)
      · exact h a b hab hb (by omega)

theorem SortedBut.stop (h : SortedBut key q j (i + 1)) (hi : i + 1 ≤ j)
    (hle : keyAt key q i ≤ keyAt key q (i + 1)) (hole : ℕ) : SortedBut key q j hole := by
  intro a b hab hb _
  by_cases hbi : b = i + 1
  · subst hbi
    rcases Nat.eq_or_lt_of_le (Nat.lt_succ_iff.mp hab) with rfl | hai
    · exact hle
    · exact (h a i hai (by omega) (by omega)).trans hle
  · exact h a b hab hb hbi

theorem siftDown_sorts {fuel : ℕ} (h : SortedBut key q j (i + 1)) (hi : i + 1 ≤ j)
    (hj : j < q.size) (hfuel : i < fuel) : SortedBut key (siftDown key 1 fuel i q) j 0 := by
  induction fuel generalizing i q with
  | zero => exact absurd hfuel (Nat.not_lt_zero i)
  | succ fuel ih =>
    have hsize : i + 1 < q.size := by omega
    have hat : ∀ a (ha : a < q.size), key q[a] = keyAt key q a := by
      intro a ha
      simp only [keyAt, Array.getD, ha, dif_pos, Array.getInternal_eq_getElem]
    rw [siftDown, dif_pos hsize]
    simp only [hat]
    split
    · rename_i hlt
      have hswap := h.swap hi hj hlt
      split
      · obtain ⟨k, rfl⟩ : ∃ k, i = k + 1 := ⟨i - 1, by omega⟩
        exact ih hswap (by omega) (by rw [Array.size_swap]; omega) (by omega)
      · obtain rfl : i = 0 := by omega
        exact hswap
    · rename_i hle
      exact h.stop hi (not_lt.mp hle) 0

variable (key) in
theorem gapPass_sorts (q : Array ℕ) : SortedBut key (gapPass key 1 q) (q.size - 1) 0 := by
  have hpass : ∀ n, n + 1 ≤ q.size → ((List.range' 1 n).foldl
      (fun q j => siftDown key 1 (j + 1) (j - 1) q) q).size = q.size ∧
      SortedBut key ((List.range' 1 n).foldl
        (fun q j => siftDown key 1 (j + 1) (j - 1) q) q) n 0 := by
    intro n
    induction n with
    | zero =>
      refine fun _ => ⟨rfl, fun a b hab hb => ?_⟩
      omega
    | succ n ih =>
      intro hn
      obtain ⟨hsize, hsorted⟩ := ih (by omega)
      rw [List.range'_concat, List.foldl_append]
      simp only [List.foldl_cons, List.foldl_nil, Nat.one_mul]
      refine ⟨((siftDown_perm ..).size_eq).trans hsize, ?_⟩
      refine siftDown_sorts (fun a b hab hb hne => ?_) (by omega) (by omega) (by omega)
      exact hsorted a b hab (by omega) (by omega)
  rcases Nat.eq_zero_or_pos q.size with hempty | hpos
  · intro a b hab hb
    omega
  · exact (hpass (q.size - 1) (by omega)).2

inductive IsGap : ℕ → Prop
  | one : IsGap 1
  | next {gap : ℕ} (h : IsGap gap) : IsGap (3 * gap + 1)

theorem IsGap.pos {gap : ℕ} (h : IsGap gap) : 0 < gap := by
  cases h with
  | one => exact Nat.one_pos
  | next h => exact Nat.succ_pos _

theorem firstGap_isGap {size fuel gap : ℕ} (h : IsGap gap) : IsGap (firstGap size fuel gap) := by
  induction fuel generalizing gap with
  | zero => exact h
  | succ fuel ih =>
    rw [firstGap]
    split
    · exact ih h.next
    · exact h.next

theorem firstGap_ge {size fuel gap : ℕ} : gap ≤ firstGap size fuel gap := by
  induction fuel generalizing gap with
  | zero => exact le_rfl
  | succ fuel ih =>
    rw [firstGap]
    split
    · exact (by omega : gap ≤ 3 * gap + 1).trans ih
    · omega

variable (key) in
theorem gapPasses_last (q : Array ℕ) {fuel gap : ℕ} (h : IsGap gap) (hgap : gap ≠ 1)
    (hfuel : gap ≤ fuel) : ∃ q' : Array ℕ, gapPasses key fuel gap q = gapPass key 1 q' := by
  induction h generalizing q fuel with
  | one => exact absurd rfl hgap
  | @next gap h ih =>
    obtain ⟨fuel, rfl⟩ : ∃ n, fuel = n + 1 := ⟨fuel - 1, by omega⟩
    have hpos := h.pos
    have hdiv : (3 * gap + 1) / 3 = gap := by omega
    rw [gapPasses, if_neg hgap, hdiv]
    by_cases hone : gap = 1
    · subst hone
      obtain ⟨fuel, rfl⟩ : ∃ n, fuel = n + 1 := ⟨fuel - 1, by omega⟩
      exact ⟨q, by rw [gapPasses, if_pos rfl]⟩
    · exact ih _ hone (by omega)

theorem shellSort_sorted (q : List ℕ) :
    (shellSort key q).Pairwise fun a b => key a ≤ key b := by
  rw [shellSort]
  cases q with
  | nil => simp [firstGap, gapPasses]
  | cons bp q =>
    have hgap : firstGap (bp :: q).length (bp :: q).length 1 ≠ 1 := by
      have hge : 4 ≤ firstGap (bp :: q).length (bp :: q).length 1 := by
        rw [List.length_cons, firstGap]
        split
        · exact firstGap_ge
        · exact le_rfl
      omega
    obtain ⟨q', hlast⟩ := gapPasses_last key (bp :: q).toArray
      (firstGap_isGap .one) hgap le_rfl
    rw [hlast]
    have hsorted := gapPass_sorts key q'
    have hsize : (gapPass key 1 q').size = q'.size := (gapPass_perm ..).size_eq
    refine List.pairwise_iff_getElem.mpr fun a b ha hb hab => ?_
    rw [Array.length_toList] at ha hb
    have hle := hsorted a b hab (by omega) (by omega)
    simpa only [keyAt, Array.getD, ha, hb, dif_pos, Array.getInternal_eq_getElem,
      Array.getElem_toList] using hle

-- The same loops as they run, none if one of them goes on for longer than that.
section Within
variable (key)

theorem lower_lt {i gap : ℕ} {q : Array ℕ} (h : i + gap < q.size) : i < q.size :=
  (Nat.le_add_right i gap).trans_lt h

def siftWithin (gap : ℕ) : ℕ → ℕ → Array ℕ → Option (Array ℕ)
  | 0, _, _ => none
  | fuel + 1, i, q =>
    if h : i + gap < q.size then
      have hi : i < q.size := lower_lt h
      if key q[i] > key q[i + gap] then
        let q := q.swap i (i + gap) hi h
        if gap ≤ i then siftWithin gap fuel (i - gap) q else some q
      else some q
    else some q

def gapPassWithin (fuel gap : ℕ) (q : Array ℕ) : Option (Array ℕ) :=
  (List.range' gap (q.size - gap)).foldlM (fun q j => siftWithin key gap fuel (j - gap) q) q

def firstGapWithin (size : ℕ) : ℕ → ℕ → Option ℕ
  | 0, _ => none
  | fuel + 1, gap =>
    let gap := 3 * gap + 1
    if gap ≤ size then firstGapWithin size fuel gap else some gap

def gapPassesWithin (inner : ℕ) : ℕ → ℕ → Array ℕ → Option (Array ℕ)
  | 0, _, _ => none
  | fuel + 1, gap, q =>
    if gap = 1 then some q
    else
      let gap := gap / 3
      (gapPassWithin key inner gap q).bind (gapPassesWithin inner fuel gap)

def shellSortWithin (fuel : ℕ) (q : List ℕ) : Option (List ℕ) :=
  (firstGapWithin q.length fuel 1).bind fun gap =>
    (gapPassesWithin key fuel fuel gap q.toArray).map Array.toList

end Within

theorem siftWithin_eq {gap fuel m : ℕ} (hgap : 0 < gap) (hfuel : i < fuel)
    (hm : i < m) : siftWithin key gap fuel i q = some (siftDown key gap m i q) := by
  induction fuel generalizing m i q with
  | zero => exact absurd hfuel (Nat.not_lt_zero i)
  | succ fuel ih =>
    obtain ⟨m, rfl⟩ : ∃ n, m = n + 1 := ⟨m - 1, by omega⟩
    rw [siftWithin, siftDown]
    split
    · dsimp only
      split
      · split
        · exact ih (by omega) (by omega)
        · rfl
      · rfl
    · rfl

theorem gapPassWithin_eq {fuel gap : ℕ} (hgap : 0 < gap) (hfuel : q.size ≤ fuel) :
    gapPassWithin key fuel gap q = some (gapPass key gap q) := by
  have hfold : ∀ (js : List ℕ) (q : Array ℕ), (∀ j ∈ js, gap ≤ j ∧ j < fuel) →
      js.foldlM (fun q j => siftWithin key gap fuel (j - gap) q) q =
        some (js.foldl (fun q j => siftDown key gap (j + 1) (j - gap) q) q) := by
    intro js
    induction js with
    | nil => exact fun _ _ => rfl
    | cons j js ih =>
      intro q hjs
      have hj := hjs j List.mem_cons_self
      rw [List.foldlM_cons, siftWithin_eq (m := j + 1) hgap (by omega) (by omega)]
      exact ih _ fun k hk => hjs k (List.mem_cons_of_mem _ hk)
  refine hfold _ q fun j hj => ?_
  rw [List.mem_range'_1] at hj
  omega

theorem firstGapWithin_eq {size fuel m gap : ℕ} (hgap : 0 < gap) (hle : gap ≤ size)
    (hfuel : size < fuel + gap) (hm : size < m + gap) :
    firstGapWithin size fuel gap = some (firstGap size m gap) := by
  induction fuel generalizing m gap with
  | zero => omega
  | succ fuel ih =>
    obtain ⟨m, rfl⟩ : ∃ n, m = n + 1 := ⟨m - 1, by omega⟩
    rw [firstGapWithin, firstGap]
    split
    · exact ih (by omega) (by omega) (by omega) (by omega)
    · rfl

theorem gapPassesWithin_eq {inner fuel m gap : ℕ} (h : IsGap gap) (hfuel : gap ≤ fuel)
    (hm : gap ≤ m) (hinner : q.size ≤ inner) :
    gapPassesWithin key inner fuel gap q = some (gapPasses key m gap q) := by
  induction h generalizing fuel m q with
  | one =>
    obtain ⟨fuel, rfl⟩ : ∃ n, fuel = n + 1 := ⟨fuel - 1, by omega⟩
    obtain ⟨m, rfl⟩ : ∃ n, m = n + 1 := ⟨m - 1, by omega⟩
    rfl
  | @next gap h ih =>
    obtain ⟨fuel, rfl⟩ : ∃ n, fuel = n + 1 := ⟨fuel - 1, by omega⟩
    obtain ⟨m, rfl⟩ : ∃ n, m = n + 1 := ⟨m - 1, by omega⟩
    have hpos := h.pos
    have hne : 3 * gap + 1 ≠ 1 := by omega
    have hdiv : (3 * gap + 1) / 3 = gap := by omega
    rw [gapPassesWithin, gapPasses, if_neg hne, if_neg hne]
    simp only [hdiv]
    rw [gapPassWithin_eq hpos hinner, Option.bind_some]
    exact ih (by omega) (by omega) ((gapPass_perm ..).size_eq.trans_le hinner)

theorem firstGap_le (fuel : ℕ) {size gap : ℕ} :
    gap ≤ size → firstGap size fuel gap ≤ 3 * size + 1 := by
  induction fuel generalizing gap with
  | zero =>
    intro hle
    rw [firstGap]
    omega
  | succ fuel ih =>
    intro hle
    rw [firstGap]
    split
    · exact ih (by assumption)
    · omega

theorem shellSortWithin_eq {q : List ℕ} {fuel : ℕ} (hfuel : 3 * q.length + 4 ≤ fuel) :
    shellSortWithin key fuel q = some (shellSort key q) := by
  rw [shellSortWithin, shellSort]
  cases q with
  | nil =>
    obtain ⟨fuel, rfl⟩ : ∃ n, fuel = n + 2 := ⟨fuel - 2, by simp at hfuel; omega⟩
    rfl
  | cons bp q =>
    have hle : 1 ≤ (bp :: q).length := by simp
    rw [firstGapWithin_eq (m := (bp :: q).length) Nat.one_pos hle (by omega) (by omega),
      Option.bind_some]
    have hgap := firstGap_le (bp :: q).length hle
    rw [gapPassesWithin_eq (m := firstGap (bp :: q).length (bp :: q).length 1)
      (firstGap_isGap .one) (by omega) le_rfl (by simp only [List.size_toArray]; omega)]
    rfl

end Mfs
