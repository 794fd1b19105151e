import Cs111.Lib.Deviations
import Cs111.SlugMem.Growth

namespace SlugMem
open LinearProbing

def INT_MAX : ℤ := 2147483647

def toInt (x : ℤ) : Option ℤ := if -INT_MAX - 1 ≤ x ∧ x ≤ INT_MAX then some x else none

structure Sums where
  nAllocs : ℤ
  total : ℤ
  deriving DecidableEq

def addCell (ht : Hashtable) (s : Sums) (i : ℕ) : Option Sums :=
  match ht.table i with
  | none => some s
  | some a => do
    let nAllocs ← toInt (s.nAllocs + 1)
    let total ← toInt (s.total + a.size)
    pure ⟨nAllocs, total⟩

def sumTable (ht : Hashtable) : Option Sums := (List.range ht.size).foldlM (addCell ht) ⟨0, 0⟩

def addDeviation (ht : Hashtable) (mean : ℚ) (stdDev : ℚ) (i : ℕ) : ℚ :=
  match ht.table i with
  | none => stdDev
  | some a => stdDev + (a.size - mean) ^ 2

def sumDeviations (ht : Hashtable) (mean : ℚ) : ℚ :=
  (List.range ht.size).foldl (addDeviation ht mean) 0

inductive Verdict where
  | problems | noProblems
  deriving DecidableEq, Repr

structure Report where
  entries : List (ℕ × Allocation)
  mean : ℚ
  radicand : ℚ
  verdict : Option Verdict

inductive Memstats where
  | noAllocations
  | overflows
  | dividesByZero
  | reports (report : Report)

def verdict (exitStatus : ℕ) : Option Verdict :=
  if exitStatus = 1 then some .problems
  else if exitStatus = 0 then some .noProblems
  else none

def slugMemstats (s : State) : Memstats :=
  match s.ht with
  | none => .noAllocations
  | some ht =>
    match sumTable ht with
    | none => .overflows
    | some sums =>
      if sums.nAllocs = 0 then .dividesByZero
      else
        -- an int division, whose result is then converted
        let mean : ℚ := (sums.total.tdiv sums.nAllocs : ℤ)
        .reports {
          entries := (List.range ht.size).filterMap fun i => (ht.table i).map (i, ·)
          mean := mean
          radicand := sumDeviations ht mean
          verdict := verdict s.exitStatus }

-- The handlers run in reverse order, and the exit() inside leak_detection goes on with the rest.
def exitHandlers (s : State) : Option Memstats := (leakDetection s).map fun (s, _) => slugMemstats s

inductive Exits : List Call → State → Prop
  | normal {calls s} : Accepted calls s → Exits calls s
  | malloc {calls s s' message} (size : ℕ) (where' : String) (now loc : ℕ) : Accepted calls s →
      slugMalloc s size where' now loc = .exits s' message → Exits calls s'
  | free {calls s s' message} (addr : ℕ) (where' : String) : Accepted calls s →
      slugFree s addr where' = .exits s' message → Exits calls s'

def ArithmeticSafe (s : State) : Prop := ∃ report, exitHandlers s = some (.reports report)

def allocated : List Call → ℕ
  | [] => 0
  | .malloc size _ _ _ :: calls => size + allocated calls
  | .free _ _ :: calls => allocated calls

def recordedSizes (t : ℕ → Option Allocation) (n : ℕ) : Multiset ℕ :=
  (records t n).map Allocation.size

def Hashtable.sizes (ht : Hashtable) : Multiset ℕ := recordedSizes ht.table ht.size

section Sizes
variable {t : ℕ → Option Allocation} {n : ℕ}

@[simp] theorem recordedSizes_zero : recordedSizes t 0 = 0 := by simp [recordedSizes, records]

theorem recordedSizes_skip (h : t n = none) : recordedSizes t (n + 1) = recordedSizes t n := by
  simp [recordedSizes, records_succ, h]

theorem recordedSizes_next {a : Allocation} (h : t n = some a) :
    recordedSizes t (n + 1) = a.size ::ₘ recordedSizes t n := by
  simp [recordedSizes, records_succ, h]

theorem mem_sizes {ht : Hashtable} {n : ℕ} : n ∈ ht.sizes ↔ ∃ a ∈ ht.stored, a.size = n := by
  simp [Hashtable.sizes, recordedSizes, Hashtable.stored]

theorem card_sizes (ht : Hashtable) : ht.sizes.card = ht.stored.card := by
  simp [Hashtable.sizes, recordedSizes, Hashtable.stored]

end Sizes

section Loops
variable {ht : Hashtable}

def Fits (sizes : Multiset ℕ) : Prop := (sizes.card : ℤ) ≤ INT_MAX ∧ (sizes.sum : ℤ) ≤ INT_MAX

instance (sizes : Multiset ℕ) : Decidable (Fits sizes) := inferInstanceAs (Decidable (_ ∧ _))

theorem INT_MAX_nonneg : 0 ≤ INT_MAX := by decide

theorem toInt_nat (n : ℕ) : toInt n = if (n : ℤ) ≤ INT_MAX then some (n : ℤ) else none := by
  have hmax := INT_MAX_nonneg
  have hnonneg : -INT_MAX - 1 ≤ (n : ℤ) := by omega
  simp [toInt, hnonneg]

theorem fits_zero : Fits 0 := by simp [Fits, INT_MAX_nonneg]

theorem Fits.of_cons {size : ℕ} {sizes : Multiset ℕ} (h : Fits (size ::ₘ sizes)) : Fits sizes := by
  simp only [Fits, Multiset.card_cons, Multiset.sum_cons] at h ⊢
  omega

theorem addCell_record {a : Allocation} {i : ℕ} (hcell : ht.table i = some a)
    (sizes : Multiset ℕ) : addCell ht ⟨sizes.card, sizes.sum⟩ i =
      if Fits (a.size ::ₘ sizes) then
        some ⟨(a.size ::ₘ sizes).card, (a.size ::ₘ sizes).sum⟩
      else none := by
  have hcount := toInt_nat (sizes.card + 1)
  have htotal := toInt_nat (sizes.sum + a.size)
  rw [Nat.cast_add, Nat.cast_one] at hcount
  rw [Nat.cast_add] at htotal
  simp only [addCell, hcell, hcount, htotal, Fits, Multiset.card_cons, Multiset.sum_cons,
    Nat.cast_add, Nat.cast_one, add_comm (a.size : ℤ)]
  generalize (sizes.card : ℤ) = count, (sizes.sum : ℤ) = total
  by_cases hfew : count + 1 ≤ INT_MAX
  · by_cases hsmall : total + a.size ≤ INT_MAX
    · simp [hfew, hsmall]
    · simp [hfew, hsmall]
  · simp [hfew]

theorem sum_cells (ht : Hashtable) (n : ℕ) :
    (List.range n).foldlM (addCell ht) ⟨0, 0⟩ =
      if Fits (recordedSizes ht.table n) then
        some ⟨(recordedSizes ht.table n).card, (recordedSizes ht.table n).sum⟩
      else none := by
  induction n with
  | zero => simp [fits_zero]
  | succ n ih =>
    rw [List.range_succ, List.foldlM_append, ih]
    cases hcell : ht.table n with
    | none =>
      rw [recordedSizes_skip hcell]
      split <;> simp [addCell, hcell]
    | some a =>
      rw [recordedSizes_next hcell]
      by_cases hfits : Fits (recordedSizes ht.table n)
      · rw [if_pos hfits, ← addCell_record hcell]
        change (addCell ht _ n >>= pure) = _
        rw [bind_pure]
      · have hmore : ¬ Fits (a.size ::ₘ recordedSizes ht.table n) := fun h => hfits h.of_cons
        simp [hfits, hmore]

theorem sumTable_eq (ht : Hashtable) :
    sumTable ht = if Fits ht.sizes then some ⟨ht.sizes.card, ht.sizes.sum⟩ else none :=
  sum_cells ht ht.size

theorem sumDeviations_eq (ht : Hashtable) (mean : ℚ) :
    sumDeviations ht mean = Deviations.squares (ht.sizes.map (↑)) mean := by
  rw [sumDeviations, Hashtable.sizes]
  induction ht.size with
  | zero => simp
  | succ n ih =>
    rw [List.range_succ, List.foldl_append, ih]
    cases hcell : ht.table n with
    | none => simp [addDeviation, hcell, recordedSizes_skip hcell]
    | some a => simp [addDeviation, hcell, recordedSizes_next hcell, add_comm]

theorem slugMemstats_reports {s : State} (hs : s.ht = some ht) :
    (∃ report, slugMemstats s = .reports report) ↔ ht.stored ≠ 0 ∧ Fits ht.sizes := by
  have hempty : ht.sizes.card = 0 ↔ ht.stored = 0 := by
    rw [card_sizes, Multiset.card_eq_zero]
  simp only [slugMemstats, hs, sumTable_eq]
  by_cases hfits : Fits ht.sizes
  · by_cases hnone : ht.stored = 0
    · have hzero := hempty.mpr hnone
      simp [hfits, hnone, hzero]
    · have hcard := mt hempty.mp hnone
      simp [hfits, hnone, hcard]
  · simp [hfits]

end Loops

section Exit
variable {calls : List Call} {s s' : State} {ht : Hashtable}

theorem leakDetection_table (hs : s.ht = some ht) :
    ∃ s' report, leakDetection s = some (s', report) ∧ s'.ht = some ht := by
  simp only [leakDetection, hs, Option.map_some]
  split
  · exact ⟨s, none, rfl, hs⟩
  · exact ⟨_, _, rfl, rfl⟩

theorem arithmeticSafe_iff (hs : s.ht = some ht) :
    ArithmeticSafe s ↔ ht.stored ≠ 0 ∧ Fits ht.sizes := by
  obtain ⟨s', report, hleak, hs'⟩ := leakDetection_table hs
  rw [← slugMemstats_reports hs', ArithmeticSafe, exitHandlers, hleak]
  simp

theorem slugMalloc_sizes {size : ℕ} {where' : String} {now loc : ℕ} (hrun : Accepted calls s)
    (hcall : slugMalloc s size where' now loc = .returns s' loc) :
    ∃ ht', s'.ht = some ht' ∧ ht'.sizes = size ::ₘ (s.ht.getD initHashtable).sizes := by
  have hvalid : (s.ht.getD initHashtable).Valid := by
    rcases accepted_counted hrun with ⟨hnone, -⟩ | ⟨ht, hs, hcounted⟩
    · simpa [hnone] using valid_init
    · simpa [hs] using hcounted.valid
  obtain ⟨ht', hins, hs'⟩ := slugMalloc_returns hcall
  obtain ⟨new, hnew, -, hstored⟩ := insert_spec 0 hvalid ⟨loc, where', now, size, true⟩
  obtain rfl := Option.some.inj (hins.symm.trans hnew)
  have hmap := congrArg (Multiset.map Allocation.size) hstored
  rw [Multiset.map_cons] at hmap
  exact ⟨ht', by simp [hs'], hmap⟩

theorem accepted_sizes (h : Accepted calls s) :
    (s.ht.getD initHashtable).sizes.sum = allocated calls := by
  induction h with
  | nil => simp [State.initial, initHashtable, Hashtable.sizes, recordedSizes, allocated]
  | @malloc calls s s' size where' now loc hrun hcall ih =>
    obtain ⟨ht', hs', hsizes⟩ := slugMalloc_sizes hrun hcall
    simp [hs', hsizes, ih, allocated]
  | @free calls s s' addr where' hrun hcall ih =>
    obtain ⟨ht, pos, a, hs, hfound, hactive, hs'⟩ := slugFree_returns hcall
    rcases accepted_counted hrun with ⟨hnone, -⟩ | ⟨table, htable, hcounted⟩
    · simp [hnone] at hs
    · obtain rfl := Option.some.inj (htable.symm.trans hs)
      obtain ⟨hpos, hcell, -⟩ := found_cell hcounted.valid hfound
      have hrep : a ::ₘ (table.markInactive pos a).stored =
          { a with active := false } ::ₘ table.stored := records_replace hpos hcell
      have hmap := congrArg (fun r => (Multiset.map Allocation.size r).sum) hrep
      simp only [Multiset.map_cons, Multiset.sum_cons] at hmap
      have hsame : (table.markInactive pos a).sizes.sum = table.sizes.sum :=
        Nat.add_left_cancel hmap
      simp only [hs, Option.getD_some] at ih
      simp [hs', hsame, ih, allocated]

theorem exits_table (h : Exits calls s) (hs : s.ht = some ht) :
    ∃ s', Accepted calls s' ∧ ht = s'.ht.getD initHashtable := by
  cases h with
  | normal hrun => exact ⟨s, hrun, by simp [hs]⟩
  | malloc size where' now loc hrun hcall =>
    rename_i s₀ message
    refine ⟨s₀, hrun, ?_⟩
    simp only [slugMalloc, State.fail] at hcall
    split at hcall
    · cases hcall
      exact (Option.some.inj hs).symm
    · split at hcall <;> cases hcall
  | free addr where' hrun hcall =>
    rename_i s₀ message
    have hsame : s.ht = s₀.ht := by
      simp only [slugFree, State.fail] at hcall
      split at hcall
      · cases hcall
        rfl
      · split at hcall
        · cases hcall
        · cases hcall
          rfl
        · split at hcall <;> cases hcall
          rfl
    exact ⟨s₀, hrun, by simp [← hsame, hs]⟩

end Exit

theorem memstats_safe_iff {calls : List Call} {s : State} {ht : Hashtable} (h : Exits calls s)
    (hs : s.ht = some ht) : ArithmeticSafe s ↔
      0 < mallocs calls ∧ (mallocs calls : ℤ) ≤ INT_MAX ∧ (allocated calls : ℤ) ≤ INT_MAX := by
  obtain ⟨s', hrun, rfl⟩ := exits_table h hs
  have hsum := accepted_sizes hrun
  have hstored : (s'.ht.getD initHashtable).stored.card = mallocs calls := by
    rcases accepted_counted hrun with ⟨hnone, rfl⟩ | ⟨ht, hs', hcounted⟩
    · simp [hnone, stored_init, mallocs]
    · simpa [hs'] using hcounted.stored
  rw [arithmeticSafe_iff hs, Fits, card_sizes, hstored, hsum, ← hstored, Multiset.card_pos]

theorem memstats_safe_first : ∃ s ht, Exits [.malloc 1 "a" 0 8] s ∧ s.ht = some ht ∧
    (ArithmeticSafe s ↔ 0 < mallocs [.malloc 1 "a" 0 8] ∧
      (mallocs [.malloc 1 "a" 0 8] : ℤ) ≤ INT_MAX ∧
      (allocated [.malloc 1 "a" 0 8] : ℤ) ≤ INT_MAX) := by
  have hexit : Exits [.malloc 1 "a" 0 8] _ := .normal (.malloc 1 "a" 0 8 .nil rfl)
  exact ⟨_, _, hexit, rfl, memstats_safe_iff hexit rfl⟩

theorem empty_table_divides_by_zero : ∃ s ht, Exits [] s ∧ s.ht = some ht ∧
    exitHandlers s = some .dividesByZero ∧ ¬ ArithmeticSafe s := by
  have hexit : Exits [] _ := .malloc 128000000 "a" 0 8 .nil rfl
  have hunsafe : ¬ ArithmeticSafe _ := fun hsafe =>
    ((arithmeticSafe_iff (s := ⟨some initHashtable, 1⟩) rfl).mp hsafe).1 stored_init
  obtain ⟨s', report, hleak, hs'⟩ := leakDetection_table (s := ⟨some initHashtable, 1⟩) rfl
  refine ⟨_, _, hexit, rfl, ?_, hunsafe⟩
  have hzero : initHashtable.sizes = 0 := by simp [Hashtable.sizes, recordedSizes, initHashtable]
  have hnone : slugMemstats s' = .dividesByZero := by
    simp [slugMemstats, hs', sumTable_eq, hzero, fits_zero]
  exact (congrArg _ hleak).trans (congrArg some hnone)

def StatisticsRight (s : State) (ht : Hashtable) : Prop :=
  ∃ report, slugMemstats s = .reports report ∧
    report.mean = Deviations.mean (ht.sizes.map (↑)) ∧
    report.radicand = Deviations.variance (ht.sizes.map (↑))

def SameSizes (ht : Hashtable) : Prop := ∀ a ∈ ht.stored, ∀ b ∈ ht.stored, a.size = b.size

section Statistics
variable {s : State} {ht : Hashtable}

theorem sameSizes_iff : SameSizes ht ↔
    ∀ x ∈ ht.sizes.map ((↑) : ℕ → ℚ), ∀ y ∈ ht.sizes.map ((↑) : ℕ → ℚ), x = y := by
  simp [SameSizes, Hashtable.sizes, recordedSizes, Hashtable.stored]

theorem sameSizes_mean (hne : ht.stored ≠ 0) (h : SameSizes ht) :
    (((ht.sizes.sum : ℤ).tdiv ht.sizes.card : ℤ) : ℚ) = Deviations.mean (ht.sizes.map (↑)) := by
  obtain ⟨a, ha⟩ := Multiset.exists_mem_of_ne_zero hne
  have hall : ∀ x ∈ ht.sizes, x = a.size := by
    intro x hx
    obtain ⟨b, hb, rfl⟩ := mem_sizes.mp hx
    exact h b hb a ha
  have hsum := congrArg Multiset.sum (Multiset.eq_replicate_of_mem hall)
  rw [Multiset.sum_replicate, nsmul_eq_mul, Nat.cast_id] at hsum
  have hcard : ht.sizes.card ≠ 0 := by
    rw [card_sizes]
    simpa using hne
  have hsizes : ht.sizes.map ((↑) : ℕ → ℚ) ≠ 0 := by
    simpa [← Multiset.card_eq_zero] using hcard
  have hmean : Deviations.mean (ht.sizes.map ((↑) : ℕ → ℚ)) = a.size := by
    refine Deviations.mean_const hsizes fun x hx => ?_
    obtain ⟨n, hn, rfl⟩ := Multiset.mem_map.mp hx
    rw [hall n hn]
  have hdiv : ((ht.sizes.sum : ℤ).tdiv ht.sizes.card : ℤ) = a.size := by
    rw [hsum]
    push_cast
    exact Int.mul_tdiv_cancel_left _ (by exact_mod_cast hcard)
  rw [hmean, hdiv]
  simp

theorem statisticsRight_eq (hs : s.ht = some ht) (hne : ht.stored ≠ 0) (hfits : Fits ht.sizes) :
    StatisticsRight s ht ↔
      (((ht.sizes.sum : ℤ).tdiv ht.sizes.card : ℤ) : ℚ) = Deviations.mean (ht.sizes.map (↑)) ∧
      Deviations.squares (ht.sizes.map ((↑) : ℕ → ℚ))
        (((ht.sizes.sum : ℤ).tdiv ht.sizes.card : ℤ) : ℚ) =
          Deviations.variance (ht.sizes.map (↑)) := by
  have hcard : ht.sizes.card ≠ 0 := by
    rw [card_sizes]
    simpa using hne
  simp [StatisticsRight, slugMemstats, hs, sumTable_eq, hfits, hcard, sumDeviations_eq]

end Statistics

theorem statisticsRight_iff {s : State} {ht : Hashtable} (hs : s.ht = some ht)
    (hne : ht.stored ≠ 0) (hsum : (ht.sizes.sum : ℤ) ≤ INT_MAX) :
    StatisticsRight s ht ↔ SameSizes ht ∧ (ht.stored.card : ℤ) ≤ INT_MAX := by
  have hcard : ht.sizes.card ≠ 0 := by
    rw [card_sizes]
    simpa using hne
  have hsizes : ht.sizes.map ((↑) : ℕ → ℚ) ≠ 0 := by
    simpa [← Multiset.card_eq_zero] using hcard
  by_cases hfits : Fits ht.sizes
  · have hcount : (ht.stored.card : ℤ) ≤ INT_MAX := card_sizes ht ▸ hfits.1
    rw [statisticsRight_eq hs hne hfits]
    constructor
    · rintro ⟨hmean, hvariance⟩
      rw [hmean, Deviations.squares_eq_variance_iff hsizes, ← sameSizes_iff] at hvariance
      exact ⟨hvariance, hcount⟩
    · rintro ⟨hsame, -⟩
      have hmean := sameSizes_mean hne hsame
      refine ⟨hmean, ?_⟩
      rw [hmean, Deviations.squares_eq_variance_iff hsizes, ← sameSizes_iff]
      exact hsame
  · have hcount : ¬ (ht.stored.card : ℤ) ≤ INT_MAX := fun h => hfits ⟨card_sizes ht ▸ h, hsum⟩
    simp [StatisticsRight, slugMemstats, hs, sumTable_eq, hfits, hcount]

theorem statisticsRight_first : ∃ s ht, Accepted [.malloc 1 "a" 0 8] s ∧ s.ht = some ht ∧
    (StatisticsRight s ht ↔ SameSizes ht ∧ (ht.stored.card : ℤ) ≤ INT_MAX) := by
  have hrun : Accepted [.malloc 1 "a" 0 8] _ := .malloc 1 "a" 0 8 .nil rfl
  obtain ⟨ht, hs, hsizes⟩ := slugMalloc_sizes .nil (rfl : slugMalloc .initial 1 "a" 0 8 = _)
  have hone : ht.sizes = {1} := by
    rw [hsizes]
    simp [State.initial, initHashtable, Hashtable.sizes, recordedSizes]
  have hne : ht.stored ≠ 0 := by simp [← Multiset.card_eq_zero, ← card_sizes, hone]
  exact ⟨_, ht, hrun, hs, statisticsRight_iff hs hne (by simp [hone, INT_MAX])⟩

theorem mean_truncated : ∃ s ht, Accepted [.malloc 2 "b" 0 16, .malloc 1 "a" 0 8] s ∧
    s.ht = some ht ∧ ht.stored ≠ 0 ∧ (ht.sizes.sum : ℤ) ≤ INT_MAX ∧ ¬ StatisticsRight s ht := by
  obtain ⟨s₁, s₂, hcall₁, hcall₂⟩ : ∃ s₁ s₂, slugMalloc .initial 1 "a" 0 8 = .returns s₁ 8 ∧
      slugMalloc s₁ 2 "b" 0 16 = .returns s₂ 16 := ⟨_, _, rfl, rfl⟩
  have hfirst : Accepted [.malloc 1 "a" 0 8] s₁ := .malloc 1 "a" 0 8 .nil hcall₁
  obtain ⟨ht₁, hs₁, hsizes₁⟩ := slugMalloc_sizes .nil hcall₁
  obtain ⟨ht, hs, hsizes⟩ := slugMalloc_sizes hfirst hcall₂
  have htwo : ht.sizes = {2, 1} := by
    rw [hsizes, hs₁, Option.getD_some, hsizes₁]
    simp [State.initial, initHashtable, Hashtable.sizes, recordedSizes]
  have hne : ht.stored ≠ 0 := by simp [← Multiset.card_eq_zero, ← card_sizes, htwo]
  have hfits : Fits ht.sizes := by simp [htwo, Fits, INT_MAX]
  refine ⟨s₂, ht, .malloc 2 "b" 0 16 hfirst hcall₂, hs, hne, hfits.2, ?_⟩
  rw [statisticsRight_eq hs hne hfits]
  rintro ⟨hmean, -⟩
  have htrunc : (3 : ℤ).tdiv 2 = 1 := by decide
  norm_num [htwo, Deviations.mean, htrunc] at hmean

end SlugMem
