import Cs111.Vfs.LockTable

-- What an unlock does to the table, byte by byte.
namespace Vfs.Locks
open Tally Errno

variable {C : LockConfig} {t t' t₀ : LockTable} {R : Region} {pid : ℤ} {req : LockRequest} {i : ℕ}

structure Byte where
  vnode : ℕ
  offset : ℤ
  pid : ℤ
  ltype : LockType

def FileLock.Covers (C : LockConfig) (flp : FileLock) (b : Byte) : Prop :=
  flp.lockType = some b.ltype ∧ flp.lockVnode = b.vnode ∧ flp.lockPid = b.pid ∧
    C.off flp.lockFirst ≤ b.offset ∧ b.offset ≤ C.off flp.lockLast

def LockTable.Locked (C : LockConfig) (t : LockTable) (b : Byte) : Prop :=
  ∃ i < C.NR_LOCKS, (t.fileLock i).Covers C b

def Region.Has (C : LockConfig) (R : Region) (b : Byte) : Prop :=
  b.vnode = R.vnode ∧ C.off R.first ≤ b.offset ∧ b.offset ≤ C.off R.last

structure LockTable.Counted (C : LockConfig) (t : LockTable) : Prop where
  ordered : ∀ i < C.NR_LOCKS, (t.fileLock i).used →
    C.off (t.fileLock i).lockFirst ≤ C.off (t.fileLock i).lockLast
  count : t.nrLocks = tally C.NR_LOCKS FileLock.used t.fileLock

def CutInTwo (C : LockConfig) (R : Region) (flp : FileLock) : Prop :=
  flp.used ∧ flp.lockVnode = R.vnode ∧ C.off flp.lockFirst < C.off R.first ∧
    C.off R.last < C.off flp.lockLast

instance decidableCutInTwo (C : LockConfig) (R : Region) : DecidablePred (CutInTwo C R) :=
  fun flp => inferInstanceAs (Decidable (flp.used ∧ _ ∧ _ ∧ _))

def Covered (C : LockConfig) (R : Region) (flp : FileLock) : Prop :=
  flp.used ∧ Meets C R flp ∧ C.off R.first ≤ C.off flp.lockFirst ∧
    C.off flp.lockLast ≤ C.off R.last

instance decidableCovered (C : LockConfig) (R : Region) : DecidablePred (Covered C R) :=
  fun flp => inferInstanceAs (Decidable (flp.used ∧ _ ∧ _ ∧ _))

def countAt (C : LockConfig) (R : Region) (t : LockTable) (i : ℕ) : ℤ :=
  t.nrLocks - tally i (Covered C R) t.fileLock + tally i (CutInTwo C R) t.fileLock

def Touches (C : LockConfig) (R : Region) (flp : FileLock) : Prop := flp.used ∧ Meets C R flp

section Bytes
variable {b : Byte} {flp : FileLock}

theorem locked_at (hi : i < C.NR_LOCKS) : t.Locked C b ↔
    (t.fileLock i).Covers C b ∨ ∃ j < C.NR_LOCKS, j ≠ i ∧ (t.fileLock j).Covers C b := by
  constructor
  · rintro ⟨j, hj, hcovers⟩
    rcases eq_or_ne j i with rfl | hne
    · exact .inl hcovers
    · exact .inr ⟨j, hj, hne, hcovers⟩
  · rintro (hcovers | ⟨j, hj, -, hcovers⟩)
    · exact ⟨i, hi, hcovers⟩
    · exact ⟨j, hj, hcovers⟩

theorem locked_set {n : ℤ} (hi : i < C.NR_LOCKS) :
    LockTable.Locked C { t.set i flp with nrLocks := n } b ↔
      flp.Covers C b ∨ ∃ j < C.NR_LOCKS, j ≠ i ∧ (t.fileLock j).Covers C b := by
  rw [locked_at hi]
  simp only [LockTable.set_self]
  refine or_congr Iff.rfl (exists_congr fun j => and_congr_right fun _ => ?_)
  refine and_congr_right fun hne => ?_
  rw [LockTable.set_ne hne]

theorem set_locked_congr {n : ℤ} (hi : i < C.NR_LOCKS)
    (h : flp.Covers C b ↔ (t.fileLock i).Covers C b) :
    LockTable.Locked C { t.set i flp with nrLocks := n } b ↔ t.Locked C b := by
  rw [locked_set hi, locked_at hi, h]

theorem not_covers_unused (h : flp.lockType = none) : ¬ flp.Covers C b := by
  rintro ⟨htype, -⟩
  rw [h] at htype
  cases htype

theorem split_locked (hi : i < C.NR_LOCKS) (hused : (t.fileLock i).used)
    (hslot : unusedSlot C t < C.NR_LOCKS) :
    (splitLock C R i t).Locked C b ↔
      FileLock.Covers C { t.fileLock i with lockFirst := R.last + 1 } b ∨
      FileLock.Covers C { t.fileLock i with lockLast := R.first - 1 } b ∨
      ∃ j < C.NR_LOCKS, j ≠ i ∧ (t.fileLock j).Covers C b := by
  have hunused := unusedSlot_unused hslot
  have hne : unusedSlot C t ≠ i := fun heq => hused (heq ▸ hunused)
  rw [splitLock, locked_set hi]
  constructor
  · rintro (hcovers | ⟨j, hj, hji, hcovers⟩)
    · exact .inr (.inl hcovers)
    · rcases eq_or_ne j (unusedSlot C t) with rfl | hju
      · rw [LockTable.set_self] at hcovers
        exact .inl hcovers
      · rw [LockTable.set_ne hju] at hcovers
        exact .inr (.inr ⟨j, hj, hji, hcovers⟩)
  · rintro (hcovers | hcovers | ⟨j, hj, hji, hcovers⟩)
    · refine .inr ⟨unusedSlot C t, hslot, hne, ?_⟩
      rwa [LockTable.set_self]
    · exact .inl hcovers
    · refine .inr ⟨j, hj, hji, ?_⟩
      rcases eq_or_ne j (unusedSlot C t) with rfl | hju
      · exact absurd hcovers (not_covers_unused hunused)
      · rwa [LockTable.set_ne hju]

end Bytes

section Step
variable {flp : FileLock}

theorem LockTable.Counted.count_same (hc : t.Counted C) (hi : i < C.NR_LOCKS)
    (h : (t.fileLock i).used ↔ flp.used) :
    (t.set i flp).nrLocks = tally C.NR_LOCKS FileLock.used (t.set i flp).fileLock := by
  rw [LockTable.set, hc.count]
  exact congrArg Nat.cast (tally_same hi h).symm

theorem LockTable.Counted.unusedSlot_lt (hc : t.Counted C) (hroom : t.nrLocks ≠ C.NR_LOCKS) :
    unusedSlot C t < C.NR_LOCKS := by
  by_contra hfull
  refine hroom ?_
  rw [hc.count, Tally.tally, Finset.filter_true_of_mem, Finset.card_range]
  intro i hi hnone
  have hfound : ((List.range C.NR_LOCKS).find? fun i => (t.fileLock i).lockType = none).isSome :=
    List.find?_isSome.mpr ⟨i, List.mem_range.mpr (Finset.mem_range.mp hi), decide_eq_true hnone⟩
  obtain ⟨k, hk⟩ := Option.isSome_iff_exists.mp hfound
  refine hfull ?_
  rw [unusedSlot, hk]
  exact List.mem_range.mp (List.mem_of_find?_eq_some hk)

structure Cleared (C : LockConfig) (R : Region) (i : ℕ) (t t' : LockTable) : Prop where
  counted : t'.Counted C
  outside : ∀ b, ¬ R.Has C b → (t'.Locked C b ↔ t.Locked C b)
  slot : ¬ Touches C R (t'.fileLock i)
  others : ∀ j, j ≠ i → t'.fileLock j = t.fileLock j ∨
    (t.fileLock j).lockType = none ∧ ¬ Touches C R (t'.fileLock j)
  count : t'.nrLocks = t.nrLocks - (if Covered C R (t.fileLock i) then 1 else 0) +
    if CutInTwo C R (t.fileLock i) then 1 else 0

theorem clear_none_iff (hused : (t.fileLock i).used) (hmeets : Meets C R (t.fileLock i)) :
    clearRegion C R i t = none ↔ CutInTwo C R (t.fileLock i) ∧ t.nrLocks = C.NR_LOCKS := by
  obtain ⟨hvnode, hfirst, hlast⟩ := hmeets
  simp only [clearRegion, CutInTwo]
  split_ifs with hcovered hfront hback hfull
  · simp only [false_iff]
    omega
  · simp only [false_iff]
    omega
  · simp only [false_iff]
    omega
  · simp only [true_iff]
    exact ⟨⟨hused, hvnode, by omega, by omega⟩, hfull⟩
  · simp only [false_iff]
    exact fun h => hfull h.2

theorem front_cleared (hc : t.Counted C) (hi : i < C.NR_LOCKS) (hused : (t.fileLock i).used)
    (hvnode : (t.fileLock i).lockVnode = R.vnode)
    (hfirst : C.off R.first ≤ C.off (t.fileLock i).lockFirst)
    (hmeets : C.off (t.fileLock i).lockFirst ≤ C.off R.last)
    (hlast : C.off R.last < C.off (t.fileLock i).lockLast) :
    Cleared C R i t (t.set i { t.fileLock i with lockFirst := R.last + 1 }) := by
  have hsucc := off_succ hlast
  have hcovered : ¬ Covered C R (t.fileLock i) := fun h => absurd h.2.2.2 (by omega)
  have hsplits : ¬ CutInTwo C R (t.fileLock i) := fun h => absurd h.2.2.1 (by omega)
  refine ⟨⟨?_, ?_⟩, ?_, ?_, ?_, ?_⟩
  · intro j hj hjused
    rcases eq_or_ne j i with rfl | hne
    · rw [LockTable.set_self]
      simp only [hsucc]
      omega
    · rw [LockTable.set_ne hne] at hjused ⊢
      exact hc.ordered j hj hjused
  · exact hc.count_same hi ⟨fun _ => hused, fun _ => hused⟩
  · intro b hb
    refine set_locked_congr (n := t.nrLocks) hi ?_
    simp only [FileLock.Covers, hsucc]
    refine and_congr_right fun _ => and_congr_right fun hv => and_congr_right fun _ =>
      and_congr_left fun _ => ⟨fun h => by omega, fun h => ?_⟩
    by_contra hin
    exact hb ⟨hv.symm.trans hvnode, by omega, by omega⟩
  · rintro ⟨-, -, hfirst', -⟩
    rw [LockTable.set_self] at hfirst'
    simp only [hsucc] at hfirst'
    omega
  · exact fun j hne => .inl (LockTable.set_ne hne)
  · rw [if_neg hcovered, if_neg hsplits]
    simp [LockTable.set]

theorem back_cleared (hc : t.Counted C) (hi : i < C.NR_LOCKS) (hused : (t.fileLock i).used)
    (hvnode : (t.fileLock i).lockVnode = R.vnode)
    (hfirst : C.off (t.fileLock i).lockFirst < C.off R.first)
    (hmeets : C.off R.first ≤ C.off (t.fileLock i).lockLast)
    (hlast : C.off (t.fileLock i).lockLast ≤ C.off R.last) :
    Cleared C R i t (t.set i { t.fileLock i with lockLast := R.first - 1 }) := by
  have hpred := off_pred hfirst
  have hcovered : ¬ Covered C R (t.fileLock i) := fun h => absurd h.2.2.1 (by omega)
  have hsplits : ¬ CutInTwo C R (t.fileLock i) := fun h => absurd h.2.2.2 (by omega)
  refine ⟨⟨?_, ?_⟩, ?_, ?_, ?_, ?_⟩
  · intro j hj hjused
    rcases eq_or_ne j i with rfl | hne
    · rw [LockTable.set_self]
      simp only [hpred]
      omega
    · rw [LockTable.set_ne hne] at hjused ⊢
      exact hc.ordered j hj hjused
  · exact hc.count_same hi ⟨fun _ => hused, fun _ => hused⟩
  · intro b hb
    refine set_locked_congr (n := t.nrLocks) hi ?_
    simp only [FileLock.Covers, hpred]
    refine and_congr_right fun _ => and_congr_right fun hv => and_congr_right fun _ =>
      and_congr_right fun _ => ⟨fun h => by omega, fun h => ?_⟩
    by_contra hin
    exact hb ⟨hv.symm.trans hvnode, by omega, by omega⟩
  · rintro ⟨-, -, -, hlast'⟩
    rw [LockTable.set_self] at hlast'
    simp only [hpred] at hlast'
    omega
  · exact fun j hne => .inl (LockTable.set_ne hne)
  · rw [if_neg hcovered, if_neg hsplits]
    simp [LockTable.set]

theorem gone_cleared (hc : t.Counted C) (hi : i < C.NR_LOCKS) (hused : (t.fileLock i).used)
    (hmeets : Meets C R (t.fileLock i))
    (hfirst : C.off R.first ≤ C.off (t.fileLock i).lockFirst)
    (hlast : C.off (t.fileLock i).lockLast ≤ C.off R.last) :
    Cleared C R i t { t.set i { t.fileLock i with lockType := none } with
      nrLocks := t.nrLocks - 1 } := by
  have hsplits : ¬ CutInTwo C R (t.fileLock i) := fun h => absurd h.2.2.1 (by omega)
  refine ⟨⟨?_, ?_⟩, ?_, ?_, ?_, ?_⟩
  · intro j hj hjused
    rcases eq_or_ne j i with rfl | hne
    · exact absurd (congrArg FileLock.lockType LockTable.set_self) hjused
    · simp only [LockTable.set_ne hne] at hjused ⊢
      exact hc.ordered j hj hjused
  · have hleave : tally C.NR_LOCKS FileLock.used
        (Function.update t.fileLock i { t.fileLock i with lockType := none }) + 1 =
          tally C.NR_LOCKS FileLock.used t.fileLock :=
      tally_leave hi hused fun hno => hno rfl
    have hcount := hc.count
    have hless : t.nrLocks - 1 = (tally C.NR_LOCKS FileLock.used
        (Function.update t.fileLock i { t.fileLock i with lockType := none }) : ℤ) := by omega
    exact hless
  · intro b hb
    refine set_locked_congr hi (iff_of_false (not_covers_unused rfl) ?_)
    rintro ⟨-, hv, -, hlow, hhigh⟩
    exact hb ⟨hv.symm.trans hmeets.1, by omega, by omega⟩
  · exact fun h => h.1 (congrArg FileLock.lockType LockTable.set_self)
  · exact fun j hne => .inl (LockTable.set_ne hne)
  · rw [if_pos ⟨hused, hmeets, hfirst, hlast⟩, if_neg hsplits]
    simp

theorem split_cleared (hc : t.Counted C) (hi : i < C.NR_LOCKS)
    (hsplits : CutInTwo C R (t.fileLock i)) (hR : C.off R.first ≤ C.off R.last)
    (hroom : t.nrLocks ≠ C.NR_LOCKS) : Cleared C R i t (splitLock C R i t) := by
  obtain ⟨hused, hvnode, hfirst, hlast⟩ := hsplits
  have hslot := hc.unusedSlot_lt hroom
  have hunused := unusedSlot_unused hslot
  have hne : unusedSlot C t ≠ i := fun heq => hused (heq ▸ hunused)
  have hsucc := off_succ hlast
  have hpred := off_pred hfirst
  have hcovered : ¬ Covered C R (t.fileLock i) := fun h => absurd h.2.2.1 (by omega)
  refine ⟨⟨?_, ?_⟩, ?_, ?_, ?_, ?_⟩
  · intro j hj hjused
    rcases eq_or_ne j i with rfl | hji
    · simp only [splitLock, LockTable.set_self, hpred]
      omega
    · simp only [splitLock, LockTable.set_ne hji] at hjused ⊢
      rcases eq_or_ne j (unusedSlot C t) with rfl | hju
      · simp only [LockTable.set_self, hsucc]
        omega
      · simp only [LockTable.set_ne hju] at hjused ⊢
        exact hc.ordered j hj hjused
  · have henter : tally C.NR_LOCKS FileLock.used (Function.update t.fileLock (unusedSlot C t)
        { t.fileLock i with lockFirst := R.last + 1 }) =
          tally C.NR_LOCKS FileLock.used t.fileLock + 1 :=
      tally_enter hslot (fun hno => hno hunused) hused
    have hsame : tally C.NR_LOCKS FileLock.used (splitLock C R i t).fileLock =
        tally C.NR_LOCKS FileLock.used (Function.update t.fileLock (unusedSlot C t)
          { t.fileLock i with lockFirst := R.last + 1 }) :=
      tally_same hi ⟨fun _ => hused, fun _ => by rwa [LockTable.set_ne hne.symm]⟩
    have hcount := hc.count
    rw [hsame, henter]
    simp only [splitLock]
    omega
  · intro b hb
    rw [split_locked hi hused hslot, locked_at hi, ← or_assoc]
    refine or_congr ?_ Iff.rfl
    simp only [FileLock.Covers, hsucc, hpred]
    constructor
    · rintro (⟨htype, hv, hpid, hlow, hhigh⟩ | ⟨htype, hv, hpid, hlow, hhigh⟩)
      · exact ⟨htype, hv, hpid, by omega, hhigh⟩
      · exact ⟨htype, hv, hpid, hlow, by omega⟩
    · rintro ⟨htype, hv, hpid, hlow, hhigh⟩
      have hout : b.offset < C.off R.first ∨ C.off R.last < b.offset := by
        by_contra hin
        exact hb ⟨hv.symm.trans hvnode, by omega, by omega⟩
      rcases hout with hout | hout
      · exact .inr ⟨htype, hv, hpid, hlow, by omega⟩
      · exact .inl ⟨htype, hv, hpid, by omega, hhigh⟩
  · rintro ⟨-, -, -, hlast'⟩
    simp only [splitLock, LockTable.set_self, hpred] at hlast'
    omega
  · intro j hji
    simp only [splitLock, LockTable.set_ne hji]
    rcases eq_or_ne j (unusedSlot C t) with rfl | hju
    · refine .inr ⟨hunused, ?_⟩
      rintro ⟨-, -, hfirst', -⟩
      rw [LockTable.set_self] at hfirst'
      simp only [hsucc] at hfirst'
      omega
    · exact .inl (LockTable.set_ne hju)
  · rw [if_neg hcovered, if_pos ⟨hused, hvnode, hfirst, hlast⟩]
    simp [splitLock]

theorem clear_cleared (hc : t.Counted C) (hR : C.off R.first ≤ C.off R.last)
    (hi : i < C.NR_LOCKS) (htouches : Touches C R (t.fileLock i))
    (h : clearRegion C R i t = some t') : Cleared C R i t t' := by
  obtain ⟨hused, hmeets⟩ := htouches
  have ⟨hvnode, hfirst, hlast⟩ := hmeets
  rw [clearRegion] at h
  split at h
  · rename_i hcovered
    cases h
    exact gone_cleared hc hi hused hmeets hcovered.1 hcovered.2
  · split at h
    · cases h
      exact front_cleared hc hi hused hvnode (by assumption) hfirst (by omega)
    · split at h
      · cases h
        exact back_cleared hc hi hused hvnode (by omega) hlast (by assumption)
      · split at h
        · cases h
        · rename_i hroom
          cases h
          exact split_cleared hc hi ⟨hused, hvnode, by omega, by omega⟩ hR hroom

end Step

section Scan
variable {slots : List ℕ} {empty : Option ℕ} {unlocking : Bool} {r : Scanned}

structure Swept (C : LockConfig) (R : Region) (t₀ : LockTable) (i : ℕ) (t : LockTable) :
    Prop where
  counted : t.Counted C
  outside : ∀ b, ¬ R.Has C b → (t.Locked C b ↔ t₀.Locked C b)
  past : ∀ j < i, ¬ Touches C R (t.fileLock j)
  ahead : ∀ j, i ≤ j → t.fileLock j = t₀.fileLock j ∨
    (t₀.fileLock j).lockType = none ∧ ¬ Touches C R (t.fileLock j)
  count : t.nrLocks = countAt C R t₀ i
  room : ∀ j < i, CutInTwo C R (t₀.fileLock j) → countAt C R t₀ j ≠ C.NR_LOCKS
  same : (∀ j < i, ¬ Touches C R (t₀.fileLock j)) → t = t₀

theorem swept_start (hc : t₀.Counted C) : Swept C R t₀ 0 t₀ where
  counted := hc
  outside _ _ := Iff.rfl
  past j hj := absurd hj (Nat.not_lt_zero j)
  ahead _ _ := .inl rfl
  count := by simp [countAt, Tally.tally]
  room j hj := absurd hj (Nat.not_lt_zero j)
  same _ := rfl

theorem count_next : countAt C R t₀ (i + 1) = countAt C R t₀ i -
    (if Covered C R (t₀.fileLock i) then 1 else 0) +
      if CutInTwo C R (t₀.fileLock i) then 1 else 0 := by
  simp only [countAt, tally_succ]
  split_ifs <;> omega

theorem CutInTwo.touches {flp : FileLock} (hR : C.off R.first ≤ C.off R.last)
    (h : CutInTwo C R flp) : Touches C R flp := by
  obtain ⟨hused, hvnode, hfirst, hlast⟩ := h
  exact ⟨hused, hvnode, by omega, by omega⟩

theorem Swept.pass (h : Swept C R t₀ i t) (hR : C.off R.first ≤ C.off R.last)
    (hpass : ¬ Touches C R (t.fileLock i)) : Swept C R t₀ (i + 1) t := by
  have hfree : ¬ Touches C R (t₀.fileLock i) := by
    rcases h.ahead i le_rfl with heq | ⟨hnone, -⟩
    · rwa [heq] at hpass
    · exact fun htouches => htouches.1 hnone
  have hcovered : ¬ Covered C R (t₀.fileLock i) := fun hc => hfree ⟨hc.1, hc.2.1⟩
  have hsplits : ¬ CutInTwo C R (t₀.fileLock i) := fun hs => hfree (hs.touches hR)
  refine ⟨h.counted, h.outside, ?_, fun j hj => h.ahead j (by omega), ?_, ?_, fun hnone => ?_⟩
  · intro j hj
    rcases Nat.lt_succ_iff_lt_or_eq.mp hj with hj | rfl
    · exact h.past j hj
    · exact hpass
  · rw [count_next, if_neg hcovered, if_neg hsplits, h.count]
    simp
  · intro j hj
    rcases Nat.lt_succ_iff_lt_or_eq.mp hj with hj | rfl
    · exact h.room j hj
    · exact fun h => absurd h hsplits
  · exact h.same fun j hj => hnone j (by omega)

theorem Swept.same_at (h : Swept C R t₀ i t) (htouches : Touches C R (t.fileLock i)) :
    t.fileLock i = t₀.fileLock i :=
  (h.ahead i le_rfl).resolve_right fun hno => hno.2 htouches

theorem Swept.clear (h : Swept C R t₀ i t) (htouches : Touches C R (t.fileLock i))
    (hroom : CutInTwo C R (t₀.fileLock i) → countAt C R t₀ i ≠ C.NR_LOCKS)
    (hcleared : Cleared C R i t t') : Swept C R t₀ (i + 1) t' := by
  have hat := h.same_at htouches
  refine ⟨hcleared.counted, ?_, ?_, ?_, ?_, ?_, fun hnone => ?_⟩
  · exact fun b hb => (hcleared.outside b hb).trans (h.outside b hb)
  · intro j hj
    rcases Nat.lt_succ_iff_lt_or_eq.mp hj with hj | rfl
    · rcases hcleared.others j (by omega) with heq | ⟨-, hfree⟩
      · rw [heq]
        exact h.past j hj
      · exact hfree
    · exact hcleared.slot
  · intro j hj
    rcases hcleared.others j (by omega) with heq | ⟨hnone, hfree⟩
    · rw [heq]
      exact h.ahead j (by omega)
    · rcases h.ahead j (by omega) with heq | ⟨hnone', -⟩
      · exact .inr ⟨heq ▸ hnone, hfree⟩
      · exact .inr ⟨hnone', hfree⟩
  · rw [hcleared.count, count_next, h.count, hat]
  · intro j hj
    rcases Nat.lt_succ_iff_lt_or_eq.mp hj with hj | rfl
    · exact h.room j hj
    · exact hroom
  · exact absurd (hat ▸ htouches) (hnone i (by omega))

inductive UnlockEnds (C : LockConfig) (R : Region) (t₀ : LockTable) : Scanned → LockTable → Prop
  | through {t : LockTable} {last : Option ℕ} {unlocks : Bool}
      (hswept : Swept C R t₀ C.NR_LOCKS t) : UnlockEnds C R t₀ (.through last unlocks) t
  | full {t : LockTable} {i : ℕ} (hi : i < C.NR_LOCKS) (hswept : Swept C R t₀ i t)
      (hsplits : CutInTwo C R (t₀.fileLock i)) (hcount : countAt C R t₀ i = C.NR_LOCKS) :
      UnlockEnds C R t₀ .full t

theorem Swept.scan {n : ℕ} (h : Swept C R t₀ i t) (hR : C.off R.first ≤ C.off R.last)
    (hltype : R.ltype = .F_UNLCK) (hreq : req ≠ .F_GETLK) (hn : i + n = C.NR_LOCKS)
    (hscan : lockScan C R pid req (List.range' i n) empty unlocking t = (r, t')) :
    UnlockEnds C R t₀ r t' := by
  induction n generalizing i empty unlocking t with
  | zero =>
    cases hscan
    have hi : i = C.NR_LOCKS := hn
    exact .through (hi ▸ h)
  | succ n ih =>
    have hnext : i + 1 + n = C.NR_LOCKS := by omega
    rw [List.range'_succ, lockScan] at hscan
    split at hscan
    · rename_i hnone
      exact ih (h.pass hR fun htouches => htouches.1 hnone) hnext hscan
    · rename_i hused
      split at hscan
      · rename_i hpasses
        have hfree : ¬ Touches C R (t.fileLock i) := fun htouches =>
          (meets_iff hltype).mpr htouches.2 hpasses
        exact ih (h.pass hR hfree) hnext hscan
      · rename_i hstops
        have hmeets := (meets_iff hltype).mp hstops
        have htouches : Touches C R (t.fileLock i) := ⟨hused, hmeets⟩
        have hnone := clear_none_iff hused hmeets
        rw [h.count, h.same_at htouches] at hnone
        rw [if_neg (not_not.mpr hltype)] at hscan
        split at hscan
        · rename_i hclear
          cases hscan
          obtain ⟨hsplits, hcount⟩ := hnone.mp hclear
          exact .full (by omega) h hsplits hcount
        · rename_i u hclear
          have hcleared := clear_cleared h.counted hR (by omega) htouches hclear
          refine ih (h.clear htouches (fun hsplits hcount => ?_) hcleared) hnext hscan
          rw [hnone.mpr ⟨hsplits, hcount⟩] at hclear
          cases hclear

end Scan

section Unlock
variable {p : ℕ} {fd : ℤ} {f : Filp} {flock : Flock} {s : LockVfs}

theorem LockTable.Sound.counted (h : t.Sound C) : t.Counted C := ⟨h.ordered, h.count⟩

structure Unlocked (C : LockConfig) (R : Region) (pid : ℤ) (t : LockTable) (reply : LockReply)
    (t' : LockTable) : Prop where
  removed : reply = .OK →
    ∀ b, t'.Locked C b ↔ t.Locked C b ∧ ¬ (R.Has C b ∧ b.pid = pid)
  restored : reply = .error ENOLCK → t' = t

def Unlockable (C : LockConfig) (R : Region) (pid : ℤ) (t : LockTable) : Prop :=
  (∀ i < C.NR_LOCKS, (CutInTwo C R (t.fileLock i) → countAt C R t i ≠ C.NR_LOCKS) ∧
    (Touches C R (t.fileLock i) → (t.fileLock i).lockPid = pid)) ∨
  ∃ i < C.NR_LOCKS, CutInTwo C R (t.fileLock i) ∧ t.nrLocks = C.NR_LOCKS ∧
    ∀ j < i, ¬ Touches C R (t.fileLock j)

theorem Swept.locked (h : Swept C R t₀ C.NR_LOCKS t) (b : Byte) :
    t.Locked C b ↔ t₀.Locked C b ∧ ¬ R.Has C b := by
  by_cases hb : R.Has C b
  · simp only [hb, not_true, and_false, iff_false]
    rintro ⟨i, hi, htype, hvnode, -, hlow, hhigh⟩
    refine h.past i hi ⟨?_, ?_, ?_, ?_⟩
    · rw [FileLock.used, htype]
      rintro ⟨⟩
    · exact hvnode.trans hb.1
    · exact hlow.trans hb.2.2
    · exact hb.2.1.trans hhigh
  · rw [h.outside b hb]
    exact (and_iff_left hb).symm

theorem others_iff (hc : t.Counted C) (hR : C.off R.first ≤ C.off R.last) :
    (∀ b, t.Locked C b ∧ ¬ R.Has C b ↔ t.Locked C b ∧ ¬ (R.Has C b ∧ b.pid = pid)) ↔
      ∀ i < C.NR_LOCKS, Touches C R (t.fileLock i) → (t.fileLock i).lockPid = pid := by
  constructor
  · rintro h i hi ⟨hused, hvnode, hfirst, hlast⟩
    by_contra hother
    have hordered := hc.ordered i hi hused
    obtain ⟨ltype, htype⟩ := Option.ne_none_iff_exists'.mp hused
    -- the first byte of the lock that lies in the range
    let b : Byte := ⟨R.vnode, max (C.off (t.fileLock i).lockFirst) (C.off R.first),
      (t.fileLock i).lockPid, ltype⟩
    have hlocked : t.Locked C b :=
      ⟨i, hi, htype, hvnode, rfl, le_max_left _ _, max_le hordered hlast⟩
    have hhas : R.Has C b := ⟨rfl, le_max_right _ _, max_le hfirst hR⟩
    exact ((h b).mpr ⟨hlocked, fun hown => hother hown.2⟩).2 hhas
  · intro h b
    refine and_congr_right fun hlocked => not_congr ⟨fun hb => ⟨hb, ?_⟩, And.left⟩
    obtain ⟨i, hi, htype, hvnode, hpid, hlow, hhigh⟩ := hlocked
    rw [← hpid]
    refine h i hi ⟨?_, hvnode.trans hb.1, hlow.trans hb.2.2, hb.2.1.trans hhigh⟩
    rw [FileLock.used, htype]
    rintro ⟨⟩

theorem count_untouched (hR : C.off R.first ≤ C.off R.last)
    (h : ∀ j < i, ¬ Touches C R (t.fileLock j)) : countAt C R t i = t.nrLocks := by
  have hcovered : tally i (Covered C R) t.fileLock = 0 :=
    tally_zero_iff.mpr fun j hj hc => h j hj ⟨hc.1, hc.2.1⟩
  have hsplits : tally i (CutInTwo C R) t.fileLock = 0 :=
    tally_zero_iff.mpr fun j hj hs => h j hj (hs.touches hR)
  rw [countAt, hcovered, hsplits]
  simp

theorem through_unlocked_iff (hc : t.Counted C) (hR : C.off R.first ≤ C.off R.last)
    (h : Swept C R t C.NR_LOCKS t') : Unlocked C R pid t .OK t' ↔ Unlockable C R pid t := by
  have hremoved : Unlocked C R pid t .OK t' ↔
      ∀ i < C.NR_LOCKS, Touches C R (t.fileLock i) → (t.fileLock i).lockPid = pid := by
    rw [← others_iff hc hR]
    constructor
    · exact fun hun b => (h.locked b).symm.trans (hun.removed rfl b)
    · exact fun hall => ⟨fun _ b => (h.locked b).trans (hall b), by rintro ⟨⟩⟩
  rw [hremoved]
  constructor
  · exact fun hown => .inl fun i hi => ⟨h.room i hi, hown i hi⟩
  · rintro (hall | ⟨i, hi, hsplits, hfull, hfirst⟩)
    · exact fun i hi => (hall i hi).2
    · exact absurd ((count_untouched hR hfirst).trans hfull) (h.room i hi hsplits)

theorem full_unlocked_iff (hR : C.off R.first ≤ C.off R.last) (hi : i < C.NR_LOCKS)
    (h : Swept C R t i t') (hsplits : CutInTwo C R (t.fileLock i))
    (hcount : countAt C R t i = C.NR_LOCKS) :
    Unlocked C R pid t (.error ENOLCK) t' ↔ Unlockable C R pid t := by
  constructor
  · intro hun
    have heq := hun.restored rfl
    have hfirst : ∀ j < i, ¬ Touches C R (t.fileLock j) := heq ▸ h.past
    exact .inr ⟨i, hi, hsplits, (count_untouched hR hfirst).symm.trans hcount, hfirst⟩
  · rintro (hall | ⟨k, hk, hksplits, hfull, hfirst⟩)
    · exact absurd hcount ((hall i hi).1 hsplits)
    · refine ⟨by rintro ⟨⟩, fun _ => h.same fun j hj => hfirst j ?_⟩
      by_contra hkj
      exact h.room k (by omega) hksplits ((count_untouched hR hfirst).trans hfull)

theorem unlock_iff (hc : s.table.Counted C) (hregion : region C s f req flock = .ok (.ok R))
    (hltype : R.ltype = .F_UNLCK) :
    ∃ reply s', lockOp C p fd f req (some flock) s = .ok (reply, s') ∧
      (reply = .OK ∨ reply = .error ENOLCK) ∧
      (Unlocked C R (s.fproc p).fpPid s.table reply s'.table ↔
        Unlockable C R (s.fproc p).fpPid s.table) := by
  have hR := region_ordered hregion
  have hreq : req ≠ .F_GETLK := fun heq => (checks_ltype (region_found hregion).1).2 heq hltype
  rcases hscan : lockScan C R (s.fproc p).fpPid req (List.range C.NR_LOCKS) none false
    s.table with ⟨r, t⟩
  have hscan' := hscan
  rw [List.range_eq_range'] at hscan'
  have hends := (swept_start hc).scan hR hltype hreq (Nat.zero_add _) hscan'
  simp only [lockOp, hregion, Except.map, hscan]
  cases hends with
  | through hswept =>
    simp only [if_neg hreq, if_pos hltype]
    refine ⟨_, _, rfl, .inl rfl, ?_⟩
    have htable : ∀ unlocking : Bool, (if unlocking then lockRevive C { s with table := t }
        else { s with table := t }).table = t := by
      intro unlocking
      split
      · exact lockRevive_table
      · rfl
    rw [htable]
    exact through_unlocked_iff hc hR hswept
  | full hi hswept hsplits hcount =>
    exact ⟨_, _, rfl, .inr rfl, full_unlocked_iff hR hi hswept hsplits hcount⟩

theorem sample_reachable (n : ℕ) (hn : n ≤ 8) :
    (lockSystem sampleConfig).Reachable (sampleLocked n) :=
  sample_run hn fun _ _ _ => trivial

theorem unlock_iff_split : ∃ reply s', lockOp sampleConfig 0 0 ((sampleLocked 1).filp 0) .F_SETLK
    (some (sampleFlock .F_UNLCK 8 2)) (sampleLocked 1) = .ok (reply, s') ∧
      (reply = .OK ∨ reply = .error ENOLCK) ∧
      (Unlocked sampleConfig ⟨0, .F_UNLCK, 8#32, 9#32⟩ 10 (sampleLocked 1).table reply s'.table ↔
        Unlockable sampleConfig ⟨0, .F_UNLCK, 8#32, 9#32⟩ 10 (sampleLocked 1).table) :=
  unlock_iff (locks_exclude (sample_reachable 1 (by decide))).counted rfl rfl

theorem lock_of_other_removed : (lockSystem sampleConfig).Reachable (sampleLocked 1) ∧
    ∃ s', lockOp sampleConfig 1 0 ((sampleLocked 1).filp 1) .F_SETLK
      (some (sampleFlock .F_UNLCK 5 11)) (sampleLocked 1) = .ok (.OK, s') ∧
        (sampleLocked 1).table.Locked sampleConfig ⟨0, 5, 10, .F_WRLCK⟩ ∧
        ¬ s'.table.Locked sampleConfig ⟨0, 5, 10, .F_WRLCK⟩ ∧
        ¬ Unlocked sampleConfig ⟨0, .F_UNLCK, 5#32, 15#32⟩ 11 (sampleLocked 1).table .OK
          s'.table := by
  refine ⟨sample_reachable 1 (by decide), _, rfl, ?_⟩
  have hlocked : (sampleLocked 1).table.Locked sampleConfig ⟨0, 5, 10, .F_WRLCK⟩ :=
    ⟨0, by decide, by decide, rfl, rfl, by decide, by decide⟩
  have hgone : ∀ i < 8, ((lockScan sampleConfig ⟨0, .F_UNLCK, 5#32, 15#32⟩ 11 .F_SETLK
      (List.range 8) none false (sampleLocked 1).table).2.fileLock i).lockType = none := by
    decide
  have hunlocked : ¬ LockTable.Locked sampleConfig (lockScan sampleConfig
      ⟨0, .F_UNLCK, 5#32, 15#32⟩ 11 .F_SETLK (List.range 8) none false (sampleLocked 1).table).2
        ⟨0, 5, 10, .F_WRLCK⟩ := by
    rintro ⟨i, hi, hcovers⟩
    exact not_covers_unused (hgone i hi) hcovers
  refine ⟨hlocked, hunlocked, fun hun => hunlocked ?_⟩
  exact (hun.removed rfl _).mpr ⟨hlocked, fun hown => absurd hown.2 (by decide)⟩

end Unlock

end Vfs.Locks
