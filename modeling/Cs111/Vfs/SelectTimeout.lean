import Cs111.Minix.Time
import Cs111.Vfs.Select

-- How do_select turns a timeval into the ticks of its timer.
namespace Vfs.Select
open Minix

def USECPERSEC : BitVec 32 := 1000000

def INT_MAX : BitVec 32 := 2147483647

theorem second_sub {x : BitVec 32} (h : USECPERSEC.toInt ≤ x.toInt) :
    1000000 ≤ x.toNat ∧ x.toNat < 2 ^ 31 ∧ (x - USECPERSEC).toNat = x.toNat - 1000000 := by
  have hsecond : USECPERSEC.toNat = 1000000 := rfl
  have hint : USECPERSEC.toInt = 1000000 := rfl
  obtain ⟨hx, hlt⟩ := toNat_of_nonneg (show 0 ≤ x.toInt by omega)
  rw [BitVec.toNat_sub]
  omega

def carrySeconds (timeout : Timeval) : Timeval :=
  if USECPERSEC.toInt ≤ timeout.tvUsec.toInt then
    carrySeconds { tvSec := timeout.tvSec + 1, tvUsec := timeout.tvUsec - USECPERSEC }
  else timeout
termination_by timeout.tvUsec.toNat
decreasing_by
  have h := second_sub ‹_›
  omega

def selectTicks (systemHz : BitVec 32) (timeout : Timeval) : BitVec 32 :=
  let timeout := carrySeconds timeout
  timeout.tvSec * systemHz + (timeout.tvUsec * systemHz + USECPERSEC - 1) / USECPERSEC

def expires (ticks : BitVec 32) : Bool := decide (¬ ticks.toInt ≤ 0)

structure MaySleep (timeout : Timeval) : Prop where
  sec : 0 ≤ timeout.tvSec.toInt
  usec : 0 ≤ timeout.tvUsec.toInt
  some : 0 < timeout.tvSec.toInt ∨ 0 < timeout.tvUsec.toInt

def wholeSecs (timeout : Timeval) : ℕ := timeout.tvSec.toNat + timeout.tvUsec.toNat / 1000000

def restUsecs (timeout : Timeval) : ℕ := timeout.tvUsec.toNat % 1000000

section Carry
variable {timeout : Timeval}

theorem carrySeconds_spec (h : 0 ≤ timeout.tvUsec.toInt) :
    (carrySeconds timeout).tvUsec.toNat = restUsecs timeout ∧
      (carrySeconds timeout).tvSec =
        timeout.tvSec + BitVec.ofNat 32 (timeout.tvUsec.toNat / 1000000) := by
  induction timeout using carrySeconds.induct with
  | case1 timeout hge ih =>
    obtain ⟨hge', hlt, hsub⟩ := second_sub hge
    have hnext : 0 ≤ (timeout.tvUsec - USECPERSEC).toInt := by
      rw [BitVec.toInt_eq_toNat_cond]
      omega
    obtain ⟨husec, hsec⟩ := ih hnext
    have hdiv : timeout.tvUsec.toNat / 1000000 =
        1 + (timeout.tvUsec.toNat - 1000000) / 1000000 := by omega
    rw [carrySeconds, if_pos hge, husec, hsec]
    simp only [restUsecs, hsub]
    constructor
    · omega
    · rw [hdiv, BitVec.ofNat_add, BitVec.add_assoc]
      rfl
  | case2 timeout hlt =>
    have hint := (toNat_of_nonneg h).1
    have hrest : timeout.tvUsec.toNat < 1000000 := by
      have : USECPERSEC.toInt = 1000000 := rfl
      omega
    rw [carrySeconds, if_neg hlt, restUsecs, Nat.mod_eq_of_lt hrest,
      Nat.div_eq_of_lt hrest]
    simp

end Carry

section Ticks
variable {systemHz : BitVec 32} {timeout : Timeval}

theorem usecs_eq (timeout : Timeval) :
    timeout.usecs = wholeSecs timeout * 1000000 + restUsecs timeout := by
  simp only [Timeval.usecs, wholeSecs, restUsecs]
  omega

def wanted (systemHz : BitVec 32) (timeout : Timeval) : ℕ :=
  exactTicks systemHz.toNat (wholeSecs timeout) (restUsecs timeout)

def cutSum (systemHz : BitVec 32) (timeout : Timeval) : ℕ :=
  cutTicks systemHz.toNat (wholeSecs timeout) (restUsecs timeout)

theorem selectTicks_toNat (h : 0 ≤ timeout.tvUsec.toInt) :
    (selectTicks systemHz timeout).toNat = cutSum systemHz timeout % 2 ^ 32 := by
  obtain ⟨husec, hsec⟩ := carrySeconds_spec h
  have hsecond : USECPERSEC.toNat = 1000000 := rfl
  have hone : (1 : BitVec 32).toNat = 1 := rfl
  have hmul : (timeout.tvSec.toNat + timeout.tvUsec.toNat / 1000000) % 2 ^ 32 * systemHz.toNat %
      2 ^ 32 = wholeSecs timeout * systemHz.toNat % 2 ^ 32 := by
    rw [Nat.mod_mul_mod, wholeSecs]
  have hrest : ((restUsecs timeout * systemHz.toNat % 2 ^ 32 + 1000000) % 2 ^ 32 + (2 ^ 32 - 1)) %
      2 ^ 32 = roundedUsecs systemHz.toNat (restUsecs timeout) % 2 ^ 32 := by
    rw [roundedUsecs]
    omega
  have hpart : ((carrySeconds timeout).tvUsec * systemHz + USECPERSEC - 1).toNat =
      roundedUsecs systemHz.toNat (restUsecs timeout) % 2 ^ 32 := by
    rw [BitVec.toNat_sub, BitVec.toNat_add, BitVec.toNat_mul, husec, hsecond, hone, ← hrest,
      Nat.add_comm (2 ^ 32 - 1)]
  have hticks : selectTicks systemHz timeout = (carrySeconds timeout).tvSec * systemHz +
    ((carrySeconds timeout).tvUsec * systemHz + USECPERSEC - 1) / USECPERSEC := rfl
  rw [hticks, BitVec.toNat_add, BitVec.toNat_udiv, hpart, hsecond, hsec, BitVec.toNat_mul,
    BitVec.toNat_add, BitVec.toNat_ofNat, Nat.add_mod_mod, hmul, Nat.mod_add_mod, cutSum, cutTicks]

theorem wanted_le_iff {n : ℕ} :
    wanted systemHz timeout ≤ n ↔ timeout.usecs * systemHz.toNat ≤ n * 1000000 := by
  rw [usecs_eq]
  exact exactTicks_le_iff

theorem wanted_pos (hhz : AdmittedHz systemHz) (h : MaySleep timeout) :
    0 < wanted systemHz timeout := by
  have hsec := (toNat_of_nonneg h.sec).1
  have husec := (toNat_of_nonneg h.usec).1
  have hlow := hhz.low
  refine exactTicks_pos (by omega) ?_
  rw [← usecs_eq, Timeval.usecs]
  have := h.some
  omega

def NotShorter (systemHz : BitVec 32) (timeout : Timeval) (ticks : BitVec 32) : Prop :=
  (timeout.usecs * systemHz.toNat : ℤ) ≤ ticks.toInt * 1000000

theorem notShorter_iff (hhz : AdmittedHz systemHz) (h : MaySleep timeout) :
    (0 < (selectTicks systemHz timeout).toInt ∧
      NotShorter systemHz timeout (selectTicks systemHz timeout)) ↔
    roundedUsecs systemHz.toNat (restUsecs timeout) < 2 ^ 32 ∧ wanted systemHz timeout < 2 ^ 31 := by
  have hticks : (selectTicks systemHz timeout).toNat = _ := selectTicks_toNat h.usec
  have hpos := wanted_pos hhz h
  have hcut : cutSum systemHz timeout ≤ wanted systemHz timeout := cutTicks_le
  have heq : cutSum systemHz timeout = wanted systemHz timeout ↔ _ := cutTicks_eq_iff
  rw [NotShorter, ← heq]
  constructor
  · rintro ⟨h0, hle⟩
    obtain ⟨hint, hlt⟩ := toNat_of_nonneg h0.le
    have hexact : wanted systemHz timeout ≤ (selectTicks systemHz timeout).toNat := by
      rw [wanted_le_iff]
      rw [hint] at hle
      exact_mod_cast hle
    omega
  · rintro ⟨hrest, hfits⟩
    have hint : (selectTicks systemHz timeout).toInt = wanted systemHz timeout := by
      rw [BitVec.toInt_eq_toNat_cond]
      omega
    have hle := wanted_le_iff.1 (le_refl (wanted systemHz timeout))
    rw [hint]
    exact ⟨by exact_mod_cast hpos, by exact_mod_cast hle⟩

theorem eq_INT_MAX_iff {x : BitVec 32} : x = INT_MAX ↔ x.toNat = 2 ^ 31 - 1 := by
  rw [BitVec.toNat_eq]
  rfl

theorem wakeup_requestor {t : ℕ} {r : Except Errno ℕ} {s : SelState} :
    ((wakeup t r s).selecttab t).requestor = none := by
  rw [wakeup]
  split
  · assumption
  · simp [setEntry]

theorem released_iff {C : SelectConfig} {t : ℕ} {s : SelState} {ticks : BitVec 32}
    (hreq : (s.selecttab t).requestor ≠ none) (hexp : (s.selecttab t).expiry = expires ticks) :
    ((selectTimeoutCheck C t s).selecttab t).requestor = none ↔ 0 < ticks.toInt := by
  rw [selectTimeoutCheck, if_neg hreq, hexp]
  by_cases h0 : 0 < ticks.toInt
  · rw [if_neg (by simpa [expires] using h0)]
    simp only [selectReturn, wakeup_requestor, h0]
  · rw [if_pos (by simpa [expires] using h0)]
    simp only [hreq, h0]

end Ticks

structure Timed (systemHz : BitVec 32) (timeout : Timeval) : Prop where
  positive : 0 < (selectTicks systemHz timeout).toInt
  lasts : NotShorter systemHz timeout (selectTicks systemHz timeout) ∨
    selectTicks systemHz timeout = INT_MAX
  released : ∀ (C : SelectConfig) (t : ℕ) (s : SelState), (s.selecttab t).requestor ≠ none →
    (s.selecttab t).expiry = expires (selectTicks systemHz timeout) →
    ((selectTimeoutCheck C t s).selecttab t).requestor = none

theorem select_timed_iff {systemHz : BitVec 32} {timeout : Timeval} (hhz : AdmittedHz systemHz)
    (h : MaySleep timeout) :
    Timed systemHz timeout ↔
      (roundedUsecs systemHz.toNat (restUsecs timeout) < 2 ^ 32 ∧
        wanted systemHz timeout < 2 ^ 31) ∨
      cutSum systemHz timeout % 2 ^ 32 = 2 ^ 31 - 1 := by
  have hmax : selectTicks systemHz timeout = INT_MAX ↔
      cutSum systemHz timeout % 2 ^ 32 = 2 ^ 31 - 1 := by
    rw [eq_INT_MAX_iff, selectTicks_toNat h.usec]
  rw [← notShorter_iff hhz h, ← hmax]
  constructor
  · intro ht
    exact ht.lasts.imp_left (And.intro ht.positive)
  · intro ht
    have h0 : 0 < (selectTicks systemHz timeout).toInt := by
      rcases ht with ⟨h0, -⟩ | hmax
      · exact h0
      · rw [hmax]
        decide
    exact ⟨h0, ht.imp_left And.right, fun C t s hreq hexp => (released_iff hreq hexp).2 h0⟩

theorem select_timed_iff_tenth :
    Timed 60 ⟨0, 100000⟩ ↔
      (roundedUsecs 60 (restUsecs ⟨0, 100000⟩) < 2 ^ 32 ∧ wanted 60 ⟨0, 100000⟩ < 2 ^ 31) ∨
      cutSum 60 ⟨0, 100000⟩ % 2 ^ 32 = 2 ^ 31 - 1 :=
  select_timed_iff ⟨by decide, by decide⟩ ⟨by decide, by decide, .inr (by decide)⟩

theorem select_oversleeps :
    ¬ ∀ (systemHz : BitVec 32) (timeout : Timeval), AdmittedHz systemHz → MaySleep timeout →
      Timed systemHz timeout := by
  intro h
  have ht := h 60 ⟨35791395, 0⟩ ⟨by decide, by decide⟩ ⟨by decide, by decide, .inl (by decide)⟩
  have hticks : (selectTicks 60 ⟨35791395, 0⟩).toNat = _ := selectTicks_toNat (by decide)
  have hpos := ht.positive
  rw [BitVec.toInt_eq_toNat_cond, hticks] at hpos
  exact absurd hpos (by decide)

end Vfs.Select
