import Cs111.Minix.Time

-- The interval timers of PM.
namespace Pm.Alarm
open Minix

def US : BitVec 32 := 1000000

def LONG_MAX : BitVec 32 := 2147483647

def MAX_CLOCK_T : BitVec 32 := 2147483648

def MAX_SECS (systemHz : BitVec 32) : BitVec 32 := MAX_CLOCK_T / systemHz

def ticksFromTimeval (systemHz : BitVec 32) (tv : Timeval) : BitVec 32 :=
  let ticks := systemHz * tv.tvSec
  let ticks :=
    if ticks / systemHz ≠ tv.tvSec then LONG_MAX
    else ticks + (systemHz * tv.tvUsec + (US - 1)) / US
  if ticks.toInt < 0 then LONG_MAX else ticks

def timevalFromTicks (systemHz ticks : BitVec 32) : Timeval where
  tvSec := ticks / systemHz
  tvUsec := ticks % systemHz * US / systemHz

def isSaneTimeval (systemHz : BitVec 32) (tv : Timeval) : Bool :=
  decide (tv.tvSec.toInt ≥ 0) && decide (tv.tvSec.toInt ≤ (MAX_SECS systemHz).toInt) &&
    decide (tv.tvUsec.toInt ≥ 0) && decide (tv.tvUsec.toInt < US.toInt)

structure Itimerval where
  itInterval : Timeval
  itValue : Timeval
  deriving DecidableEq, Repr

structure Mproc where
  alarmOn : Bool
  expTime : BitVec 32
  interval : BitVec 32
  deriving DecidableEq, Repr

-- The expiry time that set_timer() of the library gives a timer at an uptime.
abbrev SetTimer := BitVec 32 → BitVec 32 → BitVec 32

def SetTimer.Expires (setTimer : SetTimer) : Prop :=
  ∀ uptime ticks : BitVec 32, 0 < ticks.toInt → setTimer uptime ticks = uptime + ticks

def setAlarm (setTimer : SetTimer) (uptime : BitVec 32) (rmp : Mproc) (ticks : BitVec 32) : Mproc :=
  if 0 < ticks.toInt then { rmp with expTime := setTimer uptime ticks, alarmOn := true }
  else if rmp.alarmOn then { rmp with alarmOn := false }
  else rmp

def setRealtimer (setTimer : SetTimer) (systemHz uptime : BitVec 32) (rmp : Mproc)
    (value : Itimerval) : Mproc :=
  let ticks := ticksFromTimeval systemHz value.itValue
  let interval := ticksFromTimeval systemHz value.itInterval
  let interval := if ticks.toInt ≤ 0 then 0 else interval
  { setAlarm setTimer uptime rmp ticks with interval := interval }

def getRealtimer (systemHz uptime : BitVec 32) (rmp : Mproc) : Itimerval :=
  let remaining :=
    if rmp.alarmOn then
      let remaining := rmp.expTime - uptime
      if remaining.toInt ≤ 0 then rmp.interval else remaining
    else 0
  { itValue := timevalFromTicks systemHz remaining
    itInterval := timevalFromTicks systemHz rmp.interval }

section Conversions
variable {systemHz : BitVec 32} {tv : Timeval}

structure Sane (systemHz : BitVec 32) (tv : Timeval) : Prop where
  sec : tv.tvSec.toNat * systemHz.toNat ≤ 2 ^ 31
  usec : tv.tvUsec.toNat < 1000000

theorem sane_of_isSane (hhz : AdmittedHz systemHz) (h : isSaneTimeval systemHz tv) :
    Sane systemHz tv := by
  have hlow := hhz.low
  simp only [isSaneTimeval, Bool.and_eq_true, decide_eq_true_eq, ge_iff_le] at h
  obtain ⟨⟨⟨hsec, hmax⟩, husec⟩, hus⟩ := h
  obtain ⟨hs, -⟩ := toNat_of_nonneg hsec
  obtain ⟨hu, -⟩ := toNat_of_nonneg husec
  have hmaxNat : (MAX_SECS systemHz).toNat = 2 ^ 31 / systemHz.toNat := BitVec.toNat_udiv
  have hhalf : 2 ^ 31 / systemHz.toNat ≤ 2 ^ 31 / 2 := Nat.div_le_div_left hlow (by decide)
  have hle : tv.tvSec.toNat ≤ 2 ^ 31 / systemHz.toNat := by
    rw [BitVec.toInt_eq_toNat_cond (MAX_SECS systemHz)] at hmax
    omega
  have hus' : US.toInt = 1000000 := rfl
  constructor
  · calc tv.tvSec.toNat * systemHz.toNat
        ≤ 2 ^ 31 / systemHz.toNat * systemHz.toNat := Nat.mul_le_mul_right _ hle
      _ ≤ 2 ^ 31 := Nat.div_mul_le_self _ _
  · omega

def wanted (systemHz : BitVec 32) (tv : Timeval) : ℕ :=
  exactTicks systemHz.toNat tv.tvSec.toNat tv.tvUsec.toNat

def cutSum (systemHz : BitVec 32) (tv : Timeval) : ℕ :=
  cutTicks systemHz.toNat tv.tvSec.toNat tv.tvUsec.toNat

theorem ticksFromTimeval_toNat (hhz : AdmittedHz systemHz) (h : Sane systemHz tv) :
    (ticksFromTimeval systemHz tv).toNat = min (cutSum systemHz tv) (2 ^ 31 - 1) := by
  have hlow := hhz.low
  have hsec := h.sec
  have hmul : (systemHz * tv.tvSec).toNat = tv.tvSec.toNat * systemHz.toNat := by
    rw [BitVec.toNat_mul, Nat.mul_comm, Nat.mod_eq_of_lt (by omega)]
  have hquot : systemHz * tv.tvSec / systemHz = tv.tvSec := by
    rw [BitVec.toNat_eq, BitVec.toNat_udiv, hmul, Nat.mul_div_cancel _ (by omega)]
  have hpart : ((systemHz * tv.tvUsec + (US - 1)) / US).toNat =
      roundedUsecs systemHz.toNat tv.tvUsec.toNat % 2 ^ 32 / 1000000 := by
    have hus : (US - 1).toNat = 999999 := rfl
    have hus' : US.toNat = 1000000 := rfl
    rw [BitVec.toNat_udiv, BitVec.toNat_add, BitVec.toNat_mul, hus, hus', Nat.mod_add_mod,
      roundedUsecs, Nat.mul_comm]
  have hsmall : roundedUsecs systemHz.toNat tv.tvUsec.toNat % 2 ^ 32 / 1000000 < 2 ^ 13 := by omega
  have hmax : LONG_MAX.toNat = 2 ^ 31 - 1 := rfl
  have hsum : (systemHz * tv.tvSec + (systemHz * tv.tvUsec + (US - 1)) / US).toNat =
      cutSum systemHz tv := by
    rw [BitVec.toNat_add, hmul, hpart, Nat.mod_eq_of_lt (by omega), cutSum, cutTicks]
  have hticks : ticksFromTimeval systemHz tv =
      if (systemHz * tv.tvSec + (systemHz * tv.tvUsec + (US - 1)) / US).toInt < 0 then LONG_MAX
      else systemHz * tv.tvSec + (systemHz * tv.tvUsec + (US - 1)) / US := by
    rw [ticksFromTimeval]
    rw [hquot, if_neg (not_not.mpr rfl)]
  rw [hticks, BitVec.toInt_eq_toNat_cond, hsum]
  have hlt : cutSum systemHz tv < 2 ^ 32 := by
    rw [cutSum, cutTicks]
    omega
  generalize cutSum systemHz tv = ticks at hsum hlt
  by_cases hfits : ticks < 2 ^ 31
  · rw [if_neg (by omega), hsum]
    omega
  · rw [if_pos (by omega), hmax]
    omega

theorem timevalFromTicks_usecs {ticks : BitVec 32} (hhz : AdmittedHz systemHz)
    (h : ticks.toNat % systemHz.toNat * 1000000 < 2 ^ 32) :
    (timevalFromTicks systemHz ticks).usecs = ticks.toNat * 1000000 / systemHz.toNat := by
  have hlow := hhz.low
  have hus : US.toNat = 1000000 := rfl
  have hdivide : ticks.toNat * 1000000 =
      systemHz.toNat * (ticks.toNat / systemHz.toNat * 1000000) +
        ticks.toNat % systemHz.toNat * 1000000 := by
    rw [← Nat.mul_assoc, ← Nat.add_mul, Nat.div_add_mod]
  rw [hdivide, Nat.mul_add_div (by omega)]
  have husecs : (timevalFromTicks systemHz ticks).usecs =
    (ticks / systemHz).toNat * 1000000 + (ticks % systemHz * US / systemHz).toNat := rfl
  rw [husecs, BitVec.toNat_udiv, BitVec.toNat_udiv, BitVec.toNat_mul, BitVec.toNat_umod, hus,
    Nat.mod_eq_of_lt h]

theorem wanted_le_iff {n : ℕ} :
    wanted systemHz tv ≤ n ↔ tv.usecs * systemHz.toNat ≤ n * 1000000 :=
  exactTicks_le_iff

theorem wanted_mod (h : roundedUsecs systemHz.toNat tv.tvUsec.toNat < 2 ^ 32) :
    wanted systemHz tv % systemHz.toNat * 1000000 < 2 ^ 32 := by
  rw [wanted, exactTicks_eq, Nat.add_comm, Nat.add_mul_mod_self_right]
  have := Nat.mod_le (roundedUsecs systemHz.toNat tv.tvUsec.toNat / 1000000) systemHz.toNat
  omega

theorem back_of_exact {ticks : BitVec 32} (hhz : AdmittedHz systemHz)
    (h : roundedUsecs systemHz.toNat tv.tvUsec.toNat < 2 ^ 32)
    (hticks : ticks.toNat = wanted systemHz tv) :
    tv.usecs ≤ (timevalFromTicks systemHz ticks).usecs ∧
      (timevalFromTicks systemHz ticks).usecs * systemHz.toNat <
        tv.usecs * systemHz.toNat + 1000000 := by
  have hlow := hhz.low
  rw [timevalFromTicks_usecs hhz (hticks ▸ wanted_mod h), hticks]
  constructor
  · rw [Nat.le_div_iff_mul_le (by omega)]
    exact wanted_le_iff.1 (le_refl _)
  · refine (Nat.div_mul_le_self _ _).trans_lt ?_
    by_contra hge
    have hless : wanted systemHz tv ≤ wanted systemHz tv - 1 := wanted_le_iff.2 (by omega)
    omega

end Conversions

structure Faithful (setTimer : SetTimer) (systemHz : BitVec 32) (tv : Timeval) : Prop where
  ticks : (ticksFromTimeval systemHz tv).toNat = min (wanted systemHz tv) (2 ^ 31 - 1)
  longer : ticksFromTimeval systemHz tv ≠ LONG_MAX →
    tv.usecs ≤ (timevalFromTicks systemHz (ticksFromTimeval systemHz tv)).usecs
  close : ticksFromTimeval systemHz tv ≠ LONG_MAX →
    (timevalFromTicks systemHz (ticksFromTimeval systemHz tv)).usecs * systemHz.toNat <
      tv.usecs * systemHz.toNat + 1000000
  value : ticksFromTimeval systemHz tv ≠ LONG_MAX → ∀ (uptime : BitVec 32) (rmp : Mproc) interval,
    tv.usecs ≤ (getRealtimer systemHz uptime
      (setRealtimer setTimer systemHz uptime rmp ⟨interval, tv⟩)).itValue.usecs
  interval : ticksFromTimeval systemHz tv ≠ LONG_MAX → ∀ (uptime : BitVec 32) (rmp : Mproc) value,
    0 < (ticksFromTimeval systemHz value).toInt →
    tv.usecs ≤ (getRealtimer systemHz uptime
      (setRealtimer setTimer systemHz uptime rmp ⟨tv, value⟩)).itInterval.usecs

section Timers
variable {setTimer : SetTimer} {systemHz uptime : BitVec 32} {rmp : Mproc}
  {value interval : Timeval}

theorem getRealtimer_set (hset : setTimer.Expires)
    (hpos : 0 < (ticksFromTimeval systemHz value).toInt) :
    getRealtimer systemHz uptime (setRealtimer setTimer systemHz uptime rmp ⟨interval, value⟩) =
      ⟨timevalFromTicks systemHz (ticksFromTimeval systemHz interval),
        timevalFromTicks systemHz (ticksFromTimeval systemHz value)⟩ := by
  have hback : setTimer uptime (ticksFromTimeval systemHz value) - uptime =
      ticksFromTimeval systemHz value := by
    rw [hset uptime _ hpos, BitVec.add_comm, BitVec.add_sub_cancel]
  simp only [setRealtimer, setAlarm, getRealtimer, if_pos hpos, if_true, hback,
    if_neg (show ¬ (ticksFromTimeval systemHz value).toInt ≤ 0 by omega)]

theorem ticks_nonneg (systemHz : BitVec 32) (tv : Timeval) :
    0 ≤ (ticksFromTimeval systemHz tv).toInt := by
  simp only [ticksFromTimeval]
  split_ifs with h h' h'
  · decide
  · omega
  · decide
  · omega

end Timers

theorem faithful_iff {setTimer : SetTimer} {systemHz : BitVec 32} {tv : Timeval}
    (hset : setTimer.Expires) (hhz : AdmittedHz systemHz) (h : isSaneTimeval systemHz tv) :
    Faithful setTimer systemHz tv ↔ roundedUsecs systemHz.toNat tv.tvUsec.toNat < 2 ^ 32 ∨
      2 ^ 31 - 1 ≤ cutSum systemHz tv := by
  have hticks := ticksFromTimeval_toNat hhz (sane_of_isSane hhz h)
  have hcut : cutSum systemHz tv ≤ wanted systemHz tv := cutTicks_le
  have heq : cutSum systemHz tv = wanted systemHz tv ↔ _ := cutTicks_eq_iff
  have hmax : ticksFromTimeval systemHz tv = LONG_MAX ↔
      (ticksFromTimeval systemHz tv).toNat = 2 ^ 31 - 1 := BitVec.toNat_eq
  rw [← heq]
  constructor
  · intro hf
    have := hf.ticks
    omega
  · intro hcase
    have hexact : (ticksFromTimeval systemHz tv).toNat = min (wanted systemHz tv) (2 ^ 31 - 1) := by
      omega
    have hback := fun (hne : ticksFromTimeval systemHz tv ≠ LONG_MAX) => by
      have hlt := mt hmax.2 hne
      exact back_of_exact hhz (heq.1 (by omega))
        (show (ticksFromTimeval systemHz tv).toNat = wanted systemHz tv by omega)
    refine ⟨hexact, fun hne => (hback hne).1, fun hne => (hback hne).2, ?_, ?_⟩
    · intro hne uptime rmp interval
      rcases (ticks_nonneg systemHz tv).lt_or_eq with hpos | hzero
      · rw [getRealtimer_set hset hpos]
        exact (hback hne).1
      · have hnone : tv.usecs * systemHz.toNat ≤ 0 * 1000000 := by
          rw [← wanted_le_iff]
          rw [BitVec.toInt_eq_toNat_cond] at hzero
          omega
        have hlow := hhz.low
        have : tv.usecs = 0 := by
          have := Nat.eq_zero_of_le_zero (hnone.trans (by decide))
          rcases Nat.mul_eq_zero.1 this with h0 | h0 <;> omega
        omega
    · intro hne uptime rmp value hpos
      rw [getRealtimer_set hset hpos]
      exact (hback hne).1

def addTicks : SetTimer := fun uptime ticks => uptime + ticks

theorem faithful_iff_tenth : Faithful addTicks 60 ⟨1, 100000⟩ ↔
    roundedUsecs 60 100000 < 2 ^ 32 ∨ 2 ^ 31 - 1 ≤ cutSum 60 ⟨1, 100000⟩ :=
  faithful_iff (fun _ _ _ => rfl) ⟨by decide, by decide⟩ (by decide)

theorem ticks_lost :
    ¬ ∀ (systemHz : BitVec 32) (tv : Timeval), AdmittedHz systemHz → isSaneTimeval systemHz tv →
      Faithful addTicks systemHz tv := by
  intro h
  have hf := h 5000 ⟨0, 900000⟩ ⟨by decide, by decide⟩ (by decide)
  have hticks : (ticksFromTimeval 5000 ⟨0, 900000⟩).toNat = 206 := by decide
  have hwanted : wanted 5000 ⟨0, 900000⟩ = 4500 := by decide
  have := hf.ticks
  omega

end Pm.Alarm
