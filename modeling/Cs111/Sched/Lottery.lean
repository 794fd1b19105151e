import Cs111.Lib.TicketDraw
import Cs111.Sched.Tickets

namespace Sched
open Minix TicketDraw
variable {H : Headers} {s : State H} {i : Fin H.nrProcs} {lucky : Unsigned}

section Scan

def inUseTickets (s : State H) (i : Fin H.nrProcs) : Unsigned :=
  if (s.schedproc i).inUse then (s.schedproc i).tickets else 0

def Wins (s : State H) (lucky : Unsigned) (i : Fin H.nrProcs) : Prop :=
  (s.schedproc i).inUse = true ∧ lucky < below (inUseTickets s) (i + 1) ∧
    ∀ j < i, (s.schedproc j).inUse = true → below (inUseTickets s) (j + 1) ≤ lucky

def WinsFrom (s : State H) (lucky : Unsigned) (k : ℕ) (i : Fin H.nrProcs) : Prop :=
  k ≤ i.val ∧ (s.schedproc i).inUse = true ∧ lucky < below (inUseTickets s) (i + 1) ∧
    ∀ j < i, k ≤ j.val → (s.schedproc j).inUse = true → below (inUseTickets s) (j + 1) ≤ lucky

theorem winsFrom_succ {k : ℕ} (hk : k < H.nrProcs)
    (hskip : (s.schedproc ⟨k, hk⟩).inUse = true → below (inUseTickets s) (k + 1) ≤ lucky) :
    WinsFrom s lucky k i ↔ WinsFrom s lucky (k + 1) i := by
  constructor
  · rintro ⟨hki, hi, hwins, hbefore⟩
    refine ⟨Nat.lt_of_le_of_ne hki ?_, hi, hwins, fun j hj hkj => hbefore j hj (by omega)⟩
    rintro rfl
    exact absurd (hskip hi) (BitVec.not_le.mpr hwins)
  · rintro ⟨hki, hi, hwins, hbefore⟩
    refine ⟨by omega, hi, hwins, fun j hj hkj hjuse => ?_⟩
    rcases hkj.eq_or_lt with rfl | hlt
    · exact hskip hjuse
    · exact hbefore j hj hlt hjuse

theorem lotteryLoop_iff (s : State H) (lucky : Unsigned) (i : Fin H.nrProcs) {k : ℕ}
    (hk : k ≤ H.nrProcs) :
    lotteryLoop s lucky (below (inUseTickets s) k) ((List.finRange H.nrProcs).drop k) = some i ↔
      WinsFrom s lucky k i := by
  induction hk using Nat.decreasingInduction with
  | self =>
    have hnone : (List.finRange H.nrProcs).drop H.nrProcs = [] := by simp
    rw [hnone]
    exact ⟨nofun, fun h => absurd h.1 (not_le.mpr i.isLt)⟩
  | of_succ k hk ih =>
    have hdrop : (List.finRange H.nrProcs).drop k =
        ⟨k, hk⟩ :: (List.finRange H.nrProcs).drop (k + 1) := by
      rw [List.drop_eq_getElem_cons (by simpa using hk)]
      simp
    have hsucc := below_succ (inUseTickets s) hk
    rw [hdrop, lotteryLoop]
    split
    · rename_i huse
      rw [inUseTickets, if_pos huse] at hsucc
      rw [← hsucc]
      dsimp only
      split
      · rename_i hwins
        constructor
        · intro h
          obtain rfl := Option.some.inj h
          exact ⟨le_rfl, huse, hwins, fun j hj hkj _ => absurd hkj (not_le.mpr hj)⟩
        · rintro ⟨hki, -, -, hbefore⟩
          by_contra hne
          have hlt : (⟨k, hk⟩ : Fin H.nrProcs) < i :=
            lt_of_le_of_ne hki fun he => hne (congrArg some he)
          exact absurd (hbefore _ hlt le_rfl huse) (BitVec.not_le.mpr hwins)
      · rename_i hloses
        rw [ih, winsFrom_succ hk fun _ => BitVec.not_lt.mp hloses]
    · rename_i huse
      rw [inUseTickets, if_neg huse, add_zero] at hsucc
      rw [← hsucc, ih, winsFrom_succ hk fun h => absurd h huse]

theorem lotteryWinner_iff : lotteryWinner s lucky = some i ↔ Wins s lucky i := by
  have h := lotteryLoop_iff s lucky i (Nat.zero_le H.nrProcs)
  simpa [lotteryWinner, Wins, WinsFrom] using h

end Scan

section Fairness

def share (s : State H) (i : Fin H.nrProcs) : ℕ := (inUseTickets s i).toNat

structure Drawable (s : State H) : Prop where
  someone : ∃ i, (s.schedproc i).inUse = true
  positive : ∀ i, (s.schedproc i).inUse = true → 0 < (s.schedproc i).tickets.toInt
  counted : TicketsCounted s

def LotteryFair (s : State H) : Prop :=
  (∀ rand : ℕ, ∃! i, (s.schedproc i).inUse = true ∧
    lotteryWinner s (luckyTicket s rand) = some i) ∧
  ∀ i, (s.schedproc i).inUse = true →
    (((Finset.range s.totalTickets.toNat).filter fun d =>
      lotteryWinner s (BitVec.ofNat 32 (d + 1)) = some i).card : ℤ) = (s.schedproc i).tickets.toInt

theorem toInt_of_pos {x : BitVec 32} (h : 0 < x.toInt) : x.toInt = x.toNat := by
  rw [BitVec.toInt_eq_toNat_cond] at h ⊢
  split at h <;> omega

theorem Drawable.share_eq (h : Drawable s) (huse : (s.schedproc i).inUse = true) :
    (share s i : ℤ) = (s.schedproc i).tickets.toInt := by
  rw [share, inUseTickets, if_pos huse, toInt_of_pos (h.positive i huse)]

theorem Drawable.share_pos_iff (h : Drawable s) :
    0 < share s i ↔ (s.schedproc i).inUse = true := by
  constructor
  · intro hpos
    by_contra hfree
    simp [share, inUseTickets, hfree] at hpos
  · intro huse
    have hpos := h.positive i huse
    rw [← h.share_eq huse] at hpos
    exact_mod_cast hpos

theorem Drawable.total (h : Drawable s) : s.totalTickets.toNat = ∑ i, share s i := by
  have hsplit : ticketsInUse s = ∑ i, (share s i : ℤ) := by
    rw [ticketsInUse, users, Finset.sum_filter]
    refine Finset.sum_congr rfl fun i _ => ?_
    split
    · rename_i huse
      exact (h.share_eq huse).symm
    · rename_i hfree
      simp [share, inUseTickets, hfree]
  have hcounted : (s.totalTickets.toNat : ℤ) = ∑ i, (share s i : ℤ) :=
    h.counted.trans hsplit
  exact_mod_cast hcounted

theorem below_toNat (hfits : ∑ i, share s i < 2 ^ 32) {k : ℕ} (hk : k ≤ H.nrProcs) :
    (below (inUseTickets s) k).toNat = below (share s) k := by
  induction k with
  | zero => simp
  | succ k ih =>
    have hsum := below_le_total (share s) (k + 1)
    rw [below_succ (share s) hk] at hsum ⊢
    rw [below_succ (inUseTickets s) hk, BitVec.toNat_add, ih (by omega)]
    exact Nat.mod_eq_of_lt (lt_of_le_of_lt hsum hfits)

theorem Drawable.wins_iff (h : Drawable s) : Wins s lucky i ↔ Holds (share s) lucky.toNat i := by
  have hfits : ∑ i, share s i < 2 ^ 32 := h.total ▸ s.totalTickets.isLt
  have hbelow (j : Fin H.nrProcs) := below_toNat hfits (Nat.succ_le_of_lt j.isLt)
  rw [holds_iff, Wins]
  constructor
  · rintro ⟨huse, hwins, hbefore⟩
    rw [BitVec.lt_def, hbelow] at hwins
    refine ⟨?_, hwins⟩
    have hscan : ∀ k ≤ i.val, below (share s) k ≤ lucky.toNat := by
      intro k
      induction k with
      | zero => simp
      | succ k ih =>
        intro hk
        by_cases hkuse : (s.schedproc ⟨k, by omega⟩).inUse = true
        · have hle := hbefore ⟨k, by omega⟩ (Fin.lt_def.mpr hk) hkuse
          rwa [BitVec.le_def, hbelow] at hle
        · rw [below_succ (share s) (by omega : k < H.nrProcs), share, inUseTickets, if_neg hkuse]
          simpa using ih (by omega)
    exact hscan i le_rfl
  · rintro ⟨hlow, hhigh⟩
    have hpos : 0 < share s i := by
      rw [below_succ (share s) i.isLt] at hhigh
      simp only [Fin.eta] at hhigh
      omega
    refine ⟨h.share_pos_iff.mp hpos, ?_, fun j hj _ => ?_⟩
    · rwa [BitVec.lt_def, hbelow]
    · rw [BitVec.le_def, hbelow]
      exact (below_mono (share s) (Fin.lt_def.mp hj)).trans hlow

theorem Drawable.winner_iff (h : Drawable s) {d : ℕ} (hd : d < s.totalTickets.toNat) :
    lotteryWinner s (BitVec.ofNat 32 (d + 1)) = some i ↔ Holds (share s) (d + 1) i := by
  have hlt := s.totalTickets.isLt
  rw [lotteryWinner_iff, h.wins_iff, BitVec.toNat_ofNat, Nat.mod_eq_of_lt (by omega)]

theorem Drawable.draws_won (h : Drawable s) (i : Fin H.nrProcs) :
    ((Finset.range s.totalTickets.toNat).filter fun d =>
      lotteryWinner s (BitVec.ofNat 32 (d + 1)) = some i).card =
      if below (share s) i = 0 then share s i - 1 else share s i := by
  rw [← card_held_next, ← h.total]
  refine congrArg Finset.card (Finset.filter_congr fun d hd => ?_)
  exact h.winner_iff (Finset.mem_range.mp hd)

theorem Drawable.exists_first (h : Drawable s) :
    ∃ i, (s.schedproc i).inUse = true ∧ below (share s) i = 0 := by
  obtain ⟨j, hj⟩ := h.someone
  have hpos : 0 < ∑ i, share s i :=
    (h.share_pos_iff.mpr hj).trans_le
      (Finset.single_le_sum (fun _ _ => Nat.zero_le _) (Finset.mem_univ j))
  obtain ⟨i, hi⟩ := exists_holds (share s) hpos
  have hfirst := Nat.le_zero.mp hi.1
  refine ⟨i, h.share_pos_iff.mp ?_, hfirst⟩
  have hhigh := hi.2
  omega

theorem lottery_never_fair (h : Drawable s) : ¬ LotteryFair s := by
  rintro ⟨-, hdraws⟩
  obtain ⟨i, huse, hfirst⟩ := h.exists_first
  have hpos := h.share_pos_iff.mpr huse
  have hcount := hdraws i huse
  rw [h.draws_won, if_pos hfirst, ← h.share_eq huse] at hcount
  omega

def onlyUser : State .sample where
  schedproc i := if i.val = 5 then ⟨5, 5, IN_USE, 16, 16, 200, 20⟩ else ⟨0, 0, 0, 0, 0, 0, 0⟩
  totalTickets := 20

theorem drawable_onlyUser : Drawable onlyUser where
  someone := ⟨(5 : Fin 8), by decide⟩
  positive := by decide
  counted := by decide

theorem lottery_never_fair_onlyUser : Drawable onlyUser ∧ ¬ LotteryFair onlyUser :=
  ⟨drawable_onlyUser, lottery_never_fair drawable_onlyUser⟩

theorem onlyUser_loses_last_draw :
    ¬ ∀ (H : Headers) (s : State H), Drawable s → LotteryFair s := by
  intro hall
  obtain ⟨i, ⟨-, hwinner⟩, -⟩ := (hall .sample onlyUser drawable_onlyUser).1 19
  have hlost : lotteryWinner onlyUser (luckyTicket onlyUser 19) = none := by decide
  rw [hlost] at hwinner
  cases hwinner

end Fairness

end Sched
