import Cs111.Kernel.Ipc
import Cs111.Kernel.Peers

namespace Kernel
open Minix FlagWord Chain
variable {H : Headers} {M : Type}

namespace Peers
variable {V : Peers H M} {cpE e : ℤ}

def edge (V : Peers H M) (i : Slot H) : Option (Slot H) := V.named (V i).blockedOn

inductive Ends (V : Peers H M) (cpE : ℤ) : ℤ → Prop
  | any : Ends V cpE H.any
  | idle {e xp} : V.named e = some xp → (V xp).blockedOn = H.none → Ends V cpE e
  | next {e xp} : V.named e = some xp → (V xp).blockedOn ≠ H.none → (V xp).blockedOn ≠ cpE →
      Ends V cpE (V xp).blockedOn → Ends V cpE e

def Exempt (V : Peers H M) (function : CallNr) (cpE e : ℤ) : Prop :=
  ∃ xp, V.named e = some xp ∧ (V xp).blockedOn ≠ H.none ∧ (V xp).blockedOn = cpE ∧
    ((V xp).sending.isSome = true ↔ function ≠ .SEND)

theorem named_of_reserved (h : ¬ (-(H.nrTasks : ℤ) ≤ H.endpointP e ∧ H.endpointP e < H.nrProcs)) :
    V.named e = none := by
  rw [named]
  split
  · rfl
  · rename_i i hi
    have hnr := procAddr_ok hi
    have hlt := i.isLt
    rw [procNr] at hnr
    exact absurd ⟨by omega, by omega⟩ h

theorem named_any : V.named H.any = none := named_of_reserved H.any_reserved

theorem named_none : V.named H.none = none := named_of_reserved H.none_reserved

end Peers

section Loop
open Peers
variable {s : KState H M} {function : CallNr} {cp xp : Slot H} {fuel groupSize n : ℕ} {e : ℤ}

theorem magic_flags {x : Proc H M} (hfun : function = .SEND ∨ function = .RECEIVE) :
    (x.rtsFlags ^^^ BitVec.ofNat 16 (function.code <<< 2)) &&& RTS_SENDING ≠ 0 ↔
      (x.peer.sending.isSome = true ↔ function ≠ .SEND) := by
  have hbit : ∀ y : Flags, y &&& RTS_SENDING ≠ 0 ↔ y.getLsbD 2 = true := by
    intro y
    have hpow : RTS_SENDING = BitVec.twoPow 16 2 := by decide
    rw [hpow, BitVec.and_twoPow]
    cases y.getLsbD 2 with
    | false => simp
    | true => decide
  have hsend : x.peer.sending.isSome = x.rtsFlags.getLsbD 2 := by
    have hset : x.rtsIsset RTS_SENDING = x.rtsFlags.getLsbD 2 := by
      have hpow : RTS_SENDING = BitVec.twoPow 16 2 := by decide
      rw [Proc.rtsIsset, isset, hpow, BitVec.and_twoPow]
      cases x.rtsFlags.getLsbD 2 with
      | false => decide
      | true => decide
    rw [← hset, Proc.peer]
    cases x.rtsIsset RTS_SENDING <;> rfl
  rw [hbit, BitVec.getLsbD_xor, hsend]
  rcases hfun with rfl | rfl
  · cases x.rtsFlags.getLsbD 2 <;> decide
  · cases x.rtsFlags.getLsbD 2 <;> decide

theorem deadlockLoop_succ (he : e ≠ H.any) (hxp : s.peers.named e = some xp)
    (hbound : deadlockLoop s function cp (fuel + 1) groupSize e = .ok n) :
    ((s.peers xp).blockedOn = H.none ∧ n = 0) ∨
    ((s.peers xp).blockedOn ≠ H.none ∧ (s.peers xp).blockedOn = (s.proc cp).endpoint ∧
      (if groupSize = 1 ∧
        ((s.proc xp).rtsFlags ^^^ BitVec.ofNat 16 (function.code <<< 2)) &&& RTS_SENDING ≠ 0
        then n = 0 else n = groupSize + 1)) ∨
    ((s.peers xp).blockedOn ≠ H.none ∧ (s.peers xp).blockedOn ≠ (s.proc cp).endpoint ∧
      deadlockLoop s function cp fuel (groupSize + 1) (s.peers xp).blockedOn = .ok n) := by
  rw [deadlockLoop, if_neg he] at hbound
  obtain ⟨yp, hyp, hbound⟩ := bind_ok.mp hbound
  obtain rfl : yp = xp := by
    rw [okendpt_ok, isokendpt_named, hxp] at hyp
    exact (Option.some.inj hyp).symm
  obtain ⟨-, hbound⟩ := kassert_bind_ok.mp hbound
  have hblocked : (s.peers yp).blockedOn = (s.proc yp).blockedOn := blockedOn_peer _
  rw [hblocked]
  dsimp only at hbound
  split at hbound
  · cases hbound
  split at hbound
  · rename_i hnone
    exact .inl ⟨hnone, (pure_ok.mp hbound).symm⟩
  · rename_i hnone
    split at hbound
    · rename_i hback
      refine .inr (.inl ⟨hnone, hback, ?_⟩)
      simp only [Nat.reduceEqDiff] at hbound
      split_ifs at hbound ⊢ with hexempt
      · exact (pure_ok.mp hbound).symm
      · exact (pure_ok.mp hbound).symm
    · rename_i hback
      exact .inr (.inr ⟨hnone, hback, hbound⟩)

theorem deadlockLoop_zero (hfun : function = .SEND ∨ function = .RECEIVE) (hsize : 1 ≤ groupSize)
    (h : deadlockLoop s function cp fuel groupSize e = .ok 0) :
    Ends s.peers (s.proc cp).endpoint e ∨
      Exempt s.peers function (s.proc cp).endpoint e ∧ groupSize = 1 := by
  induction fuel generalizing groupSize e with
  | zero => cases h
  | succ fuel ih =>
    by_cases he : e = H.any
    · subst he
      exact .inl .any
    · obtain ⟨xp, hxp⟩ : ∃ xp, s.peers.named e = some xp := by
        rw [deadlockLoop, if_neg he] at h
        obtain ⟨xp, hxp, -⟩ := bind_ok.mp h
        exact ⟨xp, by rw [← isokendpt_named, ← okendpt_ok, hxp]⟩
      rcases deadlockLoop_succ he hxp h with ⟨hnone, -⟩ | ⟨hnone, hback, hsize'⟩ |
        ⟨hnone, hback, hrest⟩
      · exact .inl (.idle hxp hnone)
      · split at hsize'
        · rename_i hexempt
          exact .inr ⟨⟨xp, hxp, hnone, hback, (magic_flags hfun).mp hexempt.2⟩, hexempt.1⟩
        · omega
      · rcases ih (by omega) hrest with hends | ⟨-, hone⟩
        · exact .inl (.next hxp hnone hback hends)
        · omega

theorem deadlockLoop_ends (hends : Ends s.peers (s.proc cp).endpoint e)
    (h : deadlockLoop s function cp fuel groupSize e = .ok n) : n = 0 := by
  induction hends generalizing fuel groupSize with
  | any =>
    cases fuel with
    | zero => cases h
    | succ fuel =>
      rw [deadlockLoop, if_pos rfl] at h
      exact (Except.ok.inj h).symm
  | @idle e xp hxp hnone =>
    cases fuel with
    | zero => cases h
    | succ fuel =>
      have he : e ≠ H.any := fun he => by simp [he, named_any] at hxp
      rcases deadlockLoop_succ he hxp h with ⟨-, hn⟩ | ⟨hne, -⟩ | ⟨hne, -⟩
      · exact hn
      · exact absurd hnone hne
      · exact absurd hnone hne
  | @next e xp hxp hnone hback _ ih =>
    cases fuel with
    | zero => cases h
    | succ fuel =>
      have he : e ≠ H.any := fun he => by simp [he, named_any] at hxp
      rcases deadlockLoop_succ he hxp h with ⟨hno, -⟩ | ⟨-, hyes, -⟩ | ⟨-, -, hrest⟩
      · exact absurd hno hnone
      · exact absurd hyes hback
      · exact ih hrest

theorem deadlockLoop_exempt (hfun : function = .SEND ∨ function = .RECEIVE)
    (hexempt : Exempt s.peers function (s.proc cp).endpoint e)
    (h : deadlockLoop s function cp fuel 1 e = .ok n) : n = 0 := by
  obtain ⟨xp, hxp, hnone, hback, hsends⟩ := hexempt
  cases fuel with
  | zero => cases h
  | succ fuel =>
    have he : e ≠ H.any := fun he => by simp [he, named_any] at hxp
    rcases deadlockLoop_succ he hxp h with ⟨hno, -⟩ | ⟨-, -, hsize⟩ | ⟨-, hother, -⟩
    · exact absurd hno hnone
    · rwa [if_pos ⟨rfl, (magic_flags hfun).mpr hsends⟩] at hsize
    · exact absurd hback hother

end Loop

end Kernel
