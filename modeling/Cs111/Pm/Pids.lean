import Cs111.Lib.RingScan
import Cs111.Lib.Runs
import Cs111.Minix.Headers
import Mathlib.Algebra.Order.BigOperators.Group.Finset
import Mathlib.Order.Interval.Finset.Nat

-- Process ids and process groups of PM.
namespace Pm.Pids
open Minix RingScan

def NR_PIDS : ℕ := 30000
def INIT_PID : ℕ := 1
def LAST_FEW : ℕ := 2

structure Mproc where
  mpPid : ℤ
  mpProcgrp : ℤ
  mpEndpoint : ℤ
  mpEffuid : ℕ
  inUse : Bool
  exiting : Bool
  deriving DecidableEq

structure PidConfig where
  NR_PROCS : ℕ
  RS_PROC_NR : ℤ
  INIT_PROC_NR : ℤ

def PM_SLOT : ℕ := 0

-- nextChild are the cursors of do_fork and do_srv_fork; forked tells which processes a fork has
-- created.
structure PidState where
  mproc : ℕ → Mproc
  procsInUse : ℕ
  nextPid : ℕ
  nextChild : ℕ
  nextSrvChild : ℕ
  forked : ℕ → Bool

section Source
variable (C : PidConfig)

def pidTaken (mproc : ℕ → Mproc) (pid : ℕ) : Bool :=
  (List.range C.NR_PROCS).any fun i => (mproc i).mpPid == pid || (mproc i).mpProcgrp == pid

def getFreePid (mproc : ℕ → Mproc) : ℕ → ℕ → Option ℕ
  | 0, _ => none
  | fuel + 1, nextPid =>
    let nextPid := if nextPid < NR_PIDS then nextPid + 1 else INIT_PID + 1
    if pidTaken C mproc nextPid then getFreePid mproc fuel nextPid else some nextPid

def childSlot (mproc : ℕ → Mproc) : ℕ → ℕ → Option ℕ
  | 0, _ => none
  | n + 1, nextChild =>
    let nextChild := (nextChild + 1) % C.NR_PROCS
    if (mproc nextChild).inUse then childSlot mproc n nextChild else some nextChild

def forkInto (who child : ℕ) (childEp : ℤ) (newPid : ℕ) (s : PidState) : PidState :=
  { s with
    mproc := Function.update s.mproc child
      { s.mproc who with mpPid := newPid, mpEndpoint := childEp, exiting := false }
    procsInUse := s.procsInUse + 1
    nextPid := newPid
    forked := Function.update s.forked child true }

def tableFull (who : ℕ) (s : PidState) : Bool :=
  s.procsInUse == C.NR_PROCS ||
    (decide (s.procsInUse ≥ C.NR_PROCS - LAST_FEW) && (s.mproc who).mpEffuid != 0)

def forkTable (who child : ℕ) (s : PidState) : ℕ → Mproc :=
  Function.update s.mproc child { s.mproc who with exiting := false }

-- childEp is none where vm_fork fails; the answer is none for a panic or without enough fuel.
def doFork (fuel who : ℕ) (childEp : Option ℤ) (s : PidState) : Option PidState :=
  if tableFull C who s then some s
  else
    match childSlot C s.mproc C.NR_PROCS s.nextChild, childEp with
    | none, _ => none
    | some child, none => some { s with nextChild := child }
    | some child, some ep =>
      (getFreePid C (forkTable who child s) fuel s.nextPid).map fun newPid =>
        forkInto who child ep newPid { s with nextChild := child }

def doSrvFork (fuel who : ℕ) (childEp : Option ℤ) (s : PidState) : Option PidState :=
  if (s.mproc who).mpEndpoint ≠ C.RS_PROC_NR then some s
  else if tableFull C who s then some s
  else
    match childSlot C s.mproc C.NR_PROCS s.nextSrvChild, childEp with
    | none, _ => none
    | some child, none => some { s with nextSrvChild := child }
    | some child, some ep =>
      (getFreePid C (forkTable who child s) fuel s.nextPid).map fun newPid =>
        forkInto who child ep newPid { s with nextSrvChild := child }

def doSetsid (who : ℕ) (s : PidState) : PidState :=
  let rmp := s.mproc who
  if rmp.mpProcgrp = rmp.mpPid then s
  else { s with mproc := Function.update s.mproc who { rmp with mpProcgrp := rmp.mpPid } }

def exitProc (i : ℕ) (s : PidState) : PidState :=
  if (s.mproc i).mpEndpoint = C.INIT_PROC_NR then s
  else { s with mproc := Function.update s.mproc i { s.mproc i with exiting := true } }

def cleanup (i : ℕ) (s : PidState) : PidState :=
  { s with
    mproc := Function.update s.mproc i
      { s.mproc i with mpPid := 0, inUse := false, exiting := false }
    procsInUse := s.procsInUse - 1 }

def processKsig (i : ℕ) (s : PidState) : PidState :=
  if (s.mproc i).inUse && !(s.mproc i).exiting then
    { s with
      mproc := Function.update s.mproc PM_SLOT
        { s.mproc PM_SLOT with mpProcgrp := (s.mproc i).mpProcgrp } }
  else s

end Source

inductive PidEvent where
  | fork (who : ℕ) (childEp : Option ℤ)
  | srvFork (who : ℕ) (childEp : Option ℤ)
  | setsid (who : ℕ)
  | exit (i : ℕ)
  | cleanup (i : ℕ)
  | ksig (i : ℕ)

def Live (C : PidConfig) (s : PidState) (i : ℕ) : Prop := i < C.NR_PROCS ∧ (s.mproc i).inUse = true

inductive Step (C : PidConfig) : PidState → PidEvent → PidState → Prop
  | fork {fuel who childEp s s'} : Live C s who → doFork C fuel who childEp s = some s' →
      Step C s (.fork who childEp) s'
  | srvFork {fuel who childEp s s'} : Live C s who → doSrvFork C fuel who childEp s = some s' →
      Step C s (.srvFork who childEp) s'
  | setsid {who s} : Live C s who → Step C s (.setsid who) (doSetsid who s)
  | exit {i s} : Live C s i → i ≠ PM_SLOT → Step C s (.exit i) (exitProc C i s)
  | cleanup {i s} : Live C s i → i ≠ PM_SLOT → (s.mproc i).exiting = true →
      Step C s (.cleanup i) (cleanup i s)
  | ksig {i s} : i < C.NR_PROCS → Step C s (.ksig i) (processKsig i s)

def pidSystem (C : PidConfig) : TransitionSystem PidState PidEvent where
  initial s := Within (INIT_PID + 1) NR_PIDS s.nextPid ∧ Live C s PM_SLOT ∧ ∀ i, s.forked i = false
  step := Step C

section Search
variable {C : PidConfig} {mproc : ℕ → Mproc}

theorem pidTaken_iff {pid : ℕ} : pidTaken C mproc pid = true ↔
    ∃ i < C.NR_PROCS, (mproc i).mpPid = pid ∨ (mproc i).mpProcgrp = pid := by
  simp [pidTaken]

def freePid (C : PidConfig) (mproc : ℕ → Mproc) (pid : ℕ) : Option ℕ :=
  if pidTaken C mproc pid then none else some pid

theorem getFreePid_eq (fuel nextPid : ℕ) : getFreePid C mproc fuel nextPid =
    scan (INIT_PID + 1) NR_PIDS (freePid C mproc) fuel (next (INIT_PID + 1) NR_PIDS nextPid) := by
  induction fuel generalizing nextPid with
  | zero => rfl
  | succ fuel ih =>
    rw [getFreePid, scan, ← next]
    unfold freePid
    cases pidTaken C mproc (next (INIT_PID + 1) NR_PIDS nextPid)
    · rfl
    · exact ih _

-- Each slot takes at most two of the numbers.
variable (mproc) in
theorem freePid_exists (h : 2 * C.NR_PROCS < NR_PIDS - INIT_PID) :
    ∃ pid, Within (INIT_PID + 1) NR_PIDS pid ∧ pidTaken C mproc pid = false := by
  let used := (Finset.range C.NR_PROCS).biUnion fun i =>
    {(mproc i).mpPid.toNat, (mproc i).mpProcgrp.toNat}
  have hused : used.card < (Finset.Icc (INIT_PID + 1) NR_PIDS).card := by
    have hcard : used.card ≤ (Finset.range C.NR_PROCS).card * 2 :=
      Finset.card_biUnion_le_card_mul _ _ _ fun i _ => Finset.card_le_two
    rw [Finset.card_range] at hcard
    rw [Nat.card_Icc]
    omega
  obtain ⟨pid, hpid, hfree⟩ := Finset.exists_mem_notMem_of_card_lt_card hused
  refine ⟨pid, Finset.mem_Icc.1 hpid, ?_⟩
  rw [← Bool.not_eq_true, pidTaken_iff]
  rintro ⟨i, hi, htaken⟩
  refine hfree (Finset.mem_biUnion.2 ⟨i, Finset.mem_range.2 hi, ?_⟩)
  rw [Finset.mem_insert, Finset.mem_singleton]
  omega

theorem getFreePid_some {fuel nextPid pid : ℕ} (h : getFreePid C mproc fuel nextPid = some pid)
    (hnext : Within (INIT_PID + 1) NR_PIDS nextPid) :
    Within (INIT_PID + 1) NR_PIDS pid ∧ pidTaken C mproc pid = false := by
  rw [getFreePid_eq] at h
  obtain ⟨y, hy, htest⟩ := scan_within (next_within (by decide) hnext.1) h
  rw [freePid] at htest
  split_ifs at htest with htaken
  cases htest
  exact ⟨hy, by simpa using htaken⟩

theorem getFreePid_ends {fuel nextPid : ℕ} (h : 2 * C.NR_PROCS < NR_PIDS - INIT_PID)
    (hnext : Within (INIT_PID + 1) NR_PIDS nextPid) (hfuel : NR_PIDS - INIT_PID ≤ fuel) :
    ∃ pid, getFreePid C mproc fuel nextPid = some pid := by
  obtain ⟨pid, hpid, hfree⟩ := freePid_exists mproc h
  rw [← Option.isSome_iff_exists, ← Option.ne_none_iff_isSome, getFreePid_eq]
  intro hnone
  have htest := scan_turn (next_within (by decide) hnext.1)
    (show NR_PIDS - (INIT_PID + 1) + 1 ≤ fuel by unfold NR_PIDS INIT_PID at *; omega) hnone hpid
  rw [freePid, hfree] at htest
  cases htest

end Search

section Forks
variable {C : PidConfig} {s s' : PidState} {fuel who : ℕ} {childEp : Option ℤ}

theorem childSlot_free {mproc : ℕ → Mproc} {n nextChild child : ℕ}
    (h : childSlot C mproc n nextChild = some child) :
    (mproc child).inUse = false ∧ ∃ m, child = m % C.NR_PROCS := by
  induction n generalizing nextChild with
  | zero => cases h
  | succ n ih =>
    simp only [childSlot] at h
    split_ifs at h with huse
    · exact ih h
    · cases h
      exact ⟨by simpa using huse, _, rfl⟩

structure SamePids (s s' : PidState) : Prop where
  mproc : s'.mproc = s.mproc
  nextPid : s'.nextPid = s.nextPid
  forked : s'.forked = s.forked

structure Spawned (C : PidConfig) (who child pid : ℕ) (ep : ℤ) (s s' : PidState) : Prop where
  slot : child < C.NR_PROCS
  free : (s.mproc child).inUse = false
  within : Within (INIT_PID + 1) NR_PIDS pid
  taken : pidTaken C (forkTable who child s) pid = false
  mproc : s'.mproc = Function.update s.mproc child
    { s.mproc who with mpPid := pid, mpEndpoint := ep, exiting := false }
  nextPid : s'.nextPid = pid
  forked : s'.forked = Function.update s.forked child true

theorem childSlot_lt {mproc : ℕ → Mproc} {n nextChild child : ℕ} (hwho : who < C.NR_PROCS)
    (h : childSlot C mproc n nextChild = some child) : child < C.NR_PROCS := by
  obtain ⟨-, m, rfl⟩ := childSlot_free h
  exact Nat.mod_lt m (Nat.zero_lt_of_lt hwho)

theorem spawned_of {child : ℕ} {ep : ℤ} {s₁ : PidState} (hs : SamePids s s₁) (hslot : child < C.NR_PROCS)
    (hfree : (s.mproc child).inUse = false) (hnext : Within (INIT_PID + 1) NR_PIDS s.nextPid)
    (h : (getFreePid C (forkTable who child s) fuel s.nextPid).map
      (fun newPid => forkInto who child ep newPid s₁) = some s') :
    ∃ pid, Spawned C who child pid ep s s' := by
  obtain ⟨pid, hpid, rfl⟩ := Option.map_eq_some_iff.1 h
  obtain ⟨hwithin, htaken⟩ := getFreePid_some hpid hnext
  exact ⟨pid, hslot, hfree, hwithin, htaken, by rw [← hs.mproc]; rfl, rfl, by rw [← hs.forked]; rfl⟩

theorem doFork_cases (hwho : who < C.NR_PROCS) (hnext : Within (INIT_PID + 1) NR_PIDS s.nextPid)
    (h : doFork C fuel who childEp s = some s') :
    SamePids s s' ∨ ∃ child pid ep, Spawned C who child pid ep s s' := by
  unfold doFork at h
  by_cases hfull : tableFull C who s
  · rw [if_pos hfull] at h
    cases h
    exact .inl ⟨rfl, rfl, rfl⟩
  rw [if_neg hfull] at h
  cases hslot : childSlot C s.mproc C.NR_PROCS s.nextChild with
  | none =>
    rw [hslot] at h
    cases h
  | some child =>
    rw [hslot] at h
    cases childEp with
    | none =>
      cases h
      exact .inl ⟨rfl, rfl, rfl⟩
    | some ep =>
      obtain ⟨pid, hspawned⟩ := spawned_of (show SamePids s { s with nextChild := child } from ⟨rfl, rfl, rfl⟩)
        (childSlot_lt hwho hslot) (childSlot_free hslot).1 hnext h
      exact .inr ⟨child, pid, ep, hspawned⟩

theorem doSrvFork_cases (hwho : who < C.NR_PROCS)
    (hnext : Within (INIT_PID + 1) NR_PIDS s.nextPid)
    (h : doSrvFork C fuel who childEp s = some s') :
    SamePids s s' ∨ ∃ child pid ep, Spawned C who child pid ep s s' := by
  unfold doSrvFork at h
  by_cases hrs : (s.mproc who).mpEndpoint ≠ C.RS_PROC_NR
  · rw [if_pos hrs] at h
    cases h
    exact .inl ⟨rfl, rfl, rfl⟩
  rw [if_neg hrs] at h
  by_cases hfull : tableFull C who s
  · rw [if_pos hfull] at h
    cases h
    exact .inl ⟨rfl, rfl, rfl⟩
  rw [if_neg hfull] at h
  cases hslot : childSlot C s.mproc C.NR_PROCS s.nextSrvChild with
  | none =>
    rw [hslot] at h
    cases h
  | some child =>
    rw [hslot] at h
    cases childEp with
    | none =>
      cases h
      exact .inl ⟨rfl, rfl, rfl⟩
    | some ep =>
      obtain ⟨pid, hspawned⟩ := spawned_of (show SamePids s { s with nextSrvChild := child } from ⟨rfl, rfl, rfl⟩)
        (childSlot_lt hwho hslot) (childSlot_free hslot).1 hnext h
      exact .inr ⟨child, pid, ep, hspawned⟩

end Forks

section Invariant
variable {C : PidConfig} {s s' : PidState} {i k : ℕ}

structure PidsOk (C : PidConfig) (s : PidState) : Prop where
  cursor : Within (INIT_PID + 1) NR_PIDS s.nextPid
  pm : Live C s PM_SLOT
  booted : s.forked PM_SLOT = false
  unique : ∀ i k, Live C s i → Live C s k → s.forked i = true → k ≠ i →
    (s.mproc k).mpPid ≠ (s.mproc i).mpPid
  group : ∀ i k, Live C s i → Live C s k → s.forked i = true →
    (s.mproc i).mpProcgrp ≠ (s.mproc i).mpPid → (s.mproc k).mpProcgrp ≠ (s.mproc i).mpPid

theorem PidsOk.same (h : PidsOk C s) (hs : SamePids s s') : PidsOk C s' := by
  obtain ⟨hmproc, hnext, hforked⟩ := hs
  constructor
  · rw [hnext]
    exact h.cursor
  · rw [Live, hmproc]
    exact h.pm
  · rw [hforked]
    exact h.booted
  · intro i k hi hk
    rw [Live, hmproc] at hi hk
    rw [hmproc, hforked]
    exact h.unique i k hi hk
  · intro i k hi hk
    rw [Live, hmproc] at hi hk
    rw [hmproc, hforked]
    exact h.group i k hi hk

namespace Spawned
variable {who child pid : ℕ} {ep : ℤ}

theorem apart (hs : Spawned C who child pid ep s s') (hk : k < C.NR_PROCS) (hne : k ≠ child) :
    (s.mproc k).mpPid ≠ pid ∧ (s.mproc k).mpProcgrp ≠ pid := by
  have h := mt pidTaken_iff.2 (Bool.eq_false_iff.1 hs.taken)
  constructor
  · exact fun heq => h ⟨k, hk, .inl (by rw [forkTable, Function.update_of_ne hne]; exact heq)⟩
  · exact fun heq => h ⟨k, hk, .inr (by rw [forkTable, Function.update_of_ne hne]; exact heq)⟩

theorem parent_group (hs : Spawned C who child pid ep s s') : (s.mproc who).mpProcgrp ≠ pid := by
  intro heq
  refine mt pidTaken_iff.2 (Bool.eq_false_iff.1 hs.taken) ⟨child, hs.slot, .inr ?_⟩
  rw [forkTable, Function.update_self]
  exact heq

theorem other (hs : Spawned C who child pid ep s s') (hne : k ≠ child) :
    s'.mproc k = s.mproc k ∧ s'.forked k = s.forked k := by
  rw [hs.mproc, hs.forked, Function.update_of_ne hne, Function.update_of_ne hne]
  exact ⟨rfl, rfl⟩

theorem live (hs : Spawned C who child pid ep s s') (hne : k ≠ child) :
    Live C s' k ↔ Live C s k := by
  rw [Live, Live, (hs.other hne).1]

theorem child_pid (hs : Spawned C who child pid ep s s') :
    (s'.mproc child).mpPid = pid ∧ (s'.mproc child).mpProcgrp = (s.mproc who).mpProcgrp := by
  rw [hs.mproc, Function.update_self]
  exact ⟨rfl, rfl⟩

theorem no_group (hs : Spawned C who child pid ep s s') (hk : k < C.NR_PROCS) :
    (s'.mproc k).mpProcgrp ≠ pid := by
  rcases eq_or_ne k child with rfl | hne
  · rw [hs.child_pid.2]
    exact hs.parent_group
  · rw [(hs.other hne).1]
    exact (hs.apart hk hne).2

theorem pidsOk (hs : Spawned C who child pid ep s s') (h : PidsOk C s) (hwho : Live C s who) :
    PidsOk C s' := by
  have hpm : PM_SLOT ≠ child := by
    rintro rfl
    exact absurd h.pm.2 (by simp [hs.free])
  constructor
  · rw [hs.nextPid]
    exact hs.within
  · exact (hs.live hpm).2 h.pm
  · rw [(hs.other hpm).2]
    exact h.booted
  · intro i k hi hk hforked hne
    rcases eq_or_ne i child with rfl | hi'
    · rw [hs.child_pid.1, (hs.other hne).1]
      exact (hs.apart hk.1 hne).1
    · rw [(hs.other hi').1]
      rw [(hs.other hi').2] at hforked
      rw [hs.live hi'] at hi
      rcases eq_or_ne k child with rfl | hk'
      · rw [hs.child_pid.1]
        exact (hs.apart hi.1 hi').1.symm
      · rw [(hs.other hk').1]
        rw [hs.live hk'] at hk
        exact h.unique i k hi hk hforked hne
  · intro i k hi hk hforked hown
    rcases eq_or_ne i child with rfl | hi'
    · rw [hs.child_pid.1]
      exact hs.no_group hk.1
    · rw [(hs.other hi').1] at hown ⊢
      rw [(hs.other hi').2] at hforked
      rw [hs.live hi'] at hi
      rcases eq_or_ne k child with rfl | hk'
      · rw [hs.child_pid.2]
        exact h.group i who hi hwho hforked hown
      · rw [(hs.other hk').1]
        rw [hs.live hk'] at hk
        exact h.group i k hi hk hforked hown

end Spawned

structure Quiet (C : PidConfig) (s s' : PidState) : Prop where
  nextPid : s'.nextPid = s.nextPid
  forked : s'.forked = s.forked
  pm : Live C s PM_SLOT → Live C s' PM_SLOT
  live : ∀ i, Live C s' i → Live C s i
  pid : ∀ i, Live C s' i → (s'.mproc i).mpPid = (s.mproc i).mpPid

theorem PidsOk.quiet (h : PidsOk C s) (hq : Quiet C s s')
    (hgroup : ∀ i k, Live C s' i → Live C s' k → s.forked i = true →
      (s'.mproc i).mpProcgrp ≠ (s.mproc i).mpPid → (s'.mproc k).mpProcgrp ≠ (s.mproc i).mpPid) :
    PidsOk C s' := by
  refine ⟨hq.nextPid ▸ h.cursor, hq.pm h.pm, hq.forked ▸ h.booted, ?_, ?_⟩
  · intro i k hi hk hforked hne
    rw [hq.pid i hi, hq.pid k hk]
    exact h.unique i k (hq.live i hi) (hq.live k hk) (hq.forked ▸ hforked) hne
  · intro i k hi hk hforked
    rw [hq.pid i hi]
    exact hgroup i k hi hk (hq.forked ▸ hforked)

theorem quiet_update {j : ℕ} {rmp : Mproc} (hpid : rmp.mpPid = (s.mproc j).mpPid)
    (huse : rmp.inUse = (s.mproc j).inUse) :
    Quiet C s { s with mproc := Function.update s.mproc j rmp } := by
  have hlive (i : ℕ) : Live C { s with mproc := Function.update s.mproc j rmp } i ↔ Live C s i := by
    rcases eq_or_ne i j with rfl | hne
    · simp [Live, huse]
    · simp [Live, hne]
  refine ⟨rfl, rfl, (hlive _).2, fun i => (hlive i).1, fun i _ => ?_⟩
  rcases eq_or_ne i j with rfl | hne
  · simp [hpid]
  · simp [hne]

theorem PidsOk.setsid {who : ℕ} (h : PidsOk C s) (hwho : Live C s who) :
    PidsOk C (doSetsid who s) := by
  by_cases hown : (s.mproc who).mpProcgrp = (s.mproc who).mpPid
  · simpa only [doSetsid, if_pos hown] using h
  simp only [doSetsid, if_neg hown]
  have hq : Quiet C s { s with
      mproc := Function.update s.mproc who
        { s.mproc who with mpProcgrp := (s.mproc who).mpPid } } := quiet_update rfl rfl
  refine h.quiet hq fun i k hi hk hforked hother => ?_
  rcases eq_or_ne i who with rfl | hi'
  · simp at hother
  · simp only [Function.update_of_ne hi'] at hother
    rcases eq_or_ne k who with rfl | hk'
    · simpa using h.unique i k (hq.live i hi) hwho hforked hi'.symm
    · simpa only [Function.update_of_ne hk'] using
        h.group i k (hq.live i hi) (hq.live k hk) hforked hother

theorem PidsOk.exit (h : PidsOk C s) : PidsOk C (exitProc C i s) := by
  unfold exitProc
  split_ifs
  · exact h
  have hq : Quiet C s { s with
      mproc := Function.update s.mproc i { s.mproc i with exiting := true } } := quiet_update rfl rfl
  have hgrp (k : ℕ) : (Function.update s.mproc i { s.mproc i with exiting := true } k).mpProcgrp =
      (s.mproc k).mpProcgrp := by
    rcases eq_or_ne k i with rfl | hne <;> simp [*]
  refine h.quiet hq fun j k hj hk hforked hother => ?_
  simp only [hgrp] at hother ⊢
  exact h.group j k (hq.live j hj) (hq.live k hk) hforked hother

theorem PidsOk.cleanup (h : PidsOk C s) (hi : i ≠ PM_SLOT) : PidsOk C (cleanup i s) := by
  have hne {k : ℕ} (hk : Live C (Pids.cleanup i s) k) : k ≠ i := by
    rintro rfl
    simp [Live, Pids.cleanup] at hk
  have hkeep {k : ℕ} (hk : k ≠ i) : (Pids.cleanup i s).mproc k = s.mproc k :=
    Function.update_of_ne hk _ _
  have hlive {k : ℕ} (hk : k ≠ i) : Live C (Pids.cleanup i s) k ↔ Live C s k := by
    rw [Live, Live, hkeep hk]
  have hq : Quiet C s (Pids.cleanup i s) := ⟨rfl, rfl, (hlive hi.symm).2,
    fun k hk => (hlive (hne hk)).1 hk, fun k hk => by rw [hkeep (hne hk)]⟩
  refine h.quiet hq fun j k hj hk hforked hother => ?_
  rw [hkeep (hne hj)] at hother
  rw [hkeep (hne hk)]
  exact h.group j k (hq.live j hj) (hq.live k hk) hforked hother

theorem PidsOk.ksig (h : PidsOk C s) (hi : i < C.NR_PROCS) : PidsOk C (processKsig i s) := by
  unfold processKsig
  split_ifs with huse
  · simp only [Bool.and_eq_true] at huse
    have hq : Quiet C s { s with
        mproc := Function.update s.mproc PM_SLOT
          { s.mproc PM_SLOT with mpProcgrp := (s.mproc i).mpProcgrp } } := quiet_update rfl rfl
    refine h.quiet hq fun j k hj hk hforked hother => ?_
    have hj' : j ≠ PM_SLOT := by
      rintro rfl
      rw [h.booted] at hforked
      cases hforked
    simp only [Function.update_of_ne hj'] at hother
    rcases eq_or_ne k PM_SLOT with rfl | hk'
    · simpa using h.group j i (hq.live j hj) ⟨hi, huse.1⟩ hforked hother
    · simpa only [Function.update_of_ne hk'] using
        h.group j k (hq.live j hj) (hq.live k hk) hforked hother
  · exact h

theorem pidsOk_step {e : PidEvent} (h : PidsOk C s) (hstep : Step C s e s') : PidsOk C s' := by
  cases hstep with
  | fork hwho hfork =>
    rcases doFork_cases hwho.1 h.cursor hfork with hsame | ⟨child, pid, ep, hs⟩
    · exact h.same hsame
    · exact hs.pidsOk h hwho
  | srvFork hwho hfork =>
    rcases doSrvFork_cases hwho.1 h.cursor hfork with hsame | ⟨child, pid, ep, hs⟩
    · exact h.same hsame
    · exact hs.pidsOk h hwho
  | setsid hwho => exact h.setsid hwho
  | exit _ _ => exact h.exit
  | cleanup _ hi _ => exact h.cleanup hi
  | ksig hi => exact h.ksig hi

theorem reachable_pidsOk (h : (pidSystem C).Reachable s) : PidsOk C s := by
  obtain ⟨past, hrun⟩ := h
  refine hrun.invariant ?_ fun past s e s' hs _ hstep => pidsOk_step hs hstep
  rintro s ⟨hcursor, hpm, hnone⟩
  exact ⟨hcursor, hpm, hnone _, fun i k _ _ hi => by simp [hnone] at hi,
    fun i k _ _ hi => by simp [hnone] at hi⟩

theorem new_no_group {c who : ℕ}
    (hs : SamePids s s' ∨ ∃ child pid ep, Spawned C who child pid ep s s') (hnew : Live C s' c)
    (hold : ¬ Live C s c) (hk : k < C.NR_PROCS) :
    (s'.mproc k).mpProcgrp ≠ (s'.mproc c).mpPid := by
  rcases hs with hsame | ⟨child, pid, ep, hs⟩
  · rw [Live, hsame.mproc] at hnew
    exact absurd hnew hold
  · rcases eq_or_ne c child with rfl | hne
    · rw [hs.child_pid.1]
      exact hs.no_group hk
    · exact absurd ((hs.live hne).1 hnew) hold

theorem setsid_alone {who : ℕ} (h : PidsOk C s) (hwho : Live C s who) (hforked : s.forked who = true)
    (hown : (s.mproc who).mpProcgrp ≠ (s.mproc who).mpPid) (hk : Live C s k) (hne : k ≠ who) :
    ((doSetsid who s).mproc k).mpProcgrp ≠ ((doSetsid who s).mproc who).mpProcgrp := by
  simp only [doSetsid, if_neg hown, Function.update_self, Function.update_of_ne hne]
  exact h.group who k hwho hk hforked hown

end Invariant

structure PidGuarantees (C : PidConfig) : Prop where
  free : ∀ (mproc : ℕ → Mproc) (nextPid fuel : ℕ), Within (INIT_PID + 1) NR_PIDS nextPid →
    NR_PIDS - INIT_PID ≤ fuel → ∃ pid, getFreePid C mproc fuel nextPid = some pid ∧
      INIT_PID < pid ∧ pid ≤ NR_PIDS ∧
      ∀ i < C.NR_PROCS, (mproc i).mpPid ≠ pid ∧ (mproc i).mpProcgrp ≠ pid
  unique : ∀ s, (pidSystem C).Reachable s → ∀ i k, Live C s i → Live C s k →
    s.forked i = true → s.forked k = true → i ≠ k → (s.mproc i).mpPid ≠ (s.mproc k).mpPid
  -- the number of a new process is that of no group
  joins : ∀ s, (pidSystem C).Reachable s → ∀ fuel who childEp s', Live C s who →
    doFork C fuel who childEp s = some s' ∨ doSrvFork C fuel who childEp s = some s' →
    ∀ c k, Live C s' c → ¬ Live C s c → k < C.NR_PROCS →
      (s'.mproc k).mpProcgrp ≠ (s'.mproc c).mpPid
  -- and the group that it founds later has no other member
  founds : ∀ s, (pidSystem C).Reachable s → ∀ who k, Live C s who → s.forked who = true →
    (s.mproc who).mpProcgrp ≠ (s.mproc who).mpPid → Live C s k → k ≠ who →
    ((doSetsid who s).mproc k).mpProcgrp ≠ ((doSetsid who s).mproc who).mpProcgrp

theorem pidGuarantees {C : PidConfig} (hC : 2 * C.NR_PROCS < NR_PIDS - INIT_PID) :
    PidGuarantees C := by
  constructor
  · intro mproc nextPid fuel hnext hfuel
    obtain ⟨pid, hpid⟩ := getFreePid_ends hC hnext hfuel
    obtain ⟨hwithin, htaken⟩ := getFreePid_some hpid hnext
    refine ⟨pid, hpid, hwithin.1, hwithin.2, fun i hi => ?_⟩
    have hfree := mt pidTaken_iff.2 (Bool.eq_false_iff.1 htaken)
    exact ⟨fun heq => hfree ⟨i, hi, .inl heq⟩, fun heq => hfree ⟨i, hi, .inr heq⟩⟩
  · intro s hs i k hi hk _ hforked hne
    exact (reachable_pidsOk hs).unique k i hk hi hforked hne
  · intro s hs fuel who childEp s' hwho hfork c k hnew hold hk
    have hcursor := (reachable_pidsOk hs).cursor
    rcases hfork with hfork | hfork
    · exact new_no_group (doFork_cases hwho.1 hcursor hfork) hnew hold hk
    · exact new_no_group (doSrvFork_cases hwho.1 hcursor hfork) hnew hold hk
  · intro s hs who k hwho hforked hown hk hne
    exact setsid_alone (reachable_pidsOk hs) hwho hforked hown hk hne

theorem pidGuarantees_three : PidGuarantees ⟨3, 2, 1⟩ := pidGuarantees (by decide)

end Pm.Pids
