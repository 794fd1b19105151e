import Mathlib.Data.Fintype.Basic
import Mathlib.Tactic.Ring

namespace Minix

inductive Errno where
  | OK | EPERM | EINVAL | EFAULT | ESRCH | EACCES | ENOSYS | EDOM | ENOSPC | EBUSY | EAGAIN
  | EBADEPT | EDEADEPT | EDEADSRCDST | ELOCKED | ENOTREADY | ECALLDENIED | ETRAPDENIED
  | EBADCALL | EBADREQUEST
  | other (code : ℤ)
  deriving DecidableEq, Repr

structure Headers where
  nrTasks : ℕ
  nrProcs : ℕ
  nrSysProcs : ℕ
  any : ℤ
  none : ℤ
  self : ℤ
  endpointP : ℤ → ℤ
  endpointG : ℤ → ℤ
  endpoint : ℤ → ℤ → ℤ
  maxGeneration : ℤ
  pmProcNr : ℤ
  rsProcNr : ℤ
  schedProcNr : ℤ
  initProcNr : ℤ
  kernelEndpoint : ℤ
  superUser : ℕ
  prioProcess : ℤ
  prioMin : ℤ
  prioMax : ℤ
  system : Fin (nrTasks + nrProcs)
  hardware : Fin (nrTasks + nrProcs)
  idle : Fin (nrTasks + nrProcs)
  userPrivId : Fin nrSysProcs
  sigksig : ℕ
  sigksigsm : ℕ
  sigsndelay : ℕ
  sigsIsLethal : ℕ → Bool
  ms2CpuTime : ℕ → ℕ
  nrProcs_le : nrProcs ≤ 2 ^ 15
  idle_ne_system : idle ≠ system
  maxGeneration_gt : 1 < maxGeneration
  endpointP_endpoint : ∀ g p : ℤ, 0 ≤ g → g < maxGeneration → -(nrTasks : ℤ) ≤ p → p < nrProcs →
    endpointP (endpoint g p) = p
  endpointG_endpoint : ∀ g p : ℤ, 0 ≤ g → g < maxGeneration → -(nrTasks : ℤ) ≤ p → p < nrProcs →
    endpointG (endpoint g p) = g
  any_reserved : ¬ (-(nrTasks : ℤ) ≤ endpointP any ∧ endpointP any < nrProcs)
  none_reserved : ¬ (-(nrTasks : ℤ) ≤ endpointP none ∧ endpointP none < nrProcs)
  any_ne_none : any ≠ none

def nrSchedQueues : ℕ := 18
def taskQ : ℕ := 0
def maxUserQ : ℕ := 16
def minUserQ : ℕ := nrSchedQueues - 1

def Headers.sample : Headers where
  nrTasks := 4
  nrProcs := 8
  nrSysProcs := 6
  any := 31744
  none := 31743
  self := 31742
  endpointP e := (e + 1023) % 32768 - 1023
  endpointG e := (e + 1023) / 32768
  endpoint g p := g * 32768 + p
  maxGeneration := 65534
  pmProcNr := 0
  rsProcNr := 2
  schedProcNr := 4
  initProcNr := 7
  kernelEndpoint := -1
  superUser := 0
  prioProcess := 0
  prioMin := -20
  prioMax := 20
  system := 2
  hardware := 3
  idle := 0
  userPrivId := 5
  sigksig := 29
  sigksigsm := 28
  sigsndelay := 26
  sigsIsLethal sig := sig == 4 || sig == 11
  ms2CpuTime ms := 1000 * ms
  nrProcs_le := by decide
  idle_ne_system := by decide
  maxGeneration_gt := by decide
  endpointP_endpoint g p _ _ hlo hhi := by
    have h : g * 32768 + p + 1023 = p + 1023 + 32768 * g := by ring
    rw [h, Int.add_mul_emod_self_left, Int.emod_eq_of_lt (by omega) (by omega)]
    omega
  endpointG_endpoint g p _ _ hlo hhi := by
    have h : g * 32768 + p + 1023 = p + 1023 + 32768 * g := by ring
    rw [h, Int.add_mul_ediv_left _ _ (by decide), Int.ediv_eq_zero_of_lt (by omega) (by omega)]
    omega
  any_reserved := by decide
  none_reserved := by decide
  any_ne_none := by decide

instance : NeZero (Headers.sample.nrTasks + Headers.sample.nrProcs) := ⟨by decide⟩

end Minix
