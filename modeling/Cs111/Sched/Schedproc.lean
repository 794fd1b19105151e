import Cs111.Minix.Headers
import Mathlib.Data.BitVec

namespace Sched
open Minix

abbrev Unsigned := BitVec 32

def IN_USE : Unsigned := 0x00001

structure Schedproc where
  endpoint : ℤ
  parent : ℤ
  flags : Unsigned
  maxPriority : Unsigned
  priority : Unsigned
  timeSlice : Unsigned
  -- declared int in schedproc.h; the handlers mix it with unsigned arithmetic
  tickets : BitVec 32
  deriving DecidableEq, Repr

def Schedproc.inUse (rmp : Schedproc) : Bool := rmp.flags &&& IN_USE != 0

structure State (H : Headers) where
  schedproc : Fin H.nrProcs → Schedproc
  totalTickets : Unsigned

inductive StartType where
  | SCHEDULING_START | SCHEDULING_INHERIT
  deriving DecidableEq, Repr

inductive MessageType where
  | start (type : StartType)
  | SCHEDULING_STOP
  | SCHEDULING_SET_NICE
  | SCHEDULING_NO_QUANTUM
  | unknown
  deriving DecidableEq, Repr

structure Message where
  source : ℤ
  type : MessageType
  schedulingEndpoint : ℤ
  schedulingParent : ℤ
  schedulingMaxprio : BitVec 32
  schedulingQuantum : BitVec 32
  schedulingScheduler : ℤ
  deriving DecidableEq, Repr

structure KernelReplies where
  sysSchedctl : Unsigned → ℤ → Unsigned → Unsigned → Errno
  sysSchedule : ℤ → Unsigned → Unsigned → Errno

def KernelReplies.accepting : KernelReplies := ⟨fun _ _ _ _ => .OK, fun _ _ _ => .OK⟩

def Message.fromPM (H : Headers) (type : MessageType) (endpoint : ℤ) (maxprio : BitVec 32) :
    Message :=
  ⟨H.pmProcNr, type, endpoint, endpoint, maxprio, 200, H.none⟩

section Utility

variable {H : Headers}

def State.set (s : State H) (i : Fin H.nrProcs) (rmp : Schedproc) : State H :=
  { s with schedproc := Function.update s.schedproc i rmp }

def procSlot (H : Headers) (endpoint : ℤ) : Except Errno (Fin H.nrProcs) :=
  let proc := H.endpointP endpoint
  if proc < 0 then .error .EBADEPT
  else if h : proc.toNat < H.nrProcs then .ok ⟨proc.toNat, h⟩
  else .error .EINVAL

def schedIsokendpt (s : State H) (endpoint : ℤ) : Except Errno (Fin H.nrProcs) := do
  let proc ← procSlot H endpoint
  if endpoint ≠ (s.schedproc proc).endpoint then .error .EDEADEPT
  else if ¬ (s.schedproc proc).inUse then .error .EDEADEPT
  else .ok proc

def schedIsemtyendpt (s : State H) (endpoint : ℤ) : Except Errno (Fin H.nrProcs) := do
  let proc ← procSlot H endpoint
  if (s.schedproc proc).inUse then .error .EDEADEPT else .ok proc

def acceptMessage (H : Headers) (m : Message) : Bool :=
  m.source == H.pmProcNr || m.source == H.rsProcNr

variable {s : State H} {i j : Fin H.nrProcs} {rmp : Schedproc}

@[simp] theorem set_totalTickets : (s.set i rmp).totalTickets = s.totalTickets := rfl

@[simp] theorem set_self : (s.set i rmp).schedproc i = rmp := Function.update_self ..

theorem set_of_ne (h : j ≠ i) : (s.set i rmp).schedproc j = s.schedproc j :=
  Function.update_of_ne h ..

@[simp] theorem set_set (rmp' : Schedproc) : (s.set i rmp).set i rmp' = s.set i rmp' := by
  simp [State.set]

theorem isokendpt_ok {endpoint : ℤ} (h : schedIsokendpt s endpoint = .ok i) :
    (s.schedproc i).inUse = true ∧ (s.schedproc i).endpoint = endpoint := by
  rw [schedIsokendpt] at h
  cases hslot : procSlot H endpoint with
  | error e => simp [hslot, bind, Except.bind] at h
  | ok proc =>
    simp only [hslot, bind, Except.bind] at h
    split_ifs at h with hendpoint huse
    cases h
    exact ⟨by simpa using huse, (not_not.mp hendpoint).symm⟩

theorem isokendpt_set_unused {endpoint : ℤ} (hfree : rmp.inUse = false)
    (h : schedIsokendpt (s.set i rmp) endpoint = .ok j) :
    j ≠ i ∧ schedIsokendpt s endpoint = .ok j := by
  have huse := (isokendpt_ok h).1
  have hne : j ≠ i := by
    rintro rfl
    rw [set_self, hfree] at huse
    cases huse
  refine ⟨hne, ?_⟩
  rw [schedIsokendpt] at h ⊢
  cases hslot : procSlot H endpoint with
  | error e => simp [hslot, bind, Except.bind] at h
  | ok proc =>
    simp only [hslot, bind, Except.bind] at h ⊢
    have hproc : proc = j := by
      split_ifs at h
      exact Except.ok.inj h
    rw [hproc] at h ⊢
    rwa [set_of_ne hne] at h

theorem isemtyendpt_ok {endpoint : ℤ} (h : schedIsemtyendpt s endpoint = .ok i) :
    (s.schedproc i).inUse = false := by
  rw [schedIsemtyendpt] at h
  cases hslot : procSlot H endpoint with
  | error e => simp [hslot, bind, Except.bind] at h
  | ok proc =>
    simp only [hslot, bind, Except.bind] at h
    split_ifs at h with huse
    cases h
    simpa using huse

end Utility

end Sched
