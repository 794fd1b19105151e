import Cs111.Lib.Chain
import Cs111.Lib.FlagWord
import Cs111.Minix.Headers

namespace Kernel
open Minix FlagWord Chain

abbrev Flags := BitVec 16

def RTS_SLOT_FREE : Flags := 0x01
def RTS_SENDING : Flags := 0x04
def RTS_RECEIVING : Flags := 0x08
def RTS_SIGNALED : Flags := 0x10
def RTS_SIG_PENDING : Flags := 0x20
def RTS_P_STOP : Flags := 0x40
def RTS_NO_PRIV : Flags := 0x80
def RTS_NO_ENDPOINT : Flags := 0x100
def RTS_VMINHIBIT : Flags := 0x200
def RTS_VMREQUEST : Flags := 0x800
def RTS_VMREQTARGET : Flags := 0x1000
def RTS_PREEMPTED : Flags := 0x4000
def RTS_NO_QUANTUM : Flags := 0x8000

def MF_REPLY_PEND : Flags := 0x001
def MF_VIRT_TIMER : Flags := 0x002
def MF_PROF_TIMER : Flags := 0x004
def MF_KCALL_RESUME : Flags := 0x008
def MF_ASYNMSG : Flags := 0x010
def MF_DELIVERMSG : Flags := 0x040
def MF_SIG_DELAY : Flags := 0x080
def MF_SC_TRACE : Flags := 0x400
def MF_FPU_INITIALIZED : Flags := 0x1000
def MF_SENDING_FROM_KERNEL : Flags := 0x2000
def MF_CONTEXT_SET : Flags := 0x4000

def PREEMPTIBLE : Flags := 0x02
def BILLABLE : Flags := 0x04
def SYS_PROC : Flags := 0x10

def AMF_VALID : BitVec 32 := 0x01
def AMF_DONE : BitVec 32 := 0x02
def AMF_NOTIFY : BitVec 32 := 0x04
def AMF_NOREPLY : BitVec 32 := 0x08

abbrev Slot (H : Headers) := Fin (H.nrTasks + H.nrProcs)
abbrev PrivId (H : Headers) := Fin H.nrSysProcs
abbrev Sigset := BitVec 32

abbrev SysMap := ℕ → BitVec 16

def bitchunkBits : ℕ := 16
def nrSysChunks (H : Headers) : ℕ := (H.nrSysProcs + bitchunkBits - 1) / bitchunkBits

def getSysBit (map : SysMap) (bit : ℕ) : Bool :=
  (map (bit / bitchunkBits)).getLsbD (bit % bitchunkBits)

def setSysBit (map : SysMap) (bit : ℕ) : SysMap :=
  Function.update map (bit / bitchunkBits)
    (map (bit / bitchunkBits) ||| BitVec.twoPow 16 (bit % bitchunkBits))

def unsetSysBit (map : SysMap) (bit : ℕ) : SysMap :=
  Function.update map (bit / bitchunkBits)
    (map (bit / bitchunkBits) &&& ~~~ BitVec.twoPow 16 (bit % bitchunkBits))

def sigaddset (set : Sigset) (sig : ℕ) : Sigset := set ||| BitVec.twoPow 32 sig
def sigismember (set : Sigset) (sig : ℕ) : Bool := set.getLsbD sig

inductive CallNr where
  | SEND | RECEIVE | SENDREC | NOTIFY | SENDNB | SENDA
  deriving DecidableEq, Repr

def CallNr.code : CallNr → ℕ
  | .SEND => 1
  | .RECEIVE => 2
  | .SENDREC => 3
  | .NOTIFY => 4
  | .SENDNB => 5
  | .SENDA => 16

inductive NotifyArg where
  | none
  | interrupts (pending : BitVec 32)
  | signals (pending : Sigset)
  deriving DecidableEq, Repr

inductive Body (M : Type) where
  | user (content : M)
  | notifyFrom (src : ℤ) (timestamp : ℕ) (arg : NotifyArg)
  | schedulingNoQuantum
  deriving DecidableEq, Repr

structure Message (M : Type) where
  mSource : ℤ
  body : Body M
  deriving DecidableEq, Repr

-- What has been or-ed into the IPC status register since it was last cleared.
inductive StatusItem where
  | call (callNr : CallNr)
  | msgFromKernel
  deriving DecidableEq, Repr

structure Asynmsg (M : Type) where
  flags : BitVec 32
  dst : ℤ
  msg : M
  result : Errno
  deriving DecidableEq, Repr

structure Proc (H : Headers) (M : Type) where
  priv : PrivId H
  rtsFlags : Flags
  miscFlags : Flags
  priority : ℕ
  cpuTimeLeft : ℕ
  quantumSizeMs : ℕ
  scheduler : Option (Slot H)
  callerQ : Option (Slot H)
  qLink : Option (Slot H)
  getfromE : ℤ
  sendtoE : ℤ
  pending : Sigset
  endpoint : ℤ
  sendmsg : Message M
  delivermsg : Message M
  delivermsgVir : ℕ
  retreg : Errno
  ipcStatus : List StatusItem

structure Priv where
  sProcNr : ℤ
  sFlags : Flags
  sAsynsize : ℕ
  sTrapMask : Flags
  sIpcTo : SysMap
  sSigMgr : ℤ
  sBakSigMgr : ℤ
  sNotifyPending : SysMap
  sIntPending : BitVec 32
  sSigPending : Sigset

structure KState (H : Headers) (M : Type) where
  proc : Slot H → Proc H M
  nextready : Slot H → Option (Slot H)
  rdyHead : ℕ → Option (Slot H)
  rdyTail : ℕ → Option (Slot H)
  procPtr : Slot H
  billPtr : Slot H
  ptproc : Slot H
  priv : PrivId H → Priv
  uptime : ℕ
  -- the tables in user memory that s_asyntab points at
  asyntab : Slot H → List (Asynmsg M)

-- Where the kernel stops: a failed assertion, panic(), a loop that never ends, a NULL pointer
-- followed or an array index out of range.
inductive Fault where
  | assertion | panic | hang | nullPointer | outOfBounds
  deriving DecidableEq, Repr

def kassert (holds : Bool) : Except Fault Unit :=
  if holds then .ok () else .error .assertion

section Accessors
variable {H : Headers} {M : Type}

def rtsFIsRunnable (flg : Flags) : Bool := flg == 0#16

def Proc.isRunnable (rp : Proc H M) : Bool := rtsFIsRunnable rp.rtsFlags

def Proc.isEmpty (rp : Proc H M) : Bool := rp.rtsFlags == RTS_SLOT_FREE

def Proc.rtsIsset (rp : Proc H M) (f : Flags) : Bool := isset rp.rtsFlags f

def Proc.miscIsset (rp : Proc H M) (f : Flags) : Bool := isset rp.miscFlags f

def procNr (i : Slot H) : ℤ := (i.val : ℤ) - H.nrTasks

def procAddr (H : Headers) (n : ℤ) : Except Fault (Slot H) :=
  if h : (n + H.nrTasks).toNat < H.nrTasks + H.nrProcs ∧ 0 ≤ n + H.nrTasks then
    .ok ⟨(n + H.nrTasks).toNat, h.1⟩
  else .error .outOfBounds

def KState.upd (s : KState H M) (i : Slot H) (f : Proc H M → Proc H M) : KState H M :=
  { s with proc := Function.update s.proc i (f (s.proc i)) }

def Proc.setRts (rp : Proc H M) (flags : Flags) : Proc H M := { rp with rtsFlags := flags }

def KState.setRts (s : KState H M) (i : Slot H) (flags : Flags) : KState H M :=
  s.upd i (·.setRts flags)

def KState.updPriv (s : KState H M) (i : PrivId H) (f : Priv → Priv) : KState H M :=
  { s with priv := Function.update s.priv i (f (s.priv i)) }

def KState.privOf (s : KState H M) (i : Slot H) : Priv := s.priv (s.proc i).priv

def Priv.has (p : Priv) (f : Flags) : Bool := p.sFlags &&& f != 0

def isokendpt (s : KState H M) (e : ℤ) : Option (Slot H) :=
  match procAddr H (H.endpointP e) with
  | .error _ => none
  | .ok i => if (s.proc i).isEmpty then none
    else if (s.proc i).endpoint ≠ e then none else some i

def okendpt (s : KState H M) (e : ℤ) : Except Fault (Slot H) :=
  match isokendpt s e with
  | none => .error .panic
  | some i => .ok i

def maySendTo (s : KState H M) (rp nr : Slot H) : Bool :=
  getSysBit (s.privOf rp).sIpcTo (s.proc nr).priv.val

def Proc.blockedOn (rp : Proc H M) : ℤ :=
  if rp.rtsIsset RTS_SENDING then rp.sendtoE
  else if rp.rtsIsset RTS_RECEIVING then rp.getfromE
  else H.none

def Proc.willReceive (target : Proc H M) (sourceEp : ℤ) : Bool :=
  (target.rtsIsset RTS_RECEIVING && !target.rtsIsset RTS_SENDING) &&
    (target.getfromE == H.any || target.getfromE == sourceEp)

def Proc.ipcStatusAdd (rp : Proc H M) (item : StatusItem) : Proc H M :=
  if rp.miscIsset MF_REPLY_PEND then rp else { rp with ipcStatus := item :: rp.ipcStatus }

def Proc.setMisc (rp : Proc H M) (f : Flags) : Proc H M :=
  { rp with miscFlags := rp.miscFlags ||| f }

def Proc.clearMisc (rp : Proc H M) (f : Flags) : Proc H M :=
  { rp with miscFlags := rp.miscFlags &&& ~~~f }

def Proc.accept (rp : Proc H M) (m : Message M) (source : ℤ) : Proc H M :=
  { rp with
    delivermsg := { m with mSource := source }
    miscFlags := rp.miscFlags ||| MF_DELIVERMSG }

def bound (H : Headers) : ℕ := H.nrTasks + H.nrProcs + 1

def KState.callers (s : KState H M) (d : Slot H) : Links (Slot H) :=
  ⟨(s.proc d).callerQ, fun i => (s.proc i).qLink⟩

-- *xpp = v for a pointer into the caller queue of d.
def KState.setCallers (s : KState H M) (d : Slot H) (xpp : Cell (Slot H))
    (v : Option (Slot H)) : KState H M :=
  match xpp with
  | .head => s.upd d fun x => { x with callerQ := v }
  | .link i => s.upd i fun x => { x with qLink := v }

def KState.ready (s : KState H M) (q : ℕ) : Links (Slot H) := ⟨s.rdyHead q, s.nextready⟩

def KState.setReady (s : KState H M) (q : ℕ) (xpp : Cell (Slot H)) (v : Option (Slot H)) :
    KState H M :=
  match xpp with
  | .head => { s with rdyHead := Function.update s.rdyHead q v }
  | .link i => { s with nextready := Function.update s.nextready i v }

section Lemmas
variable {s : KState H M} {i j : Slot H} {f g : Proc H M → Proc H M}

@[simp] theorem upd_proc_self : (s.upd i f).proc i = f (s.proc i) := Function.update_self ..

theorem upd_proc_of_ne (h : j ≠ i) : (s.upd i f).proc j = s.proc j := Function.update_of_ne h ..

@[simp] theorem upd_upd : (s.upd i f).upd i g = s.upd i (g ∘ f) := by
  simp [KState.upd]

@[simp] theorem upd_procPtr : (s.upd i f).procPtr = s.procPtr := rfl
@[simp] theorem upd_priv : (s.upd i f).priv = s.priv := rfl
@[simp] theorem upd_ready (q : ℕ) : (s.upd i f).ready q = s.ready q := rfl
@[simp] theorem upd_rdyTail : (s.upd i f).rdyTail = s.rdyTail := rfl
@[simp] theorem updPriv_proc (p : PrivId H) (h : Priv → Priv) :
    (s.updPriv p h).proc = s.proc := rfl
@[simp] theorem updPriv_procPtr (p : PrivId H) (h : Priv → Priv) :
    (s.updPriv p h).procPtr = s.procPtr := rfl
@[simp] theorem setReady_proc (q : ℕ) (xpp : Cell (Slot H)) (v : Option (Slot H)) :
    (s.setReady q xpp v).proc = s.proc := by cases xpp <;> rfl

theorem proc_upd_apply : (s.upd i f).proc j = if j = i then f (s.proc i) else s.proc j :=
  Function.update_apply ..

section SetRts
variable {flags : Flags}

@[simp] theorem setRts_rtsFlags : ((s.setRts i flags).proc i).rtsFlags = flags := by
  simp [KState.setRts, Proc.setRts]

theorem setRts_proc_of_ne (h : j ≠ i) : (s.setRts i flags).proc j = s.proc j := upd_proc_of_ne h

@[simp] theorem setRts_isRunnable :
    ((s.setRts i flags).proc i).isRunnable = rtsFIsRunnable flags := by
  simp [Proc.isRunnable]

@[simp] theorem setRts_priority : ((s.setRts i flags).proc j).priority = (s.proc j).priority := by
  by_cases h : j = i
  · subst h
    simp [KState.setRts, Proc.setRts]
  · rw [setRts_proc_of_ne h]

end SetRts

theorem bind_ok {ε α β : Type} {x : Except ε α} {f : α → Except ε β} {b : β} :
    (x >>= f) = .ok b ↔ ∃ a, x = .ok a ∧ f a = .ok b := by
  cases x <;> simp [bind, Except.bind]

theorem kassert_bind_ok {α : Type} {b : Bool} {x : Except Fault α} {a : α} :
    (kassert b >>= fun _ => x) = .ok a ↔ b = true ∧ x = .ok a := by
  cases b <;> simp [kassert, bind, Except.bind]

@[simp] theorem pure_ok {α : Type} {a b : α} :
    (pure a : Except Fault α) = .ok b ↔ a = b := by simp [pure, Except.pure]

theorem procAddr_procNr (i : Slot H) : procAddr H (procNr i) = .ok i := by
  have hi := i.isLt
  have hadd : procNr i + H.nrTasks = i.val := by simp [procNr]
  rw [procAddr, dif_pos (by omega)]
  simp [hadd]

theorem procAddr_ok {n : ℤ} (h : procAddr H n = .ok i) : procNr i = n := by
  rw [procAddr] at h
  split at h
  · rename_i hn
    obtain rfl := Except.ok.inj h
    simp only [procNr]
    omega
  · cases h

theorem isokendpt_some {e : ℤ} (h : isokendpt s e = some i) :
    procNr i = H.endpointP e ∧ (s.proc i).rtsFlags ≠ RTS_SLOT_FREE ∧ (s.proc i).endpoint = e := by
  rw [isokendpt] at h
  split at h
  · cases h
  · rename_i j hj
    split_ifs at h with hempty he
    obtain rfl := Option.some.inj h
    exact ⟨procAddr_ok hj, by simpa [Proc.isEmpty] using hempty, not_not.mp he⟩

theorem okendpt_ok {e : ℤ} : okendpt s e = .ok i ↔ isokendpt s e = some i := by
  rw [okendpt]
  cases isokendpt s e <;> simp

end Lemmas

end Accessors

def KState.sample (flags : Slot Headers.sample → Flags) : KState Headers.sample ℕ where
  proc i := {
    priv := ⟨min i.val 5, by simp [Headers.sample]⟩
    rtsFlags := flags i
    miscFlags := 0
    priority := 7
    cpuTimeLeft := 0
    quantumSizeMs := 200
    scheduler := none
    callerQ := none
    qLink := none
    getfromE := 0
    sendtoE := 0
    pending := 0
    endpoint := Headers.sample.endpoint 1 (procNr i)
    sendmsg := ⟨0, .user 0⟩
    delivermsg := ⟨0, .user 0⟩
    delivermsgVir := 0
    retreg := .OK
    ipcStatus := [] }
  nextready _ := none
  rdyHead _ := none
  rdyTail _ := none
  procPtr := 4
  billPtr := 4
  ptproc := 4
  priv i := {
    sProcNr := i.val - 4
    sFlags := SYS_PROC ||| PREEMPTIBLE
    sAsynsize := 0
    sTrapMask := BitVec.allOnes 16
    sIpcTo := fun _ => BitVec.allOnes 16
    sSigMgr := Headers.sample.none
    sBakSigMgr := Headers.sample.none
    sNotifyPending := fun _ => 0
    sIntPending := 0
    sSigPending := 0 }
  uptime := 0
  asyntab _ := []

end Kernel
