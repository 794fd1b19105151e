import Cs111.Kernel.Calls
import Cs111.Lib.Runs

namespace Kernel
open Minix FlagWord Chain TransitionSystem
variable {H : Headers} {M : Type}

section Exit
variable (s : KState H M) (rc : Slot H)

-- The first half of clear_ipc(). The link of rc itself is left as it is.
def unlinkSender : Except Fault (KState H M) :=
  if (s.proc rc).rtsIsset RTS_SENDING then do
    let target ← okendpt s (s.proc rc).sendtoE
    match seek (s.callers target) (· == rc) (bound H) .head with
    | none => .error .hang
    | some xpp =>
      let s := match (s.callers target).get xpp with
        | none => s
        | some xp => s.setCallers target xpp (s.proc xp).qLink
      pure (s.setRts rc ((s.proc rc).rtsFlags &&& ~~~RTS_SENDING))
  else .ok s

def clearIpc : Except Fault (KState H M) := do
  let s ← unlinkSender s rc
  pure (s.setRts rc ((s.proc rc).rtsFlags &&& ~~~RTS_RECEIVING))

def clearRef (callerRet : Errno) (s : KState H M) (rp : Slot H) : Except Fault (KState H M) :=
  if (s.proc rp).isEmpty then .ok s
  else
    let s := s.updPriv (s.proc rp).priv fun x =>
      { x with sNotifyPending := unsetSysBit x.sNotifyPending (s.proc rc).priv }
    if (s.proc rp).blockedOn = (s.proc rc).endpoint then
      rtsUnset (s.upd rp fun x => { x with retreg := callerRet }) rp (RTS_RECEIVING ||| RTS_SENDING)
    else .ok s

def clearIpcRefs (callerRet : Errno) : Except Fault (KState H M) :=
  (List.finRange (H.nrTasks + H.nrProcs)).foldlM (clearRef rc callerRet) s

def clearAsynsize : KState H M :=
  if (s.privOf rc).has SYS_PROC then s.updPriv (s.proc rc).priv fun x => { x with sAsynsize := 0 }
  else s

def clearEndpoint : Except Fault (KState H M) :=
  if (s.proc rc).isEmpty then .error .panic
  else do
    let s ← rtsSet s rc RTS_NO_ENDPOINT
    let s ← clearIpc (clearAsynsize s rc) rc
    clearIpcRefs s rc .EDEADSRCDST

def releasePriv : KState H M :=
  if (s.privOf rc).has SYS_PROC then s.updPriv (s.proc rc).priv fun x => { x with sProcNr := H.none }
  else s

def doClear (prEndpt : ℤ) : Except Fault (Errno × KState H M) :=
  match isokendpt s prEndpt with
  | none => .ok (.EINVAL, s)
  | some rc =>
    if (s.proc rc).isEmpty then .ok (.OK, s)
    else do
      let s ← clearEndpoint s rc
      let s ← rtsSetflags s rc RTS_SLOT_FREE
      pure (.OK, releasePriv (s.upd rc (·.clearMisc MF_FPU_INITIALIZED)) rc)

end Exit

section Fork
variable (s : KState H M)

structure ForkCall where
  prEndpt : ℤ
  prSlot : ℤ
  vmInhibit : Bool
  -- what newmap() returns
  newmap : Errno

def nextGeneration (H : Headers) (gen : ℤ) : ℤ :=
  if gen + 1 ≥ H.maxGeneration then 1 else gen + 1

def Proc.forked (rpp : Proc H M) (endpoint : ℤ) : Proc H M :=
  { rpp.clearMisc (MF_VIRT_TIMER ||| MF_PROF_TIMER ||| MF_SC_TRACE) with
    endpoint := endpoint
    retreg := .OK }

def copySlot (rpp rpc : Slot H) (endpoint : ℤ) : KState H M :=
  { s.upd rpc (fun _ => (s.proc rpp).forked endpoint) with
    nextready := Function.update s.nextready rpc (s.nextready rpp) }

def dropPrivileges (rpp rpc : Slot H) : KState H M :=
  if (s.privOf rpp).has SYS_PROC then
    s.upd rpc fun x => { x with priv := H.userPrivId, rtsFlags := x.rtsFlags ||| RTS_NO_PRIV }
  else s

def inhibit (rpc : Slot H) (vmInhibit : Bool) : Except Fault (KState H M) :=
  if vmInhibit then rtsSet s rpc RTS_VMINHIBIT else .ok s

def doFork (m : ForkCall) : Except Fault (Errno × KState H M) :=
  match isokendpt s m.prEndpt with
  | none => .ok (.EINVAL, s)
  | some rpp => do
    let rpc ← procAddr H m.prSlot
    if (s.proc rpp).isEmpty || !(s.proc rpc).isEmpty then pure (.EINVAL, s)
    else do
      kassert (!(s.proc rpp).miscIsset MF_DELIVERMSG)
      if !(s.proc rpp).rtsIsset RTS_RECEIVING then pure (.EINVAL, s)
      else do
        let gen := nextGeneration H (H.endpointG (s.proc rpc).endpoint)
        let s ← rtsSet (copySlot s rpp rpc (H.endpoint gen m.prSlot)) rpc RTS_NO_QUANTUM
        let s := dropPrivileges (s.upd rpc fun x => { x with cpuTimeLeft := 0 }) rpp rpc
        let s ← inhibit s rpc m.vmInhibit
        let s ← rtsUnset s rpc (RTS_SIGNALED ||| RTS_SIG_PENDING ||| RTS_P_STOP)
        pure (m.newmap, s.upd rpc fun x => { x with pending := 0 })

end Fork

section Update
variable (s : KState H M)

structure UpdateCall where
  srcE : ℤ
  dstE : ℤ

def Proc.isUpdatable (p : Proc H M) : Bool :=
  p.rtsIsset RTS_NO_PRIV || p.rtsIsset RTS_SIG_PENDING ||
    (p.rtsIsset RTS_RECEIVING && !p.rtsIsset RTS_SENDING)

def setSendtoBit (rp : Slot H) (id : PrivId H) : KState H M :=
  if (s.priv id).sProcNr = H.none ∨ (s.proc rp).priv = id then
    s.updPriv (s.proc rp).priv fun x => { x with sIpcTo := unsetSysBit x.sIpcTo id }
  else
    let s := s.updPriv (s.proc rp).priv fun x => { x with sIpcTo := setSysBit x.sIpcTo id }
    if (s.priv id).sTrapMask &&& ~~~ BitVec.twoPow 16 CallNr.RECEIVE.code ≠ 0 then
      s.updPriv id fun x => { x with sIpcTo := setSysBit x.sIpcTo (s.proc rp).priv }
    else s

def inheritBit (src dst : Slot H) (s : KState H M) (i : PrivId H) : KState H M :=
  if getSysBit (s.privOf src).sIpcTo i then setSendtoBit s dst i else s

def inheritMask (src dst : Slot H) : KState H M :=
  (List.finRange H.nrSysProcs).foldl (inheritBit src dst) s

-- adjust_proc_slot() and adjust_priv_slot(): what stays with the slot.
def Proc.adjust (rp fromRp : Proc H M) : Proc H M :=
  { rp with
    endpoint := fromRp.endpoint
    priv := fromRp.priv
    miscFlags := rp.miscFlags ||| (fromRp.miscFlags &&& MF_ASYNMSG)
    callerQ := fromRp.callerQ }

def Priv.adjust (privp fromPrivp : Priv) : Priv :=
  { privp with
    sNotifyPending := fromPrivp.sNotifyPending
    sIntPending := fromPrivp.sIntPending
    sSigPending := fromPrivp.sSigPending }

def swapValues {ι α : Type} [DecidableEq ι] (f : ι → α) (i j : ι) : ι → α :=
  Function.update (Function.update f i (f j)) j (f i)

def swapPointer {ι : Type} [DecidableEq ι] (p src dst : ι) : ι :=
  if p = src then dst else if p = dst then src else p

def swapProcs (src dst : Slot H) : KState H M :=
  let s₁ := { s with
    proc := swapValues s.proc src dst
    nextready := swapValues s.nextready src dst
    asyntab := swapValues s.asyntab src dst
    priv := swapValues s.priv (s.proc src).priv (s.proc dst).priv }
  let s₂ := (s₁.upd src (·.adjust (s.proc src))).upd dst (·.adjust (s.proc dst))
  (s₂.updPriv (s.proc src).priv fun x => { x with sProcNr := procNr src }).updPriv (s.proc dst).priv
    fun x => { x with sProcNr := procNr dst }

def swapSlots (src dst : Slot H) : KState H M :=
  let s₁ := swapProcs s src dst
  let s₂ := (s₁.updPriv (s.proc src).priv (·.adjust (s.privOf src))).updPriv (s.proc dst).priv
    (·.adjust (s.privOf dst))
  { s₂ with ptproc := swapPointer s.ptproc src dst }

def doUpdate (m : UpdateCall) : Errno × KState H M :=
  match isokendpt s m.srcE with
  | none => (.EINVAL, s)
  | some src =>
    if (s.privOf src).has SYS_PROC = false then (.EPERM, s)
    else
      match isokendpt s m.dstE with
      | none => (.EINVAL, s)
      | some dst =>
        if (s.privOf dst).has SYS_PROC = false then (.EPERM, s)
        else if !(s.proc src).isUpdatable || !(s.proc dst).isUpdatable then (.EBUSY, s)
        else (.OK, swapSlots (inheritMask s src dst) src dst)

end Update

end Kernel
