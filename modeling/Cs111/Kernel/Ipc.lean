import Cs111.Kernel.Ready

namespace Kernel
open Minix FlagWord Chain
variable {H : Headers} {M : Type}

structure SendFlags where
  nonBlocking : Bool
  fromKernel : Bool
  deriving DecidableEq, Repr

section Deadlock
variable (s : KState H M) (function : CallNr) (cp : Slot H)

-- The body of while (src_dst_e != ANY); the group size is 0 when there is no deadlock.
def deadlockLoop : ℕ → ℕ → ℤ → Except Fault ℕ
  | 0, _, _ => .error .hang
  | fuel + 1, groupSize, srcDstE =>
    if srcDstE = H.any then .ok 0
    else do
      let xp ← okendpt s srcDstE
      kassert (!(s.proc xp).rtsIsset RTS_SLOT_FREE)
      -- processes[group_size] = xp, in an array of NR_PROCS + NR_TASKS
      if H.nrTasks + H.nrProcs ≤ groupSize then .error .outOfBounds
      else
        let groupSize := groupSize + 1
        let srcDstE := (s.proc xp).blockedOn
        if srcDstE = H.none then pure 0
        else if srcDstE = (s.proc cp).endpoint then
          -- the function number is converted to flags: SEND << 2 is RTS_SENDING
          if groupSize = 2 ∧
              ((s.proc xp).rtsFlags ^^^ BitVec.ofNat 16 (function.code <<< 2)) &&& RTS_SENDING ≠ 0
          then pure 0
          else pure groupSize
        else deadlockLoop fuel groupSize srcDstE

def deadlock (srcDstE : ℤ) : Except Fault ℕ := deadlockLoop s function cp (bound H) 1 srcDstE

end Deadlock

section Send
variable (s : KState H M) (caller : Slot H)

def Proc.receiveSent (x : Proc H M) (flags : SendFlags) (call : CallNr) (m : Message M)
    (source : ℤ) : Proc H M :=
  let x := if flags.fromKernel then x.ipcStatusAdd .msgFromKernel else x
  ((x.accept m source).ipcStatusAdd (.call call)).clearMisc MF_REPLY_PEND

def Proc.holdMessage (x : Proc H M) (flags : SendFlags) (m : Message M) : Proc H M :=
  let x := { x with sendmsg := m }
  if flags.fromKernel then x.setMisc MF_SENDING_FROM_KERNEL else x

def sendCall (flags : SendFlags) : CallNr :=
  if (s.proc caller).miscIsset MF_REPLY_PEND then .SENDREC
  else if flags.nonBlocking then .SENDNB else .SEND

def miniSend (dstE : ℤ) (m : Option (Message M)) (flags : SendFlags) :
    Except Fault (Errno × KState H M) := do
  let dst ← procAddr H (H.endpointP dstE)
  if (s.proc dst).rtsIsset RTS_NO_ENDPOINT then pure (.EDEADSRCDST, s)
  else if (s.proc dst).willReceive (s.proc caller).endpoint then do
    kassert (!(s.proc dst).miscIsset MF_DELIVERMSG)
    match m with
    | none => pure (.EFAULT, s)
    | some m =>
      let source := (s.proc caller).endpoint
      let call := sendCall s caller flags
      let s ← rtsUnset (s.upd dst (·.receiveSent flags call m source)) dst RTS_RECEIVING
      pure (.OK, s)
  else if flags.nonBlocking then pure (.ENOTREADY, s)
  else do
    let group ← deadlock s .SEND caller dstE
    if group ≠ 0 then pure (.ELOCKED, s)
    else
      match m with
      | none => pure (.EFAULT, s)
      | some m =>
        let s ← rtsSet (s.upd caller (·.holdMessage flags m)) caller RTS_SENDING
        let s := s.upd caller fun x => { x with sendtoE := dstE }
        kassert (s.proc caller).qLink.isNone
        match seek (s.callers dst) (fun _ => false) (bound H) .head with
        | none => .error .hang
        | some xpp => pure (.OK, s.setCallers dst xpp (some caller))

end Send

section Notify
variable (s : KState H M)

def notifyArg (src dst : Slot H) : NotifyArg :=
  if src = H.hardware then .interrupts (s.privOf dst).sIntPending
  else if src = H.system then .signals (s.privOf dst).sSigPending
  else .none

def clearNotifyArg (src dst : Slot H) : KState H M :=
  if src = H.hardware then s.updPriv (s.proc dst).priv fun x => { x with sIntPending := 0 }
  else if src = H.system then s.updPriv (s.proc dst).priv fun x => { x with sSigPending := 0 }
  else s

def notifyMessage (src dst : Slot H) : Message M :=
  ⟨(s.proc src).endpoint, .notifyFrom (procNr src) s.uptime (notifyArg s src dst)⟩

def acceptNotify (src dst : Slot H) : KState H M :=
  let m := notifyMessage s src dst
  (clearNotifyArg s src dst).upd dst fun x => (x.accept m m.mSource).ipcStatusAdd (.call .NOTIFY)

def miniNotify (caller : Slot H) (dstE : ℤ) : Except Fault (Errno × KState H M) :=
  match isokendpt s dstE with
  | none => pure (.EDEADSRCDST, s)
  | some dst =>
    if (s.proc dst).willReceive (s.proc caller).endpoint &&
        !(s.proc dst).miscIsset MF_REPLY_PEND then do
      kassert (!(s.proc dst).miscIsset MF_DELIVERMSG)
      let s ← rtsUnset (acceptNotify s caller dst) dst RTS_RECEIVING
      pure (.OK, s)
    else
      let srcId := (s.proc caller).priv
      pure (.OK, s.updPriv (s.proc dst).priv fun x =>
        { x with sNotifyPending := setSysBit x.sNotifyPending srcId })

end Notify

section Signals

def sendSig (s : KState H M) (ep : ℤ) (sigNr : ℕ) : Except Fault (KState H M) := do
  let rp ← okendpt s ep
  let s := s.updPriv (s.proc rp).priv fun x => { x with sSigPending := sigaddset x.sSigPending sigNr }
  let (_, s) ← miniNotify s H.system (s.proc rp).endpoint
  pure s

-- The first argument bounds how often a lethal signal is passed on to a backup manager; each
-- time the backup manager is taken away.
def causeSig : ℕ → KState H M → Slot H → ℕ → Except Fault (KState H M)
  | 0, _, _, _ => .error .hang
  | depth + 1, s, rp, sigNr =>
    let p := (s.proc rp).priv
    let sigMgr := if (s.priv p).sSigMgr = H.self then (s.proc rp).endpoint else (s.priv p).sSigMgr
    if (s.proc rp).endpoint = sigMgr then
      if H.sigsIsLethal sigNr then
        let sigMgr := (s.priv p).sBakSigMgr
        if sigMgr = H.none then .error .panic
        else
          match isokendpt s sigMgr with
          | none => .error .panic
          | some sigMgrRp => do
            let s := s.updPriv p fun x => { x with sSigMgr := sigMgr, sBakSigMgr := H.none }
            let s ← rtsUnset s sigMgrRp RTS_NO_PRIV
            causeSig depth s rp sigNr
      else
        let s := s.updPriv p fun x => { x with sSigPending := sigaddset x.sSigPending sigNr }
        sendSig s (s.proc rp).endpoint H.sigksigsm
    else if sigismember (s.proc rp).pending sigNr then pure s
    else do
      let s := s.upd rp fun x => { x with pending := sigaddset x.pending sigNr }
      if (s.proc rp).rtsIsset RTS_SIGNALED then pure s
      else do
        let s ← rtsSet s rp (RTS_SIGNALED ||| RTS_SIG_PENDING)
        sendSig s sigMgr H.sigksig

def sigDelayDone (s : KState H M) (rp : Slot H) : Except Fault (KState H M) :=
  causeSig 3 (s.upd rp (·.clearMisc MF_SIG_DELAY)) rp H.sigsndelay

end Signals

section Async
variable (s : KState H M) (src dst : Slot H)

structure TryOne (H : Headers) (M : Type) where
  result : Errno
  postponed : Bool
  s : KState H M

def badAsynFlags (flags : BitVec 32) : Bool :=
  flags &&& ~~~(AMF_VALID ||| AMF_DONE ||| AMF_NOTIFY ||| AMF_NOREPLY) != 0 ||
    flags &&& AMF_VALID == 0

def setAsynsize (size : ℕ) : KState H M :=
  s.updPriv (s.proc src).priv fun x => { x with sAsynsize := size }

-- The entries from i on; an entry outside the table is one that cannot be copied.
def tryOneLoop : ℕ → ℕ → Bool → Bool → TryOne H M
  | 0, _, done, postponed => ⟨.EAGAIN, postponed, if done then setAsynsize s src 0 else s⟩
  | left + 1, i, done, postponed =>
    match (s.asyntab src)[i]? with
    | none => ⟨.EFAULT, postponed, s⟩
    | some tabent =>
      let flags := tabent.flags
      if flags = 0 then tryOneLoop left (i + 1) done postponed
      else if badAsynFlags flags then ⟨.EINVAL, postponed, setAsynsize s src 0⟩
      else if flags &&& AMF_DONE ≠ 0 then tryOneLoop left (i + 1) done postponed
      else if tabent.dst ≠ (s.proc dst).endpoint then tryOneLoop left (i + 1) false postponed
      else if flags &&& AMF_NOREPLY ≠ 0 ∧ (s.proc dst).miscIsset MF_REPLY_PEND then
        tryOneLoop left (i + 1) false true
      else
        let s := s.upd dst fun x => x.accept ⟨0, .user tabent.msg⟩ (s.proc src).endpoint
        let table := (s.asyntab src).set i { tabent with result := .OK, flags := flags ||| AMF_DONE }
        ⟨.OK, postponed, { s with asyntab := Function.update s.asyntab src table }⟩

def tryOne : TryOne H M :=
  if (s.proc src).priv = H.userPrivId then ⟨.EAGAIN, false, s⟩
  else if (s.privOf src).sAsynsize = 0 then ⟨.EAGAIN, false, s⟩
  else if maySendTo s src dst = false then ⟨.EAGAIN, false, s⟩
  else tryOneLoop s src dst (s.privOf src).sAsynsize 0 true false

def tryAsyncLoop (caller : Slot H) :
    List (PrivId H) → Bool → KState H M → Except Fault (Bool × KState H M)
  | [], postponed, s =>
    pure (false, if postponed then s else s.upd caller (·.clearMisc MF_ASYNMSG))
  | id :: ids, postponed, s =>
    if (s.priv id).sProcNr = H.none then tryAsyncLoop caller ids postponed s
    else do
      let src ← procAddr H (s.priv id).sProcNr
      kassert (!(s.proc caller).miscIsset MF_DELIVERMSG)
      let r := tryOne s src caller
      if r.result = .OK then pure (true, r.s)
      else tryAsyncLoop caller ids (postponed || r.postponed) r.s

def tryAsync (caller : Slot H) : Except Fault (Bool × KState H M) :=
  tryAsyncLoop caller (List.finRange H.nrSysProcs) false s

end Async

section Receive
variable (s : KState H M) (caller : Slot H) (src : Option (Slot H))

def lowestBit (chunk : BitVec 16) : Option ℕ := (List.range bitchunkBits).find? chunk.getLsbD

-- Only the lowest bit of each chunk is looked at; an id out of range ends the scan.
def pendingLoop : List ℕ → Except Fault (Option (PrivId H × Slot H))
  | [] => pure none
  | chunk :: chunks =>
    match lowestBit ((s.privOf caller).sNotifyPending chunk) with
    | none => pendingLoop chunks
    | some i =>
      let srcId := chunk * bitchunkBits + i
      if h : srcId < H.nrSysProcs then
        let srcProcNr := (s.priv ⟨srcId, h⟩).sProcNr
        if src.isSome && src.map procNr != some srcProcNr then pendingLoop chunks
        else do
          let srcProc ← procAddr H srcProcNr
          pure (some (⟨srcId, h⟩, srcProc))
      else pure none

def pendingNotify : Except Fault (Option (PrivId H × Slot H)) :=
  pendingLoop s caller src (List.range (nrSysChunks H))

def receiveNotify : Except Fault (Option (KState H M)) := do
  if (s.proc caller).miscIsset MF_REPLY_PEND then pure none
  else
    match ← pendingNotify s caller src with
    | none => pure none
    | some (srcId, srcProc) =>
      let s := s.updPriv (s.proc caller).priv fun x =>
        { x with sNotifyPending := unsetSysBit x.sNotifyPending srcId }
      pure (some (acceptNotify s srcProc caller))

def receiveAsync : Except Fault (Bool × KState H M) :=
  if (s.proc caller).miscIsset MF_ASYNMSG then do
    let (found, s) ← match src with
      | some src =>
        let r := tryOne s src caller
        pure (decide (r.result = .OK), r.s)
      | none => tryAsync s caller
    pure (found, if found then s.upd caller (·.ipcStatusAdd (.call .SENDA)) else s)
  else pure (false, s)

def acceptable (sender : Slot H) : Bool := src.isNone || src == some sender

def passKernelFlag (sender : Slot H) : KState H M :=
  if (s.proc sender).miscIsset MF_SENDING_FROM_KERNEL then
    (s.upd caller (·.ipcStatusAdd .msgFromKernel)).upd sender (·.clearMisc MF_SENDING_FROM_KERNEL)
  else s

def sendDelayed (sender : Slot H) : Except Fault (KState H M) :=
  if (s.proc sender).miscIsset MF_SIG_DELAY then sigDelayDone s sender else .ok s

def receiveQueued : Except Fault (Option (KState H M)) :=
  match seek (s.callers caller) (acceptable src) (bound H) .head with
  | none => .error .hang
  | some xpp =>
    match (s.callers caller).get xpp with
    | none => pure none
    | some sender => do
      kassert (!(s.proc sender).rtsIsset RTS_SLOT_FREE)
      kassert (!(s.proc sender).rtsIsset RTS_NO_ENDPOINT)
      kassert (!(s.proc caller).miscIsset MF_DELIVERMSG)
      let s := s.upd caller fun x => x.accept (s.proc sender).sendmsg (s.proc sender).endpoint
      let s ← rtsUnset s sender RTS_SENDING
      let call := if (s.proc sender).miscIsset MF_REPLY_PEND then CallNr.SENDREC else .SEND
      let s := passKernelFlag (s.upd caller (·.ipcStatusAdd (.call call))) caller sender
      let s ← sendDelayed s sender
      let s := s.setCallers caller xpp (s.proc sender).qLink
      pure (some (s.upd sender fun x => { x with qLink := none }))

def receiveAvailable : Except Fault (Bool × KState H M) := do
  if (s.proc caller).rtsIsset RTS_SENDING then pure (false, s)
  else
    match ← receiveNotify s caller src with
    | some s => pure (true, s)
    | none =>
      let (found, s) ← receiveAsync s caller src
      if found then pure (true, s)
      else
        match ← receiveQueued s caller src with
        | some s => pure (true, s)
        | none => pure (false, s)

def receiveSource (srcE : ℤ) : Except Fault (Option (Slot H)) :=
  if srcE = H.any then pure none
  else do
    let src ← okendpt s srcE
    pure (some src)

def sourceGone : Bool := src.any fun src => (s.proc src).rtsIsset RTS_NO_ENDPOINT

def miniReceive (srcE : ℤ) (mBuffUsr : ℕ) (nonBlocking : Bool) :
    Except Fault (Errno × KState H M) := do
  kassert (!(s.proc caller).miscIsset MF_DELIVERMSG)
  let s := s.upd caller fun x => { x with delivermsgVir := mBuffUsr }
  let src ← receiveSource s srcE
  if sourceGone s src then pure (.EDEADSRCDST, s)
  else do
    let (found, s) ← receiveAvailable s caller src
    if found then pure (.OK, s.upd caller (·.clearMisc MF_REPLY_PEND))
    else if nonBlocking then pure (.ENOTREADY, s)
    else do
      let group ← deadlock s .RECEIVE caller srcE
      if group ≠ 0 then pure (.ELOCKED, s)
      else do
        let s := s.upd caller fun x => { x with getfromE := srcE }
        let s ← rtsSet s caller RTS_RECEIVING
        pure (.OK, s)

end Receive

section Calls
variable (s : KState H M)

structure IpcCall (M : Type) where
  callNr : CallNr
  srcDstE : ℤ
  -- what stands in the caller's buffer, the source field and the rest, if it can be copied
  m : Option (ℤ × M)
  mPtr : ℕ

def IpcCall.message (c : IpcCall M) : Option (Message M) := c.m.map fun x => ⟨x.1, .user x.2⟩

def iskernelp (i : Slot H) : Bool := procNr i < 0

def refuseIpc (caller : Slot H) (c : IpcCall M) : Option Errno :=
  if c.srcDstE = H.any then
    if c.callNr ≠ .RECEIVE then some .EINVAL
    else if (s.privOf caller).sTrapMask.getLsbD c.callNr.code = false then some .ETRAPDENIED
    else none
  else
    match isokendpt s c.srcDstE with
    | none => some .EDEADSRCDST
    | some srcDst =>
      if c.callNr ≠ .RECEIVE ∧ maySendTo s caller srcDst = false then some .ECALLDENIED
      else if (s.privOf caller).sTrapMask.getLsbD c.callNr.code = false then some .ETRAPDENIED
      else if c.callNr ≠ .SENDREC ∧ c.callNr ≠ .RECEIVE ∧ iskernelp srcDst then some .ETRAPDENIED
      else none

def doSyncIpc (caller : Slot H) (c : IpcCall M) : Except Fault (Errno × KState H M) := do
  kassert (c.callNr != .SENDA)
  match refuseIpc s caller c with
  | some e => pure (e, s)
  | none =>
    match c.callNr with
    | .SENDREC =>
      let s := s.upd caller (·.setMisc MF_REPLY_PEND)
      let (result, s) ← miniSend s caller c.srcDstE c.message ⟨false, false⟩
      if result ≠ .OK then pure (result, s)
      else miniReceive s caller c.srcDstE c.mPtr false
    | .SEND => miniSend s caller c.srcDstE c.message ⟨false, false⟩
    | .RECEIVE =>
      let s := s.upd caller fun x => { x.clearMisc MF_REPLY_PEND with ipcStatus := [] }
      miniReceive s caller c.srcDstE c.mPtr false
    | .NOTIFY => miniNotify s caller c.srcDstE
    | .SENDNB => miniSend s caller c.srcDstE c.message ⟨true, false⟩
    | .SENDA => pure (.EBADCALL, s)

def delivermsg (rp : Slot H) : Except Fault (Message M × KState H M) := do
  kassert ((s.proc rp).miscIsset MF_DELIVERMSG)
  kassert ((s.proc rp).delivermsg.mSource != H.none)
  pure ((s.proc rp).delivermsg, s.upd rp fun x =>
    { x.clearMisc MF_DELIVERMSG with
      delivermsg := { x.delivermsg with mSource := H.none }
      retreg := if x.miscIsset MF_CONTEXT_SET then x.retreg else .OK })

end Calls

section Outcomes
variable {s s' : KState H M} {caller rp : Slot H}

inductive Caused (rp : Slot H) : KState H M → KState H M → Prop
  | known {s : KState H M} : Caused rp s s
  | passed {s : KState H M} {mgr sigMgr t s'} : rtsUnset (s.updPriv (s.proc rp).priv fun x =>
      { x with sSigMgr := sigMgr, sBakSigMgr := H.none }) mgr RTS_NO_PRIV = .ok t →
      Caused rp t s' → Caused rp s s'
  | own {s : KState H M} {sigNr ep n s'} : sendSig (s.updPriv (s.proc rp).priv fun x =>
      { x with sSigPending := sigaddset x.sSigPending sigNr }) ep n = .ok s' → Caused rp s s'
  | noted {s : KState H M} {sigNr} :
      Caused rp s (s.upd rp fun x => { x with pending := sigaddset x.pending sigNr })
  | raised {s : KState H M} {sigNr t ep n s'} :
      rtsSet (s.upd rp fun x => { x with pending := sigaddset x.pending sigNr }) rp
        (RTS_SIGNALED ||| RTS_SIG_PENDING) = .ok t →
      sendSig t ep n = .ok s' → Caused rp s s'

theorem causeSig_caused {depth sigNr : ℕ} (h : causeSig depth s rp sigNr = .ok s') :
    Caused rp s s' := by
  induction depth generalizing s with
  | zero =>
    rw [causeSig] at h
    cases h
  | succ depth ih =>
    rw [causeSig] at h
    dsimp only at h
    generalize (if (s.priv (s.proc rp).priv).sSigMgr = H.self then (s.proc rp).endpoint
      else (s.priv (s.proc rp).priv).sSigMgr) = sigMgr at h
    split at h
    · split at h
      · split at h
        · cases h
        · split at h
          · cases h
          · obtain ⟨t, ht, h⟩ := bind_ok.mp h
            exact .passed ht (ih h)
      · exact .own h
    · split at h
      · obtain rfl := pure_ok.mp h
        exact .known
      · split at h
        · obtain rfl := pure_ok.mp h
          exact .noted
        · obtain ⟨t, ht, h⟩ := bind_ok.mp h
          exact .raised ht h

inductive Sent (s : KState H M) (caller : Slot H) (dstE : ℤ) (m : Option (Message M))
    (flags : SendFlags) : Errno → KState H M → Prop
  | refused {e} : e ≠ .OK → Sent s caller dstE m flags e s
  | delivered {dst msg s'} : procAddr H (H.endpointP dstE) = .ok dst →
      (s.proc dst).rtsIsset RTS_NO_ENDPOINT = false →
      (s.proc dst).willReceive (s.proc caller).endpoint = true →
      (s.proc dst).miscIsset MF_DELIVERMSG = false → m = some msg →
      rtsUnset (s.upd dst
        (·.receiveSent flags (sendCall s caller flags) msg (s.proc caller).endpoint)) dst
        RTS_RECEIVING = .ok s' →
      Sent s caller dstE m flags .OK s'
  | blocked {dst msg t xpp} : procAddr H (H.endpointP dstE) = .ok dst →
      (s.proc dst).rtsIsset RTS_NO_ENDPOINT = false →
      (s.proc dst).willReceive (s.proc caller).endpoint = false → flags.nonBlocking = false →
      deadlock s .SEND caller dstE = .ok 0 → m = some msg →
      rtsSet (s.upd caller (·.holdMessage flags msg)) caller RTS_SENDING = .ok t →
      (t.proc caller).qLink = none →
      seek ((t.upd caller fun x => { x with sendtoE := dstE }).callers dst) (fun _ => false)
        (bound H) .head = some xpp →
      Sent s caller dstE m flags .OK
        ((t.upd caller fun x => { x with sendtoE := dstE }).setCallers dst xpp (some caller))

theorem miniSend_outcome {dstE : ℤ} {m : Option (Message M)} {flags : SendFlags} {r : Errno}
    (h : miniSend s caller dstE m flags = .ok (r, s')) : Sent s caller dstE m flags r s' := by
  simp only [miniSend, bind_ok] at h
  obtain ⟨dst, hdst, h⟩ := h
  split at h
  · cases h
    exact .refused nofun
  · rename_i halive
    rw [Bool.not_eq_true] at halive
    split at h
    · rename_i hready
      obtain ⟨hbox, h⟩ := kassert_bind_ok.mp h
      split at h
      · cases h
        exact .refused nofun
      · obtain ⟨t, ht, h⟩ := bind_ok.mp h
        cases h
        exact .delivered hdst halive hready (by simpa using hbox) rfl ht
    · rename_i hbusy
      rw [Bool.not_eq_true] at hbusy
      split at h
      · cases h
        exact .refused nofun
      · rename_i hblocking
        obtain ⟨group, hgroup, h⟩ := bind_ok.mp h
        split at h
        · cases h
          exact .refused nofun
        · rename_i hfree
          rw [not_not] at hfree
          subst hfree
          split at h
          · cases h
            exact .refused nofun
          · obtain ⟨t, ht, h⟩ := bind_ok.mp h
            obtain ⟨hlink, h⟩ := kassert_bind_ok.mp h
            rw [upd_proc_self, Option.isNone_iff_eq_none] at hlink
            split at h
            · cases h
            · rename_i xpp hseek
              cases h
              exact .blocked hdst halive hbusy (by simpa using hblocking) hgroup rfl ht hlink hseek

end Outcomes

end Kernel
