import Cs111.Vfs.Fproc
import Cs111.Lib.Runs
import Cs111.Lib.Tally

-- Advisory locks: the lock table, the calls that change it, and who waits for a lock.
namespace Vfs.Locks
open TransitionSystem Errno

-- off_t comes from a header; whether it is signed is a parameter, and sums wrap.
structure LockConfig where
  NR_LOCKS : ℕ
  NR_PROCS : ℕ
  OPEN_MAX : ℕ
  offSigned : Bool
  MAX_FILE_POS : BitVec 32

def LockConfig.off (C : LockConfig) (pos : BitVec 32) : ℤ :=
  if C.offSigned then pos.toInt else pos.toNat

inductive LockType where
  | F_RDLCK | F_WRLCK | F_UNLCK
  deriving DecidableEq, Repr

inductive LockRequest where
  | F_GETLK | F_SETLK | F_SETLKW
  deriving DecidableEq, Repr

inductive Whence where
  | SEEK_SET | SEEK_CUR | SEEK_END
  deriving DecidableEq, Repr

structure Flock where
  lType : Option LockType
  lWhence : Option Whence
  lStart : BitVec 32
  lLen : BitVec 32
  lPid : ℤ
  deriving DecidableEq

structure FileLock where
  lockType : Option LockType
  lockPid : ℤ
  lockVnode : ℕ
  lockFirst : BitVec 32
  lockLast : BitVec 32
  deriving DecidableEq

structure LockTable where
  fileLock : ℕ → FileLock
  nrLocks : ℤ

structure Region where
  vnode : ℕ
  ltype : LockType
  first : BitVec 32
  last : BitVec 32
  deriving DecidableEq

-- fp_buffer points to the caller's flock; sought is the region that lock_op() had computed from it
-- when it suspended the process, which the code does not keep.
structure Fproc where
  fpPid : ℤ
  fpFilp : ℕ → Option ℕ
  fpFilpInuse : ℕ → Bool
  fpBlockedOn : BlockedOn
  fpRevived : Bool
  fpBlockFd : ℤ
  fpNbytes : LockRequest
  sought : Region

structure Filp where
  filpMode : FilpMode
  filpCount : ℕ
  filpVno : ℕ
  filpPos : BitVec 64

structure Vnode where
  regular : Bool
  vSize : BitVec 32

structure LockVfs where
  fproc : ℕ → Fproc
  filp : ℕ → Filp
  vnode : ℕ → Vnode
  table : LockTable
  reviving : ℤ

inductive LockPanic where
  | positionTooHigh
  deriving DecidableEq

inductive LockReply where
  | OK
  | SUSPEND
  | error (e : Errno)
  | flock (answer : Flock)
  deriving DecidableEq

def PID_FREE : ℤ := 0

section Bounds
variable (C : LockConfig) (s : LockVfs)

def seekBase (f : Filp) : Whence → Except LockPanic (BitVec 32)
  | .SEEK_SET => .ok 0
  | .SEEK_CUR =>
    if f.filpPos >>> 32 ≠ 0 then .error .positionTooHigh else .ok (f.filpPos.setWidth 32)
  | .SEEK_END => .ok (s.vnode f.filpVno).vSize

def bounds (first : BitVec 32) (flock : Flock) : Except Errno (BitVec 32 × BitVec 32) :=
  let sum := first + flock.lStart
  if 0 < flock.lStart.toInt ∧ C.off sum < C.off first then .error EINVAL
  else if flock.lStart.toInt < 0 ∧ C.off first < C.off sum then .error EINVAL
  else
    let last := if flock.lLen = 0 then C.MAX_FILE_POS else sum + flock.lLen - 1
    if C.off last < C.off sum then .error EINVAL else .ok (sum, last)

def lockChecks (f : Filp) (req : LockRequest) (flock : Flock) : Except Errno LockType :=
  match flock.lType with
  | none => .error EINVAL
  | some ltype =>
    if req = .F_GETLK ∧ ltype = .F_UNLCK then .error EINVAL
    else if (s.vnode f.filpVno).regular = false then .error EINVAL
    else if req ≠ .F_GETLK ∧ ltype = .F_RDLCK ∧ f.filpMode.r = false then .error EBADF
    else if req ≠ .F_GETLK ∧ ltype = .F_WRLCK ∧ f.filpMode.w = false then .error EBADF
    else .ok ltype

def region (f : Filp) (req : LockRequest) (flock : Flock) :
    Except LockPanic (Except Errno Region) :=
  match lockChecks s f req flock with
  | .error e => .ok (.error e)
  | .ok ltype =>
    match flock.lWhence with
    | none => .ok (.error EINVAL)
    | some whence => (seekBase s f whence).map fun base =>
      (bounds C base flock).map fun bound => ⟨f.filpVno, ltype, bound.1, bound.2⟩

end Bounds

section Table
variable (C : LockConfig)

def FileLock.used (flp : FileLock) : Prop := flp.lockType ≠ none

instance : DecidablePred FileLock.used :=
  fun flp => inferInstanceAs (Decidable (flp.lockType ≠ none))

def LockTable.set (t : LockTable) (i : ℕ) (flp : FileLock) : LockTable :=
  { t with fileLock := Function.update t.fileLock i flp }

def passes (R : Region) (pid : ℤ) (flp : FileLock) : Prop :=
  flp.lockVnode ≠ R.vnode ∨ C.off R.last < C.off flp.lockFirst ∨
    C.off flp.lockLast < C.off R.first ∨
    R.ltype = .F_RDLCK ∧ flp.lockType = some .F_RDLCK ∨
    R.ltype ≠ .F_UNLCK ∧ flp.lockPid = pid

instance (R : Region) (pid : ℤ) : DecidablePred (passes C R pid) :=
  fun _ => inferInstanceAs (Decidable (_ ∨ _ ∨ _ ∨ _ ∧ _ ∨ _ ∧ _))

def unusedSlot (t : LockTable) : ℕ :=
  ((List.range C.NR_LOCKS).find? fun i => (t.fileLock i).lockType = none).getD C.NR_LOCKS

def splitLock (R : Region) (i : ℕ) (t : LockTable) : LockTable :=
  let flp := t.fileLock i
  { (t.set (unusedSlot C t) { flp with lockFirst := R.last + 1 }).set i
      { flp with lockLast := R.first - 1 } with nrLocks := t.nrLocks + 1 }

def clearRegion (R : Region) (i : ℕ) (t : LockTable) : Option LockTable :=
  let flp := t.fileLock i
  if C.off R.first ≤ C.off flp.lockFirst ∧ C.off flp.lockLast ≤ C.off R.last then
    some { t.set i { flp with lockType := none } with nrLocks := t.nrLocks - 1 }
  else if C.off R.first ≤ C.off flp.lockFirst then
    some (t.set i { flp with lockFirst := R.last + 1 })
  else if C.off flp.lockLast ≤ C.off R.last then
    some (t.set i { flp with lockLast := R.first - 1 })
  else if t.nrLocks = C.NR_LOCKS then none
  else some (splitLock C R i t)

inductive Scanned where
  | found (i : ℕ)
  | refused
  | waits
  | full
  | through (empty : Option ℕ) (unlocking : Bool)
  deriving DecidableEq

def lockScan (R : Region) (pid : ℤ) (req : LockRequest) :
    List ℕ → Option ℕ → Bool → LockTable → Scanned × LockTable
  | [], empty, unlocking, t => (.through empty unlocking, t)
  | i :: slots, empty, unlocking, t =>
    if (t.fileLock i).lockType = none then
      lockScan R pid req slots (empty <|> some i) unlocking t
    else if passes C R pid (t.fileLock i) then lockScan R pid req slots empty unlocking t
    else if req = .F_GETLK then (.found i, t)
    else if R.ltype ≠ .F_UNLCK then (if req = .F_SETLK then (.refused, t) else (.waits, t))
    else
      match clearRegion C R i t with
      | none => (.full, t)
      | some t => lockScan R pid req slots empty true t

end Table

section Calls
variable (C : LockConfig)

def setProc (p : ℕ) (rfp : Fproc) (s : LockVfs) : LockVfs :=
  { s with fproc := Function.update s.fproc p rfp }

def revive (p : ℕ) (s : LockVfs) : LockVfs :=
  if (s.fproc p).fpRevived then s
  else { setProc p { s.fproc p with fpRevived := true } s with reviving := s.reviving + 1 }

def reviveLocked (p : ℕ) (s : LockVfs) : LockVfs :=
  if (s.fproc p).fpPid = PID_FREE then s
  else if (s.fproc p).fpBlockedOn = .LOCK then revive p s
  else s

def lockRevive (s : LockVfs) : LockVfs :=
  (List.range C.NR_PROCS).foldl (fun s p => reviveLocked p s) s

def suspend (p : ℕ) (fd : ℤ) (req : LockRequest) (R : Region) (s : LockVfs) : LockVfs :=
  setProc p { s.fproc p with
    fpBlockedOn := .LOCK, fpBlockFd := fd, fpNbytes := req, sought := R } s

def storeLock (R : Region) (pid : ℤ) (empty : ℕ) (t : LockTable) : LockTable :=
  { t.set empty ⟨some R.ltype, pid, R.vnode, R.first, R.last⟩ with nrLocks := t.nrLocks + 1 }

def lockOp (p : ℕ) (fd : ℤ) (f : Filp) (req : LockRequest) (flock : Option Flock) (s : LockVfs) :
    Except LockPanic (LockReply × LockVfs) :=
  match flock with
  | none => .ok (.error EINVAL, s)
  | some flock =>
    (region C s f req flock).map fun region =>
      match region with
      | .error e => (.error e, s)
      | .ok R =>
        let pid := (s.fproc p).fpPid
        match lockScan C R pid req (List.range C.NR_LOCKS) none false s.table with
        | (.found i, t) =>
          let flp := t.fileLock i
          (.flock ⟨flp.lockType, some .SEEK_SET, flp.lockFirst, flp.lockLast - flp.lockFirst + 1,
            flp.lockPid⟩, { s with table := t })
        | (.refused, t) => (.error EAGAIN, { s with table := t })
        | (.waits, t) => (.SUSPEND, suspend p fd req R { s with table := t })
        | (.full, t) => (.error ENOLCK, { s with table := t })
        | (.through empty unlocking, t) =>
          let s := { s with table := t }
          let s := if unlocking then lockRevive C s else s
          if req = .F_GETLK then (.flock { flock with lType := some .F_UNLCK }, s)
          else if R.ltype = .F_UNLCK then (.OK, s)
          else
            match empty with
            | none => (.error ENOLCK, s)
            | some i => (.OK, { s with table := storeLock R pid i t })

def getFilp2 (rfp : Fproc) (fild : ℤ) : Except Errno ℕ :=
  if fild < 0 ∨ C.OPEN_MAX ≤ fild then .error EBADF
  else
    match rfp.fpFilp fild.toNat with
    | some f => .ok f
    | none => if rfp.fpFilpInuse fild.toNat then .error ( EIO) else .error EBADF

def doFcntl (p : ℕ) (fd : ℤ) (req : LockRequest) (flock : Option Flock) (s : LockVfs) :
    Except LockPanic (LockReply × LockVfs) :=
  match getFilp2 C (s.fproc p) fd with
  | .error e => .ok (.error e, s)
  | .ok f => lockOp C p fd (s.filp f) req flock s

def closeFilp (f : ℕ) (s : LockVfs) : LockVfs :=
  let filp := { s.filp f with filpCount := (s.filp f).filpCount - 1 }
  { s with filp := Function.update s.filp f filp }

def releaseLock (vp : ℕ) (pid : ℤ) (i : ℕ) (t : LockTable) : LockTable :=
  let flp := t.fileLock i
  if flp.lockType = none then t
  else if flp.lockVnode = vp ∧ flp.lockPid = pid then
    { t.set i { flp with lockType := none } with nrLocks := t.nrLocks - 1 }
  else t

def releaseLocks (vp : ℕ) (pid : ℤ) (t : LockTable) : LockTable :=
  (List.range C.NR_LOCKS).foldl (fun t i => releaseLock vp pid i t) t

def unlockClosed (vp : ℕ) (pid : ℤ) (s : LockVfs) : LockVfs :=
  if s.table.nrLocks = 0 then s
  else
    let t := releaseLocks C vp pid s.table
    if t.nrLocks < s.table.nrLocks then lockRevive C { s with table := t }
    else { s with table := t }

def closeFd (p : ℕ) (fdNr : ℤ) (s : LockVfs) : LockReply × LockVfs :=
  match getFilp2 C (s.fproc p) fdNr with
  | .error e => (.error e, s)
  | .ok f =>
    let vp := (s.filp f).filpVno
    let s := closeFilp f s
    let rfp := s.fproc p
    let s := setProc p { rfp with
      fpFilp := Function.update rfp.fpFilp fdNr.toNat none
      fpFilpInuse := Function.update rfp.fpFilpInuse fdNr.toNat false } s
    (.OK, unlockClosed C vp rfp.fpPid s)

def unpause (p : ℕ) (s : LockVfs) : LockVfs :=
  let rfp := s.fproc p
  if rfp.fpBlockedOn = .LOCK then
    { setProc p { rfp with fpBlockedOn := .NONE, fpRevived := false } s with
      reviving := if rfp.fpRevived then s.reviving - 1 else s.reviving }
  else s

def closeAll (p : ℕ) (s : LockVfs) : LockVfs :=
  (List.range C.OPEN_MAX).foldl (fun s fd => (closeFd C p fd s).2) s

def freeProc (p : ℕ) (s : LockVfs) : LockVfs :=
  let s := closeAll C p (unpause p s)
  setProc p { s.fproc p with fpPid := PID_FREE } s

def restart (p : ℕ) (flock : Option Flock) (s : LockVfs) :
    Except LockPanic (LockReply × LockVfs) :=
  let rfp := s.fproc p
  doFcntl C p rfp.fpBlockFd rfp.fpNbytes flock
    { setProc p { rfp with fpBlockedOn := .NONE, fpRevived := false } s with
      reviving := s.reviving - 1 }

end Calls

-- others stands for the calls that have no part in locking: open(), fork(), read() and so on.
inductive LockEvent where
  | fcntl (p : ℕ) (fd : ℤ) (req : LockRequest) (flock : Option Flock)
  | restart (p : ℕ) (flock : Option Flock)
  | close (p : ℕ) (fd : ℤ)
  | exit (p : ℕ)
  | signal (p : ℕ)
  | others (fproc : ℕ → Fproc) (filp : ℕ → Filp) (vnode : ℕ → Vnode) (reviving : ℤ)

section System
variable (C : LockConfig)

def handle (s : LockVfs) : LockEvent → Except LockPanic LockVfs
  | .fcntl p fd req flock => (doFcntl C p fd req flock s).map (·.2)
  | .restart p flock => (restart C p flock s).map (·.2)
  | .close p fd => .ok (closeFd C p fd s).2
  | .exit p => .ok (freeProc C p s)
  | .signal p => .ok (unpause p s)
  | .others fproc filp vnode reviving =>
    .ok { s with fproc := fproc, filp := filp, vnode := vnode, reviving := reviving }

structure Used (s : LockVfs) (p : ℕ) : Prop where
  slot : p < C.NR_PROCS
  used : (s.fproc p).fpPid ≠ PID_FREE

def Sent (s : LockVfs) : LockEvent → Prop
  | .fcntl p _ _ _ | .close p _ => Used C s p ∧ (s.fproc p).fpBlockedOn = .NONE
  | .restart p _ => Used C s p ∧ (s.fproc p).fpBlockedOn = .LOCK ∧ (s.fproc p).fpRevived = true
  | .exit p => Used C s p
  | .signal p => Used C s p ∧ (s.fproc p).fpBlockedOn = .LOCK
  -- who waits for a lock keeps waiting, whatever becomes of the descriptors, and nobody joins
  | .others fproc _ _ _ => ∀ p, (s.fproc p).fpBlockedOn = .LOCK ∨ (fproc p).fpBlockedOn = .LOCK →
      fproc p = { s.fproc p with
        fpFilp := (fproc p).fpFilp, fpFilpInuse := (fproc p).fpFilpInuse }

structure Initial (s : LockVfs) : Prop where
  locks : ∀ i < C.NR_LOCKS, (s.table.fileLock i).lockType = none
  count : s.table.nrLocks = 0
  waiting : ∀ p, (s.fproc p).fpBlockedOn ≠ .LOCK

def lockSystem : TransitionSystem LockVfs LockEvent where
  initial := Initial C
  step s e s' := Sent C s e ∧ handle C s e = .ok s'

end System

end Vfs.Locks
