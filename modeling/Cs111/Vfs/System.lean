import Cs111.Vfs.Calls
import Cs111.Lib.Tally

namespace Vfs
open TransitionSystem

section Passing
variable (C : VfsConfig)

def passFilp (f : ℕ) (s : VfsState) : VfsState :=
  { setCount f ((s.filp f).filpCount + 1) s with
    inFlight := Function.update s.inFlight f (s.inFlight f + 1) }

def copyFilp (p f : ℕ) (s : VfsState) : VfsState :=
  match (List.range C.OPEN_MAX).find? fun i => (s.fproc p).fpFilp i = none with
  | none => s
  | some j => attach p j f s

def putFilp (f : ℕ) (woken : Woken) (s : VfsState) : Except Panic VfsState :=
  (closeFilp C f woken s).map fun s =>
    { s with inFlight := Function.update s.inFlight f (s.inFlight f - 1) }

def cancelFd (p fd : ℕ) (s : VfsState) : VfsState :=
  match (s.fproc p).fpFilp fd with
  | none => s
  | some f => setFd p fd none (setCount f ((s.filp f).filpCount - 1) s)

def selectAsynch (f major : ℕ) (s : VfsState) : VfsState :=
  match s.dmapSelFilp major with
  | some _ => s
  | none =>
    { setCount f ((s.filp f).filpCount + 1) s with
      dmapSelFilp := Function.update s.dmapSelFilp major (some f) }

def selectReply1 (major : ℕ) (woken closing : Woken) (s : VfsState) : Except Panic VfsState :=
  match s.dmapSelFilp major with
  | none => .ok s
  | some f =>
    let s := { s with dmapSelFilp := Function.update s.dmapSelFilp major none }
    (selectCallback woken s).bind fun s =>
      if (s.filp f).filpCount > 1 then .ok (setCount f ((s.filp f).filpCount - 1) s)
      else if (s.filp f).filpCount ≠ 1 then .error .badFilpCount
      else closeFilp C f closing s

end Passing

inductive Request where
  | read (p fd nbytes : ℕ) (woken : Woken)
  | write (p fd : ℕ) (buf : List Byte) (woken : Woken)
  | openFifo (p : ℕ) (lost : List Lookup) (v vSize : ℕ) (bits : FilpMode) (nonblock : Bool)
      (callnr : CallNr)
  | openOther (p : ℕ) (lost : List Lookup) (v vSize : ℕ) (kind : VKind) (bits : FilpMode)
      (nonblock waits : Bool) (callnr : CallNr) (result : Except Errno Opened)
  | openMissing (p : ℕ) (lost : List Lookup) (r : Errno)
  | pipe (p v : ℕ) (created : Except Errno Unit)
  | close (p fd : ℕ) (woken : Woken) (unlocks : Bool)
  | dup (p fd start : ℕ)
  | dup2 (p fd fd2 : ℕ) (woken : Woken) (unlocks : Bool)
  | setfl (p fd : ℕ) (nonblock : Bool)
  | lock (p fd : ℕ) (outcome : LockOutcome)
  | device (p fd : ℕ) (callnr : CallNr)
  | selectPipe (f pos : ℕ) (woken : Woken)
  | select (p nfds : ℕ)
  | selectWake (woken : Woken)
  | driverRevive (p : ℕ) (r : Except Errno ℕ)
  | signal (p : ℕ) (cancelled : Option Errno)
  | fork (p c : ℕ)
  | exit (p : ℕ) (a : ExitArgs)
  | getWork (p : ℕ) (woken : Woken) (outcome : LockOutcome)
  | passFilp (f : ℕ)
  | copyFilp (p f : ℕ)
  | putFilp (f : ℕ) (woken : Woken)
  | cancelFd (p fd : ℕ)
  | selectAsynch (f major : ℕ)
  | selectReply (major : ℕ) (woken closing : Woken)

section System
variable (C : VfsConfig)

def setfl (p fd : ℕ) (nonblock : Bool) (s : VfsState) : VfsState :=
  match (s.fproc p).fpFilp fd with
  | none => reply s p (.error .EBADF)
  | some f => reply (setFilp s f { s.filp f with nonblock := nonblock }) p (.ok 0)

def selectRequestPipe (f pos : ℕ) (woken : Woken) (s : VfsState) : Except Panic VfsState :=
  (pipeCheck C (s.filp f).filpVno .READING false 1 pos woken s).map (·.2)

def handle (s : VfsState) : Request → Except Panic VfsState
  | .read p fd nbytes woken => (readWrite C .READING p fd [] nbytes woken s).map (finish p)
  | .write p fd buf woken => (readWrite C .WRITING p fd buf buf.length woken s).map (finish p)
  | .openFifo p lost v vSize bits nonblock callnr =>
    openFifo C p lost v vSize bits nonblock callnr s
  | .openOther p lost v vSize kind bits nonblock waits callnr result =>
    openOther C p lost v vSize kind bits nonblock waits callnr result s
  | .openMissing p lost r => .ok (openMissing C p lost r s)
  | .pipe p v created => .ok (doPipe C p v created s)
  | .close p fd woken unlocks => doClose C p fd woken unlocks s
  | .dup p fd start => .ok (doDup C p fd start s)
  | .dup2 p fd fd2 woken unlocks => doDup2 C p fd fd2 woken unlocks s
  | .setfl p fd nonblock => .ok (setfl p fd nonblock s)
  | .lock p fd outcome => lockOp C p fd outcome s
  | .device p fd callnr => .ok (suspend p .OTHER fd callnr s)
  | .selectPipe f pos woken => selectRequestPipe C f pos woken s
  | .select p nfds =>
    .ok { suspend p .SELECT nfds .SELECT s with selecting := Function.update s.selecting p true }
  | .selectWake woken => selectCallback woken s
  | .driverRevive p r => revive p r s
  | .signal p cancelled => .ok (unpause p cancelled s)
  | .fork p c => .ok (pmFork C p c s)
  | .exit p a => freeProc C p a s
  | .getWork p woken outcome => getWork C p woken outcome s
  | .passFilp f => .ok (passFilp f s)
  | .copyFilp p f => .ok (copyFilp C p f s)
  | .putFilp f woken => putFilp C f woken s
  | .cancelFd p fd => .ok (cancelFd p fd s)
  | .selectAsynch f major => .ok (selectAsynch f major s)
  | .selectReply major woken closing => selectReply1 C major woken closing s

structure Caller (s : VfsState) (p : ℕ) : Prop where
  slot : p < C.NR_PROCS
  used : (s.fproc p).free = false
  runs : (s.fproc p).fpBlockedOn = .NONE

def Used (s : VfsState) (p : ℕ) : Prop := p < C.NR_PROCS ∧ (s.fproc p).free = false

def Found (s : VfsState) (v : ℕ) (kind : VKind) : Prop :=
  (s.vnode v).vRefCount = 0 ∨ (s.vnode v).kind = kind

def LookedUp : List Lookup → VfsState → Prop
  | [], _ => True
  | found :: lost, s => Found s found.v found.kind ∧
    LookedUp lost (eatPath found.v found.kind found.vSize s)

def Clones (s : VfsState) (v : ℕ) (kind : VKind) : Except Errno Opened → Prop
  | .ok (.cloned w) => kind = .CHAR_SPECIAL ∧ (s.vnode w).vRefCount = 0
  | .ok .overwritten => kind = .CHAR_SPECIAL ∧ (s.vnode v).vRefCount ≠ 0
  | _ => True

def OpenOn (s : VfsState) (p fd : ℕ) (kind : VKind → Prop) : Prop :=
  ∃ f, (s.fproc p).fpFilp fd = some f ∧ kind (s.vnode (s.filp f).filpVno).kind

def Sent (s : VfsState) : Request → Prop
  | .read p fd _ _ | .write p fd _ _ =>
    s.reviving = 0 ∧ Caller C s p ∧
      ∀ f, (s.fproc p).fpFilp fd = some f → (s.vnode (s.filp f).filpVno).kind = .NAMED_PIPE
  | .openFifo p lost v _ _ _ callnr =>
    s.reviving = 0 ∧ Caller C s p ∧ LookedUp lost s ∧ Found (strayed lost s) v .NAMED_PIPE ∧
      (callnr = .OPEN ∨ callnr = .CREAT)
  | .openOther p lost v _ kind _ _ _ callnr result =>
    s.reviving = 0 ∧ Caller C s p ∧ LookedUp lost s ∧ kind ≠ .NAMED_PIPE ∧
      Found (strayed lost s) v kind ∧ Clones (strayed lost s) v kind result ∧
      (callnr = .OPEN ∨ callnr = .CREAT)
  | .openMissing p lost _ => s.reviving = 0 ∧ Caller C s p ∧ LookedUp lost s
  | .pipe p v _ => s.reviving = 0 ∧ Caller C s p ∧ (s.vnode v).vRefCount = 0
  | .close p _ _ _ | .dup p _ _ | .dup2 p _ _ _ _ | .setfl p _ _ => s.reviving = 0 ∧ Caller C s p
  | .lock p fd _ => s.reviving = 0 ∧ Caller C s p ∧ OpenOn s p fd (· = .FILE)
  | .device p fd callnr => s.reviving = 0 ∧ Caller C s p ∧ OpenOn s p fd (· = .CHAR_SPECIAL) ∧
      (callnr = .READ ∨ callnr = .WRITE ∨ callnr = .IOCTL)
  -- a call of select() that goes on behind its check of a pipe
  | .selectPipe f _ _ => (s.filp f).filpCount ≠ 0 ∧ (s.vnode (s.filp f).filpVno).kind = .NAMED_PIPE
  | .select p _ => Caller C s p
  | .selectWake _ => s.reviving = 0
  | .driverRevive p _ =>
    s.reviving = 0 ∧ ((s.fproc p).fpBlockedOn = .OTHER ∨ (s.fproc p).fpBlockedOn = .DOPEN) ∧
      p < C.NR_PROCS
  -- a signal may come before a woken process has tried again
  | .signal p _ => Used C s p
  | .fork p c => s.reviving = 0 ∧ Caller C s p ∧ c < C.NR_PROCS ∧ (s.fproc c).free = true
  | .exit p _ => s.reviving = 0 ∧ Used C s p
  | .getWork p _ _ => s.reviving ≠ 0 ∧
      ((∃ q < C.NR_PROCS, (s.fproc q).reviving) → p < C.NR_PROCS ∧ (s.fproc p).reviving)
  | .passFilp f => s.reviving = 0 ∧ f < C.NR_FILPS ∧ (s.filp f).filpCount ≠ 0
  | .copyFilp p f => s.reviving = 0 ∧ Used C s p ∧ f < C.NR_FILPS ∧ (s.filp f).filpCount ≠ 0
  | .putFilp f _ => s.reviving = 0 ∧ s.inFlight f ≠ 0
  | .cancelFd p _ => s.reviving = 0 ∧ Used C s p
  | .selectAsynch f major =>
    s.reviving = 0 ∧ f < C.NR_FILPS ∧ (s.filp f).filpCount ≠ 0 ∧ major < C.NR_DEVICES
  | .selectReply _ _ _ => s.reviving = 0

structure Initial (s : VfsState) : Prop where
  filps : ∀ f, (s.filp f).filpCount = 0
  fds : ∀ p fd, (s.fproc p).fpFilp fd = none
  blocked : ∀ p, (s.fproc p).fpBlockedOn = .NONE
  revived : ∀ p, (s.fproc p).fpRevived = false
  partials : ∀ p, (s.fproc p).fpCumIoPartial = 0
  dirs : ∀ p, (s.fproc p).free = true → (s.fproc p).fpRd = none ∧ (s.fproc p).fpWd = none
  refs : ∀ v, (s.vnode v).vRefCount = Tally.tally C.NR_PROCS (·.fpRd = some v) s.fproc +
    Tally.tally C.NR_PROCS (·.fpWd = some v) s.fproc + s.mounts v
  pipes : ∀ v, (s.vnode v).kind ≠ .NAMED_PIPE
  selecting : ∀ p, s.selecting p = false
  sel : ∀ major, s.dmapSelFilp major = none
  inFlight : ∀ f, s.inFlight f = 0
  susp : s.suspCount = 0
  reviving : s.reviving = 0

def vfsSystem : TransitionSystem VfsState Request where
  initial := Initial C
  step s req s' := Sent C s req ∧ handle C s req = .ok s'

end System

end Vfs
