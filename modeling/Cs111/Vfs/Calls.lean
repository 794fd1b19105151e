import Cs111.Vfs.Pipe
import Cs111.Lib.Runs

namespace Vfs
open Errno

abbrev Woken := List (ℕ × Except Errno ℕ)

section Signals

-- The answer of unpause(); none when the call goes on. cancelled is the driver's answer to CANCEL.
def interrupts (why : BlockedOn) (cancelled : Option Errno) : Option Errno :=
  match why with
  | .DOPEN => none
  | .OTHER => cancelled
  | _ => some .EINTR

def unpause (p : ℕ) (cancelled : Option Errno) (s : VfsState) : VfsState :=
  let rfp := s.fproc p
  if rfp.free ∨ rfp.fpBlockedOn = .NONE then s
  else
    let s :=
      if rfp.fpRevived then
        setProc { s with reviving := s.reviving - 1 } p { rfp with fpRevived := false }
      else s
    match interrupts rfp.fpBlockedOn cancelled with
    | none => s
    | some status =>
      let s :=
        if rfp.fpBlockedOn = .SELECT then
          { s with selecting := Function.update s.selecting p false }
        else s
      let s := unblock p s
      let s :=
        if (rfp.fpBlockedOn = .PIPE ∨ rfp.fpBlockedOn = .POPEN) ∧ ¬ rfp.fpRevived then
          { s with suspCount := s.suspCount - 1 }
        else s
      reply s p (.error status)

end Signals

section Files
variable (C : VfsConfig)

def lockRevive (s : VfsState) : Except Panic VfsState :=
  (List.range C.NR_PROCS).foldlM (fun s p =>
    if ¬ (s.fproc p).free ∧ (s.fproc p).fpBlockedOn = .LOCK then revive p (.ok 0) s else .ok s) s

def closeFilp (f : ℕ) (woken : Woken) (s : VfsState) : Except Panic VfsState :=
  let v := (s.filp f).filpVno
  let callnr := if (s.filp f).filpMode.r then .WRITE else .READ
  (if (s.vnode v).kind = .NAMED_PIPE then release C v callnr C.NR_PROCS woken s else .ok s).bind
    fun s =>
      let s := setCount f ((s.filp f).filpCount - 1) s
      if (s.filp f).filpCount = 0 then putVnode s v else .ok s

def closeFd (p fd : ℕ) (woken : Woken) (unlocks : Bool) (s : VfsState) : Except Panic VfsState :=
  match (s.fproc p).fpFilp fd with
  | none => .ok s
  | some f =>
    (closeFilp C f woken s).bind fun s =>
      let s := setFd p fd none s
      if unlocks then lockRevive C s else .ok s

def doClose (p fd : ℕ) (woken : Woken) (unlocks : Bool) (s : VfsState) : Except Panic VfsState :=
  (closeFd C p fd woken unlocks s).map fun s' =>
    reply s' p (if (s.fproc p).fpFilp fd = none then .error .EBADF else .ok 0)

def attach (p fd f : ℕ) (s : VfsState) : VfsState :=
  setFd p fd (some f) (setCount f ((s.filp f).filpCount + 1) s)

def doDup (p fd start : ℕ) (s : VfsState) : VfsState :=
  match (s.fproc p).fpFilp fd with
  | none => reply s p (.error .EBADF)
  | some f =>
    match getFd C s (s.fproc p) start with
    | .error r => reply s p (.error r)
    | .ok (newFd, _) => reply (attach p newFd f s) p (.ok newFd)

def doDup2 (p fd fd2 : ℕ) (woken : Woken) (unlocks : Bool) (s : VfsState) : Except Panic VfsState :=
  match (s.fproc p).fpFilp fd with
  | none => .ok (reply s p (.error .EBADF))
  | some f =>
    if fd2 ≥ C.OPEN_MAX then .ok (reply s p (.error .EBADF))
    else if fd = fd2 then .ok (reply s p (.ok fd2))
    else (closeFd C p fd2 woken unlocks s).map fun s => reply (attach p fd2 f s) p (.ok fd2)

def claim (p fd f v : ℕ) (mode : FilpMode) (nonblock : Bool) (s : VfsState) : VfsState :=
  setFd p fd (some f) (setFilp s f ⟨mode, nonblock, 1, v⟩)

def unclaim (p fd f v : ℕ) (s : VfsState) : Except Panic VfsState :=
  putVnode (setCount f 0 (setFd p fd none s)) v

def eatPath (v : ℕ) (kind : VKind) (vSize : ℕ) (s : VfsState) : VfsState :=
  if (s.vnode v).vRefCount = 0 then
    setVnode s v { s.vnode v with kind := kind, vSize := vSize, vRefCount := 1 }
  else dupVnode s v

-- What a pass of new_node() has found.
structure Lookup where
  v : ℕ
  kind : VKind
  vSize : ℕ

-- Where a symbolic link has left an absolute path in user_fullpath, new_node() begins anew, and the
-- directory and the vnode that advance() has found are not put.
def strayed (lost : List Lookup) (s : VfsState) : VfsState :=
  lost.foldl (fun s found => eatPath found.v found.kind found.vSize s) s

def pipeOpen (p fd v : ℕ) (bits : FilpMode) (nonblock : Bool) (callnr : CallNr) (s : VfsState) :
    Except Panic (Option (Except Errno Unit) × VfsState) :=
  if bits.r ∧ bits.w then .ok (some (.error ENXIO), s)
  else if findFilp C s v (if bits.w then R_BIT else W_BIT) = none then
    if nonblock then .ok (some (if bits.w then .error ENXIO else .ok ()), s)
    else .ok (none, suspend p .POPEN fd callnr s)
  else if s.suspCount > 0 then
    ((release C v .OPEN s.suspCount [] s).bind fun s => release C v .CREAT s.suspCount [] s).map
      (some (.ok ()), ·)
  else .ok (some (.ok ()), s)

def shareFilp (p fd f v : ℕ) (bits : FilpMode) (nonblock : Bool) (s : VfsState) : Except Panic VfsState :=
  let s := setCount f 0 s
  match findFilp C s v (if bits.r then R_BIT else W_BIT) with
  | none => .ok (setCount f 1 s)
  | some f2 =>
    let s := setFilp s f2 { s.filp f2 with filpCount := (s.filp f2).filpCount + 1, nonblock := nonblock }
    putVnode (setFd p fd (some f2) s) v

def openClaimed (p fd f v : ℕ) (bits : FilpMode) (nonblock : Bool) (callnr : CallNr) (s : VfsState) :
    Except Panic VfsState :=
  let vp := s.vnode v
  let s := if vp.vRefCount = 1 then
      setVnode s v { vp with vPipeRdPos := 0, vPipeWrPos := 0, vSize := 0 } else s
  (pipeOpen C p fd v bits nonblock callnr s).bind fun (r, s) =>
    (if r = some (.error ENXIO) then .ok s else shareFilp C p fd f v bits nonblock s).bind fun s =>
      match r with
      | none => .ok s
      | some (.ok ()) => .ok (reply s p (.ok fd))
      | some (.error e) => (unclaim p fd f v s).map (reply · p (.error e))

def openFifo (p : ℕ) (lost : List Lookup) (v vSize : ℕ) (bits : FilpMode) (nonblock : Bool)
    (callnr : CallNr) (s : VfsState) : Except Panic VfsState :=
  match getFd C s (s.fproc p) 0 with
  | .error r => .ok (reply s p (.error r))
  | .ok (fd, f) =>
    openClaimed C p fd f v bits nonblock callnr
      (claim p fd f v bits nonblock (eatPath v .NAMED_PIPE vSize (strayed lost s)))

def openMissing (p : ℕ) (lost : List Lookup) (r : Errno) (s : VfsState) : VfsState :=
  match getFd C s (s.fproc p) 0 with
  | .error r => reply s p (.error r)
  | .ok _ => reply (strayed lost s) p (.error r)

-- clone_opcl() has a free vnode take the place of the opened one, or that one again where the table
-- is full.
inductive Opened where
  | same | cloned (w : ℕ) | overwritten
  deriving DecidableEq

def cloneOpcl (f v w : ℕ) (s : VfsState) : Except Panic VfsState :=
  (putVnode s v).map fun s =>
    let s := setVnode s w { s.vnode w with kind := .CHAR_SPECIAL, vRefCount := 1 }
    setFilp s f { s.filp f with filpVno := w }

def openOther (p : ℕ) (lost : List Lookup) (v vSize : ℕ) (kind : VKind) (bits : FilpMode)
    (nonblock waits : Bool) (callnr : CallNr) (result : Except Errno Opened) (s : VfsState) :
    Except Panic VfsState :=
  match getFd C s (s.fproc p) 0 with
  | .error r => .ok (reply s p (.error r))
  | .ok (fd, f) =>
    let s := claim p fd f v bits nonblock (eatPath v kind vSize (strayed lost s))
    if kind = .CHAR_SPECIAL ∧ waits then .ok (suspend p .DOPEN fd callnr s)
    else
      match result with
      | .ok .same => .ok (reply s p (.ok fd))
      | .ok (.cloned w) => (cloneOpcl f v w s).map (reply · p (.ok fd))
      | .ok .overwritten => (cloneOpcl f v v s).map (reply · p (.ok fd))
      | .error r => (unclaim p fd f v s).map (reply · p (.error r))

def doPipe (p v : ℕ) (created : Except Errno Unit) (s : VfsState) : VfsState :=
  match getFd C s (s.fproc p) 0 with
  | .error r => reply s p (.error r)
  | .ok (fd₀, f₀) =>
    let s₁ := setFd p fd₀ (some f₀) (setFilp s f₀ ⟨R_BIT, false, 1, v⟩)
    match getFd C s₁ (s₁.fproc p) 0 with
    | .error r => reply s p (.error r)
    | .ok (fd₁, f₁) =>
      match created with
      | .error r => reply s p (.error r)
      | .ok () =>
        let s₂ := setFd p fd₁ (some f₁) (setFilp s₁ f₁ ⟨W_BIT, false, 1, v⟩)
        reply (setVnode s₂ v { s₂.vnode v with
          kind := .NAMED_PIPE, vPipeRdPos := 0, vPipeWrPos := 0, vSize := 0, vRefCount := 2 }) p (.ok 0)

end Files

section Processes
variable (C : VfsConfig)

def countFds (p : ℕ) : List ℕ → VfsState → VfsState
  | [], s => s
  | fd :: fds, s =>
    match (s.fproc p).fpFilp fd with
    | none => countFds p fds s
    | some f => countFds p fds (setCount f ((s.filp f).filpCount + 1) s)

def dupDir (dir : Option ℕ) (s : VfsState) : VfsState :=
  match dir with
  | none => s
  | some v => dupVnode s v

def putDir (dir : Option ℕ) (s : VfsState) : Except Panic VfsState :=
  match dir with
  | none => .ok s
  | some v => putVnode s v

def pmFork (p c : ℕ) (s : VfsState) : VfsState :=
  let s := setProc s c (s.fproc p)
  let s := countFds c (List.range C.OPEN_MAX) s
  dupDir (s.fproc c).fpWd (dupDir (s.fproc c).fpRd s)

-- How the closing of the descriptors and the end of a driver go on with other processes.
structure ExitArgs where
  cancelled : Option Errno
  woken : ℕ → Woken
  unlocks : ℕ → Bool
  orphans : List ℕ
  selects : Woken

def closeAll (p : ℕ) (a : ExitArgs) : List ℕ → VfsState → Except Panic VfsState
  | [], s => .ok s
  | fd :: fds, s => (closeFd C p fd (a.woken fd) (a.unlocks fd) s).bind (closeAll p a fds)

def unsuspend (orphans : List ℕ) (s : VfsState) : Except Panic VfsState :=
  orphans.foldlM (fun s q =>
    if (s.fproc q).fpBlockedOn = .OTHER then revive q (.error .EAGAIN) s else .ok s) s

def freeProc (p : ℕ) (a : ExitArgs) (s : VfsState) : Except Panic VfsState :=
  (closeAll C p a (List.range C.OPEN_MAX) (unpause p a.cancelled s)).bind fun s =>
    (unsuspend a.orphans s).bind fun s =>
      (selectCallback a.selects s).bind fun s =>
        (putDir (s.fproc p).fpRd s).bind fun s =>
          (putDir (s.fproc p).fpWd s).map fun s =>
            setProc s p { s.fproc p with fpRd := none, fpWd := none, free := true }

end Processes

section Work
variable (C : VfsConfig)

def finish (p : ℕ) (m : Moved × VfsState) : VfsState :=
  match m.1.result with
  | none => m.2
  | some r => reply m.2 p r

def readWrite (rw : RwFlag) (p fd : ℕ) (buf : List Byte) (nbytes : ℕ) (woken : Woken) (s : VfsState) :
    Except Panic (Moved × VfsState) :=
  match (s.fproc p).fpFilp fd with
  | none => .ok (⟨some (.error .EBADF), []⟩, s)
  | some f =>
    if ¬ (s.filp f).filpMode.has (if rw = .READING then R_BIT else W_BIT) then
      .ok (⟨some (.error .EBADF), []⟩, s)
    else if nbytes = 0 then .ok (⟨some (.ok 0), []⟩, s)
    else if (s.fproc p).fpCumIoPartial ≠ 0 then .error .partialNotClear
    else rwPipe C rw p fd f buf nbytes woken s

inductive LockOutcome where
  | waits
  | done (r : Except Errno ℕ) (unlocks : Bool)

def lockOp (p fd : ℕ) (outcome : LockOutcome) (s : VfsState) : Except Panic VfsState :=
  match outcome with
  | .waits => .ok (suspend p .LOCK fd .FCNTL s)
  | .done r unlocks => (if unlocks then lockRevive C s else .ok s).map (reply · p r)

def Fproc.reviving (rp : Fproc) : Prop := rp.free = false ∧ rp.fpRevived = true

instance (rp : Fproc) : Decidable rp.reviving := inferInstanceAs (Decidable (_ ∧ _))

def wake (p : ℕ) (s : VfsState) : VfsState :=
  setProc { s with reviving := s.reviving - 1 } p
    { s.fproc p with fpBlockedOn := .NONE, fpRevived := false }

def retryPipe (p : ℕ) (woken : Woken) (s : VfsState) : Except Panic (Moved × VfsState) :=
  let rp := s.fproc p
  match rp.fpFilp rp.fpBlockFd with
  | none => .error .filpMissing
  | some f =>
    rwPipe C (if rp.fpBlockCallnr = .READ then .READING else .WRITING) p rp.fpBlockFd f rp.fpBuffer
      rp.fpNbytes woken (wake p s)

def getWork (p : ℕ) (woken : Woken) (outcome : LockOutcome) (s : VfsState) : Except Panic VfsState :=
  if ∃ q < C.NR_PROCS, (s.fproc q).reviving then
    if (s.fproc p).fpBlockedOn = .PIPE then (retryPipe C p woken s).map (finish p)
    else lockOp C p (s.fproc p).fpBlockFd outcome (wake p s)
  else .error .nobodyToRevive

end Work

section Revived
variable {C : VfsConfig} {s s' : VfsState} {p : ℕ} {woken : Woken}

theorem retryPipe_ok {r : Moved × VfsState} (h : retryPipe C p woken s = .ok r) :
    ∃ f, (s.fproc p).fpFilp (s.fproc p).fpBlockFd = some f ∧
      rwPipe C (if (s.fproc p).fpBlockCallnr = .READ then .READING else .WRITING) p
        (s.fproc p).fpBlockFd f (s.fproc p).fpBuffer (s.fproc p).fpNbytes woken (wake p s) =
        .ok r := by
  unfold retryPipe at h
  dsimp only at h
  split at h
  · cases h
  · next f hf => exact ⟨f, hf, h⟩

theorem getWork_ok {outcome : LockOutcome} (h : getWork C p woken outcome s = .ok s') :
    (∃ q < C.NR_PROCS, (s.fproc q).reviving) ∧
      (((s.fproc p).fpBlockedOn = .PIPE ∧ ∃ m s₁, retryPipe C p woken s = .ok (m, s₁) ∧
        s' = finish p (m, s₁)) ∨
      ((s.fproc p).fpBlockedOn ≠ .PIPE ∧
        lockOp C p (s.fproc p).fpBlockFd outcome (wake p s) = .ok s')) := by
  unfold getWork at h
  split at h
  · next hsome =>
    refine ⟨hsome, ?_⟩
    split at h
    · next hpipe =>
      obtain ⟨⟨m, s₁⟩, hretry, rfl⟩ := ok_of_map h
      exact .inl ⟨hpipe, m, s₁, hretry, rfl⟩
    · next hpipe => exact .inr ⟨hpipe, h⟩
  · cases h

end Revived

end Vfs
