import Mathlib.Data.List.Range

-- The tables of VFS: processes, open files and vnodes, by their slots.
namespace Vfs

abbrev Byte := BitVec 8

structure VfsConfig where
  NR_PROCS : ℕ
  NR_DEVICES : ℕ
  NR_FILPS : ℕ
  OPEN_MAX : ℕ
  PIPE_BUF : ℕ
  pipe_buf_pos : 0 < PIPE_BUF

inductive BlockedOn where
  | NONE | PIPE | LOCK | POPEN | SELECT | DOPEN | OTHER
  deriving DecidableEq, Repr

inductive CallNr where
  | READ | WRITE | OPEN | CREAT | FCNTL | SELECT | IOCTL
  deriving DecidableEq, Repr

inductive Panic where
  | suspCountNegative | nobodyToRevive | filpMissing | badFilpCount | partialNotClear | badRefCount
  deriving DecidableEq, Repr

inductive Errno where
  | EAGAIN | EPIPE | EBADF | EIO | EINTR | EINVAL | EMFILE | ENFILE | ENXIO | ENOENT | ENOLCK
  | ERESTART
  deriving DecidableEq, Repr

structure Fproc where
  free : Bool
  fpRd : Option ℕ
  fpWd : Option ℕ
  fpFilp : ℕ → Option ℕ
  fpBlockFd : ℕ
  fpBlockCallnr : CallNr
  fpBuffer : List Byte
  fpNbytes : ℕ
  fpCumIoPartial : ℕ
  fpRevived : Bool
  fpBlockedOn : BlockedOn

structure FilpMode where
  r : Bool
  w : Bool
  deriving DecidableEq

structure Filp where
  filpMode : FilpMode
  nonblock : Bool
  filpCount : ℕ
  filpVno : ℕ

inductive VKind where
  | FILE | CHAR_SPECIAL | NAMED_PIPE
  deriving DecidableEq

-- data is what PFS holds of a pipe.
structure Vnode where
  kind : VKind
  vSize : ℕ
  vPipeRdPos : ℕ
  vPipeWrPos : ℕ
  vRefCount : ℕ
  vData : ℕ → Byte

-- selecting tells whose entry of selecttab is active, dmap_sel_filp is by major, mounts counts the
-- references of vmnt, inFlight those that set_filp() has made; replied is what reply() has sent.
structure VfsState where
  fproc : ℕ → Fproc
  filp : ℕ → Filp
  vnode : ℕ → Vnode
  selecting : ℕ → Bool
  dmapSelFilp : ℕ → Option ℕ
  mounts : ℕ → ℕ
  inFlight : ℕ → ℕ
  suspCount : ℤ
  reviving : ℤ
  replied : List (ℕ × Except Errno ℕ)

theorem ok_of_bind {α β : Type*} {x : Except Panic α} {k : α → Except Panic β} {b : β}
    (h : x.bind k = .ok b) : ∃ a, x = .ok a ∧ k a = .ok b := by
  cases x with
  | error e => cases h
  | ok a => exact ⟨a, rfl, h⟩

theorem ok_of_map {α β : Type*} {x : Except Panic α} {k : α → β} {b : β}
    (h : x.map k = .ok b) : ∃ a, x = .ok a ∧ k a = b := by
  cases x with
  | error e => cases h
  | ok a => exact ⟨a, rfl, Except.ok.inj h⟩

section Tables
variable (C : VfsConfig) (s : VfsState)

def setProc (p : ℕ) (rfp : Fproc) : VfsState := { s with fproc := Function.update s.fproc p rfp }

def setFilp (f : ℕ) (v : Filp) : VfsState := { s with filp := Function.update s.filp f v }

def setVnode (v : ℕ) (vp : Vnode) : VfsState := { s with vnode := Function.update s.vnode v vp }

def reply (whom : ℕ) (result : Except Errno ℕ) : VfsState :=
  { s with replied := (whom, result) :: s.replied }

def FilpMode.has (m : FilpMode) (bits : FilpMode) : Bool := m.r && bits.r || m.w && bits.w

def R_BIT : FilpMode := ⟨true, false⟩
def W_BIT : FilpMode := ⟨false, true⟩

def findFilp (v : ℕ) (bits : FilpMode) : Option ℕ :=
  (List.range C.NR_FILPS).find? fun f =>
    (s.filp f).filpCount ≠ 0 ∧ (s.filp f).filpVno = v ∧ (s.filp f).filpMode.has bits

def getFd (rfp : Fproc) (start : ℕ) : Except Errno (ℕ × ℕ) :=
  match (List.range C.OPEN_MAX).find? fun i => start ≤ i ∧ rfp.fpFilp i = none with
  | none => .error .EMFILE
  | some fd =>
    match (List.range C.NR_FILPS).find? fun f => (s.filp f).filpCount = 0 with
    | none => .error .ENFILE
    | some f => .ok (fd, f)

def dupVnode (v : ℕ) : VfsState :=
  setVnode s v { s.vnode v with vRefCount := (s.vnode v).vRefCount + 1 }

def putVnode (v : ℕ) : Except Panic VfsState :=
  if (s.vnode v).vRefCount = 0 then .error .badRefCount
  else .ok (setVnode s v { s.vnode v with vRefCount := (s.vnode v).vRefCount - 1 })

end Tables

end Vfs
