import Cs111.Vfs.Fproc

namespace Vfs

inductive RwFlag where
  | READING | WRITING
  deriving DecidableEq

section Suspend

def suspend (p : ℕ) (why : BlockedOn) (fd : ℕ) (callnr : CallNr) (s : VfsState) : VfsState :=
  let s := if why = .POPEN then { s with suspCount := s.suspCount + 1 } else s
  setProc s p { s.fproc p with fpBlockedOn := why, fpBlockFd := fd, fpBlockCallnr := callnr }

def pipeSuspend (p : ℕ) (rw : RwFlag) (fd : ℕ) (buf : List Byte) (size : ℕ) (s : VfsState) : VfsState :=
  let s := { s with suspCount := s.suspCount + 1 }
  setProc s p { s.fproc p with
    fpBlockedOn := .PIPE
    fpBlockFd := fd
    fpBlockCallnr := if rw = .READING then .READ else .WRITE
    fpBuffer := buf
    fpNbytes := size }

def unblock (p : ℕ) (s : VfsState) : VfsState := setProc s p { s.fproc p with fpBlockedOn := .NONE }

def setFd (p fd : ℕ) (f : Option ℕ) (s : VfsState) : VfsState :=
  setProc s p { s.fproc p with fpFilp := Function.update (s.fproc p).fpFilp fd f }

def setCount (f n : ℕ) (s : VfsState) : VfsState := setFilp s f { s.filp f with filpCount := n }

def failOpen (p fd : ℕ) (r : Errno) (s : VfsState) : Except Panic VfsState :=
  match (s.fproc p).fpFilp fd with
  | none => .error .filpMissing
  | some f =>
    let s := setFd p fd none s
    if (s.filp f).filpCount ≠ 1 then .error .badFilpCount
    else (putVnode (setCount f 0 s) (s.filp f).filpVno).map (reply · p (.error r))

def revive (p : ℕ) (returned : Except Errno ℕ) (s : VfsState) : Except Panic VfsState :=
  let rfp := s.fproc p
  if rfp.free ∨ rfp.fpBlockedOn = .NONE ∨ rfp.fpRevived then .ok s
  else if rfp.fpBlockedOn = .PIPE ∨ rfp.fpBlockedOn = .LOCK then
    .ok (setProc { s with reviving := s.reviving + 1 } p { rfp with fpRevived := true })
  else if rfp.fpBlockedOn = .DOPEN then
    match returned with
    | .error r => failOpen p rfp.fpBlockFd r (unblock p s)
    | .ok _ => .ok (reply (unblock p s) p (.ok rfp.fpBlockFd))
  else if rfp.fpBlockedOn = .POPEN then .ok (reply (unblock p s) p (.ok rfp.fpBlockFd))
  else .ok (reply (unblock p s) p returned)

end Suspend

section Release
variable (C : VfsConfig)

def selectReturn (p : ℕ) (r : Except Errno ℕ) (s : VfsState) : Except Panic VfsState :=
  if s.selecting p then
    (revive p r s).map fun s => { s with selecting := Function.update s.selecting p false }
  else .ok s

def selectCallback : List (ℕ × Except Errno ℕ) → VfsState → Except Panic VfsState
  | [], s => .ok s
  | (p, r) :: woken, s => (selectReturn p r s).bind (selectCallback woken)

def hangs (v : ℕ) (callnr : CallNr) (s : VfsState) (rp : Fproc) : Except Panic Bool :=
  if ¬ rp.free ∧ rp.fpBlockedOn ≠ .NONE ∧ ¬ rp.fpRevived ∧ rp.fpBlockCallnr = callnr then
    match rp.fpFilp rp.fpBlockFd with
    | none => .error .filpMissing
    | some f => .ok (decide ((s.filp f).filpVno = v))
  else .ok false

def releaseFrom (v : ℕ) (callnr : CallNr) : List ℕ → ℤ → VfsState → Except Panic VfsState
  | [], _, s => .ok s
  | p :: slots, count, s =>
    if count ≤ 0 then .ok s
    else
      match hangs v callnr s (s.fproc p) with
      | .error e => .error e
      | .ok false => releaseFrom v callnr slots count s
      | .ok true =>
        match revive p (.ok 0) s with
        | .error e => .error e
        | .ok s =>
          let s := { s with suspCount := s.suspCount - 1 }
          if s.suspCount < 0 then .error .suspCountNegative
          else if count - 1 = 0 then .ok s
          else releaseFrom v callnr slots (count - 1) s

def release (v : ℕ) (callnr : CallNr) (count : ℤ) (woken : List (ℕ × Except Errno ℕ)) (s : VfsState) :
    Except Panic VfsState :=
  (if callnr = .READ ∨ callnr = .WRITE then selectCallback woken s else .ok s).bind
    (releaseFrom v callnr (List.range C.NR_PROCS) count)

end Release

section Check
variable (C : VfsConfig)

-- bytes 0 is the OK of an empty pipe that nobody writes to.
inductive Check where
  | error (r : Errno) | suspend | bytes (n : ℕ)

def pipeCheck (v : ℕ) (rw : RwFlag) (nonblock : Bool) (bytes pos : ℕ)
    (woken : List (ℕ × Except Errno ℕ)) (s : VfsState) : Except Panic (Check × VfsState) :=
  match rw with
  | .READING =>
    if pos ≥ (s.vnode v).vSize then
      if findFilp C s v W_BIT ≠ none then
        let r := if nonblock then .error .EAGAIN else .suspend
        if s.suspCount > 0 then (release C v .WRITE s.suspCount woken s).map (r, ·) else .ok (r, s)
      else .ok (.bytes 0, s)
    else .ok (.bytes bytes, s)
  | .WRITING =>
    let wakeReaders := release C v .READ s.suspCount woken s
    if findFilp C s v R_BIT = none then .ok (.error .EPIPE, s)
    else if pos + bytes > C.PIPE_BUF then
      if nonblock then
        if bytes ≤ C.PIPE_BUF then .ok (.error .EAGAIN, s)
        else if C.PIPE_BUF - pos > 0 then wakeReaders.map (.bytes (C.PIPE_BUF - pos), ·)
        else .ok (.error .EAGAIN, s)
      else if bytes > C.PIPE_BUF ∧ C.PIPE_BUF - pos > 0 then
        wakeReaders.map (.bytes (C.PIPE_BUF - pos), ·)
      else .ok (.suspend, s)
    else if pos = 0 then wakeReaders.map (.bytes bytes, ·)
    else .ok (.bytes bytes, s)

theorem pipeCheck_cases (v : ℕ) (rw : RwFlag) (nonblock : Bool) (bytes pos : ℕ)
    (woken : List (ℕ × Except Errno ℕ)) (s : VfsState) :
    (∃ r, pipeCheck C v rw nonblock bytes pos woken s = .ok (r, s)) ∨
    ∃ (callnr : CallNr) (r : Check), (callnr ≠ .SELECT ∧ callnr ≠ .FCNTL) ∧
      pipeCheck C v rw nonblock bytes pos woken s =
        (release C v callnr s.suspCount woken s).map (r, ·) := by
  unfold pipeCheck
  cases rw with
  | READING =>
    dsimp only
    split
    · split
      · split
        · exact .inr ⟨.WRITE, _, ⟨by decide, by decide⟩, rfl⟩
        · exact .inl ⟨_, rfl⟩
      · exact .inl ⟨_, rfl⟩
    · exact .inl ⟨_, rfl⟩
  | WRITING =>
    dsimp only
    split_ifs
    all_goals first
      | exact .inl ⟨_, rfl⟩
      | exact .inr ⟨.READ, _, ⟨by decide, by decide⟩, rfl⟩

end Check

section Transfer
variable (C : VfsConfig)

def readData (data : ℕ → Byte) (pos size : ℕ) : List Byte :=
  (List.range size).map fun i => data (pos + i)

def writeData (data : ℕ → Byte) (pos : ℕ) (buf : List Byte) : ℕ → Byte := fun i =>
  if pos ≤ i then buf.getD (i - pos) (data i) else data i

structure Moved where
  result : Option (Except Errno ℕ)
  bytes : List Byte

def readPipe (v size : ℕ) (s : VfsState) : List Byte × VfsState :=
  let vp := s.vnode v
  let size := if vp.vPipeRdPos + size > vp.vSize then vp.vSize - vp.vPipeRdPos else size
  let position := vp.vPipeRdPos + size
  (readData vp.vData vp.vPipeRdPos size, setVnode s v
    (if position ≥ vp.vSize then { vp with vSize := 0, vPipeWrPos := 0, vPipeRdPos := 0 }
      else { vp with vPipeRdPos := position }))

def writePipe (v : ℕ) (buf : List Byte) (s : VfsState) : VfsState :=
  let vp := s.vnode v
  let position := vp.vPipeWrPos + buf.length
  setVnode s v { vp with
    vData := writeData vp.vData vp.vPipeWrPos buf
    vSize := if position > vp.vSize then position else vp.vSize
    vPipeWrPos := position }

def setPartial (p n : ℕ) (s : VfsState) : VfsState := setProc s p { s.fproc p with fpCumIoPartial := n }

def movePipe (rw : RwFlag) (p fd v : ℕ) (nonblock : Bool) (buf : List Byte) (reqSize cumIo : ℕ)
    (r : Check) (s : VfsState) : Moved × VfsState :=
  match r with
  | .error e => (⟨some (.error e), []⟩, s)
  | .suspend => (⟨none, []⟩, pipeSuspend p rw fd buf reqSize s)
  | .bytes size =>
    if size = 0 then (⟨some (.ok 0), []⟩, s)
    else
      match rw with
      | .READING =>
        let (moved, s) := readPipe v size s
        (⟨some (.ok (cumIo + moved.length)), moved⟩, setPartial p 0 s)
      | .WRITING =>
        let s := writePipe v (buf.take size) s
        -- a write of more than the pipe holds goes on later
        if size < reqSize ∧ ¬ nonblock then
          (⟨none, buf.take size⟩,
            pipeSuspend p rw fd (buf.drop size) (reqSize - size) (setPartial p (cumIo + size) s))
        else (⟨some (.ok (cumIo + size)), buf.take size⟩, setPartial p 0 s)

def rwPipe (rw : RwFlag) (p fd f : ℕ) (buf : List Byte) (reqSize : ℕ)
    (woken : List (ℕ × Except Errno ℕ)) (s : VfsState) : Except Panic (Moved × VfsState) :=
  let v := (s.filp f).filpVno
  let position := if rw = .READING then (s.vnode v).vPipeRdPos else (s.vnode v).vPipeWrPos
  (pipeCheck C v rw (s.filp f).nonblock reqSize position woken s).map fun (r, s') =>
    movePipe rw p fd v (s.filp f).nonblock buf reqSize (s.fproc p).fpCumIoPartial r s'

end Transfer

end Vfs
