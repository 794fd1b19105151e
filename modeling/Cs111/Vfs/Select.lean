import Cs111.Lib.Runs
import Cs111.Lib.Tally

-- The table of select() calls of VFS.
namespace Vfs.Select
open Tally

structure SelectConfig where
  MAXSELECTS : ℕ
  OPEN_MAX : ℕ

inductive SelOp where
  | SEL_RD | SEL_WR | SEL_ERR
  deriving DecidableEq, Repr

abbrev Ops := Finset SelOp

def allOps : Ops := {.SEL_RD, .SEL_WR, .SEL_ERR}

inductive FdType where
  | FILE | GENERAL | PIPE | ASYNCH
  deriving DecidableEq, Repr

inductive Errno where
  | EBADF | EINVAL | ENOSPC | EFAULT | EAGAIN | EIO
  deriving DecidableEq, Repr

inductive Timeout where
  | forever | poll | ticks
  deriving DecidableEq

-- fdtype is none for a file that matches no row; dev are major and minor of a character special
-- file; update, block and busy are the flags of filp_select_flags.
structure Filp where
  fdtype : Option FdType
  dev : Option (ℕ × ℕ)
  filpCount : ℕ
  filpSelectors : ℕ
  filpSelectOps : Ops
  update : Bool
  block : Bool
  busy : Bool

-- ops is tab2ops(), ready the sets that are copied back, expiry tells whether the timer runs.
structure SelectEntry where
  requestor : Option ℕ
  ops : ℕ → Ops
  ready : ℕ → Ops
  filps : ℕ → Option ℕ
  deferred : Bool
  deferredFd : ℕ
  nfds : ℕ
  nreadyfds : ℕ
  block : Bool
  expiry : Bool

@[ext] structure SelState where
  selecttab : ℕ → SelectEntry
  filp : ℕ → Filp
  dmapSelFilp : ℕ → Option ℕ
  replied : List (ℕ × Except Errno ℕ)

section Entries
variable (C : SelectConfig)

def setEntry (t : ℕ) (se : SelectEntry) (s : SelState) : SelState :=
  { s with selecttab := Function.update s.selecttab t se }

def setFilp (f : ℕ) (x : Filp) (s : SelState) : SelState :=
  { s with filp := Function.update s.filp f x }

def wipeSelect (se : SelectEntry) : SelectEntry :=
  { se with
    deferred := false
    nfds := 0
    nreadyfds := 0
    filps := fun _ => none
    ops := fun _ => ∅
    ready := fun _ => ∅ }

def ops2tab (ops : Ops) (fd : ℕ) (e : SelectEntry) : SelectEntry :=
  let new := (ops ∩ e.ops fd) \ e.ready fd
  { e with
    ready := Function.update e.ready fd (e.ready fd ∪ new)
    nreadyfds := e.nreadyfds + new.card }

def remainOps (f : ℕ) (s : SelState) : Ops :=
  (Finset.range C.MAXSELECTS).biUnion fun t =>
    if (s.selecttab t).requestor ≠ none then ∅
    else
      (Finset.range (s.selecttab t).nfds).biUnion fun fd =>
        if (s.selecttab t).filps fd = some f then (s.selecttab t).ops fd else ∅

def selectReevaluate (f : ℕ) (s : SelState) : SelState :=
  setFilp f { s.filp f with filpSelectOps := remainOps C f s } s

def cancelFds (t : ℕ) : List ℕ → SelState → SelState
  | [], s => s
  | fd :: fds, s =>
    match (s.selecttab t).filps fd with
    | none => cancelFds t fds s
    | some f =>
      if (s.filp f).filpSelectors < 1 then cancelFds t fds s
      else
        let s := setFilp f { s.filp f with filpSelectors := (s.filp f).filpSelectors - 1 } s
        let s := setEntry t { s.selecttab t with
          filps := Function.update (s.selecttab t).filps fd none } s
        cancelFds t fds (selectReevaluate C f s)

def selectCancelAll (t : ℕ) (s : SelState) : SelState :=
  let s := cancelFds C t (List.range (s.selecttab t).nfds) s
  setEntry t { s.selecttab t with expiry := false } s

def wakeup (t : ℕ) (r : Except Errno ℕ) (s : SelState) : SelState :=
  match (s.selecttab t).requestor with
  | none => s
  | some p =>
    setEntry t { s.selecttab t with requestor := none } { s with replied := (p, r) :: s.replied }

def selectReturn (t : ℕ) (r : Option Errno) (s : SelState) : SelState :=
  let s := selectCancelAll C t s
  wakeup t (match r with
    | none => .ok (s.selecttab t).nreadyfds
    | some e => .error e) s

end Entries

section Callback
variable (C : SelectConfig)

def forSlots (step : ℕ → SelState → SelState) (s : SelState) : SelState :=
  (List.range C.MAXSELECTS).foldl (fun s t => step t s) s

def satisfy (f : ℕ) (ops : Ops) (e : SelectEntry) : SelectEntry :=
  (List.range e.nfds).foldl (fun e fd =>
    if e.filps fd = some f ∧ e.ops fd ∩ ops ≠ ∅ then ops2tab ops fd e else e) e

def wants (f : ℕ) (ops : Ops) (e : SelectEntry) : Prop :=
  ∃ fd < e.nfds, e.filps fd = some f ∧ e.ops fd ∩ ops ≠ ∅

instance (f : ℕ) (ops : Ops) (e : SelectEntry) : Decidable (wants f ops e) :=
  inferInstanceAs (Decidable (∃ fd < e.nfds, e.filps fd = some f ∧ e.ops fd ∩ ops ≠ ∅))

def callbackSlot (f : ℕ) (ops : Ops) (t : ℕ) (s : SelState) : SelState :=
  if (s.selecttab t).requestor = none then s
  else if wants f ops (s.selecttab t) then
    selectReturn C t none (setEntry t (satisfy f ops (s.selecttab t)) s)
  else s

def selectCallback (f : ℕ) (ops : Ops) (s : SelState) : SelState :=
  forSlots C (callbackSlot C f ops) s

end Callback

section Requests
variable (C : SelectConfig)

-- The arguments of a call, and what it meets; getFilp is what get_filp() says of a descriptor,
-- answer what the driver or the pipe says, none for an error, and released are the files for which
-- release() reports the pipe of a descriptor.
structure SelectArgs where
  p : ℕ
  nfds : ℤ
  sets : Except Errno (ℕ → Ops)
  timeout : Except Errno Timeout
  getFilp : ℕ → Except Errno ℕ
  answer : ℕ → Option Ops
  released : ℕ → List (ℕ × Ops)
  copied : Except Errno Unit

inductive Requested where
  | ok (ops : Ops) | deferred | error

def selectRequest (type : FdType) (f : ℕ) (ops : Ops) (block : Bool) (answer : Option Ops)
    (released : List (ℕ × Ops)) (s : SelState) : Requested × SelState :=
  match type with
  | .FILE => (.ok ops, s)
  | .GENERAL =>
    match answer with
    | none => (.error, s)
    | some ready => (.ok ready, s)
  | .PIPE =>
    let s := released.foldl (fun s x => selectCallback C x.1 x.2 s) s
    match answer with
    | none => (.error, s)
    | some ready => (.ok ready, s)
  | .ASYNCH =>
    let s := setFilp f { s.filp f with update := true, block := (s.filp f).block || block } s
    match (s.filp f).dev with
    | none => (.error, s)
    | some (major, _) =>
      if (s.filp f).busy then (.deferred, s)
      else if s.dmapSelFilp major ≠ none then (.deferred, s)
      else
        let s := setFilp f { s.filp f with update := false } s
        match answer with
        | none => (.error, s)
        | some _ =>
          (.deferred, { setFilp f { s.filp f with
            filpCount := (s.filp f).filpCount + 1, busy := true } s with
              dmapSelFilp := Function.update s.dmapSelFilp major (some f) })

def enter (t fd f : ℕ) (s : SelState) : SelState :=
  let s := setEntry t { s.selecttab t with nfds := fd + 1 } s
  setFilp f { s.filp f with filpSelectors := (s.filp f).filpSelectors + 1 } s

def scan (t : ℕ) (a : SelectArgs) : ℕ → ℕ → SelState → Option Errno × SelState
  | 0, _, s => (none, s)
  | n + 1, fd, s =>
    let ops := (s.selecttab t).ops fd
    if ops = ∅ then scan t a n (fd + 1) s
    else
      match a.getFilp fd with
      | .error .EBADF => (some .EBADF, selectCancelAll C t s)
      | .error _ => scan t a n (fd + 1) (setEntry t (ops2tab allOps fd (s.selecttab t)) s)
      | .ok f =>
        let s := setEntry t { s.selecttab t with
          filps := Function.update (s.selecttab t).filps fd (some f) } s
        match (s.filp f).fdtype with
        | none => (some .EBADF, s)
        | some type =>
          if ops ⊆ (s.filp f).filpSelectOps then scan t a n (fd + 1) (enter t fd f s)
          else
            let wantops := (s.filp f).filpSelectOps ∪ ops
            let s := setFilp f { s.filp f with filpSelectOps := wantops } s
            match selectRequest C type f wantops (s.selecttab t).block (a.answer fd)
                (a.released fd) s with
            | (.deferred, s) =>
              scan t a n (fd + 1)
                (setEntry t { s.selecttab t with deferred := true, deferredFd := 0 } s)
            | (.error, s) => (some .EINVAL, selectCancelAll C t s)
            | (.ok wantops, s) =>
              let s := if wantops ∩ ops = ∅ then s
                else setEntry t (ops2tab wantops fd (s.selecttab t)) s
              scan t a n (fd + 1) (enter t fd f s)

def answerTo (p : ℕ) (r : Except Errno ℕ) (s : SelState) : SelState :=
  { s with replied := (p, r) :: s.replied }

def doSelect (a : SelectArgs) (s : SelState) : SelState :=
  if a.nfds < 0 ∨ a.nfds > C.OPEN_MAX then answerTo a.p (.error .EINVAL) s
  else
    match (List.range C.MAXSELECTS).find? fun t => (s.selecttab t).requestor = none with
    | none => answerTo a.p (.error .ENOSPC) s
    | some t =>
      let s := setEntry t (wipeSelect (s.selecttab t)) s
      match a.sets with
      | .error r => answerTo a.p (.error r) s
      | .ok sets =>
        let s := setEntry t { s.selecttab t with ops := sets } s
        match a.timeout with
        | .error r => answerTo a.p (.error r) s
        | .ok timeout =>
          let s := setEntry t { s.selecttab t with
            block := decide (timeout ≠ .poll), expiry := false } s
          match scan C t a a.nfds.toNat 0 s with
          | (some r, s) => answerTo a.p (.error r) s
          | (none, s) =>
            let se := s.selecttab t
            if se.nreadyfds > 0 ∨ (¬ se.block ∧ ¬ se.deferred) then
              answerTo a.p (match a.copied with
                | .error r => .error r
                | .ok () => .ok se.nreadyfds) (selectCancelAll C t s)
            else
              setEntry t { se with
                expiry := decide (timeout = .ticks), requestor := some a.p } s

end Requests

section Wakeups
variable (C : SelectConfig)

def notifiedSlot (major minor : ℕ) (ops : Ops) (t : ℕ) (s : SelState) : SelState :=
  if (s.selecttab t).requestor = none then s
  else
    (List.range (s.selecttab t).nfds).foldl (fun s fd =>
      match (s.selecttab t).filps fd with
      | none => s
      | some f =>
        if (s.filp f).dev = some (major, minor) ∧ ops ∩ (s.selecttab t).ops fd ≠ ∅ then
          selectCallback C f (ops ∩ (s.selecttab t).ops fd) s
        else s) s

def selectNotified (major minor : ℕ) (ops : Ops) (s : SelState) : SelState :=
  forSlots C (notifiedSlot C major minor ops) s

def selectForget (p : ℕ) (s : SelState) : SelState :=
  match (List.range C.MAXSELECTS).find? fun t => (s.selecttab t).requestor = some p with
  | none => s
  | some t =>
    let s := selectCancelAll C t s
    setEntry t { s.selecttab t with requestor := none } s

def selectTimeoutCheck (t : ℕ) (s : SelState) : SelState :=
  if (s.selecttab t).requestor = none then s
  else if (s.selecttab t).expiry = false then s
  else selectReturn C t none (setEntry t { s.selecttab t with expiry := false } s)

-- driven tells whether the driver that has died runs the device of the filp.
def unsuspendSlot (driven : ℕ → Bool) (t : ℕ) (s : SelState) : SelState :=
  if (s.selecttab t).requestor = none then s
  else if ∃ fd < (s.selecttab t).nfds, ∃ f, (s.selecttab t).filps fd = some f ∧ driven f then
    selectReturn C t (some .EAGAIN) s
  else s

def selectUnsuspend (driven : ℕ → Bool) (s : SelState) : SelState :=
  forSlots C (unsuspendSlot C driven) s

end Wakeups

section Replies
variable (C : SelectConfig)

def restartProc (t : ℕ) (s : SelState) : SelState :=
  let se := s.selecttab t
  let finish := fun s : SelState =>
    if (s.selecttab t).nreadyfds > 0 ∨ ¬ (s.selecttab t).block then
      wakeup t (.ok (s.selecttab t).nreadyfds) s
    else s
  if se.deferred then
    match (List.range C.OPEN_MAX).find? fun fd => se.deferredFd ≤ fd ∧
        ∃ f, se.filps fd = some f ∧ ((s.filp f).update ∨ (s.filp f).busy) with
    | some fd => setEntry t { se with deferredFd := fd } s
    | none => finish (setEntry t { se with deferred := false } s)
  else finish s

-- status is none for an error of the driver.
def filpStatusSlot (f : ℕ) (status : Option Ops) (t : ℕ) (s : SelState) : SelState :=
  if (s.selecttab t).requestor = none then s
  else
    (List.range C.OPEN_MAX).foldl (fun s i =>
      if (s.selecttab t).filps i ≠ some f then s
      else
        restartProc C t (match status with
          | none => s
          | some ops => setEntry t (ops2tab ops i (s.selecttab t)) s)) s

def clearOps (f : ℕ) (status : Ops) (s : SelState) : SelState :=
  if (s.filp f).update then s
  else setFilp f { s.filp f with filpSelectOps := (s.filp f).filpSelectOps \ status } s

def selectReply1 (major minor : ℕ) (status : Option Ops) (s : SelState) : Option SelState :=
  match s.dmapSelFilp major with
  | none => some s
  | some f =>
    if (s.filp f).busy = false ∨ (s.filp f).dev = none then none
    else if (s.filp f).dev ≠ some (major, minor) then some s
    else
      let s := { s with dmapSelFilp := Function.update s.dmapSelFilp major none }
      let s := setFilp f { s.filp f with busy := false } s
      let s := if (s.filp f).update ∨ (s.filp f).block then s
        else setFilp f { s.filp f with filpSelectOps := ∅ } s
      let s := if status = some ∅ then s
        else
          forSlots C (filpStatusSlot C f status) (match status with
            | none => s
            | some ops => clearOps f ops s)
      if (s.filp f).filpCount = 0 then none
      else some (setFilp f { s.filp f with filpCount := (s.filp f).filpCount - 1 } s)

def reply2Slot (major minor : ℕ) (status : Option Ops) (t : ℕ) (s : SelState) : SelState :=
  if (s.selecttab t).requestor = none then s
  else
    let s := (List.range C.OPEN_MAX).foldl (fun s i =>
      match (s.selecttab t).filps i, status with
      | some f, some ops =>
        if (s.filp f).dev = some (major, minor) then
          setEntry t (ops2tab ops i (s.selecttab t)) (clearOps f ops s)
        else s
      | _, _ => s) s
    if (s.selecttab t).nreadyfds > 0 then restartProc C t s else s

def selectReply2 (major minor : ℕ) (status : Option Ops) (s : SelState) : SelState :=
  forSlots C (reply2Slot C major minor status) s

end Replies

inductive Request where
  | select (a : SelectArgs)
  | callback (f : ℕ) (ops : Ops)
  | notified (major minor : ℕ) (ops : Ops)
  | reply1 (major minor : ℕ) (status : Option Ops)
  | reply2 (major minor : ℕ) (status : Option Ops)
  | timeout (t : ℕ)
  | forget (p : ℕ)
  | driverDeath (driven : ℕ → Bool)
  | openFilp (f : ℕ) (fdtype : Option FdType) (dev : Option (ℕ × ℕ))

section System
variable (C : SelectConfig)

def openFilp (f : ℕ) (fdtype : Option FdType) (dev : Option (ℕ × ℕ)) (s : SelState) : SelState :=
  setFilp f { fdtype, dev, filpCount := 1, filpSelectors := 0, filpSelectOps := ∅,
              update := false, block := false, busy := false } s

def handle (s : SelState) : Request → Option SelState
  | .select a => some (doSelect C a s)
  | .callback f ops => some (selectCallback C f ops s)
  | .notified major minor ops => some (selectNotified C major minor ops s)
  | .reply1 major minor status => selectReply1 C major minor status s
  | .reply2 major minor status => some (selectReply2 C major minor status s)
  | .timeout t => some (selectTimeoutCheck C t s)
  | .forget p => some (selectForget C p s)
  | .driverDeath driven => some (selectUnsuspend C driven s)
  | .openFilp f fdtype dev => some (openFilp f fdtype dev s)

def Sent (s : SelState) : Request → Prop
  | .openFilp f _ _ => (s.filp f).busy = false ∧
      ∀ t, (s.selecttab t).requestor ≠ none → ∀ fd, (s.selecttab t).filps fd ≠ some f
  | .timeout t => t < C.MAXSELECTS
  | _ => True

structure Initial (s : SelState) : Prop where
  requestor : ∀ t, (s.selecttab t).requestor = none
  nfds : ∀ t, (s.selecttab t).nfds = 0
  selectors : ∀ f, (s.filp f).filpSelectors = 0
  ops : ∀ f, (s.filp f).filpSelectOps = ∅
  dmap : ∀ major, s.dmapSelFilp major = none

def selectSystem : TransitionSystem SelState Request where
  initial := Initial
  step s req s' := Sent C s req ∧ handle C s req = some s'

end System

end Vfs.Select
