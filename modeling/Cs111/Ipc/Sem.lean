import Cs111.Lib.Each
import Cs111.Lib.HeapList
import Mathlib.Data.BitVec

namespace Ipc

structure SemHeaders where
  ipcPrivate : ℤ
  semmni : ℕ
  semmsl : ℕ
  semopm : ℕ
  semvmx : ℕ
  semvmx_lt : semvmx < 2 ^ 16

inductive Errno where
  | OK | EPERM | ENOENT | EINTR | E2BIG | EAGAIN | ENOMEM | EACCES | EFAULT | EEXIST | EINVAL
  | EFBIG | ENOSPC | ERANGE | EIDRM
  deriving DecidableEq, Repr

structure Caller where
  who : ℤ
  pid : ℤ
  uid : ℕ
  gid : ℕ

structure IpcPerm where
  uid : ℕ
  gid : ℕ
  cuid : ℕ
  cgid : ℕ
  mode : BitVec 32

structure OpId where
  call : ℕ
  index : ℕ
  deriving DecidableEq, Repr

-- The last field tells which operation is waited for; the source has no such field.
structure Waiting where
  who : ℤ
  val : ℤ
  op : OpId
  deriving DecidableEq, Repr

structure Semaphore where
  semval : ℕ
  zlist : HeapList Waiting
  nlist : HeapList Waiting
  sempid : ℤ

def Semaphore.semzcnt (s : Semaphore) : ℕ := s.zlist.cnt
def Semaphore.semncnt (s : Semaphore) : ℕ := s.nlist.cnt

structure SemStruct where
  key : ℤ
  id : ℤ
  perm : IpcPerm
  sems : List Semaphore

def SemStruct.semNsems (sem : SemStruct) : ℕ := sem.sems.length

structure SemServer where
  semList : List SemStruct
  identifier : ℤ

structure Place where
  set : ℤ
  num : ℕ
  zero : Bool
  deriving DecidableEq, Repr

inductive Deed where
  | performed (op : OpId) (set : ℤ) (num : ℕ) (amount : ℤ)
  | queued (p : Place) (w : Waiting)
  | left (p : Place) (w : Waiting) (ret : Errno)
  | answered (call : ℕ) (who : ℤ) (ret : Errno)
  deriving DecidableEq, Repr

def checkPerm (req : IpcPerm) (c : Caller) (mode : BitVec 32) : Bool :=
  let mode := mode &&& 0o666
  if c.uid = 0 then true
  else
    let (reqMode, curMode) :=
      if c.uid = req.uid ∨ c.uid = req.cuid then ((req.mode >>> 6) &&& 7, (mode >>> 6) &&& 7)
      else if c.gid = req.gid ∨ c.gid = req.cgid then ((req.mode >>> 3) &&& 7, (mode >>> 3) &&& 7)
      else (req.mode &&& 7, mode &&& 7)
    curMode != 0 && curMode &&& reqMode == curMode

section Server
variable (H : SemHeaders) (s : SemServer)

def semFindKey (key : ℤ) : Option SemStruct :=
  if key = H.ipcPrivate then none else s.semList.find? (·.key = key)

def semFindId (id : ℤ) : Option (ℕ × SemStruct) := do
  let i ← s.semList.findIdx? (·.id = id)
  let sem ← s.semList[i]?
  pure (i, sem)

def Semaphore.zero : Semaphore := ⟨0, .empty, .empty, 0⟩

structure SemgetFlag where
  ipcCreat : Bool
  ipcExcl : Bool
  mode : BitVec 32

def newSet (c : Caller) (key : ℤ) (nsems : ℕ) (flag : SemgetFlag) : SemStruct where
  key := key
  id := s.identifier
  perm := ⟨c.uid, c.gid, c.uid, c.gid, flag.mode &&& 0o777⟩
  sems := List.replicate nsems .zero

def doSemget (c : Caller) (key nsems : ℤ) (flag : SemgetFlag) : Except Errno ℤ × SemServer :=
  match semFindKey H s key with
  | some sem =>
    if flag.ipcCreat && flag.ipcExcl then (.error .EEXIST, s)
    else if checkPerm sem.perm c flag.mode = false then (.error .EACCES, s)
    else if nsems > sem.semNsems then (.error .EINVAL, s)
    else (.ok sem.id, s)
  | none =>
    if flag.ipcCreat = false then (.error .ENOENT, s)
    else if nsems < 0 ∨ nsems ≥ H.semmsl then (.error .EINVAL, s)
    else if s.semList.length = H.semmni then (.error .ENOSPC, s)
    else (.ok s.identifier,
      ⟨s.semList ++ [newSet s c key nsems.toNat flag], s.identifier + 1⟩)

end Server

section Wakeups
open HeapList (Fault)

def leave (p : Place) (x : HeapList Waiting) (k : ℕ) (w : Waiting) (ret : Errno) :
    Except Fault (HeapList Waiting × List Deed) := do
  let x ← x.removeAt k
  pure (x, [.left p w ret])

def removeWaiting (pt : ℤ) (p : Place) (x : HeapList Waiting) :
    Except Fault (HeapList Waiting × List Deed) := do
  match ← x.find (·.who = pt) x.cnt 0 with
  | none => pure (x, [])
  | some (k, w) => leave p x k w .EINTR

def removeFrom (pt : ℤ) (set : ℤ) (num : ℕ) (x : Semaphore) :
    Except Fault (Semaphore × List Deed) := do
  let (z, dz) ← removeWaiting pt ⟨set, num, true⟩ x.zlist
  let (n, dn) ← removeWaiting pt ⟨set, num, false⟩ x.nlist
  pure ({ x with zlist := z, nlist := n }, dz ++ dn)

def forSemaphores (f : ℤ → ℕ → Semaphore → Except Fault (Semaphore × List Deed))
    (l : List SemStruct) : Except Fault (List SemStruct × List Deed) :=
  eachM (fun _ sem => do
    let (sems, d) ← eachM (f sem.id) 0 sem.sems
    pure ({ sem with sems := sems }, d)) 0 l

def removeProcess (l : List SemStruct) (pt : ℤ) : Except Fault (List SemStruct × List Deed) :=
  forSemaphores (removeFrom pt) l

-- One process that waits for zero, first come first served; the list is tested by its pointer.
def wakeZero (set : ℤ) (num : ℕ) (x : Semaphore) : Except Fault (Semaphore × List Deed) :=
  if x.zlist.cells.isSome && x.semval == 0 then do
    let w ← x.zlist.get 0
    let (z, d) ← leave ⟨set, num, true⟩ x.zlist 0 w .OK
    pure ({ x with zlist := z }, .performed w.op set num 0 :: d)
  else .ok (x, [])

def wakeIncrease (set : ℤ) (num : ℕ) (x : Semaphore) : Except Fault (Semaphore × List Deed) :=
  if x.nlist.cells.isSome then do
    match ← x.nlist.find (·.val ≤ x.semval) x.nlist.cnt 0 with
    | none => pure (x, [])
    | some (k, w) => do
      let (n, d) ← leave ⟨set, num, false⟩ x.nlist k w .OK
      pure ({ x with semval := (x.semval - w.val).toNat, nlist := n },
        .performed w.op set num (-w.val) :: d)
  else .ok (x, [])

def updateSemaphore (set : ℤ) (num : ℕ) (x : Semaphore) : Except Fault (Semaphore × List Deed) := do
  let (x, dz) ← wakeZero set num x
  let (x, dn) ← wakeIncrease set num x
  pure (x, dz ++ dn)

def updateSemaphores (l : List SemStruct) : Except Fault (List SemStruct × List Deed) :=
  forSemaphores updateSemaphore l

def readAll (x : HeapList Waiting) : ℕ → ℕ → Except Fault (List Waiting)
  | 0, _ => .ok []
  | left + 1, j => do
    let w ← x.get j
    let ws ← readAll x left (j + 1)
    pure (w :: ws)

def dropFrom (set : ℤ) (num : ℕ) (x : Semaphore) : Except Fault (Semaphore × List Deed) := do
  let zs ← readAll x.zlist x.semzcnt 0
  let ns ← readAll x.nlist x.semncnt 0
  pure (x, zs.map (.left ⟨set, num, true⟩ · .EIDRM) ++ ns.map (.left ⟨set, num, false⟩ · .EIDRM))

def removeSemaphore (l : List SemStruct) (i : ℕ) : List SemStruct :=
  match l[l.length - 1]? with
  | none => l
  | some last => (l.set i last).take (l.length - 1)

def removeSet (l : List SemStruct) (i : ℕ) (sem : SemStruct) :
    Except Fault (List SemStruct × List Deed) := do
  let (_, d) ← eachM (dropFrom sem.id) 0 sem.sems
  pure (removeSemaphore l i, d)

end Wakeups

section Control
open HeapList (Fault)
variable (H : SemHeaders) (s : SemServer)

inductive SemctlCmd where
  | IPC_STAT (ds copies : Bool)
  | IPC_SET (ds : Option IpcPerm)
  | IPC_RMID | IPC_INFO | SEM_INFO | SEM_STAT
  | GETALL (allocates copies : Bool)
  | GETNCNT | GETPID | GETVAL | GETZCNT
  | SETALL (allocates : Bool) (buf : Option (ℕ → BitVec 16))
  | SETVAL (val : ℤ)
  | unknown

def setallLoop (buf : ℕ → BitVec 16) : ℕ → List Semaphore → Bool × List Semaphore
  | _, [] => (true, [])
  | i, x :: xs =>
    if (buf i).toNat > H.semvmx then (false, x :: xs)
    else
      let (ok, xs) := setallLoop buf (i + 1) xs
      (ok, { x with semval := (buf i).toNat } :: xs)

def mayManage (perm : IpcPerm) (c : Caller) : Bool :=
  c.uid == perm.cuid || c.uid == perm.uid || c.uid == 0

structure Prepared where
  s : SemServer
  deeds : List Deed
  updates : Bool

structure SemctlReply extends Prepared where
  result : Errno
  -- SHMCTL_RET
  ret : Option ℤ

def semctlError (e : Errno) : SemctlReply := ⟨⟨s, [], false⟩, e, none⟩

def getField (sem : SemStruct) (num : ℤ) (field : Semaphore → ℤ) : SemctlReply :=
  if num < 0 ∨ num ≥ sem.semNsems then semctlError s .EINVAL
  else
    match sem.sems[num.toNat]? with
    | none => semctlError s .EINVAL
    | some x => ⟨⟨s, [], false⟩, .OK, some (field x)⟩

def replaceSet (i : ℕ) (sem : SemStruct) : SemServer := { s with semList := s.semList.set i sem }

def semctlCmd (c : Caller) (i : ℕ) (sem : SemStruct) (num : ℤ) : SemctlCmd →
    Except Fault SemctlReply
  | .IPC_STAT ds copies =>
    if ds = false then pure (semctlError s .EFAULT)
    else if copies = false then pure (semctlError s .EINVAL)
    else pure (semctlError s .OK)
  | .IPC_SET ds =>
    if mayManage sem.perm c = false then pure (semctlError s .EPERM)
    else
      match ds with
      | none => pure (semctlError s .EINVAL)
      | some ds =>
        let perm := { sem.perm with
          uid := ds.uid
          gid := ds.gid
          mode := (sem.perm.mode &&& ~~~0o777) ||| (ds.mode &&& 0o666) }
        pure ⟨⟨replaceSet s i { sem with perm := perm }, [], false⟩, .OK, none⟩
  | .IPC_RMID =>
    if mayManage sem.perm c = false then pure (semctlError s .EPERM)
    else do
      let (l, d) ← removeSet s.semList i sem
      pure ⟨⟨{ s with semList := l }, d, false⟩, .OK, none⟩
  | .IPC_INFO | .SEM_INFO | .SEM_STAT => pure (semctlError s .OK)
  | .GETALL allocates copies =>
    if allocates = false then pure (semctlError s .ENOMEM)
    else if copies = false then pure (semctlError s .EINVAL)
    else pure (semctlError s .OK)
  | .GETNCNT => pure (getField s sem num fun x => x.semncnt)
  | .GETPID => pure (getField s sem num (·.sempid))
  | .GETVAL => pure (getField s sem num fun x => x.semval)
  | .GETZCNT => pure (getField s sem num fun x => x.semzcnt)
  | .SETALL allocates buf =>
    if allocates = false then pure (semctlError s .ENOMEM)
    else
      match buf with
      | none => pure (semctlError s .EINVAL)
      | some buf =>
        let (ok, sems) := setallLoop H buf 0 sem.sems
        pure ⟨⟨replaceSet s i { sem with sems := sems }, [], true⟩,
          if ok then .OK else .ERANGE, none⟩
  | .SETVAL val =>
    if checkPerm sem.perm c 0o222 = false then pure (semctlError s .EACCES)
    else if num < 0 ∨ num ≥ sem.semNsems then pure (semctlError s .EINVAL)
    else if val < 0 ∨ val > H.semvmx then pure (semctlError s .ERANGE)
    else
      let sems := sem.sems.modify num.toNat fun x => { x with semval := val.toNat }
      pure ⟨⟨replaceSet s i { sem with sems := sems }, [], true⟩, .OK, none⟩
  | .unknown => pure (semctlError s .EINVAL)

def SemctlCmd.readChecked : SemctlCmd → Bool
  | .IPC_SET _ | .IPC_RMID => false
  | _ => true

def semctlCalled (c : Caller) (id num : ℤ) (cmd : SemctlCmd) : Except Fault SemctlReply :=
  match semFindId s id with
  | none => pure (semctlError s .EINVAL)
  | some (i, sem) =>
    if cmd.readChecked && checkPerm sem.perm c 0o444 == false then pure (semctlError s .EACCES)
    else semctlCmd H s c i sem num cmd

def Prepared.finish (r : Prepared) : Except Fault (SemServer × List Deed) :=
  if r.updates then do
    let (l, d) ← updateSemaphores r.s.semList
    pure ({ r.s with semList := l }, r.deeds ++ d)
  else .ok (r.s, r.deeds)

end Control

section Semop
open HeapList (Fault)

structure Sembuf where
  semNum : ℤ
  semOp : ℤ
  nowait : Bool

-- What a semop call meets: the array in the caller's memory and whether it can be copied, whether
-- there is memory for it and, for each operation, for a longer wait list.
structure SemopCall where
  id : ℤ
  sops : List Sembuf
  copies : Bool
  allocates : Bool
  grows : ℕ → Bool

def blocksNow (sems : List Semaphore) (o : Sembuf) : Bool :=
  let val : ℤ := (sems[o.semNum.toNat]?.getD .zero).semval
  (o.semOp == 0 && val != 0) || (o.semOp < 0 && -o.semOp > val)

def hasDuplicate : List Sembuf → Bool
  | [] => false
  | o :: os => os.any (·.semNum == o.semNum) || hasDuplicate os

def refuseSemop (H : SemHeaders) (sem : SemStruct) (c : Caller) (m : SemopCall) : Option Errno :=
  if m.sops.length = 0 then some .EINVAL
  else if m.sops.length > H.semopm then some .E2BIG
  else if checkPerm sem.perm c 0o444 = false then some .EACCES
  else if m.allocates = false then some .ENOMEM
  else if m.copies = false then some .EINVAL
  else if m.sops.any fun o => decide (o.semNum < 0 ∨ o.semNum ≥ sem.semNsems) then some .EFBIG
  else if hasDuplicate m.sops then some .EINVAL
  else if m.sops.any fun o => o.nowait && blocksNow sem.sems o then some .EAGAIN
  else none

structure Semop where
  sems : List Semaphore
  noReply : ℕ
  deeds : List Deed

inductive Round where
  | done | slept | refused | lost
  deriving DecidableEq

def cntMax : ℕ := 2 ^ 16

def sleep (x : HeapList Waiting) (p : Place) (w : Waiting) (grows : Bool) :
    Except Fault (Round × HeapList Waiting × List Deed) := do
  let (grown, x) ← x.push cntMax grows w
  pure (if grown then .slept else .lost, x, if grown then [.queued p w] else [])

def semopOne (alter : Bool) (who : ℤ) (op : OpId) (set : ℤ) (num : ℕ) (semOp : ℤ) (grows : Bool)
    (x : Semaphore) : Except Fault (Round × Semaphore × List Deed) :=
  if semOp > 0 then
    if alter = false then .ok (.refused, x, [])
    else .ok (.done, { x with semval := ((x.semval + semOp) % 2 ^ 16).toNat },
      [.performed op set num semOp])
  else if semOp = 0 then
    if x.semval ≠ 0 then do
      let (r, z, d) ← sleep x.zlist ⟨set, num, true⟩ ⟨who, semOp, op⟩ grows
      pure (r, { x with zlist := z }, d)
    else .ok (.done, x, [.performed op set num 0])
  else if alter = false then .ok (.refused, x, [])
  else if (x.semval : ℤ) ≥ -semOp then
    .ok (.done, { x with semval := (x.semval + semOp).toNat }, [.performed op set num semOp])
  else do
    let (r, n, d) ← sleep x.nlist ⟨set, num, false⟩ ⟨who, -semOp, op⟩ grows
    pure (r, { x with nlist := n }, d)

def semopLoop (alter : Bool) (c : Caller) (call : ℕ) (set : ℤ) (grows : ℕ → Bool) :
    List Sembuf → ℕ → Semop → Except Fault (Errno × Semop)
  | [], _, t => .ok (.OK, t)
  | o :: os, i, t =>
    let num := o.semNum.toNat
    match t.sems[num]? with
    | none => .error .outOfBounds
    | some x => do
      let (r, x, d) ← semopOne alter c.who ⟨call, i⟩ set num o.semOp (grows i) { x with sempid := c.pid }
      let t := { t with sems := t.sems.set num x, deeds := t.deeds ++ d }
      match r with
      | .refused => pure (.EACCES, t)
      | .lost => pure (.OK, t)
      | .done => semopLoop alter c call set grows os (i + 1) t
      | .slept =>
        semopLoop alter c call set grows os (i + 1) { t with noReply := t.noReply + 1 }

def answer (c : Caller) (call : ℕ) (r : Errno) (noReply : ℕ) : List Deed :=
  if r ≠ .OK ∨ noReply = 0 then [.answered call c.who r] else []

def semopCalled (H : SemHeaders) (s : SemServer) (c : Caller) (call : ℕ) (m : SemopCall) :
    Except Fault Prepared :=
  match semFindId s m.id with
  | none => .ok ⟨s, answer c call .EINVAL 0, true⟩
  | some (i, sem) =>
    match refuseSemop H sem c m with
    | some e => .ok ⟨s, answer c call e 0, true⟩
    | none => do
      let alter := checkPerm sem.perm c 0o222
      let (r, t) ← semopLoop alter c call sem.id m.grows m.sops 0 ⟨sem.sems, 0, []⟩
      pure ⟨replaceSet s i { sem with sems := t.sems }, t.deeds ++ answer c call r t.noReply, true⟩

end Semop

section Requests
open HeapList (Fault)
variable (H : SemHeaders)

def semProcessVmNotify (l : List SemStruct) : List ℤ → Except Fault (List SemStruct × List Deed)
  | [] => .ok (l, [])
  | pt :: pts => do
    let (l, d) ← removeProcess l pt
    let (l, d') ← semProcessVmNotify l pts
    pure (l, d ++ d')

inductive SemRequest where
  | semget (c : Caller) (key nsems : ℤ) (flag : SemgetFlag)
  | semctl (c : Caller) (id num : ℤ) (cmd : SemctlCmd)
  | semop (c : Caller) (m : SemopCall)
  | vmNotify (pts : List ℤ)

def SemRequest.prepare (s : SemServer) (call : ℕ) : SemRequest → Except Fault Prepared
  | .semget c key nsems flag => .ok ⟨(doSemget H s c key nsems flag).2, [], false⟩
  | .semctl c id num cmd => do
    let r ← semctlCalled H s c id num cmd
    pure r.toPrepared
  | .semop c m => semopCalled H s c call m
  | .vmNotify pts => do
    let (l, d) ← semProcessVmNotify s.semList pts
    pure ⟨{ s with semList := l }, d, false⟩

def doSemctl (s : SemServer) (c : Caller) (id num : ℤ) (cmd : SemctlCmd) :
    Except Fault ((Errno × Option ℤ) × SemServer × List Deed) := do
  let r ← semctlCalled H s c id num cmd
  let after ← r.finish
  pure ((r.result, r.ret), after)

def doSemop (s : SemServer) (c : Caller) (call : ℕ) (m : SemopCall) :
    Except Fault (SemServer × List Deed) := do
  let r ← semopCalled H s c call m
  r.finish

def SemRequest.handle (s : SemServer) (call : ℕ) : SemRequest → Except Fault (SemServer × List Deed)
  | .semget c key nsems flag => .ok ((doSemget H s c key nsems flag).2, [])
  | .semctl c id num cmd => do
    let (_, after) ← doSemctl H s c id num cmd
    pure after
  | .semop c m => doSemop H s c call m
  | .vmNotify pts => do
    let (l, d) ← semProcessVmNotify s.semList pts
    pure ({ s with semList := l }, d)

theorem SemRequest.handle_eq (s : SemServer) (call : ℕ) (e : SemRequest) :
    e.handle H s call = (e.prepare H s call >>= Prepared.finish) := by
  cases e with
  | semget => rfl
  | semop => rfl
  | semctl c id num cmd =>
    simp only [handle, doSemctl, prepare, bind, Except.bind, pure, Except.pure]
    cases semctlCalled H s c id num cmd with
    | error => rfl
    | ok r =>
      dsimp only
      cases r.finish <;> rfl
  | vmNotify pts =>
    simp only [handle, prepare, bind, Except.bind, pure, Except.pure]
    cases semProcessVmNotify s.semList pts <;> rfl

end Requests

end Ipc
