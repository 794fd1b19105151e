import Cs111.Lib.SlotTable
import Cs111.Kernel.Ipc
import Cs111.Kernel.Safecopy
import Cs111.Lib.Runs

namespace Kernel
open Minix FlagWord TransitionSystem SlotTable
variable {H : Headers} {M : Type}

def maxMapInfo : ℕ := 20

def vmsuspend : Errno := .other (-996)

structure SafemapHeaders extends SafecopyHeaders where
  cpfRead : BitVec 32
  cpfWrite : BitVec 32
  cpfMap : BitVec 32
  t : ℤ
  d : ℤ
  s : ℤ
  clickShift : ℕ
  clickSize : BitVec 32
  vmProcNr : ℤ
  sigkmem : ℕ
  eloop_ne : eloop ≠ .OK

structure MapInfo where
  grantor : ℤ
  gid : ℤ
  offset : BitVec 32
  addressDseg : BitVec 32
  grantee : ℤ
  seg : ℤ
  address : BitVec 32
  bytes : BitVec 32
  deriving DecidableEq

structure MemMap where
  memVir : BitVec 32
  memPhys : BitVec 32
  memLen : BitVec 32

inductive VmReqType where
  | SMAP | SUNMAP
  deriving DecidableEq

structure VmRequest where
  reqType : VmReqType
  target : ℤ
  virD : BitVec 32
  epS : ℤ
  virS : BitVec 32
  length : BitVec 32
  writeflag : ℤ
  vmresult : Errno

-- A slot of map_info is none while its flag is 0; the chain through nextrequestor is a list.
structure SafemapState (H : Headers) (M : Type) where
  kernel : KState H M
  grants : GrantTables H
  memmap : Slot H → ℤ → MemMap
  mapInfo : Fin maxMapInfo → Option MapInfo
  pVmrequest : Slot H → VmRequest
  vmrequest : List (Slot H)

structure SafemapCall where
  grantor : ℤ
  gid : ℤ
  offset : BitVec 32
  seg : ℤ
  address : BitVec 32
  bytes : BitVec 32
  flag : ℤ

section Calls
variable (C : SafemapHeaders) (s : SafemapState H M)

def SafemapState.endpoint (i : Slot H) : ℤ := (s.kernel.proc i).endpoint

def umapLocal (rp : Option (Slot H)) (seg : ℤ) (virAddr bytes : BitVec 32) :
    Except Fault (BitVec 32) :=
  if seg ≠ C.t ∧ seg ≠ C.d ∧ seg ≠ C.s then .error .panic
  else if bytes = 0 then .ok 0
  else if virAddr + bytes ≤ virAddr then .ok 0
  else
    match rp with
    | none => .error .nullPointer
    | some rp =>
      let vc := (virAddr + bytes - 1) >>> C.clickShift
      let seg :=
        if seg ≠ C.t then
          if vc < (s.memmap rp C.d).memVir + (s.memmap rp C.d).memLen then C.d else C.s
        else if (s.memmap rp C.t).memLen = 0 then C.d
        else seg
      let map := s.memmap rp seg
      if virAddr >>> C.clickShift ≥ map.memVir + map.memLen then .ok 0
      else if vc ≥ map.memVir + map.memLen then .ok 0
      else .ok ((map.memPhys <<< C.clickShift) + (virAddr - (map.memVir <<< C.clickShift)))

def addInfo (e : MapInfo) : Except Errno (SafemapState H M) :=
  match (List.finRange maxMapInfo).find? fun i => (s.mapInfo i).isNone with
  | none => .error .EBUSY
  | some i => .ok { s with mapInfo := Function.update s.mapInfo i (some e) }

def MapInfo.revokedBy (grantor flag arg : ℤ) (e : MapInfo) : Bool :=
  e.grantor == grantor && if flag ≠ 0 then e.gid == arg else e.addressDseg == BitVec.ofInt 32 arg

def MapInfo.unmappedBy (grantee seg : ℤ) (address : BitVec 32) (e : MapInfo) : Bool :=
  e.grantee == grantee && e.seg == seg && e.address == address

def getInfo (fits : MapInfo → Bool) (s : SafemapState H M) : Option (Fin maxMapInfo) :=
  (List.finRange maxMapInfo).find? fun i => (s.mapInfo i).any fits

def getRevokeInfo (grantor flag arg : ℤ) : SafemapState H M → Option (Fin maxMapInfo) :=
  getInfo (MapInfo.revokedBy grantor flag arg)

def getUnmapInfo (grantee seg : ℤ) (address : BitVec 32) :
    SafemapState H M → Option (Fin maxMapInfo) :=
  getInfo (MapInfo.unmappedBy grantee seg address)

def clearInfo (i : Fin maxMapInfo) : SafemapState H M :=
  { s with mapInfo := Function.update s.mapInfo i none }

structure MapRange where
  endpoint : ℤ
  seg : ℤ
  offset : BitVec 32

def umapRange (size : BitVec 32) (r : MapRange) : Except Fault (BitVec 32) :=
  umapLocal C s (isokendpt s.kernel r.endpoint) r.seg r.offset size

def wakeVm (k : KState H M) : Except Fault (KState H M) :=
  if s.vmrequest.isEmpty then sendSig k C.vmProcNr C.sigkmem else pure k

-- The caller goes to the head of the vmrequest wait queue.
def SafemapState.connect (k : KState H M) (caller : Slot H) (request : VmRequest) :
    SafemapState H M :=
  { s with
    kernel := k
    pVmrequest := Function.update s.pVmrequest caller request
    vmrequest := caller :: s.vmrequest }

def mapInvokeVm (caller : Slot H) (reqType : VmReqType) (d src : MapRange) (size : BitVec 32)
    (flag : ℤ) : Except Fault (Errno × SafemapState H M) := do
  let linSrc ← umapRange C s size src
  let linDst ← umapRange C s size d
  if linSrc = 0 ∨ linDst = 0 then pure (.EINVAL, s)
  else if linSrc % C.clickSize ≠ 0 ∨ linDst % C.clickSize ≠ 0 then pure (.EINVAL, s)
  else
    match isokendpt s.kernel d.endpoint with
    | none => .error .nullPointer
    | some dst => do
      kassert (!(s.kernel.proc caller).rtsIsset RTS_VMREQUEST)
      kassert (!(s.kernel.proc caller).rtsIsset RTS_VMREQTARGET)
      kassert (!(s.kernel.proc dst).rtsIsset RTS_VMREQUEST)
      kassert (!(s.kernel.proc dst).rtsIsset RTS_VMREQTARGET)
      let k ← rtsSet s.kernel caller RTS_VMREQUEST
      let k ← rtsSet k dst RTS_VMREQTARGET
      let request := {
        reqType := reqType, target := d.endpoint, virD := linDst, epS := src.endpoint,
        virS := linSrc, length := size, writeflag := flag,
        vmresult := (s.pVmrequest caller).vmresult }
      let k ← wakeVm C s k
      pure (.OK, s.connect k caller request)

def safemapAccess (m : SafemapCall) : BitVec 32 :=
  if m.flag ≠ 0 then C.cpfMap ||| C.cpfRead ||| C.cpfWrite else C.cpfMap ||| C.cpfRead

def verifySafemap (caller : Slot H) (m : SafemapCall) : Except Errno (BitVec 32 × ℤ) :=
  verifyGrant C.toSafecopyHeaders s.grants s.kernel m.grantor (s.endpoint caller) m.gid
    ⟨m.bytes, safemapAccess C m, m.offset⟩

def verifyUnmap (e : MapInfo) : Except Errno (BitVec 32 × ℤ) :=
  verifyGrant C.toSafecopyHeaders s.grants s.kernel e.grantor e.grantee e.gid
    ⟨e.bytes, C.cpfMap, e.offset⟩

def mapInfoOf (caller : Slot H) (m : SafemapCall) (offset : BitVec 32) (newGrantor : ℤ) :
    MapInfo where
  grantor := newGrantor
  gid := m.gid
  offset := m.offset
  addressDseg := offset
  grantee := s.endpoint caller
  seg := m.seg
  address := m.address
  bytes := m.bytes

def doSafemap (caller : Slot H) (m : SafemapCall) : Except Fault (Errno × SafemapState H M) :=
  match verifySafemap C s caller m with
  | .error r => pure (r, s)
  | .ok (offset, newGrantor) =>
    match addInfo s (mapInfoOf s caller m offset newGrantor) with
    | .error r => pure (r, s)
    | .ok s =>
      mapInvokeVm C s caller .SMAP ⟨s.endpoint caller, m.seg, m.address⟩ ⟨newGrantor, C.d, offset⟩
        m.bytes m.flag

def safeunmap (caller : Slot H) (p : Fin maxMapInfo) (e : MapInfo) :
    Except Fault (Errno × SafemapState H M) :=
  match verifyUnmap C s e with
  | .error r => pure (r, s)
  | .ok (offset, newGrantor) => do
    let (r, s) ← mapInvokeVm C s caller .SUNMAP ⟨e.grantee, e.seg, e.address⟩
      ⟨newGrantor, C.d, offset⟩ e.bytes 0
    pure (r, clearInfo s p)

def unmapLoop (caller : Slot H) (get : SafemapState H M → Option (Fin maxMapInfo)) :
    ℕ → SafemapState H M → Except Fault (Errno × SafemapState H M)
  | 0, _ => .error .hang
  | fuel + 1, s =>
    match get s with
    | none => pure (.OK, s)
    | some p =>
      match s.mapInfo p with
      | none => .error .nullPointer
      | some e => do
        let (r, s) ← safeunmap C s caller p e
        if r ≠ .OK then pure (r, s) else unmapLoop caller get fuel s

def doSaferevmap (caller : Slot H) (flag arg : ℤ) : Except Fault (Errno × SafemapState H M) :=
  unmapLoop C caller (getRevokeInfo (s.endpoint caller) flag arg) (maxMapInfo + 1) s

def doSafeunmap (caller : Slot H) (seg : ℤ) (address : BitVec 32) :
    Except Fault (Errno × SafemapState H M) :=
  unmapLoop C caller (getUnmapInfo (s.endpoint caller) seg address) (maxMapInfo + 1) s

def memreqGet : Except Fault (Option (Slot H × VmRequest) × SafemapState H M) :=
  match s.vmrequest with
  | [] => pure (none, s)
  | rp :: rest => do
    kassert ((s.kernel.proc rp).rtsIsset RTS_VMREQUEST)
    let target ← okendpt s.kernel (s.pVmrequest rp).target
    kassert ((s.kernel.proc target).rtsIsset RTS_VMREQTARGET)
    let k ← rtsUnset s.kernel target RTS_VMREQTARGET
    let suspended := { s.pVmrequest rp with vmresult := vmsuspend }
    pure (some (rp, s.pVmrequest rp), { s with
      kernel := k
      pVmrequest := Function.update s.pVmrequest rp suspended
      vmrequest := rest })

def memreqReply (p : Slot H) (value : Errno) : Except Fault (Errno × SafemapState H M) := do
  kassert ((s.kernel.proc p).rtsIsset RTS_VMREQUEST)
  kassert ((s.pVmrequest p).vmresult == vmsuspend)
  let _ ← okendpt s.kernel (s.pVmrequest p).target
  kassert (value != vmsuspend)
  let k ← rtsUnset s.kernel p RTS_VMREQUEST
  let answered := { s.pVmrequest p with vmresult := value }
  pure (.OK, { s with
    kernel := k
    pVmrequest := Function.update s.pVmrequest p answered })

end Calls

end Kernel
