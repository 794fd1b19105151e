import Mathlib.Data.BitVec

namespace Ds

structure DsHeaders where
  dsMaxKeylen : ℕ
  dsProcNr : ℤ
  dsMaxKeylen_gt : 5 < dsMaxKeylen

def nrDsSnapshot : ℕ := 5

inductive Errno where
  | EPERM | ENOMEM | EINVAL | ESRCH | EEXIST | EAGAIN | ENOENT | passed (r : ℤ)
  deriving DecidableEq, Repr

inductive Fault where
  | outOfBounds | uninitialised | freed | wrongUnion | panic
  deriving DecidableEq, Repr

structure DsTypes where
  u32 : Bool
  str : Bool
  mem : Bool
  label : Bool
  map : Bool
  deriving DecidableEq, Repr

def DsTypes.meets (a b : DsTypes) : Bool :=
  a.u32 && b.u32 || a.str && b.str || a.mem && b.mem || a.label && b.label || a.map && b.map

inductive DsType where
  | U32 | STR | MEM | LABEL | MAP
  deriving DecidableEq, Repr

def DsType.bits : DsType → DsTypes
  | .U32 => ⟨true, false, false, false, false⟩
  | .STR => ⟨false, true, false, false, false⟩
  | .MEM => ⟨false, false, true, false, false⟩
  | .LABEL => ⟨false, false, false, true, false⟩
  | .MAP => ⟨false, false, false, false, true⟩

def DsTypes.single (t : DsTypes) : Option DsType :=
  [.U32, .STR, .MEM, .LABEL, .MAP].find? fun k => k.bits = t

structure DsPriv where
  retrieve : Bool
  overwrite : Bool
  snapshot : Bool
  subscribe : Bool

abbrev Byte := BitVec 8

-- data is the address of the mapped memory; a slot of snapshots that was never written is none.
structure DsiMap where
  data : ℕ
  length : ℕ
  snapshots : List (Option ℕ)
  sindex : ℤ

inductive DsUnion where
  | u32 (val : ℤ)
  | mem (data length reallen : ℕ)
  | map (map : DsiMap)

def DsUnion.isU32 (num : ℤ) : DsUnion → Bool
  | .u32 val => val == num
  | _ => false

structure DataStore where
  inUse : Bool
  types : DsTypes
  priv : DsPriv
  key : String
  owner : String
  u : DsUnion

structure DsServer where
  dsStore : List DataStore
  heap : ℕ → Option (List Byte)
  mapped : ℕ → List Byte

structure KeyArg where
  len : ℤ
  copied : Except ℤ String

section Lookup
variable (H : DsHeaders) (s : DsServer)

def lookupEntry (keyName : String) (types : DsTypes) : Option ℕ :=
  s.dsStore.findIdx? fun d => d.inUse && d.types.meets types && d.key == keyName

def lookupLabelEntry (num : ℤ) : Option DataStore :=
  s.dsStore.find? fun d => d.inUse && d.types.label && d.u.isU32 num

def dsGetprocname (e : ℤ) : Option String :=
  if e = H.dsProcNr then some "ds" else (lookupLabelEntry s e).map (·.key)

def checkAuth (d : DataStore) (ep : ℤ) (perm : DsPriv → Bool) : Bool :=
  if perm d.priv = false then true
  else
    match dsGetprocname H s ep with
    | none => false
    | some source => d.owner == source

def getKeyName (k : KeyArg) : Except Errno String :=
  if k.len > H.dsMaxKeylen ∨ k.len < 2 then .error .EINVAL
  else
    match k.copied with
    | .error r => .error (.passed r)
    | .ok key => .ok key

def checkSnapshotIndex (p : DsiMap) (index : ℤ) : Bool :=
  let min := if p.sindex < nrDsSnapshot then 0 else p.sindex - nrDsSnapshot + 1
  decide (index ≥ min ∧ index ≤ p.sindex)

end Lookup

section Snapshot
variable (H : DsHeaders) (s : DsServer)

def copyIn (block : Option ℕ) (bytes : List Byte) : Except Fault DsServer :=
  match block with
  | none => .error .uninitialised
  | some a =>
    match s.heap a with
    | none => .error .freed
    | some old =>
      if bytes.length ≤ old.length then
        .ok { s with heap := Function.update s.heap a (some (bytes ++ old.drop bytes.length)) }
      else .error .outOfBounds

def setMap (k : ℕ) (d : DataStore) (p : DsiMap) : DsServer :=
  { s with dsStore := s.dsStore.set k { d with u := .map p } }

def storeSnapshot (k : ℕ) (d : DataStore) (p : DsiMap) (malloc : Option ℕ) :
    Except Fault (Except Errno ℤ × DsServer) :=
  let sindex := p.sindex + 1
  let i := (sindex % H.dsMaxKeylen).toNat
  let bytes := (s.mapped p.data).take p.length
  if i ≥ p.snapshots.length then .error .outOfBounds
  else if sindex < H.dsMaxKeylen then
    match malloc with
    | none => .ok (.error .ENOMEM, setMap s k d { p with snapshots := p.snapshots.set i none })
    | some a =>
      let p := { p with snapshots := p.snapshots.set i (some a), sindex := sindex }
      let s := setMap s k d p
      .ok (.ok sindex, { s with heap := Function.update s.heap a (some bytes) })
  else
    match p.snapshots[i]? with
    | none => .error .outOfBounds
    | some block =>
      match copyIn (setMap s k d { p with sindex := sindex }) block bytes with
      | .error f => .error f
      | .ok s => .ok (.ok sindex, s)

def doSnapshot (who : ℤ) (key : KeyArg) (malloc : Option ℕ) :
    Except Fault (Except Errno ℤ × DsServer) :=
  match getKeyName H key with
  | .error e => .ok (.error e, s)
  | .ok keyName =>
    match lookupEntry s keyName DsType.MAP.bits with
    | none => .ok (.error .ESRCH, s)
    | some k =>
      match s.dsStore[k]? with
      | none => .error .outOfBounds
      | some d =>
        if checkAuth H s d who (·.snapshot) = false then .ok (.error .EPERM, s)
        else
          match d.u with
          | .map p => storeSnapshot H s k d p malloc
          | _ => .error .wrongUnion

end Snapshot

structure RetrieveFlags where
  types : DsTypes
  mapMapped : Bool
  copyMapped : Bool
  copySnapshot : Bool

-- DS_VAL_LEN, DS_NR_SNAPSHOT, the grant that cpf_grant_direct() makes and the error of the copy.
structure RetrieveArg where
  flags : RetrieveFlags
  valLen : ℕ
  nrSnapshot : ℤ
  gid : Option ℤ
  copy : Option ℤ

inductive Retrieved where
  | val (n : ℤ)
  | copied (bytes : List Byte)
  | granted (gid : ℤ) (data length : ℕ)
  deriving DecidableEq, Repr

section Retrieve
variable (H : DsHeaders) (s : DsServer)

def readBlock (block : Option ℕ) : Except Fault (List Byte) :=
  match block with
  | none => .error .uninitialised
  | some a =>
    match s.heap a with
    | none => .error .freed
    | some bytes => .ok bytes

def copyOut (m : RetrieveArg) (bytes : List Byte) (length : ℕ) : Except Errno Retrieved :=
  match m.copy with
  | some r => .error (.passed r)
  | none => .ok (.copied (bytes.take (min m.valLen length)))

def retrieveMap (p : DsiMap) (m : RetrieveArg) : Except Fault (Except Errno Retrieved) :=
  if m.flags.mapMapped then
    match m.gid with
    | none => .ok (.error (.passed (-1)))
    | some gid => .ok (.ok (.granted gid p.data p.length))
  else if m.flags.copyMapped then .ok (copyOut m (s.mapped p.data) p.length)
  else if m.flags.copySnapshot then
    if checkSnapshotIndex p m.nrSnapshot = false then .ok (.error .EINVAL)
    else
      match p.snapshots[(m.nrSnapshot % nrDsSnapshot).toNat]? with
      | none => .error .outOfBounds
      | some block =>
        match readBlock s block with
        | .error f => .error f
        | .ok bytes => .ok (copyOut m bytes p.length)
  else .ok (.error .EINVAL)

def retrieveEntry (d : DataStore) (m : RetrieveArg) : Except Fault (Except Errno Retrieved) :=
  match m.flags.types.single with
  | none => .ok (.error .EINVAL)
  | some .U32 | some .LABEL =>
    match d.u with
    | .u32 val => .ok (.ok (.val val))
    | _ => .error .wrongUnion
  | some .STR | some .MEM =>
    match d.u with
    | .mem data length _ =>
      match readBlock s (some data) with
      | .error f => .error f
      | .ok bytes => .ok (copyOut m bytes length)
    | _ => .error .wrongUnion
  | some .MAP =>
    match d.u with
    | .map p => retrieveMap s p m
    | _ => .error .wrongUnion

def doRetrieve (who : ℤ) (key : KeyArg) (m : RetrieveArg) :
    Except Fault (Except Errno Retrieved) :=
  match getKeyName H key with
  | .error e => .ok (.error e)
  | .ok keyName =>
    match lookupEntry s keyName m.flags.types with
    | none => .ok (.error .ESRCH)
    | some k =>
      match s.dsStore[k]? with
      | none => .error .outOfBounds
      | some d =>
        if checkAuth H s d who (·.retrieve) = false then .ok (.error .EPERM)
        else retrieveEntry s d m

end Retrieve

end Ds
