import Cs111.Ds.Store

namespace Ds

structure DsConfig extends DsHeaders where
  rsProcNr : ℤ
  clickSize : ℕ
  regcomp : String → Option (String → Bool)

def noTypes : DsTypes := ⟨false, false, false, false, false⟩
def allTypes : DsTypes := ⟨true, true, true, true, true⟩
def noPriv : DsPriv := ⟨false, false, false, false⟩

structure Subscription where
  inUse : Bool
  types : DsTypes
  owner : String
  regex : String → Bool
  oldSubs : Finset ℕ

structure DsTables extends DsServer where
  dsSubs : List Subscription

def clickCeil (clickSize a : ℕ) : ℕ := (a + clickSize - 1) / clickSize * clickSize

section Names
variable (C : DsConfig) (s : DsServer)

def allocDataSlot : Option ℕ := s.dsStore.findIdx? fun d => !d.inUse

def lookupLabelSlot (num : ℤ) : Option ℕ :=
  s.dsStore.findIdx? fun d => d.inUse && d.types.label && d.u.isU32 num

inductive NamePtr where
  | firstProcName
  | key (k : ℕ)

def getNamePtr (e : ℤ) : Option NamePtr :=
  if e = C.dsProcNr then some .firstProcName else (lookupLabelSlot s e).map .key

def readName : NamePtr → String
  | .firstProcName => "ds"
  | .key k => (s.dsStore[k]?).elim "" (·.key)

def labelNum (d : DataStore) : ℤ :=
  match d.u with
  | .u32 val => val
  | _ => -1

def dsGetprocep (name : String) : ℤ :=
  match lookupEntry s name DsType.LABEL.bits with
  | none => -1
  | some k => (s.dsStore[k]?).elim (-1) labelNum

def setEntry (k : ℕ) (d : DataStore) : DsServer := { s with dsStore := s.dsStore.set k d }

def checkSubMatch (sub : Subscription) (d : DataStore) (ep : ℤ) : Bool :=
  checkAuth C.toDsHeaders s d ep (·.subscribe) && sub.regex d.key

end Names

section Subscribers
variable (C : DsConfig) (t : DsTables)

def concerns (s : DsServer) (d : DataStore) (sub : Subscription) : Bool :=
  sub.inUse && sub.types.meets d.types && checkSubMatch C s sub d (dsGetprocep s sub.owner)

def updateSub (s : DsServer) (k : ℕ) (d : DataStore) (set : Bool) (sub : Subscription) :
    Subscription :=
  if concerns C s d sub then
    { sub with oldSubs := if set then insert k sub.oldSubs else sub.oldSubs.erase k }
  else sub

def updateSubscribers (k : ℕ) (d : DataStore) (set : Bool) : DsTables :=
  { t with dsSubs := t.dsSubs.map (updateSub C t.toDsServer k d set) }

def mapService (label : String) (endpoint : ℤ) : Except Errno Unit × DsTables :=
  match allocDataSlot t.toDsServer with
  | none => (.error .ENOMEM, t)
  | some k =>
    let d : DataStore := ⟨true, DsType.LABEL.bits, noPriv, label, "rs", .u32 endpoint⟩
    (.ok (), updateSubscribers C { t with toDsServer := setEntry t.toDsServer k d } k d true)

end Subscribers

structure PublishFlags where
  types : DsTypes
  priv : DsPriv
  overwrite : Bool

-- DS_VAL and DS_VAL_LEN, and what malloc() and the copy or sys_safemap() of the data give.
structure PublishArg where
  flags : PublishFlags
  val : ℤ
  valLen : ℕ
  malloc : Option ℕ
  copied : Except ℤ (List Byte)

section Publish
variable (C : DsConfig)

def freeBlock (a : ℕ) (s : DsServer) : Except Fault DsServer :=
  if a = 0 then .ok s
  else
    match s.heap a with
    | none => .error .freed
    | some _ => .ok { s with heap := Function.update s.heap a none }

section Data
variable (k : ℕ) (d : DataStore) (m : PublishArg)

def newBuffer (length reallen : ℕ) (s : DsServer) : Option ℕ × DsServer :=
  match m.malloc with
  | none => (none, setEntry s k { d with u := .mem 0 length reallen })
  | some a =>
    let s := setEntry s k { d with u := .mem a length m.valLen }
    (some a, { s with heap := Function.update s.heap a (some (List.replicate m.valLen 0)) })

def dataBuffer (s : DsServer) : Except Fault (Option ℕ × DsServer) :=
  if d.inUse = false then .ok (newBuffer k d m 0 0 s)
  else
    match d.u with
    | .mem data length reallen =>
      if m.valLen > reallen then
        match freeBlock data s with
        | .error f => .error f
        | .ok s => .ok (newBuffer k d m length reallen s)
      else .ok (some data, s)
    | _ => .error .wrongUnion

def terminate (bytes : List Byte) : Except Fault (List Byte) :=
  if m.flags.types.str = false then .ok bytes
  else if bytes = [] then .error .outOfBounds
  else .ok (bytes.set (bytes.length - 1) 0)

def fillBuffer (a : ℕ) (s : DsServer) : Except Fault (Option Errno × DsServer) :=
  match m.copied with
  | .error r =>
    match freeBlock a s with
    | .error f => .error f
    | .ok s => .ok (some (.passed r), s)
  | .ok bytes =>
    match terminate m (bytes.take m.valLen) with
    | .error f => .error f
    | .ok bytes =>
      match copyIn s (some a) bytes with
      | .error f => .error f
      | .ok s =>
        match s.dsStore[k]? with
        | some ⟨inUse, types, priv, key, owner, .mem data _ reallen⟩ =>
          .ok (none, setEntry s k ⟨inUse, types, priv, key, owner, .mem data m.valLen reallen⟩)
        | _ => .error .wrongUnion

def storeMem (s : DsServer) : Except Fault (Option Errno × DsServer) :=
  match dataBuffer k d m s with
  | .error f => .error f
  | .ok (none, s) => .ok (some .ENOMEM, s)
  | .ok (some a, s) => fillBuffer k m a s

def storeMap (s : DsServer) : Option Errno × DsServer :=
  match m.malloc with
  | none => (some .ENOMEM, s)
  | some a =>
    let data := clickCeil C.clickSize a
    match m.copied with
    | .error r => (some (.passed r), s)
    | .ok bytes =>
      let u := .map ⟨data, m.valLen, List.replicate nrDsSnapshot none, -1⟩
      let s := setEntry s k { d with u := u }
      (none, { s with mapped := Function.update s.mapped data bytes })

def storeValue (s : DsServer) : Except Fault (Option Errno × DsServer) :=
  match m.flags.types.single with
  | none => .ok (some .EINVAL, s)
  | some .U32 | some .LABEL => .ok (none, setEntry s k { d with u := .u32 m.val })
  | some .STR | some .MEM => storeMem k d m s
  | some .MAP => .ok (storeMap C k d m s)

end Data

section Entry
variable (s : DsServer) (who : ℤ) (m : PublishArg)

def lookupPublished (keyName : String) : Option ℕ :=
  match lookupEntry s keyName m.flags.types with
  | some k => some k
  | none => if m.flags.types.label then lookupLabelSlot s m.val else none

def mayOverwrite (k : ℕ) : Bool :=
  (s.dsStore[k]?).elim false fun d => checkAuth C.toDsHeaders s d who (·.overwrite)

def publishSlot (keyName : String) : Except Errno ℕ :=
  match lookupPublished s m keyName with
  | none =>
    match allocDataSlot s with
    | none => .error .ENOMEM
    | some k => .ok k
  | some k =>
    if m.flags.overwrite then if mayOverwrite C s who k then .ok k else .error .EPERM
    else .error .EEXIST

end Entry

def setAttributes (k : ℕ) (keyName : String) (source : NamePtr) (m : PublishArg) (d : DataStore)
    (s : DsServer) : DataStore :=
  ⟨true, m.flags.types, m.flags.priv, keyName,
    readName (setEntry s k { d with key := keyName }) source, d.u⟩

def publishAt (k : ℕ) (keyName : String) (source : NamePtr) (m : PublishArg) (t : DsTables) :
    Except Fault (Except Errno Unit × DsTables) :=
  match t.dsStore[k]? with
  | none => .error .outOfBounds
  | some d =>
    match storeValue C k d m t.toDsServer with
    | .error f => .error f
    | .ok (some e, s) => .ok (.error e, { t with toDsServer := s })
    | .ok (none, s) =>
      match s.dsStore[k]? with
      | none => .error .outOfBounds
      | some d =>
        let d := setAttributes k keyName source m d s
        .ok (.ok (), updateSubscribers C { t with toDsServer := setEntry s k d } k d true)

def doPublish (t : DsTables) (who : ℤ) (key : KeyArg) (m : PublishArg) :
    Except Fault (Except Errno Unit × DsTables) :=
  match getNamePtr C t.toDsServer who with
  | none => .ok (.error .EPERM, t)
  | some source =>
    if m.flags.types.label ∧ who ≠ C.rsProcNr then .ok (.error .EPERM, t)
    else if m.flags.types.map ∧ m.flags.overwrite then .ok (.error .EINVAL, t)
    else
      match getKeyName C.toDsHeaders key with
      | .error e => .ok (.error e, t)
      | .ok keyName =>
        match publishSlot C t.toDsServer who m keyName with
        | .error e => .ok (.error e, t)
        | .ok k => publishAt C k keyName source m t

end Publish

structure SubscribeArg where
  types : DsTypes
  overwrite : Bool
  initial : Bool
  stale : String → Bool

section Subscribe
variable (C : DsConfig) (t : DsTables)

def lookupSub (owner : String) : Option ℕ :=
  t.dsSubs.findIdx? fun sub => sub.inUse && sub.owner == owner

def allocSubSlot : Option ℕ := t.dsSubs.findIdx? fun sub => !sub.inUse

def setSub (j : ℕ) (sub : Subscription) : DsTables := { t with dsSubs := t.dsSubs.set j sub }

def subscribeSlot (owner : String) (m : SubscribeArg) : Except Errno ℕ :=
  match lookupSub t owner with
  | none =>
    match allocSubSlot t with
    | none => .error .EAGAIN
    | some j => .ok j
  | some j => if m.overwrite then .ok j else .error .EEXIST

def initialList (s : DsServer) (sub : Subscription) (who : ℤ) : Finset ℕ :=
  (Finset.range s.dsStore.length).filter fun k =>
    (s.dsStore[k]?).elim false fun d =>
      d.inUse && d.types.meets sub.types && checkSubMatch C s sub d who

def doSubscribe (who : ℤ) (key : KeyArg) (m : SubscribeArg) : Except Errno Unit × DsTables :=
  match dsGetprocname C.toDsHeaders t.toDsServer who with
  | none => (.error .ESRCH, t)
  | some owner =>
    match subscribeSlot t owner m with
    | .error e => (.error e, t)
    | .ok j =>
      -- the key is copied over the "^"
      match getKeyName C.toDsHeaders key with
      | .error e => (.error e, t)
      | .ok keyName =>
        match C.regcomp (keyName ++ "$") with
        | none =>
          (.error .EINVAL,
            { t with dsSubs := t.dsSubs.modify j fun sub => { sub with regex := m.stale } })
        | some regex =>
          let types := if m.types = noTypes then allTypes else m.types
          let sub : Subscription := ⟨true, types, owner, regex, ∅⟩
          let old := if m.initial then initialList C t.toDsServer sub who else ∅
          (.ok (), setSub t j { sub with oldSubs := old })

end Subscribe

structure Checked where
  key : String
  types : DsTypes
  owner : ℤ

def doCheck (C : DsConfig) (t : DsTables) (who : ℤ) (copied : Option ℤ) :
    Except Fault (Except Errno Checked × DsTables) :=
  match dsGetprocname C.toDsHeaders t.toDsServer who with
  | none => .ok (.error .ESRCH, t)
  | some owner =>
    match lookupSub t owner with
    | none => .ok (.error .ESRCH, t)
    | some j =>
      match t.dsSubs[j]? with
      | none => .error .outOfBounds
      | some sub =>
        match (List.range t.dsStore.length).find? fun k => k ∈ sub.oldSubs with
        | none => .ok (.error .ENOENT, t)
        | some k =>
          match t.dsStore[k]? with
          | none => .error .outOfBounds
          | some d =>
            match copied with
            | some r => .ok (.error (.passed r), t)
            | none =>
              let owner := dsGetprocep t.toDsServer d.owner
              if owner = -1 then .error .panic
              else .ok (.ok ⟨d.key, d.types, owner⟩,
                setSub t j { sub with oldSubs := sub.oldSubs.erase k })

structure DeleteArg where
  types : DsTypes
  revoked : Option ℤ

section Delete
variable (C : DsConfig)

def DataStore.clear (d : DataStore) : DataStore :=
  { d with inUse := false, types := noTypes, priv := noPriv }

def Subscription.clear (sub : Subscription) : Subscription :=
  { sub with inUse := false, types := noTypes }

def cleanUp (label : String) (t : DsTables) : DsTables :=
  { t with
    dsSubs := t.dsSubs.map fun sub => if sub.inUse && sub.owner == label then sub.clear else sub
    dsStore := t.dsStore.map fun d => if d.inUse && d.owner == label then d.clear else d }

def freeSnapshots : List (Option ℕ) → DsServer → Except Fault DsServer
  | [], s => .ok s
  | none :: _, _ => .error .uninitialised
  | some a :: rest, s =>
    match freeBlock a s with
    | .error f => .error f
    | .ok s => freeSnapshots rest s

def releaseValue (d : DataStore) (m : DeleteArg) (t : DsTables) :
    Except Fault (Option Errno × DsTables) :=
  match m.types.single with
  | none => .ok (some .EINVAL, t)
  | some .U32 => .ok (none, t)
  | some .LABEL => .ok (none, cleanUp d.key t)
  | some .STR | some .MEM =>
    match d.u with
    | .mem data _ _ =>
      match freeBlock data t.toDsServer with
      | .error f => .error f
      | .ok s => .ok (none, { t with toDsServer := s })
    | _ => .error .wrongUnion
  | some .MAP =>
    match d.u with
    | .map p =>
      match m.revoked with
      | some r => .ok (some (.passed r), t)
      | none =>
        match freeSnapshots (p.snapshots.take (min (nrDsSnapshot - 1 : ℤ) p.sindex + 1).toNat)
            t.toDsServer with
        | .error f => .error f
        | .ok s => .ok (none, { t with toDsServer := s })
    | _ => .error .wrongUnion

def dropEntry (k : ℕ) (t : DsTables) : Except Fault (Except Errno Unit × DsTables) :=
  match t.dsStore[k]? with
  | none => .error .outOfBounds
  | some d =>
    let t := updateSubscribers C t k d false
    .ok (.ok (), { t with toDsServer := setEntry t.toDsServer k d.clear })

def doDelete (t : DsTables) (who : ℤ) (key : KeyArg) (m : DeleteArg) :
    Except Fault (Except Errno Unit × DsTables) :=
  match dsGetprocname C.toDsHeaders t.toDsServer who with
  | none => .ok (.error .EPERM, t)
  | some source =>
    match getKeyName C.toDsHeaders key with
    | .error e => .ok (.error e, t)
    | .ok keyName =>
      match lookupEntry t.toDsServer keyName m.types with
      | none => .ok (.error .ESRCH, t)
      | some k =>
        match t.dsStore[k]? with
        | none => .error .outOfBounds
        | some d =>
          if d.owner ≠ source then .ok (.error .EPERM, t)
          else
            match releaseValue d m t with
            | .error f => .error f
            | .ok (some e, t) => .ok (.error e, t)
            | .ok (none, t) => dropEntry C k t

end Delete

inductive DsRequest where
  | publish (who : ℤ) (key : KeyArg) (m : PublishArg)
  | subscribe (who : ℤ) (key : KeyArg) (m : SubscribeArg)
  | check (who : ℤ) (copied : Option ℤ)
  | delete (who : ℤ) (key : KeyArg) (m : DeleteArg)
  | snapshot (who : ℤ) (key : KeyArg) (malloc : Option ℕ)
  | retrieve (who : ℤ) (key : KeyArg) (m : RetrieveArg)
  | service (label : String) (endpoint : ℤ)

def serve (C : DsConfig) (t : DsTables) : DsRequest → Except Fault DsTables
  | .publish who key m => (doPublish C t who key m).map (·.2)
  | .subscribe who key m => .ok (doSubscribe C t who key m).2
  | .check who copied => (doCheck C t who copied).map (·.2)
  | .delete who key m => (doDelete C t who key m).map (·.2)
  | .snapshot who key malloc =>
    (doSnapshot C.toDsHeaders t.toDsServer who key malloc).map fun x => { t with toDsServer := x.2 }
  | .retrieve who key m => (doRetrieve C.toDsHeaders t.toDsServer who key m).map fun _ => t
  | .service label endpoint => .ok (mapService C t label endpoint).2

end Ds
