import Cs111.Mfs.ZoneMap

-- The entries of a directory as its blocks hold them, and search_dir() over them.
namespace Mfs.Entries

def I_DIRECTORY : BitVec 16 := 0x4000

-- What <limits.h> and <dirent.h> give: NAME_MAX, offsetof(struct dirent, d_name), sizeof(long).
-- struct direct is an ino_t of 32 bits and a name of NAME_MAX bytes.
structure DirHeaders where
  NAME_MAX : ℕ
  nameOffset : ℕ
  longSize : ℕ
  name_ge : 4 ≤ NAME_MAX
  entry_mod : 512 % (4 + NAME_MAX) = 0
  long_pos : 0 < longSize
  -- a record with a full name fits in getdents_buf
  record_le : nameOffset + NAME_MAX + longSize ≤ 257

def DirHeaders.entrySize (D : DirHeaders) : ℕ := 4 + D.NAME_MAX

structure Direct where
  dIno : BitVec 32
  dName : ℕ → BitVec 8

-- What goes wrong beyond the error codes: a panic, a read beyond the end of an indirect block, and
-- an off_t that overflows.
inductive DirFault where
  | panic | outside | overflow
  deriving DecidableEq, Repr

structure DirState (H : MfsHeaders) extends ZoneState H where
  dir : BitVec 32 → ℕ → Direct
  inodes : InodeBlocks

section Names
variable (D : DirHeaders)

def cname (name : ℕ → BitVec 8) : List (BitVec 8) :=
  ((List.range D.NAME_MAX).map name).takeWhile (· ≠ 0)

def dot1 : List (BitVec 8) := [46]
def dot2 : List (BitVec 8) := [46, 46]

def paddedName (string : ℕ → BitVec 8) (i : ℕ) : BitVec 8 := (cname D string)[i]?.getD 0

def savedName (dp : Direct) (i : ℕ) : BitVec 8 :=
  let t := D.NAME_MAX - 4
  if t ≤ i ∧ i < D.NAME_MAX then dp.dIno.extractLsb' (8 * (i - t)) 8 else dp.dName i

end Names

section Blocks
variable {H : MfsHeaders} (sp : ZoneSuper H)

def DirState.size (s : DirState H) : ℕ := s.rip.iSize.toInt.toNat

-- read_map() does not look whether the entry lies within the double indirect block.
def readMapAt (s : ZoneState H) (position : ℕ) : Except DirFault (BitVec 32) :=
  let n := s.rip.iNindirs
  if relZone sp position < s.rip.iNdzones + n + n * n ∨ s.zone (s.rip.iNdzones + 1) = NO_ZONE then
    match readMap sp s position with
    | .error .panic => .error .panic
    | .ok b => .ok b
  else .error .outside

def noEntries : ℕ → Direct := fun _ => ⟨0, fun _ => 0⟩

def DirState.zeroBlock (b : BitVec 32) (s : DirState H) : DirState H :=
  { s with dir := Function.update s.dir b noEntries }

def clearZone (pos : ℕ) (flag : Bool) (s : DirState H) : Except DirFault (DirState H) :=
  if sp.sLogZoneSize = 0 then .ok s
  else
    let zoneSize := sp.sBlockSize <<< sp.sLogZoneSize
    let pos := if flag then pos / zoneSize * zoneSize else pos
    let next := pos + sp.sBlockSize - 1
    if next / zoneSize ≠ pos / zoneSize then .ok s
    else
      match readMapAt sp s.toZoneState next with
      | .error e => .error e
      | .ok blo =>
        let bhi := (((blo >>> sp.sLogZoneSize) + 1) <<< sp.sLogZoneSize) - 1
        if blo = BitVec.ofNat 32 NO_BLOCK then .ok s
        else .ok { s with dir := fun b => if blo ≤ b ∧ b ≤ bhi then noEntries else s.dir b }

def nearZone (s : ZoneState H) : BitVec 32 :=
  if s.rip.iZsearch = 0 then
    if s.zone 0 = NO_ZONE then BitVec.ofNat 32 sp.sFirstdatazone else s.zone 0
  else BitVec.ofNat 32 s.rip.iZsearch

variable (stale : BitVec 32 → IndBlock)

def newZone (position : ℕ) (s : ZoneState H) : Except Fault (Option (BitVec 32) × ZoneState H) := do
  let (z, s) ← allocZone sp (nearZone sp s) s
  if z = NO_ZONE then return (none, s)
  else
    let s := { s with rip.iZsearch := z.toNat }
    let (r, s) ← writeMap sp 0 stale position z s
    if r ≠ .OK then
      let s ← freeZone sp z s
      return (none, { s with errCode := r })
    else return (some z, s)

def newBlock (position : ℕ) (s : DirState H) :
    Except DirFault (Option (BitVec 32) × DirState H) :=
  match readMapAt sp s.toZoneState position with
  | .error e => .error e
  | .ok b =>
    if b ≠ BitVec.ofNat 32 NO_BLOCK then .ok (some b, s.zeroBlock b)
    else
      match newZone sp stale position s.toZoneState with
      | .error .panic => .error .panic
      | .ok (none, zs) => .ok (none, { s with toZoneState := zs })
      | .ok (some z, zs) =>
        let s := { s with toZoneState := zs }
        let zoneSize := sp.sBlockSize <<< sp.sLogZoneSize
        let b := zoneBlock sp z + BitVec.ofNat 32 (position % zoneSize / sp.sBlockSize)
        if position ≠ s.size then
          (clearZone sp position true s).map fun s => (some b, s.zeroBlock b)
        else .ok (some b, s.zeroBlock b)

end Blocks

inductive Flag where
  | LOOK_UP | ENTER | DELETE | IS_EMPTY
  deriving DecidableEq, Repr

inductive Code where
  | ENOTDIR | EACCES | EROFS | ENOENT | ENOTEMPTY | EFBIG
  deriving DecidableEq, Repr

inductive Reply where
  | OK
  | numb (ino : BitVec 32)
  | error (r : Code)
  | errCode (e : Status)
  deriving DecidableEq

-- Whether string is dot1 or dot2 itself, check_permissions, and whether the mode of the directory
-- gives the caller the bits asked for.
structure Access where
  isDot : Bool
  checkPermissions : Bool
  granted : Bool

section Search
variable {H : MfsHeaders} (D : DirHeaders) (sp : ZoneSuper H)

def forbidden (flag : Flag) (a : Access) : Option Code :=
  if flag = .IS_EMPTY then none
  else if a.isDot = false ∧ a.checkPermissions = false then none
  else if a.isDot = false ∧ a.granted = false then some .EACCES
  else if flag ≠ .LOOK_UP ∧ sp.sRdOnly then some .EROFS
  else none

def nrDirEntries : ℕ := sp.sBlockSize / D.entrySize

def DirState.slots (s : DirState H) : ℕ := s.size / D.entrySize

def matchesEntry (flag : Flag) (string : ℕ → BitVec 8) (dp : Direct) : Prop :=
  dp.dIno ≠ 0 ∧
    match flag with
    | .ENTER => False
    | .IS_EMPTY => cname D dp.dName ≠ dot1 ∧ cname D dp.dName ≠ dot2
    | .LOOK_UP => cname D dp.dName = cname D string
    | .DELETE => cname D dp.dName = cname D string

instance (flag : Flag) (string : ℕ → BitVec 8) :
    DecidablePred (matchesEntry D flag string) := fun dp => by
  cases flag <;> unfold matchesEntry <;> infer_instance

inductive Scan where
  | hit (k : ℕ)
  | free (k newSlots : ℕ)
  | searched (newSlots : ℕ)

def scanBlock (flag : Flag) (string : ℕ → BitVec 8) (bDir : ℕ → Direct) (oldSlots : ℕ) :
    List ℕ → ℕ → Scan
  | [], newSlots => .searched newSlots
  | k :: ks, newSlots =>
    let newSlots := newSlots + 1
    if newSlots > oldSlots then
      if flag = .ENTER then .free k newSlots else .searched newSlots
    else if matchesEntry D flag string (bDir k) then .hit k
    else if flag = .ENTER ∧ (bDir k).dIno = 0 then .free k newSlots
    else scanBlock flag string bDir oldSlots ks newSlots

inductive Found where
  | hit (b : BitVec 32) (k : ℕ)
  | free (b : BitVec 32) (k newSlots : ℕ)
  | searched (newSlots : ℕ)

def OFF_LIMIT : ℕ := 2 ^ 31

def scanDir (flag : Flag) (string : ℕ → BitVec 8) (s : DirState H) (pos newSlots : ℕ) :
    Except DirFault Found :=
  if pos < s.size then
    match readMapAt sp s.toZoneState pos with
    | .error e => .error e
    | .ok b =>
      match scanBlock D flag string (s.dir b) (s.slots D) (List.range (nrDirEntries D sp))
        newSlots with
      | .hit k => .ok (.hit b k)
      | .free k newSlots => .ok (.free b k newSlots)
      | .searched newSlots =>
        if pos + sp.sBlockSize < OFF_LIMIT then
          scanDir flag string s (pos + sp.sBlockSize) newSlots
        else .error .overflow
  else .ok (.searched newSlots)
termination_by s.size - pos
decreasing_by
  have := sp.block_ge
  omega

def DirState.setSlot (b : BitVec 32) (k : ℕ) (dp : Direct) (s : DirState H) : DirState H :=
  { s with
    dir := Function.update s.dir b (Function.update (s.dir b) k dp)
    rip.updateCtime := true
    rip.updateMtime := true
    rip.iDirt := true }

def eraseSlot (b : BitVec 32) (k : ℕ) (s : DirState H) : DirState H :=
  s.setSlot b k ⟨0, savedName D (s.dir b k)⟩

variable (now : BitVec 32)

def enterSlot (string : ℕ → BitVec 8) (numb : BitVec 32) (oldSlots : ℕ) (b : BitVec 32) (k : ℕ)
    (newSlots : ℕ) (extended : Bool) (s : DirState H) : DirState H :=
  let s := s.setSlot b k ⟨conv4 sp.sNative numb, paddedName D string⟩
  if newSlots > oldSlots then
    let s := { s with rip.iSize := BitVec.ofNat 32 (newSlots * D.entrySize) }
    if extended then
      let written := rwInodeWrite sp.toSuperBlock now s.rip s.inodes
      { s with rip := written.1, inodes := written.2 }
    else s
  else s

variable (stale : BitVec 32 → IndBlock)

def extendDir (string : ℕ → BitVec 8) (numb : BitVec 32) (newSlots : ℕ) (s : DirState H) :
    Except DirFault (Reply × DirState H) :=
  let oldSlots := s.slots D
  let newSlots := newSlots + 1
  if newSlots % 2 ^ 32 = 0 then .ok (.error .EFBIG, s)
  else
    match newBlock sp stale s.size s with
    | .error e => .error e
    | .ok (none, s) => .ok (.errCode s.errCode, s)
    | .ok (some b, s) =>
      .ok (.OK, enterSlot D sp now string numb oldSlots b 0 newSlots true s)

def afterSearch (flag : Flag) (string : ℕ → BitVec 8) (numb : BitVec 32) (s : DirState H) :
    Found → Except DirFault (Reply × DirState H)
  | .hit b k =>
    match flag with
    | .IS_EMPTY => .ok (.error .ENOTEMPTY, s)
    | .DELETE => .ok (.OK, eraseSlot D b k s)
    | _ => .ok (.numb (conv4 sp.sNative (s.dir b k).dIno), s)
  | .free b k newSlots =>
    .ok (.OK, enterSlot D sp now string numb (s.slots D) b k newSlots false s)
  | .searched newSlots =>
    match flag with
    | .IS_EMPTY => .ok (.OK, s)
    | .ENTER => extendDir D sp now stale string numb newSlots s
    | _ => .ok (.error .ENOENT, s)

def searchDir (a : Access) (flag : Flag) (string : ℕ → BitVec 8) (numb : BitVec 32)
    (s : DirState H) : Except DirFault (Reply × DirState H) :=
  if s.rip.iMode &&& I_TYPE ≠ I_DIRECTORY then .ok (.error .ENOTDIR, s)
  else
    match forbidden sp flag a with
    | some r => .ok (.error r, s)
    | none =>
      match scanDir D sp flag string s 0 0 with
      | .error e => .error e
      | .ok found => afterSearch D sp now stale flag string numb s found

end Search

end Mfs.Entries
