import Cs111.Mfs.Inode

namespace Mfs

def NR_INODES : ℕ := 512
def INODE_HASH_SIZE : ℕ := 128

inductive Fault where
  | panic
  deriving DecidableEq, Repr

section Bitmap
variable {H : MfsHeaders} (sp : SuperBlock H) (map : Finset ℕ)

def fsBitmapChunks : ℕ := sp.sBlockSize * 8 / H.bitchunkBits
def fsBitsPerBlock : ℕ := fsBitmapChunks sp * H.bitchunkBits

def wordFree (H : MfsHeaders) (base : ℕ) : Option ℕ :=
  ((List.range H.bitchunkBits).find? fun i => base + i ∉ map).map (base + ·)

def searchBlock (mapBits block word : ℕ) : Option ℕ :=
  ((List.range' word (fsBitmapChunks sp - word)).findSome? fun w =>
    wordFree map H (block * fsBitsPerBlock sp + w * H.bitchunkBits)).filter (· < mapBits)

def searchMap (mapBits bitBlocks : ℕ) : ℕ → ℕ → ℕ → Option ℕ
  | 0, _, _ => none
  | bcount + 1, block, word =>
    match searchBlock sp map mapBits block word with
    | some b => some b
    | none => searchMap mapBits bitBlocks bcount (if block + 1 ≥ bitBlocks then 0 else block + 1) 0

def allocBit (mapBits bitBlocks origin : ℕ) : Option ℕ :=
  let origin := if origin ≥ mapBits then 0 else origin
  searchMap sp map mapBits bitBlocks (bitBlocks + 1) (origin / fsBitsPerBlock sp)
    (origin % fsBitsPerBlock sp / H.bitchunkBits)

end Bitmap

structure InodeTable (H : MfsHeaders) where
  inode : ℕ → Inode H
  unusedInodes : List ℕ
  hashInodes : ℕ → List ℕ
  sIsearch : ℕ
  -- the inode map and the inode blocks
  imap : Finset ℕ
  blocks : InodeBlocks

structure Cut where
  ok : Bool
  zone : Fin V2_NR_TZONES → BitVec 32

def NO_LINK : BitVec 16 := 0
def I_TYPE : BitVec 16 := 0xF000
def I_CHAR_SPECIAL : BitVec 16 := 0x2000
def I_BLOCK_SPECIAL : BitVec 16 := 0x6000
def I_NOT_ALLOC : BitVec 16 := 0

section Table
variable {H : MfsHeaders} (sp : SuperBlock H) (now : BitVec 32)

def setInode (s : ℕ) (rip : Inode H) (t : InodeTable H) : InodeTable H :=
  { t with inode := Function.update t.inode s rip }

def addhashInode (s : ℕ) (t : InodeTable H) : InodeTable H :=
  let hashi := (t.inode s).iNum % INODE_HASH_SIZE
  { t with hashInodes := Function.update t.hashInodes hashi (s :: t.hashInodes hashi) }

def unhashInode (s : ℕ) (t : InodeTable H) : InodeTable H :=
  { t with hashInodes := fun i => (t.hashInodes i).erase s }

def loadInode (dev numb : ℕ) (rip : Inode H) (blocks : InodeBlocks) : Except Fault (Inode H) :=
  let rip := { rip with iDev := dev, iNum := numb, iCount := 1 }
  if dev = NO_DEV then .ok rip
  else if dev = sp.sDev then .ok (rwInodeRead sp rip blocks)
  else .error .panic

def reuseInode (dev numb s : ℕ) (rest : List ℕ) (t : InodeTable H) :
    Except Fault (InodeTable H) :=
  let rip := t.inode s
  let t := if rip.iNum = NO_ENTRY then t else unhashInode s t
  match loadInode sp dev numb rip t.blocks with
  | .error f => .error f
  | .ok rip =>
    let rip := { rip with
      updateAtime := false, updateCtime := false, updateMtime := false
      iZsearch := 0, iMountpoint := false }
    .ok (addhashInode s (setInode s rip { t with unusedInodes := rest }))

def searchHash (dev numb : ℕ) (t : InodeTable H) : Option ℕ :=
  (t.hashInodes (numb % INODE_HASH_SIZE)).find? fun s =>
    (t.inode s).iNum = numb ∧ (t.inode s).iDev = dev

def getInode (dev numb : ℕ) (t : InodeTable H) : Except Fault (Option ℕ × InodeTable H) :=
  match searchHash dev numb t with
  | some s =>
    let rip := t.inode s
    let t := if rip.iCount = 0 then { t with unusedInodes := t.unusedInodes.erase s } else t
    .ok (some s, setInode s { rip with iCount := rip.iCount + 1 } t)
  | none =>
    match t.unusedInodes with
    | [] => .ok (none, t)
    | s :: rest =>
      match reuseInode sp dev numb s rest t with
      | .error f => .error f
      | .ok t => .ok (some s, t)

def findInode (dev numb : ℕ) (t : InodeTable H) : Option ℕ :=
  (t.hashInodes (numb % INODE_HASH_SIZE)).find? fun s =>
    (t.inode s).iCount > 0 ∧ (t.inode s).iNum = numb ∧ (t.inode s).iDev = dev

def truncateInode (cut : Cut) (rip : Inode H) : Inode H :=
  let fileType := rip.iMode &&& I_TYPE
  if fileType = I_CHAR_SPECIAL ∨ fileType = I_BLOCK_SPECIAL then rip
  else
    let rip := { rip with iZone := cut.zone }
    if cut.ok then { rip with iSize := 0, updateCtime := true, updateMtime := true, iDirt := true }
    else rip

def freeInode (dev inumb : ℕ) (t : InodeTable H) : Except Fault (InodeTable H) :=
  if dev ≠ sp.sDev then .error .panic
  else if inumb = NO_ENTRY ∨ inumb > sp.sNinodes then .ok t
  else if sp.sRdOnly ∨ inumb ∉ t.imap then .error .panic
  else .ok { t with
    imap := t.imap.erase inumb
    sIsearch := if inumb < t.sIsearch then inumb else t.sIsearch }

def writeBack (s : ℕ) (rip : Inode H) (t : InodeTable H) : Except Fault (InodeTable H) :=
  let rip := { rip with iMountpoint := false }
  if rip.iDirt then
    if rip.iDev ≠ sp.sDev then .error .panic
    else
      let written := rwInodeWrite sp now rip t.blocks
      .ok (setInode s written.1 { t with blocks := written.2 })
  else .ok (setInode s rip t)

def dropInode (s : ℕ) (t : InodeTable H) : InodeTable H :=
  let t := unhashInode s t
  let t := setInode s { t.inode s with iNum := NO_ENTRY } t
  { t with unusedInodes := s :: t.unusedInodes }

def releaseInode (cut : Cut) (s : ℕ) (rip : Inode H) (t : InodeTable H) :
    Except Fault (InodeTable H) :=
  if rip.iNlinks = NO_LINK then
    let rip := { truncateInode cut rip with iMode := I_NOT_ALLOC, iDirt := true }
    match freeInode sp rip.iDev rip.iNum t with
    | .error f => .error f
    | .ok t =>
      match writeBack sp now s rip t with
      | .error f => .error f
      | .ok t => .ok (dropInode s t)
  else
    match writeBack sp now s rip t with
    | .error f => .error f
    | .ok t => .ok { t with unusedInodes := t.unusedInodes ++ [s] }

def putInode (cut : Cut) (s : ℕ) (t : InodeTable H) : Except Fault (InodeTable H) :=
  let rip := t.inode s
  if rip.iCount < 1 then .error .panic
  else
    let rip := { rip with iCount := rip.iCount - 1 }
    if rip.iCount = 0 then releaseInode sp now cut s rip t else .ok (setInode s rip t)

-- caller_uid and caller_gid are arguments; the fields that alloc_inode() and wipe_inode() set.
def newInode (dev : ℕ) (bits uid : BitVec 16) (gid : BitVec H.gidBits) (ndzones nindirs : ℕ)
    (rip : Inode H) : Inode H :=
  { rip with
    iMode := bits, iNlinks := NO_LINK, iUid := uid, iGid := gid, iDev := dev
    iNdzones := ndzones, iNindirs := nindirs
    iSize := 0, updateAtime := true, updateCtime := true, updateMtime := true, iDirt := true
    iZone := fun _ => 0 }

def sNdzones : ℕ := if sp.sVersion = .V1 then V1_NR_DZONES else V2_NR_DZONES
def sNindirs : ℕ := if sp.sVersion = .V1 then H.staticBlockSize / 2 else sp.sBlockSize / 4

def allocInode (dev : ℕ) (bits uid : BitVec 16) (gid : BitVec H.gidBits) (t : InodeTable H) :
    Except Fault (Option ℕ × InodeTable H) :=
  if dev ≠ sp.sDev then .error .panic
  else if sp.sRdOnly then .ok (none, t)
  else
    match allocBit sp t.imap (sp.sNinodes + 1) sp.sImapBlocks t.sIsearch with
    | none => .ok (none, t)
    | some b =>
      let t := { t with imap := insert b t.imap, sIsearch := b }
      match getInode sp NO_DEV b t with
      | .error f => .error f
      | .ok (none, t) => .ok (none, { t with imap := t.imap.erase b })
      | .ok (some s, t) =>
        .ok (some s, setInode s
          (newInode dev bits uid gid (sNdzones sp) (sNindirs sp) (t.inode s)) t)

def dupInode (s : ℕ) (t : InodeTable H) : InodeTable H :=
  setInode s { t.inode s with iCount := (t.inode s).iCount + 1 } t

def fsPutnode (numb : ℕ) (count : ℤ) (cut : Cut) (t : InodeTable H) :
    Except Fault (InodeTable H) :=
  match findInode sp.sDev numb t with
  | none => .error .panic
  | some s =>
    let rip := t.inode s
    if count ≤ 0 ∨ count > rip.iCount then .error .panic
    else putInode sp now cut s (setInode s { rip with iCount := rip.iCount - (count - 1) } t)

end Table

inductive InodeCall (H : MfsHeaders) where
  | get (dev numb : ℕ)
  | find (dev numb : ℕ)
  | put (s : ℕ) (now : BitVec 32) (cut : Cut)
  | dup (s : ℕ)
  | alloc (dev : ℕ) (bits uid : BitVec 16) (gid : BitVec H.gidBits)
  | putnode (numb : ℕ) (count : ℤ) (now : BitVec 32) (cut : Cut)
  | change (s : ℕ) (rip : Inode H)
  | write (s : ℕ) (now : BitVec 32)

section Calls
variable {H : MfsHeaders} (sp : SuperBlock H)

def changeInode (s : ℕ) (rip : Inode H) (t : InodeTable H) : InodeTable H :=
  let old := t.inode s
  setInode s { rip with iDev := old.iDev, iNum := old.iNum, iCount := old.iCount, iDirt := true } t

def writeInodeBack (s : ℕ) (now : BitVec 32) (t : InodeTable H) : InodeTable H :=
  let written := rwInodeWrite sp now (t.inode s) t.blocks
  setInode s written.1 { t with blocks := written.2 }

def callInode (t : InodeTable H) : InodeCall H → Except Fault (InodeTable H)
  | .get dev numb => (getInode sp dev numb t).map (·.2)
  | .find _ _ => .ok t
  | .put s now cut => putInode sp now cut s t
  | .dup s => .ok (dupInode s t)
  | .alloc dev bits uid gid => (allocInode sp dev bits uid gid t).map (·.2)
  | .putnode numb count now cut => fsPutnode sp now numb count cut t
  | .change s rip => .ok (changeInode s rip t)
  | .write s now => .ok (writeInodeBack sp s now t)

end Calls

end Mfs
