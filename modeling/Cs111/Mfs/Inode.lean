import Mathlib.Data.BitVec
import Mathlib.Tactic.IntervalCases

namespace Mfs

-- What comes from outside: _STATIC_BLOCK_SIZE, bitchunk_t and gid_t.
structure MfsHeaders where
  staticBlockSize : ℕ
  bitchunkBits : ℕ
  static_ge : 64 ≤ staticBlockSize
  gidBits : ℕ
  gidSigned : Bool
  gid_le : gidBits ≤ 16

def V1_NR_DZONES : ℕ := 7
def V1_NR_TZONES : ℕ := 9
def V2_NR_DZONES : ℕ := 7
def V2_NR_TZONES : ℕ := 10
def START_BLOCK : ℕ := 2
def NO_DEV : ℕ := 0
def NO_ENTRY : ℕ := 0
def V1_INODE_SIZE : ℕ := 32
def V2_INODE_SIZE : ℕ := 64

inductive Version where
  | V1 | V2 | V3
  deriving DecidableEq

structure SuperBlock (H : MfsHeaders) where
  sVersion : Version
  sNative : Bool
  sRdOnly : Bool
  sBlockSize : ℕ
  sNinodes : ℕ
  sImapBlocks : ℕ
  sZmapBlocks : ℕ
  sZones : ℕ
  sDev : ℕ
  dev_ne : sDev ≠ NO_DEV
  block_size : sVersion ≠ .V3 → sBlockSize = H.staticBlockSize
  block_ge : 64 ≤ sBlockSize
  -- s_nzones has 16 bits
  zones_v1 : sVersion = .V1 → sZones < 65536

section Conversion

def BYTE : BitVec 32 := 0xFF

def conv2 (norm : Bool) (w : BitVec 32) : BitVec 32 :=
  if norm then w &&& 0xFFFF else ((w &&& BYTE) <<< 8) ||| ((w.sshiftRight 8) &&& BYTE)

def conv4 (norm : Bool) (x : BitVec 32) : BitVec 32 :=
  if norm then x
  else
    let lo := conv2 false (x &&& 0xFFFF)
    let hi := conv2 false ((x.sshiftRight 16) &&& 0xFFFF)
    (lo <<< 16) ||| hi

def swap2 (norm : Bool) (x : BitVec 16) : BitVec 16 := if norm then x else (x <<< 8) ||| (x >>> 8)

theorem getLsbD_byte (i : ℕ) : BYTE.getLsbD i = decide (i < 8) := by
  by_cases h : i < 32
  · interval_cases i <;> rfl
  · rw [BitVec.getLsbD_of_ge _ _ (by omega)]
    simp
    omega

theorem getLsbD_word (i : ℕ) : (65535#32).getLsbD i = decide (i < 16) := by
  by_cases h : i < 32
  · interval_cases i <;> rfl
  · rw [BitVec.getLsbD_of_ge _ _ (by omega)]
    simp
    omega

theorem conv2_eq (norm : Bool) (w : BitVec 32) :
    conv2 norm w = (swap2 norm (w.setWidth 16)).setWidth 32 := by
  apply BitVec.eq_of_getLsbD_eq
  intro i hi
  cases norm
  · simp [conv2, swap2, getLsbD_byte, BitVec.getLsbD_sshiftRight]
    grind
  · simp [conv2, swap2, getLsbD_word]
    grind

theorem swap2_swap2 (norm : Bool) (x : BitVec 16) : swap2 norm (swap2 norm x) = x := by
  apply BitVec.eq_of_getLsbD_eq
  intro i hi
  cases norm
  · simp [swap2]
    grind
  · rfl

def halves (hi lo : BitVec 16) : BitVec 32 := (hi.setWidth 32 <<< 16) ||| lo.setWidth 32

theorem low_halves (hi lo : BitVec 16) : (halves hi lo).setWidth 16 = lo := by
  apply BitVec.eq_of_getLsbD_eq
  intro i hi
  simp [halves]

theorem high_halves (hi lo : BitVec 16) : ((halves hi lo).sshiftRight 16).setWidth 16 = hi := by
  apply BitVec.eq_of_getLsbD_eq
  intro i hi
  simp [halves, BitVec.getLsbD_sshiftRight]
  grind

theorem halves_of (x : BitVec 32) :
    halves ((x.sshiftRight 16).setWidth 16) (x.setWidth 16) = x := by
  apply BitVec.eq_of_getLsbD_eq
  intro i hi
  simp [halves, BitVec.getLsbD_sshiftRight]
  grind

theorem setWidth_word (x : BitVec 32) : (x &&& 0xFFFF).setWidth 16 = x.setWidth 16 := by
  rw [BitVec.setWidth_and, show (0xFFFF : BitVec 32).setWidth 16 = BitVec.allOnes 16 from rfl,
    BitVec.and_allOnes]

theorem conv4_false (x : BitVec 32) : conv4 false x =
    halves (swap2 false (x.setWidth 16)) (swap2 false ((x.sshiftRight 16).setWidth 16)) := by
  simp only [conv4, conv2_eq, setWidth_word, halves]
  rfl

theorem conv4_conv4 (norm : Bool) (x : BitVec 32) : conv4 norm (conv4 norm x) = x := by
  cases norm
  · rw [conv4_false (conv4 false x), conv4_false x, low_halves, high_halves, swap2_swap2,
      swap2_swap2, halves_of]
  · rfl

end Conversion

structure D1Inode where
  d1Mode : BitVec 16
  d1Uid : BitVec 16
  d1Size : BitVec 32
  d1Mtime : BitVec 32
  d1Gid : BitVec 8
  d1Nlinks : BitVec 8
  d1Zone : Fin V1_NR_TZONES → BitVec 16

structure D2Inode where
  d2Mode : BitVec 16
  d2Nlinks : BitVec 16
  d2Uid : BitVec 16
  d2Gid : BitVec 16
  d2Size : BitVec 32
  d2Atime : BitVec 32
  d2Mtime : BitVec 32
  d2Ctime : BitVec 32
  d2Zone : Fin V2_NR_TZONES → BitVec 32

structure Inode (H : MfsHeaders) where
  iMode : BitVec 16
  iNlinks : BitVec 16
  iUid : BitVec 16
  iGid : BitVec H.gidBits
  iSize : BitVec 32
  iAtime : BitVec 32
  iMtime : BitVec 32
  iCtime : BitVec 32
  iZone : Fin V2_NR_TZONES → BitVec 32
  iDev : ℕ
  iNum : ℕ
  iCount : ℤ
  iNdzones : ℕ
  iNindirs : ℕ
  iDirt : Bool
  iZsearch : ℕ
  iMountpoint : Bool
  -- the ATIME, CTIME and MTIME bits
  updateAtime : Bool
  updateCtime : Bool
  updateMtime : Bool

-- The inode blocks, by block and by slot, as both layouts see them, and which are dirty.
structure InodeBlocks where
  bV1Ino : ℕ → ℕ → D1Inode
  bV2Ino : ℕ → ℕ → D2Inode
  bDirt : ℕ → Bool

section Copy
variable {H : MfsHeaders} (norm : Bool)

def gidInt (gid : BitVec H.gidBits) : BitVec 32 :=
  if H.gidSigned then gid.signExtend 32 else gid.setWidth 32

def oldIcopyRead (rip : Inode H) (dip : D1Inode) : Inode H :=
  { rip with
    iMode := (conv2 norm (dip.d1Mode.setWidth 32)).setWidth 16
    iUid := (conv2 norm (dip.d1Uid.signExtend 32)).setWidth 16
    iSize := conv4 norm dip.d1Size
    iMtime := conv4 norm dip.d1Mtime
    iAtime := conv4 norm dip.d1Mtime
    iCtime := conv4 norm dip.d1Mtime
    iNlinks := dip.d1Nlinks.setWidth 16
    iGid := dip.d1Gid.setWidth H.gidBits
    iNdzones := V1_NR_DZONES
    iNindirs := H.staticBlockSize / 2
    iZone := fun i =>
      if h : i.val < V1_NR_TZONES then conv2 norm ((dip.d1Zone ⟨i, h⟩).setWidth 32) else rip.iZone i }

def oldIcopyWrite (rip : Inode H) : D1Inode where
  d1Mode := (conv2 norm (rip.iMode.setWidth 32)).setWidth 16
  d1Uid := (conv2 norm (rip.iUid.signExtend 32)).setWidth 16
  d1Size := conv4 norm rip.iSize
  d1Mtime := conv4 norm rip.iMtime
  d1Nlinks := rip.iNlinks.setWidth 8
  d1Gid := rip.iGid.setWidth 8
  d1Zone i := (conv2 norm (rip.iZone ⟨i, Nat.lt_succ_of_lt i.isLt⟩)).setWidth 16

def newIcopyRead (sp : SuperBlock H) (rip : Inode H) (dip : D2Inode) : Inode H :=
  { rip with
    iMode := (conv2 norm (dip.d2Mode.setWidth 32)).setWidth 16
    iUid := (conv2 norm (dip.d2Uid.signExtend 32)).setWidth 16
    iNlinks := (conv2 norm (dip.d2Nlinks.setWidth 32)).setWidth 16
    iGid := (conv2 norm (dip.d2Gid.setWidth 32)).setWidth H.gidBits
    iSize := conv4 norm dip.d2Size
    iAtime := conv4 norm dip.d2Atime
    iCtime := conv4 norm dip.d2Ctime
    iMtime := conv4 norm dip.d2Mtime
    iNdzones := V2_NR_DZONES
    iNindirs := sp.sBlockSize / 4
    iZone := fun i => conv4 norm (dip.d2Zone i) }

def newIcopyWrite (rip : Inode H) : D2Inode where
  d2Mode := (conv2 norm (rip.iMode.setWidth 32)).setWidth 16
  d2Uid := (conv2 norm (rip.iUid.signExtend 32)).setWidth 16
  d2Nlinks := (conv2 norm (rip.iNlinks.signExtend 32)).setWidth 16
  d2Gid := (conv2 norm (gidInt rip.iGid)).setWidth 16
  d2Size := conv4 norm rip.iSize
  d2Atime := conv4 norm rip.iAtime
  d2Ctime := conv4 norm rip.iCtime
  d2Mtime := conv4 norm rip.iMtime
  d2Zone i := conv4 norm (rip.iZone i)

end Copy

section ReadWrite
variable {H : MfsHeaders} (sp : SuperBlock H) (now : BitVec 32)

def updateTimes (rip : Inode H) : Inode H :=
  if sp.sRdOnly then rip
  else
    { rip with
      iAtime := if rip.updateAtime then now else rip.iAtime
      iCtime := if rip.updateCtime then now else rip.iCtime
      iMtime := if rip.updateMtime then now else rip.iMtime
      updateAtime := false
      updateCtime := false
      updateMtime := false }

def inodesPerBlock : ℕ :=
  match sp.sVersion with
  | .V1 => H.staticBlockSize / V1_INODE_SIZE
  | _ => sp.sBlockSize / V2_INODE_SIZE

def inodeBlock (num : ℕ) : ℕ :=
  (num - 1) / inodesPerBlock sp + (START_BLOCK + sp.sImapBlocks + sp.sZmapBlocks)

def inodeSlot (num : ℕ) : ℕ := (num - 1) % inodesPerBlock sp

def rwInodeRead (rip : Inode H) (blocks : InodeBlocks) : Inode H :=
  let b := inodeBlock sp rip.iNum
  let rip :=
    match sp.sVersion with
    | .V1 => oldIcopyRead sp.sNative rip (blocks.bV1Ino b (inodeSlot sp rip.iNum))
    | _ => newIcopyRead sp.sNative sp rip (blocks.bV2Ino b (inodeSlot sp rip.iNum))
  { rip with iDirt := false }

def touched (rip : Inode H) : Inode H :=
  if rip.updateAtime || rip.updateCtime || rip.updateMtime then updateTimes sp now rip else rip

def writeInode (b slot : ℕ) (rip : Inode H) (blocks : InodeBlocks) : InodeBlocks :=
  match sp.sVersion with
  | .V1 =>
    let block := Function.update (blocks.bV1Ino b) slot (oldIcopyWrite sp.sNative rip)
    { blocks with bV1Ino := Function.update blocks.bV1Ino b block }
  | _ =>
    let block := Function.update (blocks.bV2Ino b) slot (newIcopyWrite sp.sNative rip)
    { blocks with bV2Ino := Function.update blocks.bV2Ino b block }

def rwInodeWrite (rip : Inode H) (blocks : InodeBlocks) : Inode H × InodeBlocks :=
  let b := inodeBlock sp rip.iNum
  let slot := inodeSlot sp rip.iNum
  let rip := touched sp now rip
  let bDirt := if sp.sRdOnly then blocks.bDirt else Function.update blocks.bDirt b true
  ({ rip with iDirt := false }, writeInode sp b slot rip { blocks with bDirt := bDirt })

end ReadWrite

section Fields
variable {H : MfsHeaders} (norm : Bool)

theorem setWidth_back {v w : ℕ} (x : BitVec w) (h : w ≤ v) : (x.setWidth v).setWidth w = x := by
  rw [BitVec.setWidth_setWidth_of_le x h, BitVec.setWidth_eq]

theorem signExtend_back {v w : ℕ} (x : BitVec w) (h : w ≤ v) :
    (x.signExtend v).setWidth w = x := by
  apply BitVec.eq_of_getLsbD_eq
  intro i hi
  have hv : i < v := by omega
  rw [BitVec.getLsbD_setWidth, BitVec.getLsbD_signExtend]
  simp [hi, hv]

theorem gidInt_back (gid : BitVec H.gidBits) : (gidInt gid).setWidth H.gidBits = gid := by
  have hle : H.gidBits ≤ 32 := H.gid_le.trans (by decide)
  rw [gidInt]
  split
  · exact signExtend_back gid hle
  · exact setWidth_back gid hle

theorem conv2_twice {w v : BitVec 32} (hv : v.setWidth 16 = (conv2 norm w).setWidth 16) :
    conv2 norm v = (w.setWidth 16).setWidth 32 := by
  rw [conv2_eq, hv, conv2_eq, setWidth_back _ (by decide), swap2_swap2]

theorem word_back {w v : BitVec 32} {x : BitVec 16} (hw : w.setWidth 16 = x)
    (hv : v.setWidth 16 = (conv2 norm w).setWidth 16) : (conv2 norm v).setWidth 16 = x := by
  rw [conv2_twice norm hv, hw, setWidth_back _ (by decide)]

theorem gid_back (gid : BitVec H.gidBits) :
    (conv2 norm (((conv2 norm (gidInt gid)).setWidth 16).setWidth 32)).setWidth H.gidBits = gid := by
  have hle : H.gidBits ≤ 32 := H.gid_le.trans (by decide)
  rw [conv2_twice norm (setWidth_back _ (by decide)), BitVec.setWidth_setWidth_of_le _ hle,
    BitVec.setWidth_setWidth_of_le _ H.gid_le, gidInt_back]

theorem narrow_back {v w : ℕ} (x : BitVec w) : (x.setWidth v).setWidth w = x ↔ x.toNat < 2 ^ v := by
  rw [BitVec.toNat_eq, BitVec.toNat_setWidth, BitVec.toNat_setWidth]
  have hx := x.isLt
  constructor
  · intro h
    rw [← h]
    exact lt_of_le_of_lt (Nat.mod_le _ _) (Nat.mod_lt _ (by positivity))
  · intro h
    rw [Nat.mod_eq_of_lt h, Nat.mod_eq_of_lt hx]

theorem zone_back {z : BitVec 32} (hz : z.toNat < 65536) :
    conv2 norm (((conv2 norm z).setWidth 16).setWidth 32) = z := by
  rw [conv2_twice norm (setWidth_back _ (by decide))]
  exact (narrow_back z).mpr hz

end Fields

section RoundTrip
variable {H : MfsHeaders} {sp : SuperBlock H} {now : BitVec 32} {rip : Inode H}
  {blocks : InodeBlocks}

def tzones (sp : SuperBlock H) : ℕ :=
  match sp.sVersion with
  | .V1 => V1_NR_TZONES
  | _ => V2_NR_TZONES

structure SameContents (sp : SuperBlock H) (rip rip' : Inode H) : Prop where
  mode : rip'.iMode = rip.iMode
  uid : rip'.iUid = rip.iUid
  gid : rip'.iGid = rip.iGid
  nlinks : rip'.iNlinks = rip.iNlinks
  size : rip'.iSize = rip.iSize
  zones : ∀ i : Fin V2_NR_TZONES, i.val < tzones sp → rip'.iZone i = rip.iZone i

def FitsV1 (sp : SuperBlock H) (rip : Inode H) : Prop :=
  sp.sVersion = .V1 → rip.iNlinks.toNat < 256 ∧ rip.iGid.toNat < 256

theorem old_round_trip (norm : Bool) (slot : Inode H)
    (hz : ∀ i : Fin V2_NR_TZONES, i.val < V1_NR_TZONES → (rip.iZone i).toNat < 65536)
    (hsp : tzones sp = V1_NR_TZONES) :
    SameContents sp rip (oldIcopyRead norm slot (oldIcopyWrite norm rip)) ↔
      rip.iNlinks.toNat < 256 ∧ rip.iGid.toNat < 256 := by
  constructor
  · intro h
    exact ⟨(narrow_back (v := 8) rip.iNlinks).mp h.nlinks, (narrow_back (v := 8) rip.iGid).mp h.gid⟩
  · rintro ⟨hnlinks, hgid⟩
    exact {
      mode := word_back norm (setWidth_back _ (by decide)) (setWidth_back _ (by decide))
      uid := word_back norm (signExtend_back _ (by decide)) (signExtend_back _ (by decide))
      gid := (narrow_back (v := 8) rip.iGid).mpr hgid
      nlinks := (narrow_back (v := 8) rip.iNlinks).mpr hnlinks
      size := conv4_conv4 norm rip.iSize
      zones := fun i hi => by
        rw [hsp] at hi
        simp only [oldIcopyRead, dif_pos hi, oldIcopyWrite]
        exact zone_back norm (hz i hi) }

theorem new_round_trip (norm : Bool) (slot : Inode H) :
    SameContents sp rip (newIcopyRead norm sp slot (newIcopyWrite norm rip)) where
  mode := word_back norm (setWidth_back _ (by decide)) (setWidth_back _ (by decide))
  uid := word_back norm (signExtend_back _ (by decide)) (signExtend_back _ (by decide))
  gid := gid_back norm rip.iGid
  nlinks := word_back norm (signExtend_back _ (by decide)) (setWidth_back _ (by decide))
  size := conv4_conv4 norm rip.iSize
  zones i _ := conv4_conv4 norm (rip.iZone i)

theorem inode_place {n n' : ℕ} (hn : 1 ≤ n) (hn' : 1 ≤ n')
    (hblock : inodeBlock sp n = inodeBlock sp n') (hslot : inodeSlot sp n = inodeSlot sp n') :
    n = n' := by
  have hdiv : (n - 1) / inodesPerBlock sp = (n' - 1) / inodesPerBlock sp :=
    Nat.add_right_cancel hblock
  have hmod : (n - 1) % inodesPerBlock sp = (n' - 1) % inodesPerBlock sp := hslot
  have heq := Nat.div_add_mod (n - 1) (inodesPerBlock sp)
  rw [hdiv, hmod, Nat.div_add_mod] at heq
  omega

theorem update_place {α : Type} (f : ℕ → ℕ → α) {n n' : ℕ} (hn : 1 ≤ n) (hn' : 1 ≤ n')
    (hne : n' ≠ n) (a : α) :
    Function.update f (inodeBlock sp n) (Function.update (f (inodeBlock sp n)) (inodeSlot sp n) a)
      (inodeBlock sp n') (inodeSlot sp n') = f (inodeBlock sp n') (inodeSlot sp n') := by
  by_cases hblock : inodeBlock sp n' = inodeBlock sp n
  · have hslot : inodeSlot sp n' ≠ inodeSlot sp n := fun hslot => hne (inode_place hn' hn hblock hslot)
    rw [hblock, Function.update_self, Function.update_of_ne hslot]
  · rw [Function.update_of_ne hblock]

theorem touched_same (sp : SuperBlock H) (now : BitVec 32) (rip : Inode H) :
    (touched sp now rip).iNum = rip.iNum ∧ SameContents sp rip (touched sp now rip) ∧
    SameContents sp (touched sp now rip) rip := by
  simp only [touched, updateTimes]
  split
  · split
    · exact ⟨rfl, ⟨rfl, rfl, rfl, rfl, rfl, fun _ _ => rfl⟩, ⟨rfl, rfl, rfl, rfl, rfl, fun _ _ => rfl⟩⟩
    · exact ⟨rfl, ⟨rfl, rfl, rfl, rfl, rfl, fun _ _ => rfl⟩, ⟨rfl, rfl, rfl, rfl, rfl, fun _ _ => rfl⟩⟩
  · exact ⟨rfl, ⟨rfl, rfl, rfl, rfl, rfl, fun _ _ => rfl⟩, ⟨rfl, rfl, rfl, rfl, rfl, fun _ _ => rfl⟩⟩

theorem SameContents.trans {r₁ r₂ r₃ : Inode H} (h₁ : SameContents sp r₁ r₂)
    (h₂ : SameContents sp r₂ r₃) : SameContents sp r₁ r₃ :=
  ⟨h₂.mode.trans h₁.mode, h₂.uid.trans h₁.uid, h₂.gid.trans h₁.gid, h₂.nlinks.trans h₁.nlinks,
    h₂.size.trans h₁.size, fun i hi => (h₂.zones i hi).trans (h₁.zones i hi)⟩

theorem read_written (slot : Inode H) (hnum : slot.iNum = rip.iNum) :
    rwInodeRead sp slot (rwInodeWrite sp now rip blocks).2 =
      { (match sp.sVersion with
        | .V1 => oldIcopyRead sp.sNative slot (oldIcopyWrite sp.sNative (touched sp now rip))
        | _ => newIcopyRead sp.sNative sp slot (newIcopyWrite sp.sNative (touched sp now rip))) with
        iDirt := false } := by
  simp only [rwInodeRead, rwInodeWrite, writeInode, hnum]
  split <;> simp only [Function.update_self]

theorem read_others (hnum : 1 ≤ rip.iNum) {slot : Inode H} (hslot : 1 ≤ slot.iNum)
    (hne : slot.iNum ≠ rip.iNum) :
    rwInodeRead sp slot (rwInodeWrite sp now rip blocks).2 = rwInodeRead sp slot blocks := by
  simp only [rwInodeRead, rwInodeWrite, writeInode]
  split <;> simp only [update_place _ hnum hslot hne]

theorem SameContents.fits {rip' : Inode H} (h : SameContents sp rip rip') :
    FitsV1 sp rip' ↔ FitsV1 sp rip := by
  rw [FitsV1, FitsV1, h.nlinks, h.gid]

theorem same_back
    (hz : sp.sVersion = .V1 → ∀ i : Fin V2_NR_TZONES, i.val < V1_NR_TZONES →
      (rip.iZone i).toNat < 65536)
    (slot : Inode H) (hnum : slot.iNum = rip.iNum) :
    SameContents sp rip (rwInodeRead sp slot (rwInodeWrite sp now rip blocks).2) ↔
      FitsV1 sp rip := by
  obtain ⟨-, hsame, hback⟩ := touched_same sp now rip
  have htouched : SameContents sp rip (rwInodeRead sp slot (rwInodeWrite sp now rip blocks).2) ↔
      SameContents sp (touched sp now rip)
        (rwInodeRead sp slot (rwInodeWrite sp now rip blocks).2) :=
    ⟨fun h => hback.trans h, fun h => hsame.trans h⟩
  rw [htouched, ← hsame.fits, read_written slot hnum]
  by_cases hv : sp.sVersion = .V1
  · have htz : tzones sp = V1_NR_TZONES := by
      rw [tzones, hv]
    have hfits : ∀ i : Fin V2_NR_TZONES, i.val < V1_NR_TZONES →
        ((touched sp now rip).iZone i).toNat < 65536 := fun i hi => by
      rw [hsame.zones i (by rw [htz]; exact hi)]
      exact hz hv i hi
    have hround := old_round_trip sp.sNative slot hfits htz
    rw [FitsV1, hv]
    exact ⟨fun h _ => hround.mp ⟨h.mode, h.uid, h.gid, h.nlinks, h.size, h.zones⟩, fun h => by
      obtain ⟨hm, hu, hg, hn, hs, hz⟩ := hround.mpr (h rfl)
      exact ⟨hm, hu, hg, hn, hs, hz⟩⟩
  · refine iff_of_true ?_ fun h => absurd h hv
    obtain ⟨hm, hu, hg, hn, hs, hz⟩ :=
      @new_round_trip _ sp (touched sp now rip) sp.sNative slot
    split
    · rename_i h1
      exact absurd h1 hv
    · exact ⟨hm, hu, hg, hn, hs, hz⟩

theorem inode_round_trip (sp : SuperBlock H) (now : BitVec 32) (rip : Inode H)
    (blocks : InodeBlocks) (h : 1 ≤ rip.iNum)
    (hz : ∀ i : Fin V2_NR_TZONES, i.val < tzones sp → (rip.iZone i).toNat < sp.sZones) :
    ((∀ slot : Inode H, slot.iNum = rip.iNum →
        SameContents sp rip (rwInodeRead sp slot (rwInodeWrite sp now rip blocks).2)) ∧
      ∀ slot : Inode H, 1 ≤ slot.iNum → slot.iNum ≠ rip.iNum →
        rwInodeRead sp slot (rwInodeWrite sp now rip blocks).2 = rwInodeRead sp slot blocks) ↔
      FitsV1 sp rip := by
  have hz₁ : sp.sVersion = .V1 → ∀ i : Fin V2_NR_TZONES, i.val < V1_NR_TZONES →
      (rip.iZone i).toNat < 65536 := by
    intro hv i hi
    exact (hz i (by rw [tzones, hv]; exact hi)).trans (sp.zones_v1 hv)
  constructor
  · rintro ⟨hback, -⟩
    exact (same_back hz₁ rip rfl).mp (hback rip rfl)
  · intro hfits
    exact ⟨fun slot hnum => (same_back hz₁ slot hnum).mpr hfits,
      fun slot hslot hne => read_others h hslot hne⟩

end RoundTrip

def charHeaders : MfsHeaders := ⟨1024, 16, by decide, 8, true, by decide⟩

def v1Super : SuperBlock charHeaders :=
  ⟨.V1, true, false, 1024, 500, 1, 1, 1000, 1, by decide, fun _ => rfl, by decide, fun _ => by decide⟩

def linkedInode (links : BitVec 16) : Inode charHeaders :=
  ⟨0x81A4, links, 2, 3, 20, 0, 0, 0, fun _ => 0, 1, 5, 1, 7, 512, true, 0, false, false, false, false⟩

def noBlocks : InodeBlocks :=
  ⟨fun _ _ => ⟨0, 0, 0, 0, 0, 0, fun _ => 0⟩, fun _ _ => ⟨0, 0, 0, 0, 0, 0, 0, 0, fun _ => 0⟩,
    fun _ => false⟩

theorem inode_round_trip_linked :
    (rwInodeRead v1Super (linkedInode 0)
      (rwInodeWrite v1Super 0 (linkedInode 255) noBlocks).2).iNlinks = 255 :=
  (((inode_round_trip v1Super 0 (linkedInode 255) noBlocks (by decide) (by decide)).mpr
    fun _ => by decide).1 (linkedInode 0) rfl).nlinks

theorem links_truncated :
    (rwInodeRead v1Super (linkedInode 256)
      (rwInodeWrite v1Super 0 (linkedInode 256) noBlocks).2).iNlinks = 0 ∧
    ¬ SameContents v1Super (linkedInode 256) (rwInodeRead v1Super (linkedInode 256)
      (rwInodeWrite v1Super 0 (linkedInode 256) noBlocks).2) :=
  ⟨by decide, fun h => absurd h.nlinks (by decide)⟩

end Mfs
