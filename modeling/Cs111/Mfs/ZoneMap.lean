import Cs111.Mfs.Cache
import Cs111.Lib.LinkTree
import Cs111.Mfs.InodeCache

namespace Mfs

def NO_ZONE : BitVec 32 := 0
def NO_BIT : ℕ := 0
def WMAP_FREE : BitVec 32 := 1
def V2_ZONE_NUM_SIZE : ℕ := 4

structure ZoneSuper (H : MfsHeaders) extends SuperBlock H where
  sLogZoneSize : ℕ
  sFirstdatazone : ℕ
  first_gt : 4 < sFirstdatazone
  first_lt : sFirstdatazone < sZones
  size_mod : sBlockSize % 512 = 0
  -- the blocks of a device are counted in a block_t
  blocks_le : sZones * 2 ^ sLogZoneSize ≤ 2 ^ 32

instance : NeZero V2_NR_TZONES := ⟨by decide⟩

inductive Status where
  | OK | ENOSPC | EFBIG
  deriving DecidableEq

abbrev IndBlock := ℕ → BitVec 16

structure ZoneState (H : MfsHeaders) where
  rip : Inode H
  block : BitVec 32 → IndBlock
  zmap : Finset ℕ
  sZsearch : ℕ
  errCode : Status

section State
variable {H : MfsHeaders}

def ZoneState.zone (s : ZoneState H) (i : ℕ) : BitVec 32 := s.rip.iZone (Fin.ofNat V2_NR_TZONES i)

def ZoneState.setZone (i : ℕ) (z : BitVec 32) (s : ZoneState H) : ZoneState H :=
  { s with rip.iZone := Function.update s.rip.iZone (Fin.ofNat V2_NR_TZONES i) z }

def ZoneState.setBlock (b : BitVec 32) (bp : IndBlock) (s : ZoneState H) : ZoneState H :=
  { s with block := Function.update s.block b bp }

def ZoneState.dirtied (s : ZoneState H) : ZoneState H := { s with rip.iDirt := true }

end State

-- sp is rip->i_sp, the superblock of rip->i_dev.
section Zones
variable {H : MfsHeaders} (sp : ZoneSuper H)

def bV2Ind (bp : IndBlock) (index : ℕ) : BitVec 32 := halves (bp (2 * index + 1)) (bp (2 * index))

def indirEntry (bp : IndBlock) (index : ℕ) : BitVec 32 :=
  match sp.sVersion with
  | .V1 => conv2 sp.sNative ((bp index).setWidth 32)
  | _ => conv4 sp.sNative (bV2Ind bp index)

def rdIndir (bp : IndBlock) (index : ℕ) : Except Fault (BitVec 32) :=
  let zone := indirEntry sp bp index
  if zone ≠ NO_ZONE ∧ (zone.toNat < sp.sFirstdatazone ∨ zone.toNat ≥ sp.sZones) then .error .panic
  else .ok zone

def wrIndir (bp : IndBlock) (index : ℕ) (zone : BitVec 32) : IndBlock :=
  match sp.sVersion with
  | .V1 => Function.update bp index ((conv2 sp.sNative zone).setWidth 16)
  | _ =>
    let w := conv4 sp.sNative zone
    Function.update (Function.update bp (2 * index) (w.setWidth 16)) (2 * index + 1)
      ((w.sshiftRight 16).setWidth 16)

def emptyIndir (bp : IndBlock) : Bool :=
  (List.range (sp.sBlockSize / V2_ZONE_NUM_SIZE)).all fun i => bV2Ind bp i = NO_ZONE

def zeroBlock : IndBlock := fun _ => 0

def zoneBlock (z : BitVec 32) : BitVec 32 := z <<< sp.sLogZoneSize

def allocZone (z : BitVec 32) (s : ZoneState H) : Except Fault (BitVec 32 × ZoneState H) :=
  let bit := if z.toNat = sp.sFirstdatazone then s.sZsearch
    else (z - BitVec.ofNat 32 (sp.sFirstdatazone - 1)).toNat
  if sp.sRdOnly then .error .panic
  else
    match allocBit sp.toSuperBlock s.zmap (sp.sZones - (sp.sFirstdatazone - 1)) sp.sZmapBlocks bit with
    | none => .ok (NO_ZONE, { s with errCode := .ENOSPC })
    | some b =>
      let s := { s with zmap := insert b s.zmap }
      if b = NO_BIT then .ok (NO_ZONE, { s with errCode := .ENOSPC })
      else
        .ok (BitVec.ofNat 32 (sp.sFirstdatazone - 1 + b),
          { s with sZsearch := if z.toNat = sp.sFirstdatazone then b else s.sZsearch })

def zoneBit (numb : BitVec 32) : ℕ := numb.toNat - (sp.sFirstdatazone - 1)

def freeZone (numb : BitVec 32) (s : ZoneState H) : Except Fault (ZoneState H) :=
  if numb.toNat < sp.sFirstdatazone ∨ numb.toNat ≥ sp.sZones then .ok s
  else
    let bit := zoneBit sp numb
    if sp.sRdOnly ∨ bit ∉ s.zmap then .error .panic
    else
      .ok { s with
        zmap := s.zmap.erase bit
        sZsearch := if bit < s.sZsearch then bit else s.sZsearch }

def relZone (position : ℕ) : ℕ := (position / sp.sBlockSize) >>> sp.sLogZoneSize
def blockOff (position : ℕ) : ℕ :=
  position / sp.sBlockSize - (relZone sp position) <<< sp.sLogZoneSize

def blockAt (z : BitVec 32) (position : ℕ) : BitVec 32 :=
  zoneBlock sp z + BitVec.ofNat 32 (blockOff sp position)

def readIndirect (s : ZoneState H) (z : BitVec 32) (ex position : ℕ) : Except Fault (BitVec 32) :=
  if z = NO_ZONE then .ok (BitVec.ofNat 32 NO_BLOCK)
  else do
    let z ← rdIndir sp (s.block (zoneBlock sp z)) ex
    return if z = NO_ZONE then BitVec.ofNat 32 NO_BLOCK else blockAt sp z position

def readMap (s : ZoneState H) (position : ℕ) : Except Fault (BitVec 32) :=
  let zone := relZone sp position
  let dzones := s.rip.iNdzones
  let nrIndirects := s.rip.iNindirs
  if zone < dzones then
    let z := s.zone zone
    .ok (if z = NO_ZONE then BitVec.ofNat 32 NO_BLOCK else blockAt sp z position)
  else
    let excess := zone - dzones
    if excess < nrIndirects then readIndirect sp s (s.zone dzones) excess position
    else
      let z := s.zone (dzones + 1)
      if z = NO_ZONE then .ok (BitVec.ofNat 32 NO_BLOCK)
      else do
        let excess := excess - nrIndirects
        let z ← rdIndir sp (s.block (zoneBlock sp z)) (excess / nrIndirects)
        readIndirect sp s z (excess % nrIndirects) position

end Zones

section Write
variable {H : MfsHeaders} (sp : ZoneSuper H) (op : BitVec 32)

-- Where the single indirect zone is kept: in the inode, or in a block at an index.
inductive IndirRef where
  | single
  | inDouble (b : BitVec 32) (indEx : ℕ)

def setIndir (ref : IndirRef) (z1 : BitVec 32) (s : ZoneState H) : ZoneState H :=
  match ref with
  | .single => s.setZone s.rip.iNdzones z1
  | .inDouble b indEx => s.setBlock b (wrIndir sp (s.block b) indEx z1)

def makeIndir (ref : IndirRef) (z1 : BitVec 32) (s : ZoneState H) :
    Except Fault (BitVec 32 × Bool × ZoneState H) :=
  if z1 = NO_ZONE ∧ op &&& WMAP_FREE = 0 then do
    let (z1, s) ← allocZone sp (s.zone 0) s
    return (z1, true, setIndir sp ref z1 s)
  else .ok (z1, false, s)

def freeEntry (b : BitVec 32) (ex : ℕ) (s : ZoneState H) : Except Fault (ZoneState H) := do
  let oldZone ← rdIndir sp (s.block b) ex
  if oldZone ≠ NO_ZONE then
    let s ← freeZone sp oldZone s
    return s.setBlock b (wrIndir sp (s.block b) ex NO_ZONE)
  else return s

-- What a block marked CLEAN is when it is fetched again is not known: stale tells it.
variable (stale : BitVec 32 → IndBlock)

def freeIndir (ref : IndirRef) (z1 : BitVec 32) (s : ZoneState H) :
    Except Fault (BitVec 32 × ZoneState H) :=
  let b := zoneBlock sp z1
  if emptyIndir sp (s.block b) then do
    let s ← freeZone sp z1 s
    return (NO_ZONE, (setIndir sp ref NO_ZONE s).setBlock b (stale b))
  else .ok (z1, s)

def fillIndir (ref : IndirRef) (z1 : BitVec 32) (newInd : Bool) (ex : ℕ) (newZone : BitVec 32)
    (s : ZoneState H) : Except Fault (BitVec 32 × ZoneState H) :=
  if z1 = NO_ZONE then .ok (z1, s)
  else
    let b := zoneBlock sp z1
    let s := if newInd then s.setBlock b zeroBlock else s
    if op &&& WMAP_FREE ≠ 0 then do
      let s ← freeEntry sp b ex s
      freeIndir sp stale ref z1 s
    else .ok (z1, s.setBlock b (wrIndir sp (s.block b) ex newZone))

def mapDirect (zindex : ℕ) (newZone : BitVec 32) (s : ZoneState H) :
    Except Fault (Status × ZoneState H) :=
  if s.zone zindex ≠ NO_ZONE ∧ op &&& WMAP_FREE ≠ 0 then do
    let s ← freeZone sp (s.zone zindex) s
    return (.OK, s.setZone zindex NO_ZONE)
  else .ok (.OK, s.setZone zindex newZone)

def mapSingle (excess : ℕ) (newZone : BitVec 32) (s : ZoneState H) :
    Except Fault (Status × ZoneState H) := do
  let (z1, newInd, s) ← makeIndir sp op .single (s.zone s.rip.iNdzones) s
  if newInd ∧ z1 = NO_ZONE then return (s.errCode, s)
  else
    let (_, s) ← fillIndir sp op stale .single z1 newInd excess newZone s
    return (.OK, s)

def makeDouble (s : ZoneState H) : Except Fault (BitVec 32 × Bool × ZoneState H) :=
  let z := s.zone (s.rip.iNdzones + 1)
  if z = NO_ZONE ∧ op &&& WMAP_FREE = 0 then do
    let (z, s) ← allocZone sp (s.zone 0) s
    if z = NO_ZONE then return (z, true, s)
    else return (z, true, s.setZone (s.rip.iNdzones + 1) z)
  else .ok (z, false, s)

def dropDouble (z1 z2 : BitVec 32) (s : ZoneState H) : Except Fault (ZoneState H) :=
  let b := zoneBlock sp z2
  if z1 = NO_ZONE ∧ z2 ≠ NO_ZONE ∧ emptyIndir sp (s.block b) then do
    let s ← freeZone sp z2 s
    return (s.setZone (s.rip.iNdzones + 1) NO_ZONE).setBlock b (stale b)
  else .ok s

def rdDouble (z : BitVec 32) (indEx : ℕ) (s : ZoneState H) : Except Fault (BitVec 32) :=
  if z = NO_ZONE then .ok NO_ZONE else rdIndir sp (s.block (zoneBlock sp z)) indEx

def mapInDouble (z z2 : BitVec 32) (newDbl : Bool) (indEx ex : ℕ) (newZone : BitVec 32)
    (s : ZoneState H) : Except Fault (Status × ZoneState H) := do
  let b := zoneBlock sp z
  let s := if newDbl then s.setBlock b zeroBlock else s
  let z1 ← rdDouble sp z indEx s
  let (z1, newInd, s) ← makeIndir sp op (.inDouble b indEx) z1 s
  if newInd ∧ z1 = NO_ZONE then return (s.errCode, s)
  else
    let (z1, s) ← fillIndir sp op stale (.inDouble b indEx) z1 newInd ex newZone s
    let s ← dropDouble sp stale z1 z2 s
    return (.OK, s)

def mapDouble (excess : ℕ) (newZone : BitVec 32) (s : ZoneState H) :
    Except Fault (Status × ZoneState H) := do
  let z2 := s.zone (s.rip.iNdzones + 1)
  let (z, newDbl, s) ← makeDouble sp op s
  if newDbl ∧ z = NO_ZONE then return (s.errCode, s)
  else
    let nrIndirects := s.rip.iNindirs
    let indEx := excess / nrIndirects
    if indEx ≥ nrIndirects then return (.EFBIG, s)
    else mapInDouble sp op stale z z2 newDbl indEx (excess % nrIndirects) newZone s

def writeMap (position : ℕ) (newZone : BitVec 32) (s : ZoneState H) :
    Except Fault (Status × ZoneState H) :=
  let s := s.dirtied
  let zone := relZone sp position
  let zones := s.rip.iNdzones
  let nrIndirects := s.rip.iNindirs
  if zone < zones then mapDirect sp op zone newZone s
  else if zone - zones < nrIndirects then mapSingle sp op stale (zone - zones) newZone s
  else mapDouble sp op stale (zone - zones - nrIndirects) newZone s

end Write

end Mfs

namespace Mfs
open LinkTree

section Entries
variable {H : MfsHeaders} {sp : ZoneSuper H} {bp : IndBlock} {z : BitVec 32} {i j : ℕ}

def Legal (sp : ZoneSuper H) (z : BitVec 32) : Prop :=
  sp.sFirstdatazone ≤ z.toNat ∧ z.toNat < sp.sZones

theorem Legal.ne_zone (h : Legal sp z) : z ≠ NO_ZONE := by
  rintro rfl
  have h₁ : sp.sFirstdatazone ≤ 0 := h.1
  have h₂ := sp.first_gt
  omega

theorem Legal.fits (h : Legal sp z) (hv : sp.sVersion = .V1) :
    (z.setWidth 16).setWidth 32 = z := by
  have hlt : z.toNat < 65536 := h.2.trans (sp.zones_v1 hv)
  apply BitVec.eq_of_toNat_eq
  simp only [BitVec.toNat_setWidth]
  omega

theorem setWidth_small (x : BitVec 16) : ((x.setWidth 32 : BitVec 32)).setWidth 16 = x :=
  setWidth_back x (by decide)

theorem indirEntry_v1 (hv : sp.sVersion = .V1) :
    indirEntry sp bp i = conv2 sp.sNative ((bp i).setWidth 32) := by
  simp only [indirEntry, hv]

theorem indirEntry_long (hv : sp.sVersion ≠ .V1) :
    indirEntry sp bp i = conv4 sp.sNative (bV2Ind bp i) := by
  rw [indirEntry]
  split
  · contradiction
  · rfl

theorem wrIndir_v1 (hv : sp.sVersion = .V1) :
    wrIndir sp bp i z = Function.update bp i ((conv2 sp.sNative z).setWidth 16) := by
  simp only [wrIndir, hv]

theorem wrIndir_long (hv : sp.sVersion ≠ .V1) : wrIndir sp bp i z =
    Function.update (Function.update bp (2 * i) ((conv4 sp.sNative z).setWidth 16)) (2 * i + 1)
      (((conv4 sp.sNative z).sshiftRight 16).setWidth 16) := by
  rw [wrIndir]
  split
  · contradiction
  · rfl

theorem entry_written (h : z = NO_ZONE ∨ Legal sp z) : indirEntry sp (wrIndir sp bp i z) i = z := by
  by_cases hv : sp.sVersion = .V1
  · rw [indirEntry_v1 hv, wrIndir_v1 hv, Function.update_self, conv2_eq, setWidth_small, conv2_eq,
      setWidth_small, swap2_swap2]
    cases h with
    | inl h =>
      subst h
      rfl
    | inr h => exact h.fits hv
  · rw [indirEntry_long hv, wrIndir_long hv, bV2Ind, Function.update_self,
      Function.update_of_ne (by omega), Function.update_self, halves_of, conv4_conv4]

theorem entry_others (h : j ≠ i) : indirEntry sp (wrIndir sp bp i z) j = indirEntry sp bp j := by
  by_cases hv : sp.sVersion = .V1
  · rw [indirEntry_v1 hv, indirEntry_v1 hv, wrIndir_v1 hv, Function.update_of_ne h]
  · rw [indirEntry_long hv, indirEntry_long hv, wrIndir_long hv, bV2Ind, bV2Ind,
      Function.update_of_ne (by omega), Function.update_of_ne (by omega),
      Function.update_of_ne (by omega), Function.update_of_ne (by omega)]

theorem halves_zero {hi lo : BitVec 16} : halves hi lo = 0 ↔ hi = 0 ∧ lo = 0 := by
  constructor
  · intro h
    exact ⟨by rw [← high_halves hi lo, h]; rfl, by rw [← low_halves hi lo, h]; rfl⟩
  · rintro ⟨rfl, rfl⟩
    rfl

theorem conv4_zero (norm : Bool) {x : BitVec 32} : conv4 norm x = 0 ↔ x = 0 := by
  have h0 : conv4 norm 0 = 0 := by cases norm <;> rfl
  constructor
  · intro h
    rw [← conv4_conv4 norm x, h, h0]
  · rintro rfl
    exact h0

theorem conv2_zero (norm : Bool) {x : BitVec 16} : conv2 norm (x.setWidth 32) = 0 ↔ x = 0 := by
  constructor
  · intro h
    rw [conv2_eq, setWidth_small] at h
    have hs : swap2 norm x = 0 := by
      rw [← setWidth_small (swap2 norm x), h]
      rfl
    rw [← swap2_swap2 norm x, hs]
    cases norm <;> rfl
  · rintro rfl
    cases norm <;> rfl

theorem entry_zero_v1 (hv : sp.sVersion = .V1) : indirEntry sp bp i = 0 ↔ bp i = 0 := by
  rw [indirEntry_v1 hv, conv2_zero]

theorem entry_zero_long (hv : sp.sVersion ≠ .V1) :
    indirEntry sp bp i = 0 ↔ bp (2 * i + 1) = 0 ∧ bp (2 * i) = 0 := by
  rw [indirEntry_long hv, conv4_zero, bV2Ind, halves_zero]

theorem entry_zeroBlock : indirEntry sp zeroBlock i = 0 := by
  by_cases hv : sp.sVersion = .V1
  · exact (entry_zero_v1 hv).mpr rfl
  · exact (entry_zero_long hv).mpr ⟨rfl, rfl⟩

def indirects (sp : ZoneSuper H) : ℕ := sNindirs sp.toSuperBlock

theorem indirects_pos : 0 < indirects sp := by
  have h₁ := sp.block_ge
  have h₂ := H.static_ge
  rw [indirects, sNindirs]
  split <;> omega

theorem empty_words : emptyIndir sp bp = true ↔
    ∀ i < sp.sBlockSize / V2_ZONE_NUM_SIZE, bp (2 * i + 1) = 0 ∧ bp (2 * i) = 0 := by
  simp only [emptyIndir, List.all_eq_true, List.mem_range, decide_eq_true_eq]
  exact forall₂_congr fun _ _ => halves_zero

theorem empty_iff : emptyIndir sp bp = true ↔ ∀ i < indirects sp, indirEntry sp bp i = 0 := by
  have hmod := sp.size_mod
  rw [empty_words, indirects, sNindirs, V2_ZONE_NUM_SIZE]
  by_cases hv : sp.sVersion = .V1
  · have hsize : sp.sBlockSize = H.staticBlockSize := sp.block_size (by rw [hv]; decide)
    rw [if_pos hv, ← hsize]
    simp only [entry_zero_v1 hv]
    constructor
    · intro h i hi
      obtain ⟨hodd, heven⟩ := h (i / 2) (by omega)
      rcases Nat.mod_two_eq_zero_or_one i with hm | hm
      · rwa [show 2 * (i / 2) = i by omega] at heven
      · rwa [show 2 * (i / 2) + 1 = i by omega] at hodd
    · intro h i hi
      exact ⟨h _ (by omega), h _ (by omega)⟩
  · rw [if_neg hv]
    simp only [entry_zero_long hv]

theorem rdIndir_legal (h : indirEntry sp bp i = 0 ∨ Legal sp (indirEntry sp bp i)) :
    rdIndir sp bp i = .ok (indirEntry sp bp i) := by
  rw [rdIndir, if_neg]
  rintro ⟨hne, hout⟩
  cases h with
  | inl h => exact hne h
  | inr h => exact absurd h (by rw [Legal]; omega)

theorem zoneBlock_inj {z z' : BitVec 32} (hz : Legal sp z) (hz' : Legal sp z')
    (h : zoneBlock sp z = zoneBlock sp z') : z = z' := by
  have hle := sp.blocks_le
  have hpos : 0 < 2 ^ sp.sLogZoneSize := Nat.two_pow_pos _
  have hlt : ∀ y : BitVec 32, Legal sp y → y.toNat * 2 ^ sp.sLogZoneSize < 2 ^ 32 := fun y hy =>
    ((Nat.mul_lt_mul_right hpos).mpr hy.2).trans_le hle
  have heq := congrArg BitVec.toNat h
  rw [zoneBlock, zoneBlock, BitVec.toNat_shiftLeft, BitVec.toNat_shiftLeft, Nat.shiftLeft_eq,
    Nat.shiftLeft_eq, Nat.mod_eq_of_lt (hlt z hz), Nat.mod_eq_of_lt (hlt z' hz')] at heq
  exact BitVec.eq_of_toNat_eq (Nat.eq_of_mul_eq_mul_right hpos heq)

theorem zoneBit_inj {z z' : BitVec 32} (hz : Legal sp z) (hz' : Legal sp z')
    (h : zoneBit sp z = zoneBit sp z') : z = z' := by
  have h₁ := hz.1
  have h₂ := hz'.1
  rw [zoneBit, zoneBit] at h
  exact BitVec.eq_of_toNat_eq (by omega)

end Entries

end Mfs
