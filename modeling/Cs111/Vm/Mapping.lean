import Cs111.Vm.PhysBlock

namespace Vm
open Kernel (Fault kassert)

variable (o : Outcomes)

section Free
variable (r : RegionId)

def sub32 (a b : ℕ) : ℕ := if b ≤ a then a - b else a + 2 ^ 32 - b

def cutBlock (p : PhysrId) (sublen : ℕ) (m : Memory) : Except Fault Memory := do
  let vr ← deref (m.region r)
  let pr ← deref (m.physr p)
  let pb ← deref (m.block pr.ph)
  kassert (pb.refcount == 1)
  let gone : MemList := ⟨pb.phys, sublen⟩
  let m := if hasAny vr.flags VR_DIRECT then m.leave vr.flags gone else m.freeMem gone
  let length := sub32 pb.length sublen
  kassert (paged (pr.offset + sublen) && paged (pb.phys + sublen) && paged length)
  pure ((m.setPhysr p { pr with offset := pr.offset + sublen }).setBlock pr.ph
    { pb with phys := pb.phys + sublen, length := length })

def subfreeLoop (len : ℕ) : ℕ → Option PhysrId → Memory → Except Fault (VmReply × Memory)
  | 0, _, _ => .error .hang
  | _ + 1, none, m => pure (.OK, m)
  | fuel + 1, some p, m => do
    let next ← physrIncr m r p
    let pr ← deref (m.physr p)
    let pb ← deref (m.block pr.ph)
    if pr.offset ≥ len then pure (.OK, m)
    else if pr.offset + pb.length ≤ len then do
      let m ← dropPhysr o r p m
      subfreeLoop len fuel (m.tree r).head? m
    else do
      kassert (decide (pb.refcount > 0))
      let sublen := len - pr.offset
      kassert (paged sublen)
      if pb.refcount > 1 then do
        let (newpr, m) ← mapClonePhBlock o r p sublen m
        match newpr with
        | none => pure (.ENOMEM, m)
        | some q => do
          let m ← cutBlock r q sublen m
          subfreeLoop len fuel (some q) m
      else do
        let m ← cutBlock r p sublen m
        subfreeLoop len fuel next m

def mapSubfree (len : ℕ) (m : Memory) : Except Fault (VmReply × Memory) :=
  subfreeLoop o r len o.fuel (m.tree r).head? m

def mapFree (m : Memory) : Except Fault (VmReply × Memory) := do
  let vr ← deref (m.region r)
  let (reply, m) ← mapSubfree o r vr.length.toNat m
  if reply = .OK then pure (.OK, m.freeRegion r) else pure (reply, m)

end Free

def mapFreeAll (v : ProcId) : List RegionId → Memory → Except Fault Memory
  | [], m => pure (m.setVmRegions v [])
  | r :: rest, m => do
    let (_, m) ← mapFree o r m
    mapFreeAll v rest (m.setVmRegions v rest)

def mapFreeProc (v : ProcId) (m : Memory) : Except Fault Memory :=
  mapFreeAll o v (m.vmRegions v) m

def regionsOf (m : Memory) (v : ProcId) : Except Fault (List MappedRegion) :=
  (m.vmRegions v).mapM fun r => deref (m.region r)

def insertAt (regions : List RegionId) (prev : Option ℕ) (r : RegionId) : List RegionId :=
  regions.take (prevCount prev) ++ r :: regions.drop (prevCount prev)

section PageRegion
variable (v : ProcId) (call : PageCall)

def mapWhat (n : RegionId) (startv : VirBytes) (m : Memory) : Except Fault (VmReply × Memory) :=
  if call.what ≠ MAP_NONE then do
    kassert (decide (call.what % VM_PAGE_SIZE = 0))
    kassert (decide (startv % VM_PAGE_SIZE = 0))
    kassert (!hasAny call.mapflags MF_PREALLOC)
    mapNewPhysblock o n 0 call.length.toNat (some call.what.toNat) 0 m
  else pure (.OK, m)

def fillRegion (n : RegionId) (startv : VirBytes) (m : Memory) :
    Except Fault (VmReply × Memory) := do
  let (reply, m) ← mapWhat o call n startv m
  if reply = .OK ∧ hasAny call.flags VR_ANON ∧ hasAny call.mapflags MF_PREALLOC then
    mapHandleMemory o n 0 call.length.toNat true m
  else pure (reply, m)

def newRegion (n : RegionId) (startv : VirBytes) (prev : Option ℕ) (m : Memory) :
    Except Fault (Option RegionId × Memory) := do
  let m := m.setRegion n ⟨⟨startv, call.length, call.flags, VRT_NONE, []⟩, v⟩
  let (reply, m) ← fillRegion o call n startv m
  if reply = .OK then do
    assertOrder ((← regionsOf m v).map (·.toVirRegion)) prev startv
    pure (some n, m.setVmRegions v (insertAt (m.vmRegions v) prev n))
  else pure (none, m.freeRegion n)

def mapPageRegionOf (m : Memory) : Except Fault (Option RegionId × Memory) := do
  kassert (decide (call.length % VM_PAGE_SIZE = 0))
  let regions ← regionsOf m v
  let slot ← regionFindSlot call.minv call.maxv call.length (regions.map (·.toVirRegion))
  match slot with
  | none => pure (none, m)
  | some (startv, prev) => do
    let (newregion, m) ← slaballoc o .newregion m.region m
    match newregion with
    | none => pure (none, m)
    | some n => do
      -- nothing refers to the tree but the region
      let (phavl, m) ← slaballoc o .phavl (fun _ => (none : Option Unit)) m
      match phavl with
      | none => pure (none, m)
      | some _ => newRegion o v call n startv prev m

end PageRegion

section Copy
variable (r : RegionId)

def copyPhysrs (n : RegionId) : ℕ → Option PhysrId → Memory → Except Fault (Bool × Memory)
  | 0, _, _ => .error .hang
  | _ + 1, none, m => pure (true, m)
  | fuel + 1, some p, m => do
    let ph ← deref (m.physr p)
    let site := if (m.tree n).isEmpty then SlabSite.copyFirst else .copyNext
    let (newph, m) ← slaballoc o site m.physr m
    match newph with
    | none => do
      let (_, m) ← mapFree o n m
      pure (false, m)
    | some q => do
      let m ← physrInsert (m.setPhysr q ⟨ph.ph, n, ph.offset, none⟩) n q
      let next ← physrIncr m r p
      copyPhysrs n fuel next m

-- The copy is in limbo: its phys_regions are on no list and not in a refcount.
def mapCopyRegion (m : Memory) : Except Fault (Option RegionId × Memory) := do
  let (newvr, m) ← slaballoc o .copyRegion m.region m
  match newvr with
  | none => pure (none, m)
  | some n => do
    let (phavl, m) ← slaballoc o .copyAvl (fun _ => (none : Option Unit)) m
    match phavl with
    | none => pure (none, m)
    | some _ => do
      let vr ← deref (m.region r)
      let m := m.setRegion n { vr with phys := [] }
      let (copied, m) ← copyPhysrs o r n o.fuel (m.tree r).head? m
      pure (if copied then some n else none, m)

def linkPhysr (p : PhysrId) (m : Memory) : Except Fault Memory := do
  let ph ← deref (m.physr p)
  let pb ← deref (m.block ph.ph)
  kassert ph.nextPhList.isNone
  pure ((m.setPhysr p { ph with nextPhList := pb.firstregion }).setBlock ph.ph
    { pb with firstregion := some p, refcount := pb.refcount + 1 })

def countCopies (n : RegionId) :
    ℕ → Option PhysrId → Option PhysrId → Memory → Except Fault Memory
  | 0, _, _, _ => .error .hang
  | _ + 1, none, new, m => do
    kassert new.isNone
    pure m
  | _ + 1, some _, none, _ => .error .assertion
  | fuel + 1, some p, some q, m => do
    let origPh ← deref (m.physr p)
    let newPh ← deref (m.physr q)
    kassert (p != q)
    kassert (origPh.ph == newPh.ph)
    let pb ← deref (m.block newPh.ph)
    kassert (decide (pb.refcount > 0))
    let m ← linkPhysr q m
    let pb ← deref (m.block newPh.ph)
    kassert (decide (pb.refcount > 1))
    if pb.refcount > 2 ∧ pb.shareFlag = PBSH_SMAP then do
      let (newpr, m) ← mapClonePhBlock o n q 0 m
      match newpr with
      -- iter_new is left at a node that has been freed
      | none => .error .nullPointer
      | some q => do
        let orig ← physrIncr m r p
        let new ← physrIncr m n q
        countCopies n fuel orig new m
    else do
      let m := m.setBlock newPh.ph { pb with shareFlag := PBSH_COW }
      let orig ← physrIncr m r p
      let new ← physrIncr m n q
      countCopies n fuel orig new m

end Copy

def writeptTree (r : RegionId) : List PhysrId → Memory → Except Fault (Bool × Memory)
  | [], m => pure (true, m)
  | p :: rest, m => do
    let ph ← deref (m.physr p)
    let pb ← deref (m.block ph.ph)
    if pb.refcount > 1 ∧ pb.shareFlag = PBSH_SMAP then writeptTree r rest m
    else do
      let (written, m) ← mapPhWritept o r p m
      if written then writeptTree r rest m else pure (false, m)

def mapWriteptAll : List RegionId → Memory → Except Fault Memory
  | [], m => pure m
  | r :: rest, m => do
    let (written, m) ← writeptTree o r (m.tree r) m
    if written then mapWriteptAll rest m else pure m

def mapWritept (v : ProcId) (m : Memory) : Except Fault Memory :=
  mapWriteptAll o (m.vmRegions v) m

section Fork
variable (dst src : ProcId)

def setParent (n : RegionId) (v : ProcId) (m : Memory) : Except Fault Memory := do
  let vr ← deref (m.region n)
  pure (m.setRegion n { vr with parent := v })

def copyRegions : ℕ → Option RegionId → Memory → Except Fault (VmReply × Memory)
  | 0, _, _ => .error .hang
  | _ + 1, none, m => do
    let m ← mapWritept o src m
    let m ← mapWritept o dst m
    pure (.OK, m)
  | fuel + 1, some vr, m => do
    let (newvr, m) ← mapCopyRegion o vr m
    match newvr with
    | none => do
      let m ← mapFreeProc o dst m
      pure (.ENOMEM, m)
    | some n => do
      let m ← setParent n dst m
      let m := m.setVmRegions dst (m.vmRegions dst ++ [n])
      let m ← countCopies o vr n o.fuel (m.tree vr).head? (m.tree n).head? m
      let next ← deref (nextIn vr (m.vmRegions src))
      copyRegions fuel next m

def mapProcCopyFrom (startSrcVr : RegionId) (m : Memory) : Except Fault (VmReply × Memory) := do
  let vr ← deref (m.region startSrcVr)
  kassert (vr.parent == src)
  copyRegions o dst src o.fuel (some startSrcVr) m

def mapProcCopy (m : Memory) : Except Fault (VmReply × Memory) := do
  let start ← deref (m.vmRegions src).head?
  mapProcCopyFrom o dst src start (m.setVmRegions dst [])

end Fork

section Remap

def remapAddr (call : RemapCall) : VirBytes :=
  (if call.da = 0 then call.stacktop else call.da) + call.bottom

def linkAll (n : RegionId) : List PhysrId → Memory → Except Fault Memory
  | [], m => pure m
  | p :: rest, m => do
    let m ← linkPhysr p m
    let (written, m) ← mapPhWritept o n p m
    if written then linkAll n rest m else .error .panic

def remapTo (dvmp : ProcId) (call : RemapCall) (region : MappedRegion) (r : RegionId)
    (startv : VirBytes) (prev : Option ℕ) (m : Memory) :
    Except Fault (VmReply × Memory) := do
  let (copy, m) ← mapCopyRegion o r m
  match copy with
  | none => pure (.ENOMEM, m)
  | some n => do
    let vr ← deref (m.region n)
    let m := m.setRegion n
      ⟨⟨startv, call.size, region.flags, VRT_NONE, vr.phys⟩, dvmp⟩
    let m := m.setVmRegions dvmp (insertAt (m.vmRegions dvmp) prev n)
    let m ← linkAll o n (m.tree n) m
    pure (.OK, m)

def mapRemapTo (dvmp : ProcId) (call : RemapCall) (r : RegionId) (m : Memory) :
    Except Fault (VmReply × Memory) := do
  let region ← deref (m.region r)
  kassert (hasAny region.flags VR_SHARED)
  let dstAddr := remapAddr call
  kassert (decide (call.size % VM_PAGE_SIZE = 0))
  let regions ← regionsOf m dvmp
  let slot ← regionFindSlot dstAddr VM_DATATOP call.size (regions.map (·.toVirRegion))
  match slot with
  | none => pure (.ENOMEM, m)
  | some (startv, prev) =>
    if call.da ≠ 0 ∧ startv ≠ dstAddr then pure (.EINVAL, m)
    else remapTo o dvmp call region r startv prev m

end Remap

section Unmap

def shiftTree (len : ℕ) : List PhysrId → Memory → Except Fault Memory
  | [], m => pure m
  | p :: rest, m => do
    let pr ← deref (m.physr p)
    kassert (decide (pr.offset ≥ len))
    shiftTree len rest (m.setPhysr p { pr with offset := pr.offset - len })

def shrinkRegion (r : RegionId) (len : ℕ) (m : Memory) : Except Fault Memory := do
  let (_, m) ← mapSubfree o r len m
  let vr ← deref (m.region r)
  let m := m.setRegion r
    { vr with vaddr := vr.vaddr + BitVec.ofNat 32 len, length := vr.length - BitVec.ofNat 32 len }
  shiftTree len (m.tree r) m

def unmapPart (v : ProcId) (r : RegionId) (vr : MappedRegion) (len : ℕ) (m : Memory) :
    Except Fault Memory :=
  if len = vr.length.toNat then do
    let (_, m) ← mapFree o r (m.setVmRegions v ((m.vmRegions v).erase r))
    pure m
  else shrinkRegion o r len m

def mapUnmapRegion (v : ProcId) (r : RegionId) (len : ℕ) (m : Memory) :
    Except Fault (VmReply × Memory) :=
  if r ∉ m.vmRegions v then .error .panic
  else do
    let vr ← deref (m.region r)
    if len > vr.length.toNat ∨ !paged len then pure (.EINVAL, m)
    else if !hasAny vr.flags (VR_ANON ||| VR_DIRECT) then pure (.EINVAL, m)
    else do
      let m ← unmapPart o v r vr len m
      if o.writemap m.tick then
        pure (.OK, (m.writemap v vr.vaddr.toNat none len false).ticked)
      else pure (.ENOMEM, m.ticked)

end Unmap

section Memory

def splitList (b nb : BlockId) :
    ℕ → Option PhysrId → Option PhysrId → Memory → Except Fault (VmReply × Memory)
  | 0, _, _, _ => .error .hang
  | _ + 1, none, prev, m => do
    let last ← deref prev
    let pr ← deref (m.physr last)
    pure (.OK, m.setPhysr last { pr with nextPhList := none })
  | fuel + 1, some q, prev, m => do
    let (newpr, m) ← slaballoc o .splitRegion m.physr m
    match newpr with
    | none => pure (.ENOMEM, m)
    | some n => do
      let qr ← deref (m.physr q)
      let pb ← deref (m.block b)
      let m := m.setPhysr n { qr with ph := nb, offset := qr.offset + pb.length }
      let m ← physrInsert m qr.parent n
      if pb.firstregion = some q then do
        let newpb ← deref (m.block nb)
        splitList b nb fuel qr.nextPhList (some n)
          (m.setBlock nb { newpb with firstregion := some n })
      else do
        let last ← deref prev
        let pr ← deref (m.physr last)
        splitList b nb fuel qr.nextPhList (some n)
          (m.setPhysr last { pr with nextPhList := some n })

def splitPhys (p : PhysrId) (point : ℕ) (m : Memory) : Except Fault (VmReply × Memory) := do
  let pr ← deref (m.physr p)
  let pb ← deref (m.block pr.ph)
  if pr.offset ≥ point ∨ pr.offset + pb.length ≤ point then pure (.OK, m)
  else do
    let (newpb, m) ← slaballoc o .splitBlock m.block m
    match newpb with
    | none => pure (.ENOMEM, m)
    | some nb =>
      let length := point - pr.offset
      let m := m.setBlock nb { pb with length := pb.length - length, phys := pb.phys + length }
      let m := m.setBlock pr.ph { pb with length := length }
      splitList o pr.ph nb o.fuel pb.firstregion none m

-- The answers of split_phys() are not looked at.
def cleanLoop (r : RegionId) (offset length : ℕ) :
    ℕ → Option PhysrId → Memory → Except Fault Memory
  | 0, _, _ => .error .hang
  | _ + 1, none, m => pure m
  | fuel + 1, some p, m => do
    let pr ← deref (m.physr p)
    let pb ← deref (m.block pr.ph)
    if pr.offset < offset ∧ pr.offset + pb.length > offset then do
      let (_, m) ← splitPhys o p offset m
      cleanLoop r offset length fuel (m.tree r).head? m
    else if pr.offset < offset + length ∧ pr.offset + pb.length > offset + length then do
      let (_, m) ← splitPhys o p (offset + length) m
      cleanLoop r offset length fuel (m.tree r).head? m
    else do
      let next ← physrIncr m r p
      cleanLoop r offset length fuel next m

def cleanPhysRegions (r : RegionId) (offset length : ℕ) (m : Memory) : Except Fault Memory :=
  cleanLoop o r offset length o.fuel (m.tree r).head? m

def rmLoop (r : RegionId) (start length : ℕ) : ℕ → Memory → Except Fault Memory
  | 0, _ => .error .hang
  | fuel + 1, m =>
    match physrSearchGreater m r start with
    | none => pure m
    | some p =>
      if m.offset p < start + length then do
        let m ← dropPhysr o r p m
        rmLoop r start length fuel m
      else pure m

def rmPhysRegions (r : RegionId) (start length : ℕ) (m : Memory) : Except Fault Memory :=
  rmLoop o r start length o.fuel m

section DoMap
variable (vrs vrd : RegionId) (flag : ℤ)

def sourceBlock (p : PhysrId) (m : Memory) : Except Fault (Option PhysrId × Memory) := do
  let pr ← deref (m.physr p)
  let pb ← deref (m.block pr.ph)
  if flag ≥ 0 ∧ pb.refcount > 1 ∧ pb.shareFlag = PBSH_COW then mapClonePhBlock o vrs p 0 m
  else pure (some p, m)

def shareBlock (b : BlockId) (n : PhysrId) (offset : ℕ) (m : Memory) : Except Fault Memory := do
  let pb ← deref (m.block b)
  let m := m.setPhysr n ⟨b, vrd, offset, pb.firstregion⟩
  let m := m.setBlock b { pb with firstregion := some n, refcount := pb.refcount + 1 }
  physrInsert m vrd n

def destBlock (b : BlockId) (n : PhysrId) (m : Memory) : Except Fault (Bool × Memory) := do
  let pb ← deref (m.block b)
  if flag < 0 ∧ pb.refcount > 1 ∧ pb.shareFlag = PBSH_SMAP then do
    let (newpr, m) ← mapClonePhBlock o vrd n 0 m
    pure (newpr.isSome, m)
  else
    let shareFlag := if flag < 0 then PBSH_COW else PBSH_SMAP
    pure (true, m.setBlock b { pb with shareFlag := shareFlag })

def doMapLoop (stop : ℕ) :
    ℕ → Option PhysrId → ℕ → Memory → Except Fault (VmReply × Memory)
  | 0, _, _, _ => .error .hang
  | _ + 1, none, _, m => pure (.OK, m)
  | fuel + 1, some p, offset, m =>
    if offset < stop then do
      let (prs, m) ← sourceBlock o vrs flag p m
      match prs with
      | none => pure (.ENOMEM, m)
      | some p => do
        let pr ← deref (m.physr p)
        let (newphysr, m) ← slaballoc o .mapPhysr m.physr m
        match newphysr with
        | none => pure (.ENOMEM, m)
        | some n => do
          let m ← shareBlock vrd pr.ph n offset m
          let (done, m) ← destBlock o vrd flag pr.ph n m
          if done then do
            let next ← physrIncr m vrs p
            let pb ← deref (m.block pr.ph)
            doMapLoop stop fuel next (offset + pb.length) m
          else pure (.ENOMEM, m)
    else pure (.OK, m)

def doMapMemory (offsetS offsetD length : ℕ) (m : Memory) : Except Fault (VmReply × Memory) :=
  match physrSearch m vrs offsetS with
  | none => .error .panic
  | some p => doMapLoop o vrs vrd flag (offsetD + length) o.fuel (some p) offsetD m

end DoMap

def mapLookup (v : ProcId) (addr : VirBytes) (m : Memory) :
    Except Fault (RegionId × MappedRegion) := do
  let regions ← (m.vmRegions v).mapM fun r => do
    let vr ← deref (m.region r)
    pure (r, vr)
  match regions.find? fun vr => decide (vr.2.vaddr ≤ addr ∧ addr < vr.2.vaddr + vr.2.length) with
  | none => .error .assertion
  | some found => .ok found

structure MapCall where
  virtS : VirBytes
  virtD : VirBytes
  length : VirBytes
  flag : ℤ

def mapMemory (vms vmd : ProcId) (call : MapCall) (m : Memory) :
    Except Fault (VmReply × Memory) := do
  let (vrs, rs) ← mapLookup vms call.virtS m
  let (vrd, rd) ← mapLookup vmd call.virtD m
  let offsetS := (call.virtS - rs.vaddr).toNat
  let offsetD := (call.virtD - rd.vaddr).toNat
  let length := call.length.toNat
  let (_, m) ← mapHandleMemory o vrs offsetS length false m
  let m ← cleanPhysRegions o vrs offsetS length m
  let m ← cleanPhysRegions o vrd offsetD length m
  let m ← rmPhysRegions o vrd offsetD length m
  doMapMemory o vrs vrd call.flag offsetS offsetD length m

end Memory

end Vm
