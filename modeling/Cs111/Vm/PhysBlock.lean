import Cs111.Vm.Region

namespace Vm
open Kernel (Fault kassert)

abbrev BlockId := ℕ
abbrev PhysrId := ℕ
abbrev RegionId := ℕ
abbrev ProcId := ℕ

def PBSH_COW : BitVec 8 := 1
def PBSH_SMAP : BitVec 8 := 2
def VR_WRITABLE : BitVec 32 := 0x001
def VR_CONTIG : BitVec 32 := 0x020
def VR_DIRECT : BitVec 32 := 0x200

structure PhysBlock where
  length : ℕ
  phys : ℕ
  refcount : BitVec 8
  shareFlag : BitVec 8
  firstregion : Option PhysrId

structure PhysRegion where
  ph : BlockId
  parent : RegionId
  offset : ℕ
  nextPhList : Option PhysrId

-- phys is the AVL tree as the sequence of its nodes.
structure MappedRegion extends VirRegion (List PhysrId) where
  parent : ProcId

structure MemList where
  phys : ℕ
  length : ℕ
  deriving DecidableEq

structure Pte where
  phys : ℕ
  writable : Bool
  deriving DecidableEq

structure Memory where
  block : BlockId → Option PhysBlock
  physr : PhysrId → Option PhysRegion
  region : RegionId → Option MappedRegion
  vmRegions : ProcId → List RegionId
  -- how many allocations there have been
  tick : ℕ
  -- the memory that blocks were made of, what free_mem() got, and what was let go with the flags
  -- of its region
  made : List MemList
  freed : List MemList
  left : List (BitVec 32 × MemList)
  -- the page tables, by pages of the address space, and the contents of physical memory
  pt : ProcId → ℕ → Option Pte
  bytes : ℕ → BitVec 8

-- The calls of SLABALLOC; in map_copy_region() the first phys_region of the copy or a later one.
inductive SlabSite where
  | newregion | phavl | newphysr | newpb | copyRegion | copyAvl | copyFirst | copyNext
  | mapPhysr | splitBlock | splitRegion
  deriving DecidableEq

-- How the calls of a step outside region.c go; pages is asked with the length that the caller
-- is about to cut off the front of the new memory, and with the length of that memory.
structure Outcomes where
  slab : SlabSite → ℕ → Option ℕ
  -- share_flag is not written in a new block
  stale : ℕ → BitVec 8
  pages : ℕ → ℕ → ℕ → Option (List MemList)
  writemap : ℕ → Bool
  abscopy : ℕ → Bool
  -- the rounds that a loop may take
  fuel : ℕ

inductive VmReply where
  | OK | ENOMEM | EFAULT | EINVAL
  deriving DecidableEq

def paged (n : ℕ) : Bool := n % VM_PAGE_SIZE.toNat == 0

def deref {α : Type} : Option α → Except Fault α
  | none => .error .nullPointer
  | some a => .ok a

def hasAny (flags mask : BitVec 32) : Bool := flags &&& mask != 0

namespace Memory
variable (m : Memory)

def setBlock (b : BlockId) (pb : PhysBlock) : Memory :=
  { m with block := Function.update m.block b (some pb) }

def freeBlock (b : BlockId) : Memory := { m with block := Function.update m.block b none }

def setPhysr (p : PhysrId) (pr : PhysRegion) : Memory :=
  { m with physr := Function.update m.physr p (some pr) }

def freePhysr (p : PhysrId) : Memory := { m with physr := Function.update m.physr p none }

def setRegion (r : RegionId) (vr : MappedRegion) : Memory :=
  { m with region := Function.update m.region r (some vr) }

def freeRegion (r : RegionId) : Memory := { m with region := Function.update m.region r none }

def setVmRegions (v : ProcId) (regions : List RegionId) : Memory :=
  { m with vmRegions := Function.update m.vmRegions v regions }

def ticked : Memory := { m with tick := m.tick + 1 }

def freeMem (ml : MemList) : Memory := { m with freed := ml :: m.freed }

def leave (flags : BitVec 32) (ml : MemList) : Memory := { m with left := (flags, ml) :: m.left }

def writemap (v : ProcId) (start : ℕ) (phys : Option ℕ) (length : ℕ) (rw : Bool) : Memory :=
  { m with
    pt := Function.update m.pt v fun page =>
      let addr := page * VM_PAGE_SIZE.toNat
      if start ≤ addr ∧ addr < start + length then phys.map fun f => ⟨f + (addr - start), rw⟩
      else m.pt v page }

def abscopy (src dst len : ℕ) : Memory :=
  { m with
    bytes := fun f => if dst ≤ f ∧ f < dst + len then m.bytes (src + (f - dst)) else m.bytes f }

def tree (r : RegionId) : List PhysrId := (m.region r).elim [] fun vr => vr.phys

def offset (p : PhysrId) : ℕ := (m.physr p).elim 0 fun pr => pr.offset

end Memory

section Tree
variable (m : Memory) (r : RegionId) (p : PhysrId) (key : ℕ)

def physrSearch : Option PhysrId := (m.tree r).find? fun q => m.offset q == key

def physrSearchLess : Option PhysrId :=
  ((m.tree r).filter fun q => decide (m.offset q ≤ key)).getLast?

def physrSearchGreater : Option PhysrId := (m.tree r).find? fun q => decide (key ≤ m.offset q)

def placed : List PhysrId → List PhysrId
  | [] => [p]
  | q :: rest =>
    if m.offset p < m.offset q then p :: q :: rest
    else if m.offset p = m.offset q then q :: rest
    else q :: placed rest

def physrInsert : Except Fault Memory := do
  let vr ← deref (m.region r)
  pure (m.setRegion r { vr with phys := placed m p vr.phys })

def physrRemove : Except Fault Memory := do
  let vr ← deref (m.region r)
  pure (m.setRegion r { vr with phys := vr.phys.eraseP fun q => m.offset q == key })

def nextIn {α : Type} [DecidableEq α] (a : α) : List α → Option (Option α)
  | [] => none
  | b :: rest => if b = a then some rest.head? else nextIn a rest

def physrIncr : Except Fault (Option PhysrId) := deref (nextIn p (m.tree r))

def resetPhysrIter : Except Fault PhysrId :=
  match physrSearch m r key with
  | none => .error .assertion
  | some q => .ok q

end Tree

section References
variable (o : Outcomes)

def writable (vr : MappedRegion) (pb : PhysBlock) : Bool :=
  hasAny vr.flags (VR_DIRECT ||| VR_SHARED) || hasAny vr.flags VR_WRITABLE && pb.refcount == 1

def slaballoc {α : Type} (site : SlabSite) (used : ℕ → Option α) (m : Memory) :
    Except Fault (Option ℕ × Memory) :=
  match o.slab site m.tick with
  | none => .ok (none, m.ticked)
  | some a => if (used a).isSome then .error .panic else .ok (some a, m.ticked)

def mapPhWritept (r : RegionId) (p : PhysrId) (m : Memory) : Except Fault (Bool × Memory) := do
  let vr ← deref (m.region r)
  let pr ← deref (m.physr p)
  let pb ← deref (m.block pr.ph)
  kassert (decide (vr.vaddr % VM_PAGE_SIZE = 0))
  kassert (paged pb.length)
  kassert (paged pr.offset)
  kassert (decide (pb.refcount > 0))
  if o.writemap m.tick then
    let start := (vr.vaddr + BitVec.ofNat 32 pr.offset).toNat
    pure (true, (m.writemap vr.parent start (some pb.phys) pb.length (writable vr pb)).ticked)
  else pure (false, m.ticked)

def findOthers (m : Memory) (b : BlockId) (p : PhysrId) :
    ℕ → Option PhysrId → Except Fault PhysrId
  | 0, _ => .error .hang
  | _ + 1, none => .error .assertion
  | fuel + 1, some q => do
    let others ← deref (m.physr q)
    kassert (others.ph == b)
    if others.nextPhList = some p then pure q else findOthers m b p fuel others.nextPhList

def unlinkPhysr (p : PhysrId) (pr : PhysRegion) (pb : PhysBlock) (m : Memory) :
    Except Fault Memory :=
  if pb.firstregion = some p then
    pure (m.setBlock pr.ph { pb with firstregion := pr.nextPhList })
  else do
    let q ← findOthers m pr.ph p o.fuel pb.firstregion
    let others ← deref (m.physr q)
    pure ((m.setBlock pr.ph pb).setPhysr q { others with nextPhList := pr.nextPhList })

def releaseBlock (r : RegionId) (b : BlockId) (m : Memory) : Except Fault Memory := do
  let pb ← deref (m.block b)
  if pb.refcount = 0 then do
    kassert pb.firstregion.isNone
    let vr ← deref (m.region r)
    if hasAny vr.flags VR_ANON then pure ((m.freeMem ⟨pb.phys, pb.length⟩).freeBlock b)
    else if hasAny vr.flags VR_DIRECT then
      pure ((m.leave vr.flags ⟨pb.phys, pb.length⟩).freeBlock b)
    else .error .panic
  else pure m

def pbUnreferenced (r : RegionId) (p : PhysrId) (m : Memory) : Except Fault Memory := do
  let pr ← deref (m.physr p)
  let pb ← deref (m.block pr.ph)
  kassert (decide (pb.refcount > 0))
  let m ← unlinkPhysr o p pr { pb with refcount := pb.refcount - 1 } m
  releaseBlock r pr.ph m

def dropPhysr (r : RegionId) (p : PhysrId) (m : Memory) : Except Fault Memory := do
  let pr ← deref (m.physr p)
  let m ← pbUnreferenced o r p m
  let m ← physrRemove m r pr.offset
  pure (m.freePhysr p)

end References

section NewBlock
variable (o : Outcomes) (r : RegionId)

def makeBlock (ml : MemList) (offset : ℕ) (p : PhysrId) (b : BlockId) (m : Memory) : Memory :=
  let m := { m with made := ml :: m.made }
  let m := m.setBlock b ⟨ml.length, ml.phys, 1, o.stale m.tick, some p⟩
  m.setPhysr p ⟨b, r, offset, none⟩

def addChunk (ml : MemList) (offset : ℕ) (m : Memory) : Except Fault (Bool × Memory) := do
  let (newphysr, m) ← slaballoc o .newphysr m.physr m
  match newphysr with
  | none => pure (false, m)
  | some p => do
    let (newpb, m) ← slaballoc o .newpb m.block m
    match newpb with
    | none => pure (false, m)
    | some b => do
      kassert (paged ml.phys)
      let m := makeBlock o r ml offset p b m
      let (written, m) ← mapPhWritept o r p m
      if written then do
        let m ← physrInsert m r p
        pure (true, m)
      else pure (false, m)

def addChunks : List MemList → ℕ → Memory → Except Fault (Bool × ℕ × Memory)
  | [], offset, m => pure (true, offset, m)
  | ml :: rest, offset, m => do
    let (added, m) ← addChunk o r ml offset m
    if added then addChunks rest (offset + ml.length) m else pure (false, offset, m)

def undoChunk (offset : ℕ) (m : Memory) : Except Fault Memory :=
  match physrSearch m r offset with
  | none => pure m
  | some p => do
    let pr ← deref (m.physr p)
    let pb ← deref (m.block pr.ph)
    kassert (pb.refcount == 1)
    dropPhysr o r p m

def undoChunks : List MemList → ℕ → Memory → Except Fault Memory
  | [], _, m => pure m
  | ml :: rest, offset, m => do
    let m ← undoChunk o r offset m
    undoChunks rest (offset + ml.length) m

def mapNewChunks (start length : ℕ) (memlist : List MemList) (m : Memory) :
    Except Fault (VmReply × Memory) := do
  let (added, stop, m) ← addChunks o r memlist start m
  if added then do
    kassert (decide (stop = start + length))
    pure (.OK, m)
  else do
    let m ← undoChunks o r memlist start m
    pure (.ENOMEM, m)

-- whatMem is none for MAP_NONE.
def mapNewPhysblock (start length : ℕ) (whatMem : Option ℕ) (cut : ℕ) (m : Memory) :
    Except Fault (VmReply × Memory) := do
  kassert (paged length)
  let vr ← deref (m.region r)
  if hasAny vr.flags VR_CONTIG ∧ (start > 0 ∨ length < vr.length.toNat) then pure (.EFAULT, m)
  else
    match whatMem with
    | none =>
      match o.pages cut length m.tick with
      | none => pure (.ENOMEM, m.ticked)
      | some memlist => mapNewChunks o r start length memlist m.ticked
    | some phys => do
      kassert (decide (length ≠ 0))
      let (added, _, m) ← addChunks o r [⟨phys, length⟩] start m
      pure (if added then .OK else .ENOMEM, m)

def copyAbs2region : ℕ → ℕ → ℕ → ℕ → Memory → Except Fault (Bool × Memory)
  | 0, _, _, _, _ => .error .hang
  | fuel + 1, abs, offset, len, m =>
    if len = 0 then pure (true, m)
    else
      match physrSearchLess m r offset with
      | none => pure (false, m)
      | some p => do
        let ph ← deref (m.physr p)
        let pb ← deref (m.block ph.ph)
        if ph.offset + pb.length ≤ offset then pure (false, m)
        else if pb.refcount ≠ 1 then pure (false, m)
        else if o.abscopy len then
          let suboffset := offset - ph.offset
          let sublen := min len (pb.length - suboffset)
          copyAbs2region fuel (abs + sublen) (offset + sublen) (len - sublen)
            (m.abscopy abs (pb.phys + suboffset) sublen)
        else pure (false, m)

def mapClonePhBlock (p : PhysrId) (cut : ℕ) (m : Memory) :
    Except Fault (Option PhysrId × Memory) := do
  let ph ← deref (m.physr p)
  let pb ← deref (m.block ph.ph)
  kassert (decide (pb.refcount > 1))
  let m ← dropPhysr o r p m
  let rest ← deref (m.block ph.ph)
  kassert (decide (rest.refcount ≥ 1))
  let vr ← deref (m.region r)
  kassert (decide (ph.offset = 0 ∧ pb.length = vr.length.toNat) || !hasAny vr.flags VR_CONTIG)
  let (reply, m) ← mapNewPhysblock o r ph.offset pb.length none cut m
  if reply = .OK then do
    let (copied, m) ← copyAbs2region o r o.fuel pb.phys ph.offset pb.length m
    if copied then do
      let newpr ← resetPhysrIter m r ph.offset
      pure (some newpr, m)
    else .error .panic
  else pure (none, m)

end NewBlock

section Faults
variable (o : Outcomes) (r : RegionId)

def mapPfNew (offset : ℕ) (m : Memory) : Except Fault (VmReply × Memory) := do
  let virpage := offset - offset % VM_PAGE_SIZE.toNat
  let (reply, m) ← mapNewPhysblock o r virpage VM_PAGE_SIZE.toNat none 0 m
  pure (if reply = .OK then .OK else .ENOMEM, m)

def mapPf (offset : ℕ) (write : Bool) (m : Memory) : Except Fault (VmReply × Memory) := do
  let vr ← deref (m.region r)
  kassert (decide (offset < vr.length.toNat))
  kassert (hasAny vr.flags VR_ANON)
  kassert (decide (vr.vaddr % VM_PAGE_SIZE = 0))
  match physrSearchLess m r offset with
  | none => mapPfNew o r offset m
  | some p => do
    let ph ← deref (m.physr p)
    let pb ← deref (m.block ph.ph)
    if offset < ph.offset + pb.length then do
      kassert write
      kassert (hasAny vr.flags VR_WRITABLE)
      kassert (decide (pb.refcount > 0))
      if writable vr pb then do
        let (written, m) ← mapPhWritept o r p m
        pure (if written then .OK else .ENOMEM, m)
      else if pb.shareFlag ≠ PBSH_COW then pure (.EFAULT, m)
      else do
        let (newpr, m) ← mapClonePhBlock o r p 0 m
        pure (if newpr.isSome then .OK else .ENOMEM, m)
    else mapPfNew o r offset m

section HandleMemory
variable (offset length : ℕ) (write : Bool)

def rangeStart (er1 : Option PhysrId) (m : Memory) : Except Fault ℕ :=
  match er1 with
  | none => pure offset
  | some p => do
    let r1 ← deref (m.physr p)
    let pb ← deref (m.block r1.ph)
    pure (max offset (r1.offset + pb.length))

def rangeStop (er2 : Option PhysrId) (m : Memory) : ℕ :=
  match er2 with
  | none => offset + length
  | some q => min (offset + length) (m.offset q)

def freeRangeHere (er1 er2 : Option PhysrId) (m : Memory) :
    Except Fault (Option ℕ × Memory) := do
  let start ← rangeStart offset er1 m
  let stop := rangeStop offset length er2 m
  if start < stop then do
    let (reply, m) ← mapNewPhysblock o r start (stop - start) none 0 m
    pure (if reply = .OK then some 1 else none, m)
  else pure (some 0, m)

def writeHere (p : PhysrId) (m : Memory) : Except Fault (Option (PhysrId × ℕ) × Memory) :=
  if write then do
    let vr ← deref (m.region r)
    let pr ← deref (m.physr p)
    let pb ← deref (m.block pr.ph)
    kassert (decide (pb.refcount > 0))
    if writable vr pb then do
      let (written, m) ← mapPhWritept o r p m
      pure (if written then some (p, 1) else none, m)
    else do
      let (newpr, m) ← mapClonePhBlock o r p 0 m
      pure (newpr.map fun q => (q, 1), m)
  else pure (some (p, 0), m)

def handleLoop : ℕ → Option PhysrId → ℕ → Memory → Except Fault (VmReply × Memory)
  | 0, _, _, _ => .error .hang
  | _ + 1, none, changes, m => pure (if changes < 1 then .EFAULT else .OK, m)
  | fuel + 1, some p, changes, m => do
    let (here, m) ← writeHere o r write p m
    match here with
    | none => pure (.ENOMEM, m)
    | some (p, written) => do
      let next ← physrIncr m r p
      let (filled, m) ← freeRangeHere o r offset length (some p) next m
      match filled with
      | none => pure (.ENOMEM, m)
      | some added =>
        match next with
        | none => handleLoop fuel none (changes + written + added) m
        | some q =>
          if m.offset q ≥ offset + length then
            handleLoop fuel none (changes + written + added) m
          else do
            let q ← resetPhysrIter m r (m.offset q)
            handleLoop fuel (some q) (changes + written + added) m

def handleFrom (p : PhysrId) (changes : ℕ) (m : Memory) : Except Fault (VmReply × Memory) := do
  let p ← resetPhysrIter m r (m.offset p)
  let pr ← deref (m.physr p)
  let pb ← deref (m.block pr.ph)
  if pr.offset + pb.length ≤ offset then do
    let next ← physrIncr m r p
    let (filled, m) ← freeRangeHere o r offset length none next m
    match filled with
    | none => pure (.ENOMEM, m)
    | some added =>
      match next with
      | none => handleLoop o r offset length write o.fuel none (changes + added) m
      | some q => do
        let q ← resetPhysrIter m r (m.offset q)
        handleLoop o r offset length write o.fuel (some q) (changes + added) m
  else handleLoop o r offset length write o.fuel (some p) changes m

def mapHandleMemory (m : Memory) : Except Fault (VmReply × Memory) := do
  let vr ← deref (m.region r)
  kassert (hasAny vr.flags VR_ANON)
  kassert (decide (vr.vaddr % VM_PAGE_SIZE = 0))
  kassert (paged offset)
  kassert (paged length)
  kassert (!write || hasAny vr.flags VR_WRITABLE)
  let physr := (physrSearchLess m r offset).orElse fun _ => physrSearchGreater m r offset
  let (filled, m) ← freeRangeHere o r offset length none physr m
  match filled with
  | none => pure (.ENOMEM, m)
  | some added =>
    match physr with
    | none => handleLoop o r offset length write o.fuel none added m
    | some p => handleFrom o r offset length write p added m

end HandleMemory

end Faults

end Vm
