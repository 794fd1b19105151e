import Cs111.Lib.Doubly
import Cs111.Mfs.InodeTable

namespace Mfs

def NO_BLOCK : ℕ := 0

inductive Search where
  | NORMAL | NO_READ | PREFETCH
  deriving DecidableEq

structure Buf (α : Type*) where
  bBlocknr : ℕ
  bDev : ℕ
  -- b_dirt = DIRTY
  bDirt : Bool
  -- b_count is a char
  bCount : BitVec 8
  bBytes : ℕ
  data : α

-- What does not change; vmcache d tells that the blocks of device d may be in VM's cache.
structure CacheConfig where
  nrBufs : ℕ
  fsBlockSize : ℕ
  devRam : ℕ
  vmcache : ℕ → Bool
  -- NR_IOREQS
  nrIoreqs : ℕ
  nr_pos : 0 < nrBufs
  size_pos : 0 < fsBlockSize
  ioreqs_pos : 0 < nrIoreqs

structure BufCache (α : Type*) where
  buf : ℕ → Buf α
  bNext : ℕ → Option ℕ
  bPrev : ℕ → Option ℕ
  bHash : ℕ → Option ℕ
  bufHash : ℕ → Option ℕ
  front : Option ℕ
  rear : Option ℕ
  bufsInUse : ℕ
  -- the blocks on the devices, and VM's second-level cache
  disk : ℕ → ℕ → α
  vm : ℕ → ℕ → Option α

section Cache
variable {α : Type*} (C : CacheConfig)

def BufCache.setBuf (i : ℕ) (bp : Buf α) (c : BufCache α) : BufCache α :=
  { c with buf := Function.update c.buf i bp }

def bufhash (block : ℕ) : ℕ := block % C.nrBufs

def rmLru (bp : ℕ) (c : BufCache α) : BufCache α :=
  let nextPtr := c.bNext bp
  let prevPtr := c.bPrev bp
  let c := { c with bufsInUse := c.bufsInUse + 1 }
  let c :=
    match prevPtr with
    | some p => { c with bNext := Function.update c.bNext p nextPtr }
    | none => { c with front := nextPtr }
  match nextPtr with
  | some n => { c with bPrev := Function.update c.bPrev n prevPtr }
  | none => { c with rear := prevPtr }

def writeBlock (c : BufCache α) (i : ℕ) : BufCache α :=
  let bp := c.buf i
  let c := c.setBuf i { bp with bDirt := false }
  if bp.bDev = NO_DEV then c
  else
    let device := Function.update (c.disk bp.bDev) bp.bBlocknr bp.data
    { c with disk := Function.update c.disk bp.bDev device }

def readBlock (c : BufCache α) (i : ℕ) : BufCache α :=
  let bp := c.buf i
  let data := if bp.bDev = NO_DEV then bp.data else c.disk bp.bDev bp.bBlocknr
  c.setBuf i { bp with data := data, bDirt := false }

section Sorting
variable (key : ℕ → ℕ)

-- for (j = gap; j < bufqsize; j++) for (i = j - gap; ...; i -= gap), on the pair (i, i + gap)
def siftDown (gap : ℕ) : ℕ → ℕ → Array ℕ → Array ℕ
  | 0, _, q => q
  | fuel + 1, i, q =>
    if h : i + gap < q.size then
      have hi : i < q.size := by omega
      if key q[i] > key q[i + gap] then
        let q := q.swap i (i + gap) hi h
        if gap ≤ i then siftDown gap fuel (i - gap) q else q
      else q
    else q

def gapPass (gap : ℕ) (q : Array ℕ) : Array ℕ :=
  (List.range' gap (q.size - gap)).foldl (fun q j => siftDown key gap (j + 1) (j - gap) q) q

def firstGap (size : ℕ) : ℕ → ℕ → ℕ
  | 0, gap => gap
  | fuel + 1, gap =>
    let gap := 3 * gap + 1
    if gap ≤ size then firstGap size fuel gap else gap

def gapPasses : ℕ → ℕ → Array ℕ → Array ℕ
  | 0, _, q => q
  | fuel + 1, gap, q =>
    if gap = 1 then q
    else
      let gap := gap / 3
      gapPasses fuel gap (gapPass key gap q)

def shellSort (q : List ℕ) : List ℕ :=
  let gap := firstGap q.length q.length 1
  (gapPasses key gap gap q.toArray).toList

end Sorting

def runLength (c : BufCache α) (q : List ℕ) : ℕ :=
  match q with
  | [] => 0
  | first :: _ =>
    ((q.take C.nrIoreqs).zipIdx.takeWhile fun bp =>
      (c.buf bp.1).bBlocknr = (c.buf first).bBlocknr + bp.2).length

def writeRuns : ℕ → List ℕ → BufCache α → BufCache α
  | 0, _, c => c
  | _ + 1, [], c => c
  | fuel + 1, q, c =>
    let j := runLength C c q
    writeRuns fuel (q.drop j) ((q.take j).foldl writeBlock c)

def blocknrOf (c : BufCache α) (i : ℕ) : ℕ := (c.buf i).bBlocknr

def flushall (dev : ℕ) (c : BufCache α) : BufCache α :=
  let dirty := (List.range C.nrBufs).filter fun i => (c.buf i).bDirt ∧ (c.buf i).bDev = dev
  writeRuns C dirty.length (shellSort (blocknrOf c) dirty) c

def putFront (bp : ℕ) (c : BufCache α) : BufCache α :=
  let c := { c with
    bPrev := Function.update c.bPrev bp none
    bNext := Function.update c.bNext bp c.front }
  let c :=
    match c.front with
    | none => { c with rear := some bp }
    | some f => { c with bPrev := Function.update c.bPrev f (some bp) }
  { c with front := some bp }

def putRear (bp : ℕ) (c : BufCache α) : BufCache α :=
  let c := { c with
    bPrev := Function.update c.bPrev bp c.rear
    bNext := Function.update c.bNext bp none }
  let c :=
    match c.rear with
    | none => { c with front := some bp }
    | some r => { c with bNext := Function.update c.bNext r (some bp) }
  { c with rear := some bp }

def putLru (bp : ℕ) (oneShot : Bool) (c : BufCache α) : BufCache α :=
  let c := { c with bufsInUse := c.bufsInUse - 1 }
  if (c.buf bp).bDev = C.devRam ∨ oneShot then putFront bp c else putRear bp c

def putBlock (bp : ℕ) (oneShot writeImmed : Bool) (c : BufCache α) : BufCache α :=
  let c := c.setBuf bp { c.buf bp with bCount := (c.buf bp).bCount - 1 }
  if (c.buf bp).bCount ≠ 0 then c
  else
    let c := putLru C bp oneShot c
    if writeImmed ∧ (c.buf bp).bDirt ∧ (c.buf bp).bDev ≠ NO_DEV then writeBlock c bp else c

-- The first buffer with memory for a block is taken when alloc_contig() fails for the oldest.
def takeOldest (alloc : Bool) (c : BufCache α) : Except Fault (ℕ × BufCache α) :=
  match c.front with
  | none => .error .panic
  | some bp =>
    if (c.buf bp).bBytes < C.fsBlockSize then
      if alloc then .ok (bp, c.setBuf bp { c.buf bp with bBytes := C.fsBlockSize })
      else
        match Deque.walk c.bNext (fun i => ¬ (c.buf i).bBytes < C.fsBlockSize) (C.nrBufs + 1)
            c.front with
        | none => .error .panic
        | some bp => .ok (bp, c)
    else .ok (bp, c)

def unhash (bp : ℕ) (c : BufCache α) : BufCache α :=
  let b := bufhash C (c.buf bp).bBlocknr
  if c.bufHash b = some bp then
    { c with bufHash := Function.update c.bufHash b (c.bHash bp) }
  else
    match (c.bufHash b).bind (Deque.before c.bHash bp C.nrBufs) with
    | none => c
    | some p => { c with bHash := Function.update c.bHash p (c.bHash bp) }

def addHash (bp : ℕ) (c : BufCache α) : BufCache α :=
  let b := bufhash C (c.buf bp).bBlocknr
  { c with
    bHash := Function.update c.bHash bp (c.bufHash b)
    bufHash := Function.update c.bufHash b (some bp) }

def yieldBlock (dev block : ℕ) (data : α) (vm : ℕ → ℕ → Option α) : ℕ → ℕ → Option α :=
  if (vm dev block).isSome then vm
  else Function.update vm dev (Function.update (vm dev) block (some data))

def forgetBlock (dev block : ℕ) (vm : ℕ → ℕ → Option α) : ℕ → ℕ → Option α :=
  Function.update vm dev (Function.update (vm dev) block none)

def BufCache.yielded (yieldid : Option (ℕ × ℕ)) (bp : ℕ) (c : BufCache α) : BufCache α :=
  match yieldid with
  | none => c
  | some (dev, block) => { c with vm := yieldBlock dev block (c.buf bp).data c.vm }

-- vm_yield_block_get_block(); the flag tells whether the block was got.
def yieldGet (yieldid : Option (ℕ × ℕ)) (dev block bp : ℕ) (c : BufCache α) :
    Bool × BufCache α :=
  let c := c.yielded yieldid bp
  match c.vm dev block with
  | none => (false, c)
  | some data =>
    let c := { c with vm := forgetBlock dev block c.vm }
    (true, c.setBuf bp { c.buf bp with data := data })

def evict (bp : ℕ) (c : BufCache α) : Option (ℕ × ℕ) × BufCache α :=
  let c := unhash C bp (rmLru bp c)
  if (c.buf bp).bDev = NO_DEV then (none, c)
  else
    let c := if (c.buf bp).bDirt then flushall C (c.buf bp).bDev c else c
    let yieldid := ((c.buf bp).bDev, (c.buf bp).bBlocknr)
    (some yieldid, c.setBuf bp { c.buf bp with bDev := NO_DEV })

def fetch (dev block : ℕ) (onlySearch : Search) (yieldid : Option (ℕ × ℕ)) (bp : ℕ)
    (c : BufCache α) : BufCache α :=
  let vmcache := C.vmcache dev
  if dev = NO_DEV then if vmcache then c.yielded yieldid bp else c
  else
    match onlySearch with
    | .NO_READ => if vmcache then { c with vm := forgetBlock dev block c.vm } else c
    | .PREFETCH =>
      let r := if vmcache then yieldGet yieldid dev block bp c else (false, c)
      if r.1 then r.2 else r.2.setBuf bp { r.2.buf bp with bDev := NO_DEV }
    | .NORMAL =>
      let r := if vmcache then yieldGet yieldid dev block bp c else (false, c)
      if r.1 then r.2 else readBlock r.2 bp

def searchBlocks (dev block : ℕ) (c : BufCache α) : Option ℕ :=
  if dev = NO_DEV then none
  else Deque.walk c.bHash (fun i => (c.buf i).bBlocknr = block ∧ (c.buf i).bDev = dev)
    (C.nrBufs + 1) (c.bufHash (bufhash C block))

def useBlock (bp : ℕ) (c : BufCache α) : BufCache α :=
  c.setBuf bp { c.buf bp with bCount := (c.buf bp).bCount + 1 }

def getBlock (dev block : ℕ) (onlySearch : Search) (alloc : Bool) (c : BufCache α) :
    Except Fault (ℕ × BufCache α) :=
  match searchBlocks C dev block c with
  | some bp =>
    let c := if (c.buf bp).bCount = 0 then rmLru bp c else c
    .ok (bp, useBlock bp c)
  | none =>
    match takeOldest C alloc c with
    | .error f => .error f
    | .ok (bp, c) =>
      let (yieldid, c) := evict C bp c
      let c := c.setBuf bp { c.buf bp with bDev := dev, bBlocknr := block }
      let c := addHash C bp (useBlock bp c)
      .ok (bp, fetch C dev block onlySearch yieldid bp c)

def readInto (dev : ℕ) (c : BufCache α) (i : ℕ) : BufCache α :=
  let bp := c.buf i
  putBlock C i false false (c.setBuf i { bp with bDev := dev, data := c.disk dev bp.bBlocknr })

def rwScatteredRead (dev : ℕ) (bufq : List ℕ) (transferred : ℕ) (c : BufCache α) : BufCache α :=
  let q := shellSort (blocknrOf c) bufq
  let i := min (runLength C c q) transferred
  (q.drop i).foldl (fun c bp => putBlock C bp false false c) ((q.take i).foldl (readInto C dev) c)

def invalidate (device : ℕ) (c : BufCache α) : BufCache α :=
  { c with
    buf := fun i =>
      if i < C.nrBufs ∧ (c.buf i).bDev = device then { c.buf i with bDev := NO_DEV } else c.buf i
    vm := fun _ _ => none }

def modifyBlock (bp : ℕ) (data : α) (c : BufCache α) : BufCache α :=
  c.setBuf bp { c.buf bp with data := data, bDirt := true }

def BufCache.fresh (disk : ℕ → ℕ → α) (junk : α) : BufCache α where
  buf _ := ⟨NO_BLOCK, NO_DEV, false, 0, 0, junk⟩
  bNext i := if i + 1 < C.nrBufs then some (i + 1) else none
  bPrev i := if i = 0 then none else some (i - 1)
  bHash i := if i + 1 < C.nrBufs then some (i + 1) else none
  bufHash h := if h = 0 then some 0 else none
  front := some 0
  rear := some (C.nrBufs - 1)
  bufsInUse := 0
  disk := disk
  vm _ _ := none

end Cache

open Deque Chain

structure Wired {α : Type*} (C : CacheConfig) (c : BufCache α) (free hashed : ℕ → Prop) : Prop where
  lru : ∃ l, Linked c.bNext c.bPrev c.front c.rear l ∧ (∀ i, i ∈ l ↔ free i) ∧
    c.bufsInUse + l.length = C.nrBufs
  chain : ∀ b, ∃ l, Path c.bHash (c.bufHash b) l ∧
    ∀ i, i ∈ l ↔ hashed i ∧ bufhash C (c.buf i).bBlocknr = b

structure SameLinks {α : Type*} (c c' : BufCache α) : Prop where
  next : c'.bNext = c.bNext
  prev : c'.bPrev = c.bPrev
  hash : c'.bHash = c.bHash
  front : c'.front = c.front
  rear : c'.rear = c.rear
  bufHash : c'.bufHash = c.bufHash
  inUse : c'.bufsInUse = c.bufsInUse

structure SameBufs {α : Type*} (c c' : BufCache α) : Prop where
  buf : c'.buf = c.buf
  disk : c'.disk = c.disk
  vm : c'.vm = c.vm

section Same
variable {α : Type*} {C : CacheConfig} {c c' c'' : BufCache α} {bp : ℕ} {oneShot : Bool}

theorem SameLinks.refl (c : BufCache α) : SameLinks c c := ⟨rfl, rfl, rfl, rfl, rfl, rfl, rfl⟩

theorem SameLinks.trans (h : SameLinks c c') (h' : SameLinks c' c'') : SameLinks c c'' :=
  ⟨h'.next.trans h.next, h'.prev.trans h.prev, h'.hash.trans h.hash, h'.front.trans h.front,
    h'.rear.trans h.rear, h'.bufHash.trans h.bufHash, h'.inUse.trans h.inUse⟩

theorem SameBufs.trans (h : SameBufs c c') (h' : SameBufs c' c'') : SameBufs c c'' :=
  ⟨h'.buf.trans h.buf, h'.disk.trans h.disk, h'.vm.trans h.vm⟩

theorem bufs_rmLru : SameBufs c (rmLru bp c) := by
  unfold rmLru
  dsimp only
  cases c.bPrev bp <;> cases c.bNext bp <;> exact ⟨rfl, rfl, rfl⟩

theorem bufs_putLru : SameBufs c (putLru C bp oneShot c) := by
  unfold putLru putFront putRear
  dsimp only
  split
  · cases c.front <;> exact ⟨rfl, rfl, rfl⟩
  · cases c.rear <;> exact ⟨rfl, rfl, rfl⟩

theorem bufs_unhash : SameBufs c (unhash C bp c) := by
  unfold unhash
  dsimp only
  split
  · exact ⟨rfl, rfl, rfl⟩
  · split <;> exact ⟨rfl, rfl, rfl⟩

end Same

section Wiring
variable {α : Type*} {C : CacheConfig} {c c' : BufCache α} {free hashed free' hashed' : ℕ → Prop}
  {bp : ℕ}

theorem Wired.same (h : Wired C c free hashed) (hs : SameLinks c c')
    (hb : ∀ i, hashed i → (c'.buf i).bBlocknr = (c.buf i).bBlocknr) : Wired C c' free hashed := by
  refine ⟨?_, fun b => ?_⟩
  · rw [hs.next, hs.prev, hs.front, hs.rear, hs.inUse]
    exact h.lru
  · obtain ⟨l, hpath, hmem⟩ := h.chain b
    refine ⟨l, by rw [hs.hash, hs.bufHash]; exact hpath, fun i => (hmem i).trans ?_⟩
    exact and_congr_right fun hi => by rw [hb i hi]

theorem Wired.congr (h : Wired C c free hashed) (hf : ∀ i, free' i ↔ free i)
    (hh : ∀ i, hashed' i ↔ hashed i) : Wired C c free' hashed' := by
  rwa [funext fun i => propext (hf i), funext fun i => propext (hh i)]

theorem Wired.removed (h : Wired C c free hashed) (hbp : free bp) :
    Wired C (rmLru bp c) (fun i => free i ∧ i ≠ bp) hashed := by
  obtain ⟨l, hl, hmem, hlen⟩ := h.lru
  have hin : bp ∈ l := (hmem bp).mpr hbp
  have hdetach := hl.detach hin
  have hlru : Linked (rmLru bp c).bNext (rmLru bp c).bPrev (rmLru bp c).front (rmLru bp c).rear
      (l.erase bp) ∧ (rmLru bp c).bufsInUse = c.bufsInUse + 1 ∧ (rmLru bp c).bHash = c.bHash ∧
      (rmLru bp c).bufHash = c.bufHash := by
    unfold rmLru Doubly.detach at *
    dsimp only
    cases hprev : c.bPrev bp <;> cases hnext : c.bNext bp <;> rw [hprev, hnext] at hdetach <;>
      exact ⟨hdetach, rfl, rfl, rfl⟩
  obtain ⟨hlinked, huse, hhash, hheads⟩ := hlru
  refine ⟨⟨l.erase bp, hlinked, fun i => ?_, ?_⟩, fun b => ?_⟩
  · rw [hl.nodup.mem_erase_iff, hmem, and_comm]
  · rw [huse, List.length_erase_of_mem hin]
    have := List.length_pos_of_mem hin
    omega
  · rw [hhash, hheads, bufs_rmLru.buf]
    exact h.chain b

theorem linked_putFront {l : List ℕ} (hl : Linked c.bNext c.bPrev c.front c.rear l) (hin : bp ∉ l) :
    Linked (putFront bp c).bNext (putFront bp c).bPrev (putFront bp c).front (putFront bp c).rear
      (bp :: l) := by
  have hne : ∀ i ∈ l, i ≠ bp := fun i hi he => hin (he ▸ hi)
  have hpush := fun n p => @Linked.push _ c.bNext c.bPrev n p c.front c.rear l bp hl hin
  unfold putFront
  dsimp only
  cases hfront : c.front with
  | none =>
    rw [hfront] at hpush
    refine hpush _ _ (fun i hi => ?_) ?_ ?_ (fun i hi _ => ?_) (fun i hi => by cases hi)
    · exact Function.update_of_ne (hne i hi) ..
    · exact Function.update_self ..
    · exact Function.update_self ..
    · exact Function.update_of_ne (hne i hi) ..
  | some f =>
    have hf : f ∈ l := hl.forward.head_mem hfront
    rw [hfront] at hpush
    refine hpush _ _ (fun i hi => ?_) ?_ ?_ (fun i hi hif => ?_) (fun i hi => ?_)
    · exact Function.update_of_ne (hne i hi) ..
    · exact Function.update_self ..
    · dsimp only
      rw [Function.update_of_ne (hne f hf).symm, Function.update_self]
    · dsimp only
      rw [Function.update_of_ne fun he => hif (congrArg some he.symm),
        Function.update_of_ne (hne i hi)]
    · cases hi
      exact Function.update_self ..

theorem linked_putRear {l : List ℕ} (hl : Linked c.bNext c.bPrev c.front c.rear l) (hin : bp ∉ l) :
    Linked (putRear bp c).bNext (putRear bp c).bPrev (putRear bp c).front (putRear bp c).rear
      (l ++ [bp]) := by
  have hne : ∀ i ∈ l, i ≠ bp := fun i hi he => hin (he ▸ hi)
  have happend := fun n p => @Linked.append _ c.bNext c.bPrev n p c.front c.rear l bp hl hin
  unfold putRear
  dsimp only
  cases hrear : c.rear with
  | none =>
    rw [hrear] at happend
    refine happend _ _ (fun i hi => ?_) ?_ ?_ (fun i hi _ => ?_) (fun i hi => by cases hi)
    · exact Function.update_of_ne (hne i hi) ..
    · exact Function.update_self ..
    · exact Function.update_self ..
    · exact Function.update_of_ne (hne i hi) ..
  | some r =>
    have hr : r ∈ l := List.mem_reverse.mp (hl.symm.forward.head_mem hrear)
    rw [hrear] at happend
    refine happend _ _ (fun i hi => ?_) ?_ ?_ (fun i hi hir => ?_) (fun i hi => ?_)
    · exact Function.update_of_ne (hne i hi) ..
    · exact Function.update_self ..
    · dsimp only
      rw [Function.update_of_ne (hne r hr).symm, Function.update_self]
    · dsimp only
      rw [Function.update_of_ne fun he => hir (congrArg some he.symm),
        Function.update_of_ne (hne i hi)]
    · cases hi
      exact Function.update_self ..

theorem Wired.released (h : Wired C c free hashed) (oneShot : Bool) (hlt : ∀ i, free i → i < C.nrBufs)
    (hbp : bp < C.nrBufs) (hnot : ¬ free bp) :
    Wired C (putLru C bp oneShot c) (fun i => free i ∨ i = bp) hashed := by
  obtain ⟨l, hl, hmem, hlen⟩ := h.lru
  have hin : bp ∉ l := fun hm => hnot ((hmem bp).mp hm)
  -- a buffer that is not on the list is in use
  have hshort : l.length < C.nrBufs := by
    have hsub : (bp :: l) ⊆ List.range C.nrBufs := by
      intro i hi
      rw [List.mem_range]
      rcases List.mem_cons.mp hi with rfl | hi
      · exact hbp
      · exact hlt i ((hmem i).mp hi)
    have hle := (List.subperm_of_subset (List.nodup_cons.mpr ⟨hin, hl.nodup⟩) hsub).length_le
    rw [List.length_range, List.length_cons] at hle
    omega
  have hothers : (putLru C bp oneShot c).bHash = c.bHash ∧
      (putLru C bp oneShot c).bufHash = c.bufHash ∧
      (putLru C bp oneShot c).bufsInUse = c.bufsInUse - 1 := by
    unfold putLru putFront putRear
    dsimp only
    split
    · cases c.front <;> exact ⟨rfl, rfl, rfl⟩
    · cases c.rear <;> exact ⟨rfl, rfl, rfl⟩
  refine ⟨?_, fun b => ?_⟩
  · rw [hothers.2.2]
    unfold putLru
    dsimp only
    split
    · refine ⟨bp :: l, linked_putFront (c := { c with bufsInUse := c.bufsInUse - 1 }) hl hin,
        fun i => ?_, ?_⟩
      · rw [List.mem_cons, hmem, or_comm]
      · rw [List.length_cons]
        omega
    · refine ⟨l ++ [bp], linked_putRear (c := { c with bufsInUse := c.bufsInUse - 1 }) hl hin,
        fun i => ?_, ?_⟩
      · rw [List.mem_append, List.mem_singleton, hmem]
      · rw [List.length_append, List.length_singleton]
        omega
  · rw [hothers.1, hothers.2.1, bufs_putLru.buf]
    exact h.chain b

theorem chain_length (h : Wired C c free hashed) (hlt : ∀ i, hashed i → i < C.nrBufs) {b : ℕ}
    {l : List ℕ} (hl : Path c.bHash (c.bufHash b) l) : l.length ≤ C.nrBufs := by
  obtain ⟨l', hl', hmem⟩ := h.chain b
  obtain rfl := path_unique hl hl'
  have hsub : l ⊆ List.range C.nrBufs := fun i hi =>
    List.mem_range.mpr (hlt i ((hmem i).mp hi).1)
  have hle := (List.subperm_of_subset (path_nodup hl) hsub).length_le
  rwa [List.length_range] at hle

theorem Wired.unhashed (h : Wired C c free hashed) (hlt : ∀ i, hashed i → i < C.nrBufs)
    (hbp : hashed bp) : Wired C (unhash C bp c) free (fun i => hashed i ∧ i ≠ bp) := by
  obtain ⟨l, hl, hmem⟩ := h.chain (bufhash C (c.buf bp).bBlocknr)
  have hin : bp ∈ l := (hmem bp).mpr ⟨hbp, rfl⟩
  have hlen := chain_length h hlt hl
  have hnodup := path_nodup hl
  have herase : ∀ i, i ∈ l.erase bp ↔ (hashed i ∧ i ≠ bp) ∧
      bufhash C (c.buf i).bBlocknr = bufhash C (c.buf bp).bBlocknr := by
    intro i
    rw [hnodup.mem_erase_iff, hmem]
    tauto
  have hother : ∀ b, b ≠ bufhash C (c.buf bp).bBlocknr → ∀ i,
      hashed i ∧ bufhash C (c.buf i).bBlocknr = b ↔
      (hashed i ∧ i ≠ bp) ∧ bufhash C (c.buf i).bBlocknr = b := by
    intro b hb i
    refine ⟨fun hi => ⟨⟨hi.1, fun he => hb ?_⟩, hi.2⟩, fun hi => ⟨hi.1.1, hi.2⟩⟩
    rw [← hi.2, he]
  unfold unhash
  dsimp only
  by_cases hfirst : c.bufHash (bufhash C (c.buf bp).bBlocknr) = some bp
  · rw [if_pos hfirst]
    refine ⟨h.lru, fun b => ?_⟩
    by_cases hb : b = bufhash C (c.buf bp).bBlocknr
    · subst hb
      cases l with
      | nil => cases hin
      | cons i l =>
        obtain rfl : i = bp := Option.some.inj (hl.1.symm.trans hfirst)
        rw [List.erase_cons_head] at herase
        refine ⟨l, ?_, herase⟩
        dsimp only
        rw [Function.update_self]
        exact hl.2
    · obtain ⟨l', hl', hmem'⟩ := h.chain b
      refine ⟨l', ?_, fun i => (hmem' i).trans (hother b hb i)⟩
      dsimp only
      rw [Function.update_of_ne hb]
      exact hl'
  · rw [if_neg hfirst]
    cases l with
    | nil => cases hin
    | cons i l =>
      have hne : i ≠ bp := fun he => hfirst (he ▸ hl.1)
      rw [List.length_cons] at hlen
      obtain ⟨k, hk, hbefore, hnext⟩ := path_before hl.2
        ((List.mem_cons.mp hin).resolve_left (Ne.symm hne))
        (show l.length ≤ C.nrBufs by omega)
      rw [hl.1, Option.bind_some, hbefore]
      refine ⟨h.lru, fun b => ?_⟩
      by_cases hb : b = bufhash C (c.buf bp).bBlocknr
      · subst hb
        exact ⟨(i :: l).erase bp, (path_bypass hl hk hnext).2, herase⟩
      · obtain ⟨l', hl', hmem'⟩ := h.chain b
        refine ⟨l', path_update (fun hk' => hb ?_) hl', fun i => (hmem' i).trans (hother b hb i)⟩
        rw [← ((hmem' k).mp hk').2, ((hmem k).mp hk).2]

theorem Wired.added (h : Wired C c free hashed) (hbp : ¬ hashed bp) :
    Wired C (addHash C bp c) free (fun i => hashed i ∨ i = bp) := by
  refine ⟨h.lru, fun b => ?_⟩
  obtain ⟨l, hl, hmem⟩ := h.chain b
  have hin : bp ∉ l := fun hm => hbp ((hmem bp).mp hm).1
  unfold addHash
  dsimp only
  by_cases hb : b = bufhash C (c.buf bp).bBlocknr
  · subst hb
    refine ⟨bp :: l, ⟨Function.update_self .., ?_⟩, fun i => ?_⟩
    · rw [Function.update_self]
      exact path_update hin hl
    · rw [List.mem_cons, hmem]
      constructor
      · rintro (rfl | hi)
        · exact ⟨.inr rfl, rfl⟩
        · exact ⟨.inl hi.1, hi.2⟩
      · rintro ⟨hi | rfl, hi'⟩
        · exact .inr ⟨hi, hi'⟩
        · exact .inl rfl
  · refine ⟨l, ?_, fun i => (hmem i).trans ?_⟩
    · rw [Function.update_of_ne hb]
      exact path_update hin hl
    · refine ⟨fun hi => ⟨.inl hi.1, hi.2⟩, fun hi => ⟨hi.1.resolve_right ?_, hi.2⟩⟩
      rintro rfl
      exact hb hi.2.symm

theorem Wired.search (h : Wired C c free hashed) (hlt : ∀ i, hashed i → i < C.nrBufs) {dev block : ℕ}
    (hdev : dev ≠ NO_DEV) : (∀ i, searchBlocks C dev block c = some i → hashed i ∧
      (c.buf i).bBlocknr = block ∧ (c.buf i).bDev = dev) ∧
    (searchBlocks C dev block c = none → ∀ i, hashed i →
      ¬ ((c.buf i).bBlocknr = block ∧ (c.buf i).bDev = dev)) := by
  obtain ⟨l, hl, hmem⟩ := h.chain (bufhash C block)
  have hlen := chain_length h hlt hl
  rw [searchBlocks, if_neg hdev, path_walk _ hl (Nat.le_succ_of_le hlen)]
  refine ⟨fun i hi => ?_, fun hnone i hi hheld => ?_⟩
  · have hp := List.find?_some hi
    simp only [decide_eq_true_eq] at hp
    exact ⟨((hmem i).mp (List.mem_of_find?_eq_some hi)).1, hp⟩
  · have hp := List.find?_eq_none.mp hnone i ((hmem i).mpr ⟨hi, by rw [hheld.1]⟩)
    simp only [decide_eq_true_eq] at hp
    exact hp hheld

theorem wired_fresh (disk : ℕ → ℕ → α) (junk : α) :
    Wired C (BufCache.fresh C disk junk) (· < C.nrBufs) (· < C.nrBufs) := by
  have hl : Linked (BufCache.fresh C disk junk).bNext (BufCache.fresh C disk junk).bPrev (some 0)
      (some (C.nrBufs - 1)) (List.range C.nrBufs) :=
    linked_range C.nr_pos (fun _ => rfl) fun _ => rfl
  have hzero : bufhash C NO_BLOCK = 0 := Nat.zero_mod _
  refine ⟨⟨List.range C.nrBufs, hl, fun i => List.mem_range, ?_⟩, fun b => ?_⟩
  · rw [List.length_range]
    exact Nat.zero_add _
  · by_cases hb : b = 0
    · subst hb
      exact ⟨List.range C.nrBufs, hl.forward.path, fun i => List.mem_range.trans
        ⟨fun hi => ⟨hi, hzero⟩, fun hi => hi.1⟩⟩
    · refine ⟨[], if_neg hb, fun i => iff_of_false List.not_mem_nil fun hi => hb ?_⟩
      exact hi.2.symm.trans hzero

end Wiring

end Mfs
