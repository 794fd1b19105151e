import Mathlib.Data.Int.Cast.Basic
import Mathlib.Data.List.Basic

namespace Slab

def slabSizes : ℕ := 60
def minSize : ℕ := 8
def maxSize : ℕ := slabSizes - 1 + minSize

structure SlabHeaders where
  vmPageSize : ℕ
  sdhSize : ℕ
  room : sdhSize + 2 * maxSize ≤ vmPageSize
  nused : vmPageSize < 65536

inductive Fault where
  | assertion | noSpace | outOfBounds | badPointer
  deriving DecidableEq, Repr

inductive SlabList where
  | UNUSED | FREE | USED | FULL
  deriving DecidableEq, Repr

structure Sdh where
  list : SlabList
  nused : ℕ
  freeguess : ℕ
  next : Option ℕ
  prev : Option ℕ
  usebits : List Bool
  phys : ℕ
  deriving DecidableEq, Repr

structure Slabs where
  heap : ℕ → Option Sdh
  listHead : ℕ → SlabList → Option ℕ
  pages : ℕ

-- What vm_allocpage() returns: the page with what it happens to hold, and its physical address.
structure NewPage where
  addr : ℕ
  raw : Sdh
  phys : ℕ

section Sizes
variable (H : SlabHeaders)

def dataBytes : ℕ := H.vmPageSize - H.sdhSize

def itemsPerPage (bytes : ℕ) : ℕ := dataBytes H / bytes

def useElements : ℕ := 1 + H.vmPageSize / minSize / 8

end Sizes

def getSlab (bytes : ℤ) : Except Fault ℕ :=
  if bytes < minSize then .error .assertion
  else if bytes - minSize ≥ slabSizes then .error .assertion
  else .ok (bytes - minSize).toNat

def getBit (f : Sdh) (b : ℕ) : Except Fault Bool :=
  match f.usebits[b]? with
  | none => .error .outOfBounds
  | some bit => .ok bit

section Lists
variable (s : Slabs)

def page (p : ℕ) : Except Fault Sdh :=
  match s.heap p with
  | none => .error .badPointer
  | some f => .ok f

def setPage (p : ℕ) (f : Sdh) : Slabs := { s with heap := Function.update s.heap p (some f) }

def setHead (i : ℕ) (l : SlabList) (h : Option ℕ) : Slabs :=
  { s with listHead := Function.update s.listHead i (Function.update (s.listHead i) l h) }

def modify (p : ℕ) (g : Sdh → Sdh) : Except Fault Slabs := do
  let f ← page s p
  pure (setPage s p (g f))

def modifyIf (p : Option ℕ) (g : Sdh → Sdh) : Except Fault Slabs :=
  match p with
  | none => pure s
  | some p => modify s p g

def setBit (p b : ℕ) : Except Fault Slabs := do
  let f ← page s p
  let bit ← getBit f b
  if bit then .error .assertion
  else pure (setPage s p { f with usebits := f.usebits.set b true, nused := (f.nused + 1) % 65536 })

def clearBit (p b : ℕ) : Except Fault Slabs := do
  let f ← page s p
  let bit ← getBit f b
  if !bit then .error .assertion
  else
    pure (setPage s p
      { f with
        usebits := f.usebits.set b false
        nused := (f.nused + 65535) % 65536
        freeguess := b })

def unlinkNode (node : ℕ) : Except Fault Slabs := do
  let f ← page s node
  let s ← modifyIf s f.prev fun g => { g with next := f.next }
  modifyIf s f.next fun g => { g with prev := f.prev }

def removeHead (i : ℕ) (list : SlabList) : Except Fault (ℕ × Slabs) :=
  match s.listHead i list with
  | none => .error .assertion
  | some dat => do
    let f ← page s dat
    let s ← unlinkNode (setHead s i list f.next) dat
    pure (dat, s)

def addHead (nw i : ℕ) (l : SlabList) : Except Fault Slabs := do
  let h := s.listHead i l
  let s ← modify s nw fun f => { f with next := h, prev := none, list := l }
  modifyIf (setHead s i l (some nw)) h fun f => { f with prev := some nw }

def moveHead (i : ℕ) (l₁ l₂ : SlabList) : Except Fault Slabs :=
  match s.listHead i l₁ with
  | none => .error .assertion
  | some _ => do
    let (t, s) ← removeHead s i l₁
    addHead s t i l₂

end Lists

inductive Progress where
  | done (mem : ℕ) (s : Slabs)
  | needPage

section Calls
variable (H : SlabHeaders) (s : Slabs)

def newslabdata (list : SlabList) (n : NewPage) : Slabs :=
  { setPage s n.addr
      { n.raw with
        usebits := List.replicate (8 * useElements H) false
        phys := n.phys
        nused := 0
        freeguess := 0
        list := list } with
    pages := s.pages + 1 }

def findFree (f : Sdh) (n : ℕ) : ℕ → ℕ → Except Fault ℕ
  | 0, _ => .error .noSpace
  | left + 1, i => do
    let i := i % n
    let bit ← getBit f i
    if bit then findFree f n left (i + 1) else pure i

def moveFull (i : ℕ) (isFull : Bool) : Except Fault Slabs :=
  if isFull then moveHead s i .USED .FULL else pure s

def takeUsed (bytes i : ℕ) : Except Fault (ℕ × Slabs) :=
  match s.listHead i .USED with
  | none => .error .assertion
  | some firstused => do
    let n := itemsPerPage H bytes
    let f ← page s firstused
    if ¬ f.nused < n then .error .assertion
    else
      let b ← findFree f n n f.freeguess
      let s ← setBit s firstused b
      let f ← page s firstused
      let s ← moveFull s i (decide (f.nused = n))
      let s ← modify s firstused fun f => { f with freeguess := b + 1 }
      pure (firstused + H.sdhSize + b * bytes, s)

def slaballoc (bytes : ℤ) : Except Fault Progress := do
  let i ← getSlab bytes
  match s.listHead i .USED, s.listHead i .FREE with
  | none, none => pure .needPage
  | none, some _ =>
    let s ← moveHead s i .FREE .USED
    let r ← takeUsed H s bytes.toNat i
    pure (.done r.1 r.2)
  | some _, _ =>
    let r ← takeUsed H s bytes.toNat i
    pure (.done r.1 r.2)

-- The rest of slaballoc() after vm_allocpage(), which may itself have called slaballoc() and
-- slabfree() meanwhile; without a page it returns NULL.
def slaballocPage (bytes : ℤ) (n : Option NewPage) : Except Fault (Option ℕ × Slabs) := do
  let i ← getSlab bytes
  match n with
  | none => pure (none, s)
  | some n =>
    let s ← addHead (newslabdata H s .FREE n) n.addr i .FREE
    let s ← moveHead s i .FREE .USED
    let r ← takeUsed H s bytes.toNat i
    pure (some r.1, r.2)

def objstats (mem : ℕ) (bytes : ℤ) : Except Fault (ℕ × ℕ × ℤ) := do
  let s ← getSlab bytes
  let f := mem - mem % H.vmPageSize
  let i : ℤ := mem - (f + H.sdhSize)
  pure (s, f, i.tdiv bytes)

def changeList (f i : ℕ) (l₁ l₂ : SlabList) : Except Fault Slabs := do
  let h ← page s f
  if h.list ≠ l₁ then .error .assertion
  else
    let s ← unlinkNode s f
    let h ← page s f
    let s := if s.listHead i l₁ = some f then setHead s i l₁ h.next else s
    addHead s f i l₂

def slabfree (mem : ℕ) (bytes : ℤ) : Except Fault Slabs := do
  let (i, f, b) ← objstats H mem bytes
  if b < 0 then .error .outOfBounds
  else
    let s ← clearBit s f b.toNat
    let h ← page s f
    if h.nused = 0 then changeList s f i .USED .FREE
    else if h.nused = itemsPerPage H bytes.toNat - 1 then changeList s f i .FULL .USED
    else if h.list ≠ .USED then .error .assertion
    else pure s

end Calls

end Slab
