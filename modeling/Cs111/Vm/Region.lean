import Cs111.Kernel.Proc
import Cs111.Lib.Runs

namespace Vm
open Kernel (Fault kassert bind_ok kassert_bind_ok pure_ok)
open TransitionSystem

abbrev VirBytes := BitVec 32

def VM_PAGE_SIZE : VirBytes := 0x1000
def VM_DATATOP : VirBytes := 0xFFFFF000
def MAP_NONE : VirBytes := 0xFFFFFFFE
def VRT_NONE : BitVec 32 := 0xBEEF0000
def VR_SHARED : BitVec 32 := 0x040
def VR_ANON : BitVec 32 := 0x100
def MF_PREALLOC : BitVec 32 := 0x01

structure VirRegion (P : Type) where
  vaddr : VirBytes
  length : VirBytes
  flags : BitVec 32
  tag : BitVec 32
  phys : P

def MAX (a b : VirBytes) : VirBytes := if a > b then a else b

def MIN (a b : VirBytes) : VirBytes := if a < b then a else b

section Slots
variable {P : Type} (minv maxv length : VirBytes)

def freeVrange (rangestart rangeend : VirBytes) : Option VirBytes :=
  let frstart := MAX rangestart minv
  let frend := MIN rangeend maxv
  if frend > frstart ∧ frend - frstart ≥ length then some frstart else none

def gapEnd : List (VirRegion P) → VirBytes
  | [] => VM_DATATOP
  | vr :: _ => vr.vaddr

def findAfter : ℕ → List (VirRegion P) → Option (VirBytes × ℕ)
  | _, [] => none
  | i, vr :: rest =>
    match freeVrange minv maxv length (vr.vaddr + vr.length) (gapEnd rest) with
    | some startv => some (startv, i)
    | none => findAfter (i + 1) rest

def findGap (regions : List (VirRegion P)) : Option (VirBytes × Option ℕ) :=
  match freeVrange minv maxv length 0 (gapEnd regions) with
  | some startv => some (startv, none)
  | none => (findAfter minv maxv length 0 regions).map fun found => (found.1, some found.2)

def searchSlot (regions : List (VirRegion P)) :
    Except Fault (Option (VirBytes × Option ℕ)) := do
  kassert (decide (length % VM_PAGE_SIZE = 0))
  kassert (decide (minv < maxv))
  kassert (decide (minv + length ≤ maxv))
  match findGap minv maxv length regions with
  | none => pure none
  | some (startv, prev) => do
    kassert (decide (startv ≥ minv))
    kassert (decide (startv < maxv))
    kassert (decide (startv + length ≤ maxv))
    pure (some (startv, prev))

def regionFindSlot (regions : List (VirRegion P)) :
    Except Fault (Option (VirBytes × Option ℕ)) := do
  kassert (decide (length > 0))
  if maxv = 0 then
    if minv + length ≤ minv then pure none else searchSlot minv (minv + length) length regions
  else searchSlot minv maxv length regions

end Slots

def link {P : Type} (regions : List (VirRegion P)) (prev : Option ℕ) (vr : VirRegion P) :
    List (VirRegion P) :=
  match prev with
  | none => vr :: regions
  | some i => regions.take (i + 1) ++ vr :: regions.drop (i + 1)

structure PageCall where
  minv : VirBytes
  maxv : VirBytes
  length : VirBytes
  what : VirBytes
  flags : BitVec 32
  mapflags : BitVec 32

-- How the allocations of map_page_region() go: the region, its AVL, and the physical memory
-- after map_new_physblock() and map_handle_memory().
structure PageOutcome (P : Type) where
  slabRegion : Bool
  physInit : Option P
  mapNewPhysblock : P → Option P
  mapHandleMemory : P → Option P

section Calls
variable {P : Type} (regions : List (VirRegion P))

def pagePhys (m : PageCall) (o : PageOutcome P) (startv : VirBytes) (phys : P) :
    Except Fault (Option P) :=
  if m.what ≠ MAP_NONE then do
    kassert (decide (m.what % VM_PAGE_SIZE = 0))
    kassert (decide (startv % VM_PAGE_SIZE = 0))
    kassert (decide (m.mapflags &&& MF_PREALLOC = 0))
    pure (o.mapNewPhysblock phys)
  else pure (some phys)

def pagePrealloc (m : PageCall) (o : PageOutcome P) (phys : P) : Option P :=
  if m.flags &&& VR_ANON ≠ 0 ∧ m.mapflags &&& MF_PREALLOC ≠ 0 then o.mapHandleMemory phys
  else some phys

def assertOrder (prev : Option ℕ) (startv : VirBytes) : Except Fault Unit :=
  match prev.bind fun i => regions[i]? with
  | none => .ok ()
  | some vr => kassert (decide (vr.vaddr < startv))

def linkPage (m : PageCall) (startv : VirBytes) (prev : Option ℕ) :
    Option P → Except Fault (Option (VirRegion P) × List (VirRegion P))
  | none => pure (none, regions)
  | some phys => do
    let newregion : VirRegion P := ⟨startv, m.length, m.flags, VRT_NONE, phys⟩
    assertOrder regions prev startv
    pure (some newregion, link regions prev newregion)

def mapPageRegion (m : PageCall) (o : PageOutcome P) :
    Except Fault (Option (VirRegion P) × List (VirRegion P)) := do
  kassert (decide (m.length % VM_PAGE_SIZE = 0))
  match ← regionFindSlot m.minv m.maxv m.length regions with
  | none => pure (none, regions)
  | some (startv, prev) =>
    match o.slabRegion, o.physInit with
    | true, some phys => do
      let phys ← pagePhys m o startv phys
      linkPage regions m startv prev (phys.bind (pagePrealloc m o))
    | _, _ => pure (none, regions)

def mapRegionExtend (i : ℕ) (delta : VirBytes) : Except Fault (Bool × List (VirRegion P)) :=
  match regions[i]? with
  | none => .error .assertion
  | some vr => do
    kassert (decide (vr.flags &&& VR_ANON ≠ 0))
    kassert (decide (delta % VM_PAGE_SIZE = 0))
    if delta = 0 then pure (true, regions)
    else do
      let stop := vr.vaddr + vr.length
      kassert (decide (stop ≥ vr.vaddr))
      if stop + delta ≤ stop then pure (false, regions)
      else
        match regions[i + 1]? with
        | none => pure (true, regions.set i { vr with length := vr.length + delta })
        | some next =>
          if stop + delta ≤ next.vaddr then
            pure (true, regions.set i { vr with length := vr.length + delta })
          else pure (false, regions)

structure RemapCall where
  da : VirBytes
  size : VirBytes
  -- vm_stacktop, and what arch_vir2map() adds to an address
  stacktop : VirBytes
  bottom : VirBytes

-- copy is the physical memory that map_copy_region() makes; writept tells whether the pages can
-- be written to the page table.
def mapRemap (m : RemapCall) (region : VirRegion P) (copy : Option P) (writept : Bool) :
    Except Fault (Option VirBytes × List (VirRegion P)) := do
  kassert (decide (region.flags &&& VR_SHARED ≠ 0))
  let dstAddr := (if m.da = 0 then m.stacktop else m.da) + m.bottom
  kassert (decide (m.size % VM_PAGE_SIZE = 0))
  match ← regionFindSlot dstAddr VM_DATATOP m.size regions with
  | none => pure (none, regions)
  | some (startv, prev) =>
    if m.da ≠ 0 ∧ startv ≠ dstAddr then pure (none, regions)
    else
      match copy with
      | none => pure (none, regions)
      | some phys =>
        if writept then
          pure (some startv, link regions prev ⟨startv, m.size, region.flags, VRT_NONE, phys⟩)
        else .error .panic

end Calls

namespace VirRegion
variable {P : Type} (vr : VirRegion P)

def start : ℕ := vr.vaddr.toNat

def stop : ℕ := vr.vaddr.toNat + vr.length.toNat

def Overlaps (s n : ℕ) : Prop := s < vr.stop ∧ vr.start < s + n

end VirRegion

structure Sorted {P : Type} (regions : List (VirRegion P)) : Prop where
  inside : ∀ vr ∈ regions, vr.stop < 2 ^ 32
  ordered : regions.Pairwise fun a b => a.stop ≤ b.start

structure Fits {P : Type} (regions : List (VirRegion P)) (lo hi n s : ℕ) : Prop where
  above : lo ≤ s
  below : s + n ≤ hi
  clear : ∀ vr ∈ regions, ¬ vr.Overlaps s n

def prevCount : Option ℕ → ℕ
  | none => 0
  | some i => i + 1

structure Between {P : Type} (regions : List (VirRegion P)) (prev : Option ℕ) (s n : ℕ) :
    Prop where
  inside : prevCount prev ≤ regions.length
  before : ∀ vr ∈ regions.take (prevCount prev), vr.stop ≤ s
  after : ∀ vr ∈ regions.drop (prevCount prev), s + n ≤ vr.start

def Lowest {P : Type} (regions : List (VirRegion P)) (lo hi n : ℕ) :
    Option (VirBytes × Option ℕ) → Prop
  | none => ∀ s, ¬ Fits regions lo hi n s
  | some (startv, prev) => Fits regions lo hi n startv.toNat ∧
    (∀ s, Fits regions lo hi n s → startv.toNat ≤ s) ∧ Between regions prev startv.toNat n

def limit (minv maxv length : VirBytes) : ℕ :=
  if maxv = 0 then minv.toNat + length.toNat else maxv.toNat

structure Reasonable (minv maxv length : VirBytes) : Prop where
  positive : 0 < length.toNat
  paged : length % VM_PAGE_SIZE = 0
  room : minv.toNat + length.toNat ≤ limit minv maxv length

section Search
variable {P : Type} {minv maxv length a b s : VirBytes} {regions rest : List (VirRegion P)}
  {vr : VirRegion P} {i k m : ℕ}

theorem max_toNat (a b : VirBytes) : (MAX a b).toNat = max a.toNat b.toNat := by
  rw [MAX]
  split <;> bv_omega

theorem min_toNat (a b : VirBytes) : (MIN a b).toNat = min a.toNat b.toNat := by
  rw [MIN]
  split <;> bv_omega

theorem freeVrange_some (h : freeVrange minv maxv length a b = some s) :
    s.toNat = max a.toNat minv.toNat ∧ s.toNat + length.toNat ≤ min b.toNat maxv.toNat := by
  rw [freeVrange] at h
  split at h
  · rename_i hroom
    obtain ⟨hgt, hlen⟩ := hroom
    obtain rfl := Option.some.inj h
    rw [← max_toNat, ← min_toNat]
    exact ⟨rfl, by bv_omega⟩
  · cases h

theorem freeVrange_none (hlength : 0 < length.toNat)
    (h : freeVrange minv maxv length a b = none) :
    ¬ max a.toNat minv.toNat + length.toNat ≤ min b.toNat maxv.toNat := by
  rw [freeVrange] at h
  split at h
  · cases h
  · rename_i hroom
    rw [← max_toNat, ← min_toNat]
    intro hle
    exact hroom ⟨by bv_omega, by bv_omega⟩

theorem Sorted.tail (h : Sorted (vr :: rest)) : Sorted rest :=
  ⟨fun r hr => h.inside r (List.mem_cons_of_mem vr hr), (List.pairwise_cons.mp h.ordered).2⟩

theorem Sorted.stop (h : Sorted (vr :: rest)) : (vr.vaddr + vr.length).toNat = vr.stop := by
  have hinside := h.inside vr List.mem_cons_self
  rw [VirRegion.stop] at hinside ⊢
  bv_omega

theorem behind_gap (hlength : 0 < length.toNat)
    (hnone : freeVrange minv maxv length a (gapEnd rest) = none)
    (hfits : Fits rest minv.toNat (min maxv.toNat VM_DATATOP.toNat) length.toNat m)
    (ha : a.toNat ≤ m) : ∃ vr rest', rest = vr :: rest' ∧ vr.stop ≤ m := by
  have hroom := freeVrange_none hlength hnone
  have habove := hfits.above
  have hbelow := hfits.below
  cases rest with
  | nil =>
    have hend : (gapEnd ([] : List (VirRegion P))).toNat = VM_DATATOP.toNat := rfl
    rw [hend] at hroom
    omega
  | cons vr rest =>
    have hend : (gapEnd (vr :: rest)).toNat = vr.start := rfl
    rw [hend] at hroom
    refine ⟨vr, rest, rfl, ?_⟩
    by_contra hlt
    exact hfits.clear vr List.mem_cons_self ⟨by omega, by omega⟩

theorem Fits.tail {lo hi n : ℕ} (h : Fits (vr :: rest) lo hi n m) : Fits rest lo hi n m :=
  ⟨h.above, h.below, fun r hr => h.clear r (List.mem_cons_of_mem vr hr)⟩

theorem gap_placed (hsorted : Sorted rest) (h : freeVrange minv maxv length a (gapEnd rest) = some s) :
    minv.toNat ≤ s.toNat ∧ a.toNat ≤ s.toNat ∧ s.toNat + length.toNat ≤ maxv.toNat ∧
      (rest = [] → s.toNat + length.toNat ≤ VM_DATATOP.toNat) ∧
      ∀ r ∈ rest, s.toNat + length.toNat ≤ r.start := by
  obtain ⟨hs, hroom⟩ := freeVrange_some h
  refine ⟨by omega, by omega, by omega, ?_, fun r hr => ?_⟩
  · rintro rfl
    have hend : (gapEnd ([] : List (VirRegion P))).toNat = VM_DATATOP.toNat := rfl
    omega
  · cases rest with
    | nil => cases hr
    | cons vr rest =>
      have hend : (gapEnd (vr :: rest)).toNat = vr.start := rfl
      rw [hend] at hroom
      rcases List.mem_cons.mp hr with rfl | hr
      · omega
      · have hle := (List.pairwise_cons.mp hsorted.ordered).1 r hr
        have hstop : vr.start ≤ vr.stop := Nat.le_add_right ..
        omega

theorem findAfter_some (hsorted : Sorted regions)
    (h : findAfter minv maxv length i regions = some (s, k)) : ∃ j, k = i + j ∧ j < regions.length ∧
      minv.toNat ≤ s.toNat ∧ s.toNat + length.toNat ≤ maxv.toNat ∧
      (∀ r ∈ regions.take (j + 1), r.stop ≤ s.toNat) ∧
      (∀ r ∈ regions.drop (j + 1), s.toNat + length.toNat ≤ r.start) ∧
      (regions.drop (j + 1) = [] → s.toNat + length.toNat ≤ VM_DATATOP.toNat) := by
  induction regions generalizing i with
  | nil => cases h
  | cons vr rest ih =>
    rw [findAfter] at h
    have hstop := hsorted.stop
    split at h
    · rename_i startv hgap
      obtain ⟨rfl, rfl⟩ := Prod.mk.inj (Option.some.inj h)
      obtain ⟨hmin, hafter, hmax, hlast, hrest⟩ := gap_placed hsorted.tail hgap
      refine ⟨0, rfl, Nat.zero_lt_succ _, hmin, hmax, fun r hr => ?_, hrest, hlast⟩
      obtain rfl : r = vr := by simpa using hr
      omega
    · obtain ⟨j, rfl, hj, hmin, hmax, hbefore, hafter, hlast⟩ := ih hsorted.tail h
      refine ⟨j + 1, by omega, Nat.succ_lt_succ hj, hmin, hmax, fun r hr => ?_, hafter, hlast⟩
      rw [List.take_succ_cons] at hr
      rcases List.mem_cons.mp hr with rfl | hr
      · -- the regions in between start after this one stops
        obtain ⟨q, rest', rfl⟩ := List.exists_cons_of_ne_nil (l := rest) (by
          rintro rfl
          cases hj)
        have hq := hbefore q (by simp)
        have hle := (List.pairwise_cons.mp hsorted.ordered).1 q List.mem_cons_self
        have hqstop : q.start ≤ q.stop := Nat.le_add_right ..
        omega
      · exact hbefore r hr

theorem findAfter_least (hlength : 0 < length.toNat) (hsorted : Sorted (vr :: rest))
    (hfits : Fits (vr :: rest) minv.toNat (min maxv.toNat VM_DATATOP.toNat) length.toNat m)
    (hm : vr.stop ≤ m) : ∃ s k, findAfter minv maxv length i (vr :: rest) = some (s, k) ∧
      s.toNat ≤ m := by
  induction rest generalizing vr i with
  | nil =>
    rw [findAfter]
    have hstop := hsorted.stop
    cases hgap : freeVrange minv maxv length (vr.vaddr + vr.length) (gapEnd ([] : List (VirRegion P)))
      with
    | none =>
      obtain ⟨q, rest', hrest, -⟩ := behind_gap hlength hgap hfits.tail (by omega)
      cases hrest
    | some startv =>
      have hs := (freeVrange_some hgap).1
      have habove := hfits.above
      exact ⟨startv, i, rfl, by omega⟩
  | cons q rest ih =>
    rw [findAfter]
    have hstop := hsorted.stop
    cases hgap : freeVrange minv maxv length (vr.vaddr + vr.length) (gapEnd (q :: rest)) with
    | none =>
      obtain ⟨q', rest', hrest, hq⟩ := behind_gap hlength hgap hfits.tail (by omega)
      obtain ⟨rfl, rfl⟩ := List.cons.inj hrest
      exact ih hsorted.tail hfits.tail hq
    | some startv =>
      have hs := (freeVrange_some hgap).1
      have habove := hfits.above
      exact ⟨startv, i, rfl, by omega⟩

theorem Between.fits {lo hi n : ℕ} {prev : Option ℕ} (h : Between regions prev m n) (hlo : lo ≤ m)
    (hhi : m + n ≤ hi) : Fits regions lo hi n m := by
  refine ⟨hlo, hhi, fun r hr hover => ?_⟩
  obtain ⟨hstop, hstart⟩ := hover
  rw [← List.take_append_drop (prevCount prev) regions] at hr
  rcases List.mem_append.mp hr with hr | hr
  · exact absurd (h.before r hr) (by omega)
  · exact absurd (h.after r hr) (by omega)

theorem findGap_between {prev : Option ℕ} (hsorted : Sorted regions)
    (h : findGap minv maxv length regions = some (s, prev)) :
    Between regions prev s.toNat length.toNat ∧ minv.toNat ≤ s.toNat ∧
      s.toNat + length.toNat ≤ maxv.toNat ∧ (regions.drop (prevCount prev) = [] →
        s.toNat + length.toNat ≤ VM_DATATOP.toNat) := by
  rw [findGap] at h
  split at h
  · rename_i startv hfirst
    obtain ⟨rfl, rfl⟩ := Prod.mk.inj (Option.some.inj h)
    obtain ⟨hmin, -, hmax, hlast, hrest⟩ := gap_placed hsorted hfirst
    exact ⟨⟨Nat.zero_le _, by simp [prevCount], hrest⟩, hmin, hmax, hlast⟩
  · obtain ⟨⟨s', k⟩, hfound, he⟩ := Option.map_eq_some_iff.mp h
    obtain ⟨rfl, rfl⟩ := Prod.mk.inj he
    obtain ⟨j, rfl, hj, hmin, hmax, hbefore, hafter, hlast⟩ := findAfter_some hsorted hfound
    rw [Nat.zero_add]
    exact ⟨⟨hj, hbefore, hafter⟩, hmin, hmax, hlast⟩

theorem findGap_lowest (hlength : 0 < length.toNat) (hsorted : Sorted regions)
    (hbelow : ∀ r ∈ regions, r.stop ≤ VM_DATATOP.toNat) :
    Lowest regions minv.toNat (min maxv.toNat VM_DATATOP.toNat) length.toNat
      (findGap minv maxv length regions) := by
  -- Whatever fits is found by the first gap or behind the first region.
  have hfirst : ∀ m, Fits regions minv.toNat (min maxv.toNat VM_DATATOP.toNat) length.toNat m →
      ∃ s prev, findGap minv maxv length regions = some (s, prev) ∧ s.toNat ≤ m := by
    intro m hfits
    have habove := hfits.above
    rw [findGap]
    cases hgap : freeVrange minv maxv length 0 (gapEnd regions) with
    | some startv =>
      have hs : startv.toNat = max 0 minv.toNat := (freeVrange_some hgap).1
      exact ⟨startv, none, rfl, by omega⟩
    | none =>
      obtain ⟨vr, rest, rfl, hvr⟩ := behind_gap hlength hgap hfits (Nat.zero_le m)
      obtain ⟨s, k, hfound, hs⟩ := findAfter_least (i := 0) hlength hsorted hfits hvr
      exact ⟨s, some k, by rw [hfound]; rfl, hs⟩
  cases hfound : findGap minv maxv length regions with
  | none =>
    intro m hfits
    obtain ⟨s, prev, hsome, -⟩ := hfirst m hfits
    exact absurd (hfound.symm.trans hsome) (Option.some_ne_none _).symm
  | some found =>
    obtain ⟨s, prev⟩ := found
    obtain ⟨hbetween, hmin, hmax, hlast⟩ := findGap_between hsorted hfound
    have hdata : s.toNat + length.toNat ≤ VM_DATATOP.toNat := by
      cases hrest : regions.drop (prevCount prev) with
      | nil => exact hlast hrest
      | cons vr rest =>
        have hmem : vr ∈ regions.drop (prevCount prev) := by simp [hrest]
        have hafter := hbetween.after vr hmem
        have hstop := hbelow vr (List.mem_of_mem_drop hmem)
        have hle : vr.start ≤ vr.stop := Nat.le_add_right ..
        omega
    refine ⟨hbetween.fits hmin (by omega), fun m hfits => ?_, hbetween⟩
    obtain ⟨s', prev', hsome, hle⟩ := hfirst m hfits
    obtain ⟨rfl, rfl⟩ := Prod.mk.inj (Option.some.inj (hfound.symm.trans hsome))
    exact hle

theorem searchSlot_lowest (hlength : 0 < length.toNat) (hpaged : length % VM_PAGE_SIZE = 0)
    (hroom : minv.toNat + length.toNat ≤ maxv.toNat) (hsorted : Sorted regions)
    (hbelow : ∀ r ∈ regions, r.stop ≤ VM_DATATOP.toNat) :
    ∃ found, searchSlot minv maxv length regions = .ok found ∧
      Lowest regions minv.toNat (min maxv.toNat VM_DATATOP.toNat) length.toNat found := by
  have hlowest : Lowest regions minv.toNat (min maxv.toNat VM_DATATOP.toNat) length.toNat
      (findGap minv maxv length regions) := findGap_lowest hlength hsorted hbelow
  have hmin : decide (minv < maxv) = true := decide_eq_true (by bv_omega)
  have hmax : decide (minv + length ≤ maxv) = true := decide_eq_true (by bv_omega)
  refine ⟨findGap minv maxv length regions, ?_, hlowest⟩
  rw [searchSlot]
  refine kassert_bind_ok.mpr ⟨decide_eq_true hpaged, kassert_bind_ok.mpr ⟨hmin,
    kassert_bind_ok.mpr ⟨hmax, ?_⟩⟩⟩
  cases hfound : findGap minv maxv length regions with
  | none => rfl
  | some found =>
    obtain ⟨s, prev⟩ := found
    obtain ⟨-, habove, hend, -⟩ := findGap_between hsorted hfound
    exact kassert_bind_ok.mpr ⟨decide_eq_true (by bv_omega), kassert_bind_ok.mpr
      ⟨decide_eq_true (by bv_omega), kassert_bind_ok.mpr ⟨decide_eq_true (by bv_omega), rfl⟩⟩⟩

theorem regionFindSlot_lowest (hreasonable : Reasonable minv maxv length)
    (hsorted : Sorted regions) (hbelow : ∀ r ∈ regions, r.stop ≤ VM_DATATOP.toNat) :
    ∃ found, regionFindSlot minv maxv length regions = .ok found ∧
      Lowest regions minv.toNat (min (limit minv maxv length) VM_DATATOP.toNat) length.toNat
        found := by
  obtain ⟨hlength, hpaged, hroom⟩ := hreasonable
  rw [regionFindSlot, limit] at *
  by_cases hmaxv : maxv = 0
  · rw [if_pos hmaxv, if_pos hmaxv]
    by_cases hwrap : minv + length ≤ minv
    · rw [if_pos hwrap]
      refine ⟨none, kassert_bind_ok.mpr ⟨decide_eq_true (by bv_omega), rfl⟩, fun m hfits => ?_⟩
      have habove := hfits.above
      have hend := hfits.below
      have hdata : VM_DATATOP.toNat = 4294963200 := rfl
      have hover : minv.toNat + length.toNat ≥ 4294967296 := by bv_omega
      omega
    · rw [if_neg hwrap]
      have hsum : (minv + length).toNat = minv.toNat + length.toNat := by bv_omega
      rw [← hsum]
      have hroom' : minv.toNat + length.toNat ≤ (minv + length).toNat := by omega
      obtain ⟨found, hfound, hlowest⟩ := searchSlot_lowest hlength hpaged hroom' hsorted hbelow
      exact ⟨found, kassert_bind_ok.mpr ⟨decide_eq_true (by bv_omega), hfound⟩, hlowest⟩
  · rw [if_neg hmaxv] at hroom
    rw [if_neg hmaxv, if_neg hmaxv]
    obtain ⟨found, hfound, hlowest⟩ := searchSlot_lowest hlength hpaged hroom hsorted hbelow
    exact ⟨found, kassert_bind_ok.mpr ⟨decide_eq_true (by bv_omega), hfound⟩, hlowest⟩

theorem searchSlot_found {prev : Option ℕ} (hsorted : Sorted regions)
    (h : searchSlot minv maxv length regions = .ok (some (s, prev))) :
    Between regions prev s.toNat length.toNat ∧ s.toNat + length.toNat < 2 ^ 32 := by
  rw [searchSlot] at h
  obtain ⟨-, h⟩ := kassert_bind_ok.mp h
  obtain ⟨-, h⟩ := kassert_bind_ok.mp h
  obtain ⟨-, h⟩ := kassert_bind_ok.mp h
  split at h
  · cases h
  · rename_i startv prev' hfound
    obtain ⟨-, h⟩ := kassert_bind_ok.mp h
    obtain ⟨-, h⟩ := kassert_bind_ok.mp h
    obtain ⟨-, h⟩ := kassert_bind_ok.mp h
    obtain ⟨rfl, rfl⟩ := Prod.mk.inj (Option.some.inj (pure_ok.mp h))
    obtain ⟨hbetween, -, hend, -⟩ := findGap_between hsorted hfound
    exact ⟨hbetween, lt_of_le_of_lt hend maxv.isLt⟩

theorem regionFindSlot_found {prev : Option ℕ} (hsorted : Sorted regions)
    (h : regionFindSlot minv maxv length regions = .ok (some (s, prev))) :
    Between regions prev s.toNat length.toNat ∧ s.toNat + length.toNat < 2 ^ 32 := by
  rw [regionFindSlot] at h
  obtain ⟨-, h⟩ := kassert_bind_ok.mp h
  split at h
  · split at h
    · cases h
    · exact searchSlot_found hsorted h
  · exact searchSlot_found hsorted h

end Search

section Lists
variable {P : Type} {regions regions' pre post : List (VirRegion P)} {vr vr' : VirRegion P}
  {prev : Option ℕ} {n : ℕ}

theorem sorted_middle : Sorted (pre ++ vr :: post) ↔ vr.stop < 2 ^ 32 ∧ Sorted (pre ++ post) ∧
    (∀ r ∈ pre, r.stop ≤ vr.start) ∧ ∀ r ∈ post, vr.stop ≤ r.start := by
  constructor
  · rintro ⟨hinside, hordered⟩
    obtain ⟨hpre, hpost, hcross⟩ := List.pairwise_append.mp hordered
    obtain ⟨hvr, hpost⟩ := List.pairwise_cons.mp hpost
    refine ⟨hinside vr (by simp), ⟨fun r hr => hinside r ?_, List.pairwise_append.mpr
      ⟨hpre, hpost, fun r hr q hq => hcross r hr q (List.mem_cons_of_mem vr hq)⟩⟩,
      fun r hr => hcross r hr vr List.mem_cons_self, hvr⟩
    rcases List.mem_append.mp hr with hr | hr
    · simp [hr]
    · simp [hr]
  · rintro ⟨hvr, ⟨hinside, hordered⟩, hbefore, hafter⟩
    obtain ⟨hpre, hpost, hcross⟩ := List.pairwise_append.mp hordered
    refine ⟨fun r hr => ?_, List.pairwise_append.mpr ⟨hpre, List.pairwise_cons.mpr ⟨hafter, hpost⟩,
      fun r hr q hq => ?_⟩⟩
    · rcases List.mem_append.mp hr with hr | hr
      · exact hinside r (List.mem_append_left post hr)
      · rcases List.mem_cons.mp hr with rfl | hr
        · exact hvr
        · exact hinside r (List.mem_append_right pre hr)
    · rcases List.mem_cons.mp hq with rfl | hq
      · exact hbefore r hr
      · exact hcross r hr q hq

theorem link_eq (regions : List (VirRegion P)) (prev : Option ℕ) (vr : VirRegion P) :
    link regions prev vr =
      regions.take (prevCount prev) ++ vr :: regions.drop (prevCount prev) := by
  cases prev <;> rfl

theorem link_sorted (hsorted : Sorted regions) (hbetween : Between regions prev vr.start n)
    (hlength : vr.length.toNat = n) (hinside : vr.start + n < 2 ^ 32) :
    Sorted (link regions prev vr) := by
  have hstop : vr.stop = vr.start + n := by rw [← hlength]; rfl
  rw [link_eq, sorted_middle, List.take_append_drop, hstop]
  exact ⟨hinside, hsorted, hbetween.before, hbetween.after⟩

theorem mapPageRegion_sorted {m : PageCall} {o : PageOutcome P} {res : Option (VirRegion P)}
    (hsorted : Sorted regions) (h : mapPageRegion regions m o = .ok (res, regions')) :
    Sorted regions' := by
  rw [mapPageRegion] at h
  obtain ⟨-, h⟩ := kassert_bind_ok.mp h
  obtain ⟨found, hfound, h⟩ := bind_ok.mp h
  cases found with
  | none =>
    cases h
    exact hsorted
  | some slot =>
    obtain ⟨startv, prev⟩ := slot
    obtain ⟨hbetween, hinside⟩ := regionFindSlot_found hsorted hfound
    dsimp only at h
    split at h
    · obtain ⟨phys, -, h⟩ := bind_ok.mp h
      generalize phys.bind (pagePrealloc m o) = q at h
      cases q with
      | none =>
        cases h
        exact hsorted
      | some phys =>
        rw [linkPage] at h
        obtain ⟨_, -, h⟩ := bind_ok.mp h
        obtain ⟨-, rfl⟩ := Prod.mk.inj (pure_ok.mp h)
        exact link_sorted hsorted hbetween rfl hinside
    · cases h
      exact hsorted

theorem extend_sorted {i : ℕ} {delta : VirBytes} (hsorted : Sorted regions)
    (hvr : regions[i]? = some vr) (hend : ¬ vr.vaddr + vr.length + delta ≤ vr.vaddr + vr.length)
    (hnext : ∀ next, regions[i + 1]? = some next → vr.vaddr + vr.length + delta ≤ next.vaddr) :
    Sorted (regions.set i { vr with length := vr.length + delta }) := by
  obtain ⟨hi, hget⟩ := List.getElem?_eq_some_iff.mp hvr
  have hsplit : regions = regions.take i ++ vr :: regions.drop (i + 1) := by
    rw [← hget, ← List.drop_eq_getElem_cons hi, List.take_append_drop]
  have hset : regions.set i { vr with length := vr.length + delta } =
      regions.take i ++ { vr with length := vr.length + delta } :: regions.drop (i + 1) :=
    List.set_eq_take_append_cons_drop .. |>.trans (if_pos hi)
  rw [hsplit] at hsorted
  obtain ⟨hinside, hrest, hbefore, hafter⟩ := sorted_middle.mp hsorted
  rw [VirRegion.stop] at hinside
  have hlonger : VirRegion.stop { vr with length := vr.length + delta } =
      (vr.vaddr + vr.length + delta).toNat := by
    rw [VirRegion.stop]
    bv_omega
  rw [hset]
  refine sorted_middle.mpr ⟨hlonger ▸ BitVec.isLt _, hrest, hbefore, fun r hr => ?_⟩
  rw [hlonger]
  cases hdrop : regions.drop (i + 1) with
  | nil => simp [hdrop] at hr
  | cons next rest =>
    have hsome : regions[i + 1]? = some next := by
      rw [← List.head?_drop, hdrop]
      rfl
    have hle : (vr.vaddr + vr.length + delta).toNat ≤ next.start := hnext next hsome
    rw [hdrop] at hr hrest
    rcases List.mem_cons.mp hr with rfl | hr
    · exact hle
    · have hordered := (List.pairwise_append.mp hrest.ordered).2.1
      have hnextr := (List.pairwise_cons.mp hordered).1 r hr
      have hstop : next.start ≤ next.stop := Nat.le_add_right ..
      omega

theorem mapRegionExtend_sorted {i : ℕ} {delta : VirBytes} {res : Bool} (hsorted : Sorted regions)
    (h : mapRegionExtend regions i delta = .ok (res, regions')) : Sorted regions' := by
  rw [mapRegionExtend] at h
  split at h
  · cases h
  · rename_i vr hvr
    obtain ⟨-, h⟩ := kassert_bind_ok.mp h
    obtain ⟨-, h⟩ := kassert_bind_ok.mp h
    split at h
    · cases h
      exact hsorted
    · obtain ⟨-, h⟩ := kassert_bind_ok.mp h
      split at h
      · cases h
        exact hsorted
      · rename_i hend
        split at h
        · rename_i hlast
          cases h
          exact extend_sorted hsorted hvr hend fun next hnext =>
            absurd (hlast.symm.trans hnext) (Option.some_ne_none next).symm
        · rename_i next hnext
          split at h
          · rename_i hle
            cases h
            refine extend_sorted hsorted hvr hend fun next' hnext' => ?_
            obtain rfl := Option.some.inj (hnext.symm.trans hnext')
            exact hle
          · cases h
            exact hsorted

theorem mapRemap_sorted {m : RemapCall} {copy : Option P} {writept : Bool}
    {res : Option VirBytes} (hsorted : Sorted regions)
    (h : mapRemap regions m vr copy writept = .ok (res, regions')) : Sorted regions' := by
  rw [mapRemap] at h
  obtain ⟨-, h⟩ := kassert_bind_ok.mp h
  obtain ⟨-, h⟩ := kassert_bind_ok.mp h
  generalize (if m.da = 0 then m.stacktop else m.da) + m.bottom = dstAddr at h
  obtain ⟨found, hfound, h⟩ := bind_ok.mp h
  cases found with
  | none =>
    cases h
    exact hsorted
  | some slot =>
    obtain ⟨startv, prev⟩ := slot
    obtain ⟨hbetween, hinside⟩ := regionFindSlot_found hsorted hfound
    dsimp only at h
    split at h
    · cases h
      exact hsorted
    · split at h
      · cases h
        exact hsorted
      · split at h
        · obtain ⟨-, rfl⟩ := Prod.mk.inj (pure_ok.mp h)
          exact link_sorted hsorted hbetween rfl hinside
        · cases h

end Lists

inductive RegionEvent (ι P : Type) where
  | mapPageRegion (vmp : ι) (m : PageCall) (o : PageOutcome P) (res : Option (VirRegion P))
  | mapRegionExtend (vmp : ι) (i : ℕ) (delta : VirBytes) (res : Bool)
  | mapRemap (dvmp : ι) (m : RemapCall) (region : VirRegion P) (copy : Option P) (writept : Bool)
      (res : Option VirBytes)

section Runs
variable {ι P : Type} [DecidableEq ι]

def RegionEvent.Happens (s s' : ι → List (VirRegion P)) : RegionEvent ι P → Prop
  | .mapPageRegion vmp m o res => ∃ regions,
    Vm.mapPageRegion (s vmp) m o = .ok (res, regions) ∧ s' = Function.update s vmp regions
  | .mapRegionExtend vmp i delta res => ∃ regions,
    Vm.mapRegionExtend (s vmp) i delta = .ok (res, regions) ∧ s' = Function.update s vmp regions
  | .mapRemap dvmp m region copy writept res => ∃ regions,
    Vm.mapRemap (s dvmp) m region copy writept = .ok (res, regions) ∧
      s' = Function.update s dvmp regions

def regionSystem (ι P : Type) [DecidableEq ι] :
    TransitionSystem (ι → List (VirRegion P)) (RegionEvent ι P) where
  initial s := ∀ p, Sorted (s p)
  step s e s' := e.Happens s s'

theorem regions_sorted {s : ι → List (VirRegion P)} (h : (regionSystem ι P).Reachable s) (p : ι) :
    Sorted (s p) := by
  obtain ⟨past, hrun⟩ := h
  refine hrun.invariant (P := fun s : ι → List (VirRegion P) => ∀ p, Sorted (s p))
    (fun _ h => h) ?_ p
  intro past s e s' hsorted _ hstep q
  have hupdate : ∀ vmp regions, Sorted regions → s' = Function.update s vmp regions →
      Sorted (s' q) := by
    rintro vmp regions hregions rfl
    by_cases hq : q = vmp
    · subst hq
      rw [Function.update_self]
      exact hregions
    · rw [Function.update_of_ne hq]
      exact hsorted q
  cases e with
  | mapPageRegion vmp m o res =>
    obtain ⟨regions, h, hs'⟩ := hstep
    exact hupdate vmp regions (mapPageRegion_sorted (hsorted vmp) h) hs'
  | mapRegionExtend vmp i delta res =>
    obtain ⟨regions, h, hs'⟩ := hstep
    exact hupdate vmp regions (mapRegionExtend_sorted (hsorted vmp) h) hs'
  | mapRemap dvmp m region copy writept res =>
    obtain ⟨regions, h, hs'⟩ := hstep
    exact hupdate dvmp regions (mapRemap_sorted (hsorted dvmp) h) hs'

theorem address_space_placement :
    (∀ (regions : List (VirRegion P)) minv maxv length, Sorted regions →
      (∀ vr ∈ regions, vr.stop ≤ VM_DATATOP.toNat) → Reasonable minv maxv length →
      ∃ found, regionFindSlot minv maxv length regions = .ok found ∧
        Lowest regions minv.toNat (min (limit minv maxv length) VM_DATATOP.toNat) length.toNat
          found) ∧
    ∀ s : ι → List (VirRegion P), (regionSystem ι P).Reachable s → ∀ p, Sorted (s p) :=
  ⟨fun _ _ _ _ hsorted hbelow hreasonable => regionFindSlot_lowest hreasonable hsorted hbelow,
    fun _ h => regions_sorted h⟩

end Runs

def twoRegions : List (VirRegion Unit) :=
  [⟨0x1000, 0x2000, VR_ANON, VRT_NONE, ()⟩, ⟨0x4000, 0x2000, VR_ANON, VRT_NONE, ()⟩]

theorem address_space_placement_gap :
    regionFindSlot 0x1000 0x9000 0x1000 twoRegions = .ok (some (0x3000, some 0)) ∧
      Lowest twoRegions 0x1000 0x9000 0x1000 (some (0x3000, some 0)) := by
  have hsorted : Sorted twoRegions :=
    ⟨by simp [twoRegions, VirRegion.stop], by simp [twoRegions, VirRegion.stop, VirRegion.start]⟩
  have hbelow : ∀ vr ∈ twoRegions, vr.stop ≤ VM_DATATOP.toNat := by
    simp [twoRegions, VirRegion.stop, VM_DATATOP]
  obtain ⟨found, hfound, hlowest⟩ := (address_space_placement (ι := Unit)).1 twoRegions 0x1000
    0x9000 0x1000 hsorted hbelow ⟨by decide, by decide, by decide⟩
  have hslot : regionFindSlot 0x1000 0x9000 0x1000 twoRegions = .ok (some (0x3000, some 0)) := rfl
  obtain rfl := Except.ok.inj (hslot.symm.trans hfound)
  exact ⟨hslot, hlowest⟩

theorem slot_beyond_datatop :
    regionFindSlot (P := Unit) 0xFFFFE001 0xFFFFF001 0x1000 [] = .ok none ∧
      Reasonable 0xFFFFE001 0xFFFFF001 0x1000 ∧
      Fits ([] : List (VirRegion Unit)) 0xFFFFE001 0xFFFFF001 0x1000 0xFFFFE001 :=
  ⟨rfl, ⟨by decide, by decide, by decide⟩, ⟨by decide, by decide, by simp⟩⟩

end Vm
