import Cs111.Vm.PhysBlock

namespace Vm
open Kernel (Fault kassert kassert_bind_ok pure_ok)

def CLICK_SHIFT : ℕ := 12
def SAFETY_CLICKS : BitVec 32 := 1

structure MemMap where
  memVir : BitVec 32
  memPhys : BitVec 32
  memLen : BitVec 32

-- vmHeap is the place of a region in vm_regions; NULL is none.
structure BrkProc (P : Type) where
  segD : MemMap
  segS : MemMap
  hasPt : Bool
  endpoint : ℤ
  vmRegions : List (VirRegion P)
  vmHeap : Option ℕ

def mapRegionShrink {P : Type} (regions : List (VirRegion P)) (i : ℕ) (delta : VirBytes) :
    Except Fault Bool :=
  match regions[i]? with
  | none => .error .assertion
  | some vr => do
    kassert (decide (vr.flags &&& VR_ANON ≠ 0))
    kassert (decide (delta % VM_PAGE_SIZE = 0))
    pure true

section Adjust
variable {P : Type} (p : BrkProc P) (dataClicks sp : BitVec 32)

def spClick : BitVec 32 := sp >>> CLICK_SHIFT

def baseOfStack : BitVec 32 := p.segS.memVir + p.segS.memLen

def spInDp : Bool :=
  decide (p.segD.memVir ≤ spClick sp) && decide (p.segD.memVir + p.segD.memLen ≥ spClick sp)

def spDelta : BitVec 32 := p.segS.memVir - spClick sp

def stackMoves : Bool := (0#32).slt (spDelta p sp) && !spInDp p sp

def spLower : BitVec 32 := if stackMoves p sp then spClick sp else p.segS.memVir

def gapBase : BitVec 32 := p.segD.memVir + dataClicks + SAFETY_CLICKS

def changeData : BrkProc P :=
  if dataClicks ≠ p.segD.memLen then { p with segD := { p.segD with memLen := dataClicks } } else p

def changeStack (moves : Bool) (delta : BitVec 32) : BrkProc P :=
  if moves then
    { p with segS := ⟨p.segS.memVir - delta, p.segS.memPhys - delta, p.segS.memLen + delta⟩ }
  else p

def changeHeap (oldClicks : BitVec 32) (i : ℕ) : Except Fault (VmReply × BrkProc P) :=
  if oldClicks < dataClicks then do
    let (done, regions) ← mapRegionExtend p.vmRegions i ((dataClicks - oldClicks) <<< CLICK_SHIFT)
    pure (if done then .OK else .ENOMEM, { p with vmRegions := regions })
  else if oldClicks > dataClicks then do
    let done ← mapRegionShrink p.vmRegions i ((oldClicks - dataClicks) <<< CLICK_SHIFT)
    pure (if done then .OK else .ENOMEM, p)
  else pure (.OK, p)

def heapOf (vmProcNr : ℤ) : Option ℕ :=
  if p.hasPt ∧ p.endpoint ≠ vmProcNr then p.vmHeap else none

def adjust (vmProcNr : ℤ) : Except Fault (VmReply × BrkProc P) :=
  if spClick sp ≥ baseOfStack p then pure (.ENOMEM, p)
  else if spLower p sp < gapBase p dataClicks then pure (.ENOMEM, p)
  else
    let q := changeStack (changeData p dataClicks) (stackMoves p sp) (spDelta p sp)
    -- New sizes that do not fit are taken back.
    if q.segD.memVir + q.segD.memLen > q.segS.memVir then
      let q := if dataClicks ≠ p.segD.memLen then
        { q with segD := { q.segD with memLen := p.segD.memLen } } else q
      pure (.ENOMEM, changeStack q (stackMoves p sp) (-spDelta p sp))
    else
      match heapOf q vmProcNr with
      | none => pure (.OK, q)
      | some i => changeHeap q dataClicks p.segD.memLen i

end Adjust

section Specification
variable {P : Type} (p p' : BrkProc P) (dataClicks sp : BitVec 32) (vmProcNr : ℤ)

def linear (click : ℕ) : ℕ := (p.segD.memPhys.toNat + click - p.segD.memVir.toNat) * 4096

structure Placed (vaddr stop : ℕ) : Prop where
  starts : vaddr ≤ linear p p.segD.memVir.toNat
  covers : linear p (p.segD.memVir.toNat + dataClicks.toNat) ≤ stop
  below : stop + SAFETY_CLICKS.toNat * 4096 ≤ linear p (spLower p sp).toNat

structure Adjusted (r : VmReply) : Prop where
  failed : r ≠ .OK → p' = p
  segment : r = .OK → p'.segD = { p.segD with memLen := dataClicks } ∧
    p.segD.memVir.toNat + dataClicks.toNat + SAFETY_CLICKS.toNat ≤ (spLower p sp).toNat
  heap : r = .OK → ∀ i vr, heapOf p vmProcNr = some i → p'.vmRegions[i]? = some vr →
    Placed p dataClicks sp vr.vaddr.toNat vr.stop

def growth : ℕ := (dataClicks.toNat - p.segD.memLen.toNat) * 4096

def Headroom (regions : List (VirRegion P)) (i : ℕ) (vr : VirRegion P) (more : ℕ) : Prop :=
  vr.stop + more < 2 ^ 32 ∧
    ∀ next, regions[i + 1]? = some next → vr.stop + more ≤ next.vaddr.toNat

def HeapFits : Prop :=
  spClick sp < baseOfStack p → gapBase p dataClicks ≤ spLower p sp →
    ∀ i vr, heapOf p vmProcNr = some i → p.vmRegions[i]? = some vr →
      (p.segD.memLen < dataClicks → Headroom p.vmRegions i vr (growth p dataClicks)) ∧
        Placed p dataClicks sp vr.vaddr.toNat (vr.stop + growth p dataClicks)

end Specification

section Extend
variable {P : Type} {regions regions' : List (VirRegion P)} {i : ℕ} {vr : VirRegion P}
  {delta : VirBytes} {done : Bool}

theorem mapRegionExtend_ok (hvr : regions[i]? = some vr) (hdelta : 0 < delta.toNat)
    (h : mapRegionExtend regions i delta = .ok (done, regions')) :
    (done = true ↔ Headroom regions i vr delta.toNat) ∧
      (done = true → regions' = regions.set i { vr with length := vr.length + delta } ∧
        (vr.length + delta).toNat = vr.length.toNat + delta.toNat) ∧
      (done = false → regions' = regions) := by
  rw [mapRegionExtend, hvr] at h
  obtain ⟨-, h⟩ := kassert_bind_ok.mp h
  obtain ⟨-, h⟩ := kassert_bind_ok.mp h
  rw [if_neg (by rintro rfl; exact absurd hdelta (by decide))] at h
  obtain ⟨hstop, h⟩ := kassert_bind_ok.mp h
  have hstop : vr.vaddr ≤ vr.vaddr + vr.length := of_decide_eq_true hstop
  have hsum : (vr.vaddr + vr.length).toNat = vr.stop := by
    rw [VirRegion.stop]
    bv_omega
  have hover : vr.vaddr + vr.length + delta ≤ vr.vaddr + vr.length ↔
      2 ^ 32 ≤ vr.stop + delta.toNat := by
    bv_omega
  split at h
  · rename_i hle
    cases h
    refine ⟨⟨fun hdone => (by cases hdone), fun hroom => ?_⟩, fun hdone => (by cases hdone),
      fun _ => rfl⟩
    have := hroom.1
    have := hover.mp hle
    omega
  · rename_i hgt
    have hlt : vr.stop + delta.toNat < 2 ^ 32 := by
      have := mt hover.mpr hgt
      omega
    have hlength : (vr.length + delta).toNat = vr.length.toNat + delta.toNat := by
      rw [VirRegion.stop] at hlt
      bv_omega
    have hend : (vr.vaddr + vr.length + delta).toNat = vr.stop + delta.toNat := by bv_omega
    split at h
    · rename_i hnext
      cases h
      exact ⟨⟨fun _ => ⟨hlt, fun next hn => by rw [hnext] at hn; cases hn⟩, fun _ => rfl⟩,
        fun _ => ⟨rfl, hlength⟩, fun hdone => (by cases hdone)⟩
    · rename_i next hnext
      split at h
      · rename_i hle
        cases h
        refine ⟨⟨fun _ => ⟨hlt, fun next' hn => ?_⟩, fun _ => rfl⟩, fun _ => ⟨rfl, hlength⟩,
          fun hdone => (by cases hdone)⟩
        cases hnext.symm.trans hn
        rw [← hend]
        exact hle
      · rename_i hgt'
        cases h
        refine ⟨⟨fun hdone => (by cases hdone), fun hroom => absurd ?_ hgt'⟩,
          fun hdone => (by cases hdone), fun _ => rfl⟩
        have := hroom.2 next hnext
        rw [← hend] at this
        exact this

end Extend

section Sizes
variable {P : Type} {p p' : BrkProc P} {dataClicks sp : BitVec 32} {vmProcNr : ℤ} {r : VmReply}

def resized (p : BrkProc P) (dataClicks sp : BitVec 32) : BrkProc P :=
  changeStack (changeData p dataClicks) (stackMoves p sp) (spDelta p sp)

@[simp] theorem changeData_segD :
    (changeData p dataClicks).segD = { p.segD with memLen := dataClicks } := by
  unfold changeData
  split
  · rfl
  · rename_i h
    rw [ne_eq, not_not] at h
    rw [h]

@[simp] theorem changeData_segS : (changeData p dataClicks).segS = p.segS := by
  unfold changeData
  split <;> rfl

@[simp] theorem changeStack_segD (moves : Bool) (delta : BitVec 32) :
    (changeStack p moves delta).segD = p.segD := by
  unfold changeStack
  split <;> rfl

theorem resized_segD : (resized p dataClicks sp).segD = { p.segD with memLen := dataClicks } := by
  rw [resized, changeStack_segD, changeData_segD]

theorem resized_segS : (resized p dataClicks sp).segS.memVir = spLower p sp := by
  rw [resized, changeStack, spLower]
  split
  · rw [changeData_segS, spDelta]
    bv_omega
  · rw [changeData_segS]

theorem resized_regions : (resized p dataClicks sp).vmRegions = p.vmRegions := by
  unfold resized changeStack changeData
  split <;> split <;> rfl

theorem resized_heapOf : heapOf (resized p dataClicks sp) vmProcNr = heapOf p vmProcNr := by
  unfold resized changeStack changeData
  split <;> split <;> rfl

theorem gapBase_toNat (hdata : p.segD.memVir.toNat + dataClicks.toNat ≤ 2 ^ 20) :
    (gapBase p dataClicks).toNat =
      p.segD.memVir.toNat + dataClicks.toNat + SAFETY_CLICKS.toNat := by
  unfold gapBase SAFETY_CLICKS
  bv_omega

theorem adjust_cases (hdata : p.segD.memVir.toNat + dataClicks.toNat ≤ 2 ^ 20)
    (h : adjust p dataClicks sp vmProcNr = .ok (r, p')) :
    (r = .ENOMEM ∧ p' = p ∧ ¬ (spClick sp < baseOfStack p ∧ gapBase p dataClicks ≤ spLower p sp)) ∨
    ((spClick sp < baseOfStack p ∧ gapBase p dataClicks ≤ spLower p sp) ∧
      (heapOf p vmProcNr = none ∧ r = .OK ∧ p' = resized p dataClicks sp ∨
        ∃ i, heapOf p vmProcNr = some i ∧
          changeHeap (resized p dataClicks sp) dataClicks p.segD.memLen i = .ok (r, p'))) := by
  rw [adjust] at h
  split at h
  · rename_i hbase
    cases h
    exact .inl ⟨rfl, rfl, fun hok => absurd hok.1 (BitVec.not_lt.mpr hbase)⟩
  · rename_i hbase
    split at h
    · rename_i hgap
      cases h
      exact .inl ⟨rfl, rfl, fun hok => absurd hok.2 (BitVec.not_le.mpr hgap)⟩
    · rename_i hgap
      have hgap : gapBase p dataClicks ≤ spLower p sp := BitVec.not_lt.mp hgap
      refine .inr ⟨⟨BitVec.not_le.mp hbase, hgap⟩, ?_⟩
      change (if (resized p dataClicks sp).segD.memVir + (resized p dataClicks sp).segD.memLen >
        (resized p dataClicks sp).segS.memVir then _ else _) = _ at h
      have hbaseNat := gapBase_toNat hdata
      rw [resized_segD, resized_segS, if_neg (by
        rw [BitVec.le_def, hbaseNat] at hgap
        bv_omega)] at h
      change (match heapOf (resized p dataClicks sp) vmProcNr with
        | none => _
        | some i => _) = _ at h
      rw [resized_heapOf] at h
      cases hheap : heapOf p vmProcNr with
      | none =>
        rw [hheap] at h
        cases h
        exact .inl ⟨rfl, rfl, rfl⟩
      | some i =>
        rw [hheap] at h
        exact .inr ⟨i, rfl, h⟩

theorem shift_toNat {n : BitVec 32} (hn : n.toNat < 2 ^ 20) :
    (n <<< CLICK_SHIFT).toNat = n.toNat * 4096 := by
  rw [BitVec.toNat_shiftLeft, Nat.shiftLeft_eq, CLICK_SHIFT, Nat.mod_eq_of_lt (by omega)]

variable (sp) in
theorem spLower_le (hstack : p.segS.memVir.toNat ≤ 2 ^ 20) :
    (spLower p sp).toNat ≤ 2 ^ 20 := by
  have hclick : (spClick sp).toNat < 2 ^ 20 := by
    have hlt := sp.isLt
    rw [spClick, CLICK_SHIFT, BitVec.toNat_ushiftRight, Nat.shiftRight_eq_div_pow]
    omega
  unfold spLower
  split <;> omega

theorem changeHeap_none {q : BrkProc P} {oldClicks : BitVec 32} {i : ℕ}
    (hnone : q.vmRegions[i]? = none) (h : changeHeap q dataClicks oldClicks i = .ok (r, p')) :
    r = .OK ∧ p' = q := by
  rw [changeHeap] at h
  split at h
  · rw [mapRegionExtend, hnone] at h
    cases h
  · split at h
    · rw [mapRegionShrink, hnone] at h
      cases h
    · cases h
      exact ⟨rfl, rfl⟩

theorem changeHeap_ok {q : BrkProc P} (hregions : q.vmRegions = p.vmRegions)
    (hsize : dataClicks.toNat < 2 ^ 20) {i : ℕ} {vr : VirRegion P} (hvr : p.vmRegions[i]? = some vr)
    (h : changeHeap q dataClicks p.segD.memLen i = .ok (r, p')) :
    p'.segD = q.segD ∧
    (r = .OK ↔ (p.segD.memLen < dataClicks → Headroom p.vmRegions i vr (growth p dataClicks))) ∧
    (r = .OK → ∃ vr', p'.vmRegions[i]? = some vr' ∧ vr'.vaddr = vr.vaddr ∧
      vr'.stop = vr.stop + growth p dataClicks) := by
  rw [changeHeap, hregions] at h
  split at h
  · rename_i hgrow
    obtain ⟨⟨done, regions⟩, hextend, h⟩ := Kernel.bind_ok.mp h
    cases h
    have hsub : (dataClicks - p.segD.memLen).toNat = dataClicks.toNat - p.segD.memLen.toNat := by
      bv_omega
    have hpos : 0 < dataClicks.toNat - p.segD.memLen.toNat := by bv_omega
    have hdelta : ((dataClicks - p.segD.memLen) <<< CLICK_SHIFT).toNat = growth p dataClicks := by
      rw [shift_toNat (by omega), hsub, growth]
    have hmore : 0 < growth p dataClicks := by
      rw [growth]
      omega
    obtain ⟨hroom, hlonger, -⟩ := mapRegionExtend_ok hvr (hdelta ▸ hmore) hextend
    rw [hdelta] at hroom hlonger
    refine ⟨rfl, ?_, fun hok => ?_⟩
    · cases done
      · exact ⟨nofun, fun hfits => nomatch hroom.mpr (hfits hgrow)⟩
      · exact ⟨fun _ _ => hroom.mp rfl, fun _ => rfl⟩
    · cases done
      · cases hok
      · obtain ⟨rfl, hlength⟩ := hlonger rfl
        obtain ⟨hi, -⟩ := List.getElem?_eq_some_iff.mp hvr
        refine ⟨_, List.getElem?_set_self hi, rfl, ?_⟩
        rw [VirRegion.stop, VirRegion.stop, hlength, Nat.add_assoc]
  · rename_i hgrow
    have hzero : growth p dataClicks = 0 := by
      rw [growth]
      bv_omega
    have hsame : p' = q ∧ r = .OK := by
      split at h
      · obtain ⟨done, hshrink, h⟩ := Kernel.bind_ok.mp h
        rw [mapRegionShrink, hvr] at hshrink
        obtain ⟨-, hshrink⟩ := kassert_bind_ok.mp hshrink
        obtain ⟨-, hshrink⟩ := kassert_bind_ok.mp hshrink
        cases hshrink
        cases h
        exact ⟨rfl, rfl⟩
      · cases h
        exact ⟨rfl, rfl⟩
    obtain ⟨rfl, rfl⟩ := hsame
    exact ⟨rfl, ⟨fun _ hlt => absurd hlt hgrow, fun _ => rfl⟩,
      fun _ => ⟨vr, hregions ▸ hvr, rfl, by rw [hzero, Nat.add_zero]⟩⟩

theorem adjust_iff (hstack : p.segS.memVir.toNat ≤ 2 ^ 20)
    (hdata : p.segD.memVir.toNat + dataClicks.toNat ≤ 2 ^ 20)
    (h : adjust p dataClicks sp vmProcNr = .ok (r, p')) :
    Adjusted p p' dataClicks sp vmProcNr r ↔ HeapFits p dataClicks sp vmProcNr := by
  have hlower := spLower_le sp hstack
  have hbase := gapBase_toNat hdata
  rcases adjust_cases hdata h with ⟨rfl, rfl, hchecks⟩ | ⟨⟨hclick, hgap⟩, hcase⟩
  · exact ⟨fun _ hclick hgap => absurd ⟨hclick, hgap⟩ hchecks,
      fun _ => ⟨fun _ => rfl, nofun, nofun⟩⟩
  · have hgapNat : p.segD.memVir.toNat + dataClicks.toNat + SAFETY_CLICKS.toNat ≤
        (spLower p sp).toNat := hbase ▸ hgap
    have hsize : dataClicks.toNat < 2 ^ 20 := by
      have : SAFETY_CLICKS.toNat = 1 := rfl
      omega
    rcases hcase with ⟨hnone, rfl, rfl⟩ | ⟨i, hi, hheap⟩
    · refine ⟨fun _ _ _ i _ hi => ?_, fun _ => ⟨fun hne => absurd rfl hne,
        fun _ => ⟨resized_segD, hgapNat⟩, fun _ i _ hi => ?_⟩⟩ <;>
      · rw [hnone] at hi
        cases hi
    · cases hvr : p.vmRegions[i]? with
      | none =>
        obtain ⟨rfl, rfl⟩ := changeHeap_none (resized_regions.symm ▸ hvr) hheap
        refine ⟨fun _ _ _ i' vr hi' hvr' => ?_, fun _ => ⟨fun hne => absurd rfl hne,
          fun _ => ⟨resized_segD, hgapNat⟩, fun _ i' vr hi' hvr' => ?_⟩⟩
        · cases hi.symm.trans hi'
          rw [hvr] at hvr'
          cases hvr'
        · cases hi.symm.trans hi'
          rw [resized_regions, hvr] at hvr'
          cases hvr'
      | some vr =>
        obtain ⟨hseg, hok, hlonger⟩ := changeHeap_ok resized_regions hsize hvr hheap
        rw [resized_segD] at hseg
        constructor
        · intro hadj _ _ i' vr₁ hi' hvr₁
          cases hi.symm.trans hi'
          cases hvr.symm.trans hvr₁
          have hr : r = .OK := by
            by_contra hne
            -- the data segment has got its new size
            rw [hadj.failed hne] at hseg
            have hlen : p.segD.memLen = dataClicks := congrArg MemMap.memLen hseg
            exact hne (hok.mpr fun hlt => absurd (hlen ▸ hlt) (BitVec.lt_irrefl _))
          obtain ⟨vr', hvr', haddr, hstop⟩ := hlonger hr
          rw [← haddr, ← hstop]
          exact ⟨hok.mp hr, hadj.heap hr i vr' hi hvr'⟩
        · intro hfits
          obtain ⟨hroom, hplaced⟩ := hfits hclick hgap i vr hi hvr
          have hr := hok.mpr hroom
          refine ⟨fun hne => absurd hr hne, fun _ => ⟨hseg, hgapNat⟩, fun _ i' vr₁ hi' hvr₁ => ?_⟩
          cases hi.symm.trans hi'
          obtain ⟨vr', hvr', haddr, hstop⟩ := hlonger hr
          cases hvr'.symm.trans hvr₁
          rw [haddr, hstop]
          exact hplaced

end Sizes

section Example

def brkProc : BrkProc Unit where
  segD := ⟨0, 4096, 16⟩
  segS := ⟨4096, 8192, 16⟩
  hasPt := true
  endpoint := 40
  vmRegions := [⟨0x1000000, 0x10000, VR_ANON, VRT_NONE, ()⟩,
    ⟨0x1800000, 0x810000, VR_ANON, VRT_NONE, ()⟩]
  vmHeap := some 0

theorem adjust_forgets : ∃ p', adjust brkProc 3000 0x1004000 8 = .ok (.ENOMEM, p') ∧
    brkProc.segD.memLen = 16 ∧ p'.segD.memLen = 3000 ∧
    ¬ Adjusted brkProc p' 3000 0x1004000 8 .ENOMEM := by
  refine ⟨_, rfl, rfl, rfl, fun h => ?_⟩
  have hlen := congrArg (fun p => p.segD.memLen) (h.failed nofun)
  exact absurd hlen (by decide)

theorem adjust_100 : ∃ p', adjust brkProc 100 0x1004000 8 = .ok (.OK, p') ∧
    Adjusted brkProc p' 100 0x1004000 8 .OK := by
  refine ⟨_, rfl, (adjust_iff (by decide) (by decide) rfl).mpr fun _ _ i vr hi hvr => ?_⟩
  cases hi
  cases hvr
  refine ⟨fun _ => ⟨by decide, fun next hnext => ?_⟩, by decide, by decide, by decide⟩
  cases hnext
  decide

end Example

end Vm
