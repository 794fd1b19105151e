import Cs111.Vm.PhysRefs

namespace Vm
open Kernel (Fault kassert)

structure Endpoints where
  isokendpt : ℤ → Option ProcId
  bottom : ProcId → VirBytes

def arch_vir2map (e : Endpoints) (n : ProcId) (addr : VirBytes) : VirBytes := addr + e.bottom n

def findRegion (addr : VirBytes) (m : Memory) :
    List RegionId → Except Fault (Option MappedRegion)
  | [] => pure none
  | r :: rest => do
    let vr ← deref (m.region r)
    if vr.vaddr ≤ addr ∧ addr < vr.vaddr + vr.length then pure (some vr)
    else findRegion addr m rest

def lookupRegion (v : ProcId) (addr : VirBytes) (m : Memory) :
    Except Fault (Option MappedRegion) :=
  if (m.vmRegions v).isEmpty then .error .panic else findRegion addr m (m.vmRegions v)

def mapGetRef (v : ProcId) (addr : VirBytes) (cnt : BitVec 8) (m : Memory) :
    Except Fault (VmReply × BitVec 8) := do
  match ← lookupRegion v addr m with
  | none => pure (.EINVAL, cnt)
  | some vr =>
    if vr.vaddr ≠ addr then pure (.EINVAL, cnt)
    else if !hasAny vr.flags VR_SHARED then pure (.EINVAL, cnt)
    else
      match vr.phys.head? with
      | none => .error .assertion
      | some p => do
        let ph ← deref (m.physr p)
        let pb ← deref (m.block ph.ph)
        pure (.OK, pb.refcount)

def doGetRefcount (e : Endpoints) (target : ℤ) (addr : VirBytes) (cnt : BitVec 8) (m : Memory) :
    Except Fault (VmReply × BitVec 8) :=
  match e.isokendpt target with
  | none => pure (.EINVAL, cnt)
  | some n => mapGetRef n (arch_vir2map e n addr) cnt m

def sharedBlock (e : Endpoints) (target : ℤ) (addr : VirBytes) (m : Memory) : Option BlockId :=
  match e.isokendpt target with
  | none => none
  | some n =>
    match lookupRegion n (arch_vir2map e n addr) m with
    | .ok (some vr) =>
      if vr.vaddr = arch_vir2map e n addr ∧ hasAny vr.flags VR_SHARED = true then
        (vr.phys.head?.bind m.physr).map PhysRegion.ph
      else none
    | _ => none

noncomputable def Memory.sharers (m : Memory) (b : BlockId) : ℕ := {p | m.PointsTo p b}.ncard

section Answers
variable {e : Endpoints} {target : ℤ} {addr : VirBytes} {cnt : BitVec 8} {m : Memory}
  {b : BlockId} {pb : PhysBlock}

theorem Listed.sharers {l : List PhysrId} (h : Listed m ∅ b pb l) : m.sharers b = l.length := by
  classical
  have hset : {p | m.PointsTo p b} = ↑l.toFinset := by
    ext p
    simp [h.members p]
  rw [Memory.sharers, hset, Set.ncard_coe_finset, List.toFinset_card_of_nodup
    (Chain.path_nodup h.path)]

theorem Lists.refcount_sharers (h : Lists ∅ m) (hb : m.block b = some pb) :
    pb.refcount = BitVec.ofNat 8 (m.sharers b) ∧ 0 < m.sharers b := by
  obtain ⟨l, hne, hl⟩ := h.listed b pb hb
  rw [hl.sharers]
  exact ⟨hl.count, List.length_pos_iff.mpr hne⟩

theorem mapGetRef_found {n : ProcId} {vr : MappedRegion} {p : PhysrId} {ph : PhysRegion}
    (hlook : lookupRegion n addr m = .ok (some vr)) (haddr : vr.vaddr = addr)
    (hflags : hasAny vr.flags VR_SHARED = true) (hhead : vr.phys.head? = some p)
    (hph : m.physr p = some ph) (hb : m.block ph.ph = some pb) :
    mapGetRef n addr cnt m = .ok (.OK, pb.refcount) := by
  simp [mapGetRef, hlook, haddr, hflags, hhead, hph, hb, deref, bind, Except.bind, pure,
    Except.pure]

-- VM answers with the number of phys_regions, as far as it fits.
variable (cnt) in
theorem doGetRefcount_found (hl : Lists ∅ m) (h : sharedBlock e target addr m = some b) :
    doGetRefcount e target addr cnt m = .ok (.OK, BitVec.ofNat 8 (m.sharers b)) ∧
      0 < m.sharers b := by
  unfold sharedBlock at h
  split at h
  · cases h
  · rename_i n htarget
    split at h
    · rename_i vr hlook
      split at h
      · rename_i hvr
        obtain ⟨ph, hph, rfl⟩ := Option.map_eq_some_iff.mp h
        obtain ⟨p, hhead, hph⟩ := Option.bind_eq_some_iff.mp hph
        obtain ⟨pb, hb⟩ := Option.isSome_iff_exists.mp (hl.live p ph.ph (Set.notMem_empty p)
          ⟨ph, hph, rfl⟩)
        obtain ⟨hcount, hpos⟩ := hl.refcount_sharers hb
        rw [doGetRefcount, htarget, ← hcount]
        exact ⟨mapGetRef_found hlook hvr.1 hvr.2 hhead hph hb, hpos⟩
      · cases h
    · cases h

theorem doGetRefcount_lost {reply : VmReply} {c : BitVec 8}
    (h : sharedBlock e target addr m = none)
    (hget : doGetRefcount e target addr cnt m = .ok (reply, c)) : reply ≠ .OK := by
  unfold sharedBlock at h
  unfold doGetRefcount at hget
  cases htarget : e.isokendpt target with
  | none =>
    rw [htarget] at hget
    cases hget
    decide
  | some n =>
    rw [htarget] at h hget
    obtain ⟨found, hlook, hget⟩ := Kernel.bind_ok.mp hget
    simp only [hlook] at h
    cases found with
    | none =>
      cases hget
      decide
    | some vr =>
      by_cases haddr : vr.vaddr = arch_vir2map e n addr
      · by_cases hflags : hasAny vr.flags VR_SHARED = true
        · simp only [haddr, hflags, and_self, if_true] at h
          cases hhead : vr.phys.head? with
          | none => simp [haddr, hflags, hhead] at hget
          | some p =>
            simp only [haddr, hflags, hhead, ne_eq, not_true_eq_false, if_false, Bool.not_true,
              Bool.false_eq_true] at hget
            obtain ⟨ph, hph, _⟩ := Kernel.bind_ok.mp hget
            simp [hhead, deref_ok hph] at h
        · simp [haddr, hflags] at hget
          rintro rfl
          simp at hget
      · simp [haddr] at hget
        rintro rfl
        simp at hget

end Answers

end Vm
