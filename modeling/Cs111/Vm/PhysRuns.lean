import Cs111.Vm.PhysSplit
import Mathlib.Tactic.FinCases

namespace Vm
open Kernel (Fault bind_ok pure_ok)
open Chain (Path)
open TransitionSystem

inductive PhysCall where
  | mapPageRegion (v : ProcId) (call : PageCall)
  | mapPf (v : ProcId) (r : RegionId) (offset : ℕ) (write : Bool)
  | mapHandleMemory (v : ProcId) (r : RegionId) (offset length : ℕ) (write : Bool)
  | mapProcCopyFrom (dst src : ProcId) (startSrcVr : RegionId)
  | mapProcCopy (dst src : ProcId)
  | mapRemap (dvmp svmp : ProcId) (call : RemapCall) (r : RegionId)
  | mapMemory (vms vmd : ProcId) (call : MapCall)
  | mapUnmapRegion (v : ProcId) (r : RegionId) (len : ℕ)
  | mapFreeProc (v : ProcId)

structure PhysEvent where
  outcomes : Outcomes
  call : PhysCall

def PhysCall.Proper (m : Memory) : PhysCall → Prop
  | .mapPf v r _ _ => r ∈ m.vmRegions v
  | .mapHandleMemory v r _ _ _ => r ∈ m.vmRegions v
  | .mapProcCopyFrom _ src r => r ∈ m.vmRegions src
  | .mapProcCopy dst src => dst ≠ src
  | .mapRemap _ svmp _ r => r ∈ m.vmRegions svmp
  | _ => True

def leftBy {α : Type} (x : Except Fault (α × Memory)) : Except Fault Memory := do
  let (_, m) ← x
  pure m

def PhysCall.run (o : Outcomes) (m : Memory) : PhysCall → Except Fault Memory
  | .mapPageRegion v call => leftBy (mapPageRegionOf o v call m)
  | .mapPf _ r offset write => leftBy (Vm.mapPf o r offset write m)
  | .mapHandleMemory _ r offset length write => leftBy (Vm.mapHandleMemory o r offset length write m)
  | .mapProcCopyFrom dst src r => leftBy (Vm.mapProcCopyFrom o dst src r m)
  | .mapProcCopy dst src => leftBy (Vm.mapProcCopy o dst src m)
  | .mapRemap dvmp _ call r => leftBy (mapRemapTo o dvmp call r m)
  | .mapMemory vms vmd call => leftBy (Vm.mapMemory o vms vmd call m)
  | .mapUnmapRegion v r len => leftBy (Vm.mapUnmapRegion o v r len m)
  | .mapFreeProc v => Vm.mapFreeProc o v m

def emptyMemory : Memory := ⟨fun _ => none, fun _ => none, fun _ => none, fun _ => [], 0, [], [], [], fun _ _ => none, fun _ => 0⟩

def physSystem : TransitionSystem Memory PhysEvent where
  initial m := m = emptyMemory
  step m e m' := e.call.Proper m ∧ e.call.run e.outcomes m = .ok m'

def PhysCall.Trims (m : Memory) : PhysCall → Prop
  | .mapUnmapRegion _ r len =>
    ∀ vr, m.region r = some vr → len < vr.length.toNat → Clear m r len
  | _ => True

def supplied : List (Memory × PhysEvent) → Memory → PhysEvent → Prop :=
  fun _ m e => Supplied e.outcomes ∧ e.call.Trims m

def Memory.refs (m : Memory) (b : BlockId) : Set PhysrId := {p | m.PointsTo p b}

structure Referenced (m : Memory) : Prop where
  listed : ∀ b pb, m.block b = some pb → ∃ l, Path m.nextPh pb.firstregion l ∧ l.Nodup ∧
    (∀ p, p ∈ l ↔ p ∈ m.refs b) ∧ l.length = (m.refs b).ncard ∧ 0 < l.length ∧
    pb.refcount.toNat = l.length % 256
  live : ∀ p b, p ∈ m.refs b → (m.block b).isSome

section Runs
variable {o : Outcomes} {m m' : Memory} {c : PhysCall} {past : List (Memory × PhysEvent)}

theorem leftBy_ok {α : Type} {x : Except Fault (α × Memory)} (h : leftBy x = .ok m') :
    ∃ a, x = .ok (a, m') := by
  obtain ⟨⟨a, m₁⟩, hx, h⟩ := bind_ok.mp h
  cases pure_ok.mp h
  exact ⟨a, hx⟩

theorem ready_empty : Kept.Ready ∅ emptyMemory := by
  refine ⟨∅, (fun _ => [], ∅), ⟨?_, ?_, ?_, ?_⟩, ?_⟩
  · exact ⟨by simp [emptyMemory], by simp [emptyMemory, Memory.PointsTo], by simp⟩
  · exact ⟨by simp [emptyMemory, Memory.tree], by simp [emptyMemory, Memory.tree],
      by simp [emptyMemory, Memory.tree, ByOffset]⟩
  · exact ⟨by simp [emptyMemory], by simp [emptyMemory, Memory.holders], by simp [emptyMemory]⟩
  · simp [emptyMemory, Memory.roll]
  · exact ⟨by simp, by simp, by simp⟩

theorem PhysCall.run_ok (hs : Supplied o) (hk : Kept.Ready ∅ m) (hproper : c.Proper m)
    (htrims : c.Trims m) (hok : c.run o m = .ok m') : Kept.Ready ∅ m' := by
  cases c with
  | mapPageRegion v call =>
    obtain ⟨_, hok⟩ := leftBy_ok hok
    exact mapPageRegionOf_ok hk hok
  | mapPf v r offset write =>
    obtain ⟨_, hok⟩ := leftBy_ok hok
    obtain ⟨X, W, hk, hh⟩ := hk
    have hr : r ∈ m.vmRegions v := hproper
    rw [hk.vm] at hr
    exact ⟨X, W, mapPf_ok hk (hh.live v r hr).1 hok, hh⟩
  | mapHandleMemory v r offset length write =>
    obtain ⟨_, hok⟩ := leftBy_ok hok
    obtain ⟨X, W, hk, hh⟩ := hk
    exact ⟨X, W, mapHandleMemory_ok hk hok, hh⟩
  | mapProcCopyFrom dst src r =>
    obtain ⟨_, hok⟩ := leftBy_ok hok
    exact mapProcCopyFrom_ok hs hk hproper hok
  | mapProcCopy dst src =>
    obtain ⟨_, hok⟩ := leftBy_ok hok
    exact mapProcCopy_ok hs hk hproper hok
  | mapRemap dvmp svmp call r =>
    obtain ⟨_, hok⟩ := leftBy_ok hok
    exact mapRemapTo_ok hs hk hproper hok
  | mapMemory vms vmd call =>
    obtain ⟨_, hok⟩ := leftBy_ok hok
    exact mapMemory_ok hs hk hok
  | mapUnmapRegion v r len =>
    obtain ⟨_, hok⟩ := leftBy_ok hok
    exact mapUnmapRegion_ok hs hk htrims hok
  | mapFreeProc v => exact mapFreeProc_ok hs hk hok

theorem run_ready (h : physSystem.Run supplied past m) : Kept.Ready ∅ m := by
  refine h.invariant (fun s hs => ?_) fun past s e s' hk hok hstep => ?_
  · obtain rfl := hs
    exact ready_empty
  · exact PhysCall.run_ok hok.1 hk hstep.1 hok.2 hstep.2

theorem Kept.Ready.referenced (h : Kept.Ready ∅ m) : Referenced m := by
  obtain ⟨X, W, hk, _⟩ := h
  refine ⟨fun b pb hb => ?_, fun p b hp => hk.lists.live p b (Set.notMem_empty p) hp⟩
  obtain ⟨l, hnil, hl⟩ := hk.lists.listed b pb hb
  have hmem : ∀ p, p ∈ l ↔ p ∈ m.refs b := fun p => by
    rw [hl.members]
    simp [Memory.refs]
  have hnodup := Chain.path_nodup hl.path
  have hrefs : m.refs b = ↑l.toFinset := by
    ext p
    simp [hmem]
  refine ⟨l, hl.path, hnodup, hmem, ?_, List.length_pos_of_ne_nil hnil, ?_⟩
  · rw [hrefs, Set.ncard_coe_finset, List.toFinset_card_of_nodup hnodup]
  · rw [hl.count, BitVec.toNat_ofNat]

theorem phys_block_references (h : physSystem.Run supplied past m) : Referenced m ∧ Balanced m := by
  have hready := run_ready h
  refine ⟨hready.referenced, ?_⟩
  obtain ⟨X, W, hk, _⟩ := hready
  exact hk.balanced

end Runs

section Samples
variable {m m' : Memory} {past : List (Memory × PhysEvent)}

def sampleOutcomes (slab : SlabSite → Bool) (phys length : ℕ) : Outcomes where
  slab site i := if slab site then some i else none
  stale _ := 0
  pages cut _ _ := if cut < length then some [⟨phys, length⟩] else none
  writemap _ := true
  abscopy _ := true
  fuel := 20

def runAll : List PhysEvent → Memory → Except Fault Memory
  | [], m => pure m
  | e :: rest, m => do
    let m ← e.call.run e.outcomes m
    runAll rest m

def reached (es : List PhysEvent) : Memory := (runAll es emptyMemory).toOption.getD emptyMemory

theorem run_of_runAll (ok : List (Memory × PhysEvent) → Memory → PhysEvent → Prop)
    (es : List PhysEvent) (hrun : physSystem.Run ok past m)
    (hes : ∀ e ∈ es, ∀ past m, e.call.Proper m ∧ ok past m e) (h : runAll es m = .ok m') :
    ∃ past, physSystem.Run ok past m' := by
  induction es generalizing m past with
  | nil =>
    cases pure_ok.mp h
    exact ⟨past, hrun⟩
  | cons e rest ih =>
    obtain ⟨m₁, hstep, h⟩ := bind_ok.mp h
    obtain ⟨hproper, hok⟩ := hes e List.mem_cons_self past m
    exact ih (hrun.next hok ⟨hproper, hstep⟩) (fun e' he' => hes e' (List.mem_cons_of_mem e he')) h

def privatePages (n : VirBytes) : PageCall :=
  ⟨0x1000, 0, n, MAP_NONE, VR_ANON ||| VR_WRITABLE, MF_PREALLOC⟩

def forked : List PhysEvent := [
  ⟨sampleOutcomes (fun _ => true) 0x10000 0x1000, .mapPageRegion 0 (privatePages 0x1000)⟩,
  ⟨sampleOutcomes (fun _ => true) 0x20000 0x1000, .mapProcCopy 1 0⟩]

theorem physBlock_references_forked : ((reached forked).block 4).map PhysBlock.refcount = some 2 ∧
    Referenced (reached forked) ∧ Balanced (reached forked) := by
  have hsupplied : ∀ phys length, Supplied (sampleOutcomes (fun _ => true) phys length) :=
    fun phys length => ⟨fun _ => rfl, fun _ => rfl, fun cut n i ml rest h => by
      obtain ⟨hcut, hml⟩ := Option.ite_none_right_eq_some.mp h
      cases hml
      exact hcut⟩
  obtain ⟨past, hrun⟩ := run_of_runAll supplied forked (.start rfl) (by
    intro e he past m
    fin_cases he
    · exact ⟨trivial, hsupplied _ _, trivial⟩
    · exact ⟨show 1 ≠ 0 by decide, hsupplied _ _, trivial⟩) rfl
  exact ⟨by decide +kernel, phys_block_references hrun⟩

def Memory.Counts (m : Memory) : Prop :=
  ∀ b pb, m.block b = some pb → pb.refcount.toNat = (m.refs b).ncard ∧
    ∃ l, Path m.nextPh pb.firstregion l ∧ l.length = pb.refcount.toNat

def Memory.FreesAll (m : Memory) : Prop :=
  ∀ f, m.made.countP (·.has f) = (m.holders f).ncard + m.freed.countP (·.has f)

def splitFailed : List PhysEvent := [
  ⟨sampleOutcomes (fun _ => true) 0x10000 0x2000, .mapPageRegion 0 (privatePages 0x2000)⟩,
  ⟨sampleOutcomes (fun _ => true) 0x20000 0x1000, .mapPageRegion 1 (privatePages 0x1000)⟩,
  ⟨sampleOutcomes (fun site => site != .splitRegion) 0 0,
    .mapMemory 0 1 ⟨0x1000, 0x1000, 0x1000, 1⟩⟩]

def directUnmapped : List PhysEvent := [
  ⟨sampleOutcomes (fun _ => true) 0 0, .mapPageRegion 0 ⟨0x1000, 0, 0x1000, 0x8000, VR_DIRECT, 0⟩⟩,
  ⟨sampleOutcomes (fun _ => true) 0 0, .mapUnmapRegion 0 0 0x1000⟩]

theorem phys_block_counts_fail : (¬ ∀ m, physSystem.Reachable m → m.Counts) ∧
    ¬ ∀ m, physSystem.Reachable m → m.FreesAll := by
  refine ⟨fun hall => ?_, fun hall => ?_⟩
  · obtain ⟨past, hrun⟩ := run_of_runAll always splitFailed (.start rfl) (by
      intro e he past m
      fin_cases he <;> exact ⟨trivial, trivial⟩) rfl
    have hcounts := hall (reached splitFailed) ⟨past, hrun⟩
    have hblock : ((reached splitFailed).block 12).map PhysBlock.refcount = some 1 := by
      decide +kernel
    obtain ⟨pb, hpb, hcount⟩ := Option.map_eq_some_iff.mp hblock
    have hrefs : (reached splitFailed).refs 12 = ∅ := by
      refine Set.eq_empty_iff_forall_notMem.mpr fun p hp => ?_
      obtain ⟨pr, hpr, hph⟩ := hp
      rcases Nat.lt_or_ge p 20 with hlt | hge
      · have hfew : ∀ p < 20, ((reached splitFailed).physr p).map PhysRegion.ph ≠ some 12 := by
          decide +kernel
        exact hfew p hlt (by rw [hpr, Option.map_some, hph])
      · obtain ⟨k, rfl⟩ := Nat.exists_eq_add_of_le' hge
        have hnone : (reached splitFailed).physr (k + 20) = none := rfl
        rw [hnone] at hpr
        exact absurd hpr (by simp)
    have hzero := (hcounts 12 pb hpb).1
    rw [hcount, hrefs, Set.ncard_empty] at hzero
    exact absurd hzero (by decide)
  · obtain ⟨past, hrun⟩ := run_of_runAll always directUnmapped (.start rfl) (by
      intro e he past m
      fin_cases he <;> exact ⟨trivial, trivial⟩) rfl
    have hfrees := hall (reached directUnmapped) ⟨past, hrun⟩ 0x8000
    have hholders : (reached directUnmapped).holders 0x8000 = ∅ := by
      refine Set.eq_empty_iff_forall_notMem.mpr fun b hb => ?_
      obtain ⟨pb, hpb, _⟩ := hb
      rcases Nat.lt_or_ge b 20 with hlt | hge
      · have hfew : ∀ b < 20, ((reached directUnmapped).block b).isNone = true := by
          decide +kernel
        have hnone := hfew b hlt
        simp [hpb] at hnone
      · obtain ⟨k, rfl⟩ := Nat.exists_eq_add_of_le' hge
        have hnone : (reached directUnmapped).block (k + 20) = none := rfl
        rw [hnone] at hpb
        exact absurd hpb (by simp)
    rw [hholders, Set.ncard_empty] at hfrees
    exact absurd hfrees (by decide +kernel)

end Samples

end Vm
