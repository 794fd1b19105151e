import Cs111.Vm.PhysRefs

namespace Vm
open Kernel (Fault kassert bind_ok kassert_bind_ok pure_ok)
open Chain (Path)

structure Kept (L : Set PhysrId) (X : Set RegionId)
    (W : (ProcId → List RegionId) × Set RegionId) (m : Memory) : Prop where
  lists : Lists L m
  trees : Trees X m
  balanced : Balanced m
  roll : m.roll = W

def SameLengths (m m' : Memory) : Prop :=
  ∀ b pb', m'.block b = some pb' → ∃ pb, m.block b = some pb ∧ pb'.length = pb.length

structure Bare (m m' : Memory) : Prop where
  physr : ∀ q, (m'.physr q).map PhysRegion.bare = (m.physr q).map PhysRegion.bare
  region : m'.region = m.region
  vm : m'.vmRegions = m.vmRegions

section Unreference
variable {o : Outcomes} {m m' : Memory} {L : Set PhysrId} {X : Set RegionId}
  {W : (ProcId → List RegionId) × Set RegionId} {p q : PhysrId}
  {pr : PhysRegion} {b : BlockId} {pb : PhysBlock} {l : List PhysrId} {h : Option PhysrId}
  {fuel : ℕ} {r : RegionId}

theorem Bare.tree (hbare : Bare m m') (r : RegionId) : m'.tree r = m.tree r := by
  simp [Memory.tree, hbare.region]

theorem Bare.isSome (hbare : Bare m m') (q : PhysrId) :
    (m'.physr q).isSome = (m.physr q).isSome :=
  isSome_of_bare (hbare.physr q)

theorem Bare.offset (hbare : Bare m m') (q : PhysrId) : m'.offset q = m.offset q :=
  offset_of_bare (hbare.physr q)

theorem Bare.pointsTo (hbare : Bare m m') : m'.PointsTo q b ↔ m.PointsTo q b :=
  pointsTo_of_bare (hbare.physr q)

theorem Bare.roll (hbare : Bare m m') : m'.roll = m.roll := by
  rw [Memory.roll, Memory.roll, hbare.region, hbare.vm]

theorem Bare.trees (hbare : Bare m m') (ht : Trees X m) : Trees X m' :=
  ht.congr hbare.tree hbare.physr

theorem findOthers_ok (hl : Path m.nextPh h l) (hok : findOthers m b p fuel h = .ok q) :
    q ∈ l ∧ m.nextPh q = some p := by
  induction fuel generalizing h l with
  | zero => exact absurd hok (by simp [findOthers])
  | succ fuel ih =>
    cases l with
    | nil =>
      obtain rfl : h = none := hl
      exact absurd hok (by simp [findOthers])
    | cons i l =>
      obtain ⟨rfl, hl⟩ := hl
      obtain ⟨others, hothers, hok⟩ := bind_ok.mp hok
      have hnext := nextPh_of_some (deref_ok hothers)
      obtain ⟨_, hok⟩ := kassert_bind_ok.mp hok
      split at hok
      · rename_i hp
        obtain rfl := pure_ok.mp hok
        exact ⟨List.mem_cons_self, hnext.trans hp⟩
      · rw [hnext] at hl
        obtain ⟨hq, hp⟩ := ih hl hok
        exact ⟨List.mem_cons_of_mem i hq, hp⟩

structure Unlinked (m m' : Memory) (p : PhysrId) (b : BlockId) (pb : PhysBlock)
    (l : List PhysrId) (first : Option PhysrId) : Prop where
  mem : p ∈ l
  path : Path m'.nextPh first (l.erase p)
  bare : Bare m m'
  other : ∀ q ∉ l, m'.physr q = m.physr q
  same : m' = Memory.setBlock { m with physr := m'.physr } b { pb with firstregion := first }

theorem unlinkPhysr_ok (hpr : m.physr p = some pr) (hl : Path m.nextPh pb.firstregion l)
    (hok : unlinkPhysr o p pr pb m = .ok m') : ∃ first, Unlinked m m' p pr.ph pb l first := by
  rw [unlinkPhysr] at hok
  split at hok
  · rename_i hfirst
    obtain rfl := pure_ok.mp hok
    refine ⟨pr.nextPhList, ?_, ?_, ⟨fun _ => rfl, rfl, rfl⟩, fun _ _ => rfl, rfl⟩
    · cases l with
      | nil => exact absurd (hfirst.symm.trans hl) (by simp)
      | cons i l =>
        cases hfirst.symm.trans hl.1
        exact List.mem_cons_self
    · cases l with
      | nil => exact absurd (hfirst.symm.trans hl) (by simp)
      | cons i l =>
        cases hfirst.symm.trans hl.1
        rw [List.erase_cons_head, ← nextPh_of_some hpr]
        exact hl.2
  · obtain ⟨q, hq, hok⟩ := bind_ok.mp hok
    obtain ⟨others, hothers, hok⟩ := bind_ok.mp hok
    obtain rfl := pure_ok.mp hok
    have hothers := deref_ok hothers
    obtain ⟨hql, hnext⟩ := findOthers_ok hl hq
    obtain ⟨hpl, hpath⟩ := Chain.path_bypass hl hql hnext
    refine ⟨pb.firstregion, hpl, ?_, ⟨fun q' => ?_, rfl, rfl⟩, fun q' hq' => ?_, rfl⟩
    · rw [nextPh_setPhysr, ← nextPh_of_some hpr]
      exact hpath
    · by_cases hqq : q' = q
      · subst hqq
        simp [Memory.setPhysr, Memory.setBlock, PhysRegion.bare, hothers]
      · simp [Memory.setPhysr, Memory.setBlock, hqq]
    · have hqq : q' ≠ q := fun he => hq' (he ▸ hql)
      simp [Memory.setPhysr, Memory.setBlock, hqq]

theorem releaseBlock_ok (hok : releaseBlock r b m = .ok m') : ∃ pb, m.block b = some pb ∧
    (pb.refcount ≠ 0 ∧ m' = m ∨ pb.refcount = 0 ∧ pb.firstregion = none ∧
      (m' = (m.freeMem pb.mem).freeBlock b ∨ ∃ flags, hasAny flags VR_DIRECT = true ∧
        m' = (m.leave flags pb.mem).freeBlock b)) := by
  obtain ⟨pb, hb, hok⟩ := bind_ok.mp hok
  refine ⟨pb, deref_ok hb, ?_⟩
  split at hok
  · rename_i hzero
    obtain ⟨hfirst, hok⟩ := kassert_bind_ok.mp hok
    obtain ⟨vr, _, hok⟩ := bind_ok.mp hok
    refine .inr ⟨hzero, by simpa using hfirst, ?_⟩
    split at hok
    · exact .inl (pure_ok.mp hok).symm
    · split at hok
      · rename_i hdirect
        exact .inr ⟨vr.flags, hdirect, (pure_ok.mp hok).symm⟩
      · exact absurd hok (by simp)
  · rename_i hzero
    exact .inl ⟨hzero, (pure_ok.mp hok).symm⟩

theorem count_pred {n : ℕ} (hn : n ≠ 0) : BitVec.ofNat 8 n - 1 = BitVec.ofNat 8 (n - 1) := by
  obtain ⟨k, rfl⟩ := Nat.exists_eq_succ_of_ne_zero hn
  rw [Nat.succ_sub_one, Nat.succ_eq_add_one, BitVec.ofNat_add]
  exact BitVec.add_sub_cancel ..

section Unlinked
variable {first : Option PhysrId} {pb' : PhysBlock} {m₁ : Memory}

theorem Unlinked.limbo (hu : Unlinked m m₁ p b pb' l first) (hl : Lists L m)
    (hlist : Listed m L b pb l) : ∀ q ∈ insert p L, (m₁.physr q).isSome := by
  intro q hq
  rw [hu.bare.isSome]
  rcases Set.mem_insert_iff.mp hq with rfl | hq
  · obtain ⟨pr, hpr⟩ := hlist.allocated hu.mem
    simp [hpr]
  · exact hl.limbo q hq

theorem Unlinked.others (hu : Unlinked m m₁ p b pb' l first) (hl : Lists L m)
    (hlist : Listed m L b pb l) {b' : BlockId} {pb₁ : PhysBlock} (hne : b' ≠ b)
    (hb' : m.block b' = some pb₁) : ∃ l', l' ≠ [] ∧ Listed m₁ (insert p L) b' pb₁ l' := by
  obtain ⟨l', hnil, hl'⟩ := hl.listed b' pb₁ hb'
  have hdisjoint : ∀ q ∈ l', q ∉ l := fun q hq hql =>
    hne (pointsTo_unique ((hl'.members q).mp hq).2 ((hlist.members q).mp hql).2)
  refine ⟨l', hnil, hl'.of_same (fun q hq => ?_) (fun q => ?_) rfl rfl⟩
  · rw [Memory.nextPh, Memory.nextPh, hu.other q (hdisjoint q hq)]
  · rw [hu.bare.pointsTo, Set.mem_insert_iff, not_or]
    constructor
    · rintro ⟨⟨_, hqL⟩, hpoints⟩
      exact ⟨hqL, hpoints⟩
    · rintro ⟨hqL, hpoints⟩
      refine ⟨⟨?_, hqL⟩, hpoints⟩
      rintro rfl
      exact hdisjoint q ((hl'.members q).mpr ⟨hqL, hpoints⟩) hu.mem

theorem Unlinked.remaining (hu : Unlinked m m₁ p b pb' l first) (hlist : Listed m L b pb l)
    (q : PhysrId) : q ∈ l.erase p ↔ q ∉ insert p L ∧ m₁.PointsTo q b := by
  rw [(Chain.path_nodup hlist.path).mem_erase_iff, hlist.members, hu.bare.pointsTo,
    Set.mem_insert_iff, not_or]
  tauto

theorem Unlinked.count (hu : Unlinked m m₁ p b pb' l first) (hlist : Listed m L b pb l)
    (hcount : pb'.refcount = pb.refcount - 1) :
    pb'.refcount = BitVec.ofNat 8 (l.erase p).length := by
  have hlen : l.length ≠ 0 := by
    have hmem := List.length_pos_of_mem hu.mem
    omega
  rw [hcount, hlist.count, count_pred hlen, List.length_erase_of_mem hu.mem]

theorem Unlinked.lists (hu : Unlinked m m₁ p b pb' l first) (hl : Lists L m)
    (hlist : Listed m L b pb l) (hcount : pb'.refcount = pb.refcount - 1)
    (hkept : pb'.refcount ≠ 0) : Lists (insert p L) m₁ where
  listed b' pb₁ hb' := by
    rw [hu.same] at hb'
    by_cases hne : b' = b
    · subst hne
      obtain rfl : { pb' with firstregion := first } = pb₁ := by
        simpa [Memory.setBlock] using hb'
      have hrefs := hu.count hlist hcount
      refine ⟨l.erase p, fun hnil => ?_, hu.path, hu.remaining hlist, hrefs⟩
      rw [hnil] at hrefs
      exact hkept hrefs
    · exact hu.others hl hlist hne (by simpa [Memory.setBlock, hne] using hb')
  live q b' hq hpoints := by
    rw [Set.mem_insert_iff, not_or] at hq
    have hlive := hl.live q b' hq.2 (hu.bare.pointsTo.mp hpoints)
    rw [hu.same]
    by_cases hne : b' = b
    · subst hne
      simp [Memory.setBlock]
    · simpa [Memory.setBlock, hne] using hlive
  limbo := hu.limbo hl hlist

theorem Unlinked.released (hu : Unlinked m m₁ p b pb' l first) (hl : Lists L m)
    (hlist : Listed m L b pb l) (hfirst : first = none) : Lists (insert p L) (m₁.freeBlock b) where
  listed b' pb₁ hb' := by
    have hne : b' ≠ b := by
      rintro rfl
      simp [Memory.freeBlock] at hb'
    rw [hu.same] at hb'
    obtain ⟨l', hnil, hl'⟩ := hu.others hl hlist hne (by
      simpa [Memory.freeBlock, Memory.setBlock, hne] using hb')
    exact ⟨l', hnil, hl'.of_same (fun _ _ => rfl) (fun _ => Iff.rfl) rfl rfl⟩
  live q b' hq hpoints := by
    have hne : b' ≠ b := by
      rintro rfl
      have hpath := hu.path
      have hmem := (hu.remaining hlist q).mpr ⟨hq, hpoints⟩
      cases herase : l.erase p with
      | nil => simp [herase] at hmem
      | cons i rest =>
        rw [herase, hfirst] at hpath
        exact absurd hpath.1 (by simp)
    rw [Set.mem_insert_iff, not_or] at hq
    have hlive := hl.live q b' hq.2 (hu.bare.pointsTo.mp hpoints)
    rw [hu.same]
    simpa [Memory.freeBlock, Memory.setBlock, hne] using hlive
  limbo := hu.limbo hl hlist

theorem Unlinked.balanced (hu : Unlinked m m₁ p b pb' l first) (hbal : Balanced m)
    (hb : m.block b = some pb) (hmem : pb'.mem = pb.mem) : Balanced m₁ := by
  rw [hu.same]
  refine hbal.congr (fun b' => ?_) rfl rfl rfl
  by_cases hne : b' = b
  · subst hne
    simp only [Memory.setBlock, Function.update_self, hb, Option.map_some]
    exact congrArg some hmem
  · simp [Memory.setBlock, hne]

theorem Unlinked.lengths (hu : Unlinked m m₁ p b pb' l first) (hb : m.block b = some pb)
    (hlength : pb'.length = pb.length) : SameLengths m m₁ := by
  intro b' pb₁ hb'
  rw [hu.same] at hb'
  by_cases hne : b' = b
  · subst hne
    obtain rfl : { pb' with firstregion := first } = pb₁ := by
      simpa [Memory.setBlock] using hb'
    exact ⟨pb, hb, hlength⟩
  · exact ⟨pb₁, by simpa [Memory.setBlock, hne] using hb', rfl⟩

end Unlinked

theorem SameLengths.freed {m₁ : Memory} (hs : SameLengths m m₁)
    (hblock : m'.block = (m₁.freeBlock b).block) : SameLengths m m' := by
  intro b' pb' hb'
  rw [hblock] at hb'
  refine hs b' pb' ?_
  by_cases hne : b' = b
  · subst hne
    simp [Memory.freeBlock] at hb'
  · simpa [Memory.freeBlock, hne] using hb'

theorem pbUnreferenced_ok (hk : Kept L X W m) (hok : pbUnreferenced o r p m = .ok m') :
    p ∉ L ∧ Kept (insert p L) X W m' ∧ Bare m m' ∧ SameLengths m m' := by
  obtain ⟨pr, hpr, hok⟩ := bind_ok.mp hok
  obtain ⟨pb, hb, hok⟩ := bind_ok.mp hok
  obtain ⟨_, hok⟩ := kassert_bind_ok.mp hok
  obtain ⟨m₁, hunlink, hok⟩ := bind_ok.mp hok
  have hpr := deref_ok hpr
  have hb := deref_ok hb
  obtain ⟨l, _, hlist⟩ := hk.lists.listed pr.ph pb hb
  obtain ⟨first, hu⟩ := unlinkPhysr_ok hpr (by exact hlist.path) hunlink
  have hbal := hu.balanced hk.balanced hb rfl
  have hlengths := hu.lengths hb rfl
  obtain ⟨pb₁, hb₁, hcase⟩ := releaseBlock_ok hok
  have hend : { pb with refcount := pb.refcount - 1, firstregion := first } = pb₁ := by
    rw [hu.same] at hb₁
    simpa [Memory.setBlock] using hb₁
  have hfirst₁ : pb₁.firstregion = first := by rw [← hend]
  have hcount₁ : pb₁.refcount = pb.refcount - 1 := by rw [← hend]
  refine ⟨((hlist.members p).mp hu.mem).1, ?_⟩
  rcases hcase with ⟨hkept, rfl⟩ | ⟨_, hfirst, rfl | ⟨flags, hdirect, rfl⟩⟩
  · exact ⟨⟨hu.lists hk.lists hlist rfl (hcount₁ ▸ hkept), hu.bare.trees hk.trees, hbal,
      hu.bare.roll.trans hk.roll⟩, hu.bare, hlengths⟩
  · have hbare := hu.bare
    have hlists := hu.released hk.lists hlist (hfirst₁.symm.trans hfirst)
    have hrel : Bare m ((m₁.freeMem pb₁.mem).freeBlock pr.ph) :=
      ⟨hbare.physr, hbare.region, hbare.vm⟩
    exact ⟨⟨hlists.congr rfl fun _ => rfl, hrel.trees hk.trees, (hbal.release hb₁).1,
      hrel.roll.trans hk.roll⟩, hrel, hlengths.freed rfl⟩
  · have hbare := hu.bare
    have hlists := hu.released hk.lists hlist (hfirst₁.symm.trans hfirst)
    have hrel : Bare m ((m₁.leave flags pb₁.mem).freeBlock pr.ph) :=
      ⟨hbare.physr, hbare.region, hbare.vm⟩
    exact ⟨⟨hlists.congr rfl fun _ => rfl, hrel.trees hk.trees, (hbal.release hb₁).2 flags hdirect,
      hrel.roll.trans hk.roll⟩, hrel, hlengths.freed rfl⟩

structure Dropped (m m' : Memory) (r : RegionId) (p : PhysrId) : Prop where
  tree : m'.tree r = (m.tree r).erase p
  others : ∀ r' ≠ r, m'.tree r' = m.tree r'
  physr : ∀ q ≠ p, (m'.physr q).map PhysRegion.bare = (m.physr q).map PhysRegion.bare
  lengths : SameLengths m m'

theorem Kept.free (hk : Kept (insert p L) X W m) (hp : p ∉ L) (htree : ∀ r, p ∉ m.tree r) :
    Kept L X W (m.freePhysr p) where
  lists := hk.lists.free hp
  trees := hk.trees.outside (fun _ => rfl) htree fun q hq => by simp [Memory.freePhysr, hq]
  balanced := hk.balanced.congr (fun _ => rfl) rfl rfl rfl
  roll := hk.roll

theorem dropPhysr_ok (hk : Kept L X W m) (hp : AtKey m r p) (hok : dropPhysr o r p m = .ok m') :
    p ∉ L ∧ Kept L X W m' ∧ Dropped m m' r p := by
  obtain ⟨pr, hpr, hok⟩ := bind_ok.mp hok
  obtain ⟨m₁, hunref, hok⟩ := bind_ok.mp hok
  obtain ⟨m₂, hremove, hok⟩ := bind_ok.mp hok
  obtain rfl := pure_ok.mp hok
  obtain ⟨hpL, hk₁, hbare, hlengths⟩ := pbUnreferenced_ok hk hunref
  have hkey : pr.offset = m₁.offset p := by
    rw [hbare.offset, offset_of_some (deref_ok hpr)]
  have hp₁ : AtKey m₁ r p := by
    have hoffset : m₁.offset = m.offset := funext hbare.offset
    rw [AtKey, physrSearch, hbare.tree, hoffset]
    exact hp
  rw [hkey] at hremove
  obtain ⟨vr, hvr, rfl⟩ := physrRemove_ok hp₁ hremove
  have hk₂ : Kept (insert p L) X W (m₁.setRegion r { vr with phys := (m₁.tree r).erase p }) :=
    ⟨hk₁.lists.congr rfl fun _ => rfl, hk₁.trees.erase, hk₁.balanced.congr (fun _ => rfl) rfl rfl rfl,
      (roll_setRegion hvr).trans hk₁.roll⟩
  refine ⟨hpL, hk₂.free hpL (hk₁.trees.erased hp₁.mem), ?_, fun r' hr' => ?_, fun q hq => ?_,
    hlengths⟩
  · change Memory.tree (m₁.setRegion r _) r = _
    rw [tree_setRegion, if_pos rfl, hbare.tree]
  · change Memory.tree (m₁.setRegion r _) r' = _
    rw [tree_setRegion, if_neg hr', hbare.tree]
  · rw [← hbare.physr q]
    simp [Memory.freePhysr, Memory.setRegion, hq]

theorem Dropped.offset (hd : Dropped m m' r p) (hq : q ≠ p) : m'.offset q = m.offset q :=
  offset_of_bare (hd.physr q hq)

end Unreference

section NewBlock
variable {o : Outcomes} {m m' m₁ : Memory} {L : Set PhysrId} {X : Set RegionId}
  {W : (ProcId → List RegionId) × Set RegionId} {p q : PhysrId}
  {b : BlockId} {r : RegionId} {offset start length cut : ℕ} {ml : MemList}
  {memlist : List MemList} {site : SlabSite}

theorem Kept.congr (hk : Kept L X W m) (hblock : m'.block = m.block) (hphysr : m'.physr = m.physr)
    (hregion : m'.region = m.region) (hvm : m'.vmRegions = m.vmRegions) (hmade : m'.made = m.made) (hfreed : m'.freed = m.freed)
    (hleft : m'.left = m.left) : Kept L X W m' where
  lists := hk.lists.congr hphysr fun b => by rw [hblock]
  trees := hk.trees.congr (fun r => by rw [Memory.tree, Memory.tree, hregion]) fun p => by rw [hphysr]
  balanced := hk.balanced.congr (fun b => by rw [hblock]) hmade hfreed hleft
  roll := by
    rw [← hk.roll, Memory.roll, Memory.roll, hregion, hvm]

theorem Kept.ticked (hk : Kept L X W m) : Kept L X W m.ticked := hk.congr rfl rfl rfl rfl rfl rfl rfl

theorem slaballoc_ok {α : Type} {used : ℕ → Option α} {x : Option ℕ}
    (hok : slaballoc o site used m = .ok (x, m')) :
    m' = m.ticked ∧ (∀ a, x = some a → used a = none) ∧ (x = none → o.slab site m.tick = none) := by
  rw [slaballoc] at hok
  split at hok
  · rename_i hnone
    cases hok
    exact ⟨rfl, by simp, fun _ => hnone⟩
  · rename_i a ha
    split at hok
    · exact absurd hok (by simp)
    · rename_i hused
      cases hok
      refine ⟨rfl, fun a' ha' => ?_, by simp⟩
      cases ha'
      simpa using hused

structure Mapped (m m' : Memory) : Prop where
  block : m'.block = m.block
  physr : m'.physr = m.physr
  region : m'.region = m.region
  vm : m'.vmRegions = m.vmRegions
  made : m'.made = m.made
  freed : m'.freed = m.freed
  left : m'.left = m.left

theorem Mapped.refl (m : Memory) : Mapped m m := ⟨rfl, rfl, rfl, rfl, rfl, rfl, rfl⟩

theorem Mapped.trans (h₁ : Mapped m m₁) (h₂ : Mapped m₁ m') : Mapped m m' :=
  ⟨h₂.block.trans h₁.block, h₂.physr.trans h₁.physr, h₂.region.trans h₁.region, h₂.vm.trans h₁.vm,
    h₂.made.trans h₁.made, h₂.freed.trans h₁.freed, h₂.left.trans h₁.left⟩

theorem Kept.mapped (hk : Kept L X W m) (h : Mapped m m') : Kept L X W m' :=
  hk.congr h.block h.physr h.region h.vm h.made h.freed h.left

theorem mapped_ticked (m : Memory) : Mapped m m.ticked := ⟨rfl, rfl, rfl, rfl, rfl, rfl, rfl⟩

theorem mapPhWritept_ok {written : Bool} (hok : mapPhWritept o r p m = .ok (written, m')) :
    Mapped m m' := by
  obtain ⟨vr, _, hok⟩ := bind_ok.mp hok
  obtain ⟨pr, _, hok⟩ := bind_ok.mp hok
  obtain ⟨pb, _, hok⟩ := bind_ok.mp hok
  obtain ⟨_, hok⟩ := kassert_bind_ok.mp hok
  obtain ⟨_, hok⟩ := kassert_bind_ok.mp hok
  obtain ⟨_, hok⟩ := kassert_bind_ok.mp hok
  obtain ⟨_, hok⟩ := kassert_bind_ok.mp hok
  split at hok <;> cases pure_ok.mp hok
  · exact ⟨rfl, rfl, rfl, rfl, rfl, rfl, rfl⟩
  · exact mapped_ticked m

theorem copyAbs2region_ok {copied : Bool} {fuel abs offset len : ℕ}
    (hok : copyAbs2region o r fuel abs offset len m = .ok (copied, m')) : Mapped m m' := by
  induction fuel generalizing abs offset len m with
  | zero => exact absurd hok (by simp [copyAbs2region])
  | succ fuel ih =>
    rw [copyAbs2region] at hok
    split at hok
    · cases pure_ok.mp hok
      exact .refl _
    · split at hok
      · cases pure_ok.mp hok
        exact .refl _
      · obtain ⟨ph, _, hok⟩ := bind_ok.mp hok
        obtain ⟨pb, _, hok⟩ := bind_ok.mp hok
        split at hok
        · cases pure_ok.mp hok
          exact .refl _
        · split at hok
          · cases pure_ok.mp hok
            exact .refl _
          · split at hok
            · have hrest := ih hok
              exact ⟨hrest.block, hrest.physr, hrest.region, hrest.vm, hrest.made, hrest.freed, hrest.left⟩
            · cases pure_ok.mp hok
              exact .refl _

structure Grown (m m' : Memory) (r : RegionId) (new : ℕ → ℕ → Prop) : Prop where
  others : ∀ r' ≠ r, m'.tree r' = m.tree r'
  keeps : ∀ q ∈ m.tree r, q ∈ m'.tree r
  offset : ∀ q, (m.physr q).isSome → (m'.physr q).isSome ∧ m'.offset q = m.offset q
  points : ∀ q b, m.PointsTo q b → m'.PointsTo q b
  extent : ∀ q n, m.extent q = some n → m'.extent q = some n
  blocks : ∀ b, (m.block b).isSome → (m'.block b).isSome
  fresh : ∀ q ∈ m'.tree r, q ∈ m.tree r ∨ (∃ n, m'.extent q = some n ∧ new (m'.offset q) n) ∧
    ∃ b, m'.PointsTo q b ∧ m.block b = none

theorem Grown.same {new : ℕ → ℕ → Prop} (hphysr : m'.physr = m.physr)
    (hblock : m'.block = m.block) (hregion : m'.region = m.region) : Grown m m' r new where
  others r' _ := by rw [Memory.tree, Memory.tree, hregion]
  keeps q hq := by rwa [Memory.tree, hregion]
  offset q hq := by
    rw [Memory.offset, Memory.offset, hphysr]
    exact ⟨hq, rfl⟩
  points q b hb := by rwa [Memory.PointsTo, hphysr]
  extent q n hn := by rwa [Memory.extent, hphysr, hblock]
  blocks b hb := by rwa [hblock]
  fresh q hq := by
    rw [Memory.tree, hregion] at hq
    exact .inl hq

theorem Mapped.grown {new : ℕ → ℕ → Prop} (h : Mapped m m') : Grown m m' r new :=
  Grown.same h.physr h.block h.region

theorem Grown.trans {new new₁ new₂ : ℕ → ℕ → Prop} (h₁ : Grown m m₁ r new₁)
    (h₂ : Grown m₁ m' r new₂) (ht : Trees X m₁) (hnew₁ : ∀ k n, new₁ k n → new k n)
    (hnew₂ : ∀ k n, new₂ k n → new k n) : Grown m m' r new where
  others r' hr' := (h₂.others r' hr').trans (h₁.others r' hr')
  keeps q hq := h₂.keeps q (h₁.keeps q hq)
  offset q hq := by
    obtain ⟨hsome, hoffset⟩ := h₁.offset q hq
    obtain ⟨hsome', hoffset'⟩ := h₂.offset q hsome
    exact ⟨hsome', hoffset'.trans hoffset⟩
  points q b hb := h₂.points q b (h₁.points q b hb)
  extent q n hn := h₂.extent q n (h₁.extent q n hn)
  blocks b hb := h₂.blocks b (h₁.blocks b hb)
  fresh q hq := by
    rcases h₂.fresh q hq with hq₁ | ⟨⟨n, hn, hnew⟩, b, hb, hnone⟩
    · rcases h₁.fresh q hq₁ with hq | ⟨⟨n, hn, hnew⟩, b, hb, hnone⟩
      · exact .inl hq
      · obtain ⟨pr, hpr, _⟩ := ht.owned r q hq₁
        refine .inr ⟨⟨n, h₂.extent q n hn, ?_⟩, b, h₂.points q b hb, hnone⟩
        rw [(h₂.offset q (by simp [hpr])).2]
        exact hnew₁ _ _ hnew
    · refine .inr ⟨⟨n, hn, hnew₂ _ _ hnew⟩, b, hb, ?_⟩
      by_contra hsome
      have hlive := h₁.blocks b (Option.isSome_iff_ne_none.mpr hsome)
      simp [hnone] at hlive

theorem Kept.makeBlock (hk : Kept L X W m) (hp : m.physr p = none) (hb : m.block b = none) :
    Kept L X W (makeBlock o r ml offset p b m) where
  lists := by
    have hpL : p ∉ L := fun hpL => by
      have hsome := hk.lists.limbo p hpL
      simp [hp] at hsome
    have hpr : (m.setPhysr p ⟨b, r, offset, none⟩).physr p = some ⟨b, r, offset, none⟩ :=
      Function.update_self ..
    have hnew : Lists L ((m.setPhysr p ⟨b, r, offset, none⟩).setBlock b
        ⟨ml.length, ml.phys, 1, o.stale m.tick, some p⟩) :=
      (hk.lists.alloc hp).newBlock hpL hb hpr rfl rfl rfl rfl
    exact hnew.congr rfl fun _ => rfl
  trees := hk.trees.outside (fun _ => rfl) (hk.trees.notMem hp) fun q hq => by
    simp [Vm.makeBlock, Memory.setPhysr, Memory.setBlock, hq]
  balanced := by
    have hnew : Balanced (Memory.setBlock { m with made := ml :: m.made } b
        ⟨ml.length, ml.phys, 1, o.stale m.tick, some p⟩) := hk.balanced.newBlock hb rfl
    exact hnew.congr (fun _ => rfl) rfl rfl rfl
  roll := hk.roll

theorem grown_makeBlock {new : ℕ → ℕ → Prop} (hp : m.physr p = none) (hb : m.block b = none) :
    Grown m (makeBlock o r ml offset p b m) r new where
  others _ _ := rfl
  keeps _ hq := hq
  offset q hq := by
    have hqp : q ≠ p := by
      rintro rfl
      simp [hp] at hq
    refine ⟨?_, offset_setPhysr.trans (if_neg hqp)⟩
    simpa [makeBlock, Memory.setPhysr, Memory.setBlock, hqp] using hq
  points q b' hb' := by
    refine pointsTo_setPhysr.mpr (.inr ⟨?_, hb'⟩)
    rintro rfl
    obtain ⟨pr, hpr, _⟩ := hb'
    simp [hp] at hpr
  extent q n hn := by
    obtain ⟨pr, hpr, hlen⟩ := Option.bind_eq_some_iff.mp hn
    obtain ⟨pb, hpb, rfl⟩ := Option.map_eq_some_iff.mp hlen
    have hqp : q ≠ p := by
      rintro rfl
      simp [hp] at hpr
    have hne : pr.ph ≠ b := by
      rintro rfl
      simp [hb] at hpb
    simp [Memory.extent, makeBlock, Memory.setPhysr, Memory.setBlock, hqp, hne, hpr, hpb]
  blocks b' hb' := by
    have hne : b' ≠ b := by
      rintro rfl
      simp [hb] at hb'
    simpa [makeBlock, Memory.setPhysr, Memory.setBlock, hne] using hb'
  fresh _ hq := .inl hq

theorem Grown.insert {n : ℕ} (hg : Grown m m₁ r fun _ _ => False)
    (hok : physrInsert m₁ r p = .ok m') (hn : m₁.extent p = some n) (hb : m₁.PointsTo p b)
    (hnone : m.block b = none) : Grown m m' r fun k n' => k = m₁.offset p ∧ n' = n := by
  obtain ⟨vr, _, rfl⟩ := physrInsert_ok hok
  refine ⟨fun r' hr' => ?_, fun q hq => ?_, hg.offset, hg.points, hg.extent, hg.blocks,
    fun q hq => ?_⟩
  · rw [tree_setRegion, if_neg hr']
    exact hg.others r' hr'
  · rw [tree_setRegion, if_pos rfl]
    exact subset_placed (hg.keeps q hq)
  · rw [tree_setRegion, if_pos rfl] at hq
    rcases mem_placed hq with rfl | hq
    · exact .inr ⟨⟨n, hn, rfl, rfl⟩, b, hb, hnone⟩
    · rcases hg.fresh q hq with hq | ⟨⟨_, _, hfalse⟩, _⟩
      · exact .inl hq
      · exact hfalse.elim

theorem Kept.inserted {pr : PhysRegion} (hk : Kept L X W m) (hok : physrInsert m r p = .ok m')
    (hpr : m.physr p = some pr) (hparent : pr.parent = r) (hp : p ∉ m.tree r) : Kept L X W m' := by
  have htrees := hk.trees.insert hok hpr hparent hp
  obtain ⟨vr, hvr, rfl⟩ := physrInsert_ok hok
  exact ⟨hk.lists.congr rfl fun _ => rfl, htrees, hk.balanced.congr (fun _ => rfl) rfl rfl rfl,
    (roll_setRegion hvr).trans hk.roll⟩

theorem addChunk_ok {added : Bool} (hk : Kept L X W m)
    (hok : addChunk o r ml offset m = .ok (added, m')) :
    Kept L X W m' ∧ Grown m m' r fun k n => k = offset ∧ n = ml.length := by
  obtain ⟨⟨newphysr, m₁⟩, hphysr, hok⟩ := bind_ok.mp hok
  obtain ⟨rfl, hfree, _⟩ := slaballoc_ok hphysr
  cases newphysr with
  | none =>
    cases pure_ok.mp hok
    exact ⟨hk.ticked, Grown.same rfl rfl rfl⟩
  | some p =>
    obtain ⟨⟨newpb, m₁⟩, hblock, hok⟩ := bind_ok.mp hok
    obtain ⟨rfl, hfreeb, _⟩ := slaballoc_ok hblock
    cases newpb with
    | none =>
      cases pure_ok.mp hok
      exact ⟨hk.ticked.ticked, Grown.same rfl rfl rfl⟩
    | some b =>
      obtain ⟨_, hok⟩ := kassert_bind_ok.mp hok
      obtain ⟨⟨written, m₁⟩, hwritten, hok⟩ := bind_ok.mp hok
      have hmapped := mapPhWritept_ok hwritten
      have hp : m.ticked.ticked.physr p = none := hfree p rfl
      have hnone : m.block b = none := hfreeb b rfl
      have hnew : Kept L X W m₁ := (hk.ticked.ticked.makeBlock hp hnone).mapped hmapped
      have hmade : Grown m.ticked.ticked (makeBlock o r ml offset p b m.ticked.ticked) r
          fun _ _ => False := grown_makeBlock hp hnone
      have hsteps : Mapped m m.ticked.ticked := (mapped_ticked m).trans (mapped_ticked m.ticked)
      have hgrown : Grown m m₁ r fun _ _ => False :=
        (hsteps.grown.trans hmade hk.ticked.ticked.trees (fun _ _ h => h) fun _ _ h => h).trans
          hmapped.grown (hk.ticked.ticked.makeBlock hp hnone).trees (fun _ _ h => h) fun _ _ h => h
      dsimp only at hok
      split at hok
      · obtain ⟨m₂, hinsert, hok⟩ := bind_ok.mp hok
        cases pure_ok.mp hok
        have hpr : m₁.physr p = some ⟨b, r, offset, none⟩ := by
          rw [hmapped.physr]
          exact Function.update_self ..
        have hn : m₁.extent p = some ml.length := by
          rw [Memory.extent, hmapped.physr, hmapped.block]
          simp [makeBlock, Memory.setPhysr, Memory.setBlock]
        have hall := hgrown.insert hinsert hn ⟨_, hpr, rfl⟩ hnone
        rw [offset_of_some hpr] at hall
        refine ⟨hnew.inserted hinsert hpr rfl ?_, hall⟩
        rw [Memory.tree, hmapped.region]
        exact hk.trees.notMem hp r
      · cases pure_ok.mp hok
        exact ⟨hnew, hgrown.others, hgrown.keeps, hgrown.offset, hgrown.points, hgrown.extent,
          hgrown.blocks, fun q hq => .inl ((hgrown.fresh q hq).resolve_right fun h => by
            obtain ⟨⟨_, _, hfalse⟩, _⟩ := h
            exact hfalse)⟩

def Behind (start : ℕ) (memlist : List MemList) (k n : ℕ) : Prop :=
  ∃ ml rest, memlist = ml :: rest ∧ (k = start ∧ n = ml.length ∨ start + ml.length ≤ k)

theorem Behind.le {k n : ℕ} (h : Behind start memlist k n) : start ≤ k := by
  obtain ⟨ml, rest, _, ⟨rfl, _⟩ | hle⟩ := h
  · exact le_rfl
  · omega

theorem addChunks_ok {added : Bool} {stop : ℕ} (hk : Kept L X W m)
    (hok : addChunks o r memlist start m = .ok (added, stop, m')) :
    Kept L X W m' ∧ Grown m m' r (Behind start memlist) := by
  induction memlist generalizing start m with
  | nil =>
    cases pure_ok.mp hok
    exact ⟨hk, Grown.same rfl rfl rfl⟩
  | cons ml rest ih =>
    obtain ⟨⟨done, m₁⟩, hadd, hok⟩ := bind_ok.mp hok
    obtain ⟨hk₁, hgrown₁⟩ := addChunk_ok hk hadd
    dsimp only at hok
    split at hok
    · obtain ⟨hk', hgrown⟩ := ih hk₁ hok
      refine ⟨hk', hgrown₁.trans hgrown hk₁.trees (fun k n hkn => ?_) fun k n hkn => ?_⟩
      · exact ⟨ml, rest, rfl, .inl hkn⟩
      · exact ⟨ml, rest, rfl, .inr hkn.le⟩
    · cases pure_ok.mp hok
      refine ⟨hk₁, hgrown₁.trans (Grown.same rfl rfl rfl) hk₁.trees (fun k n hkn => ?_) fun _ _ h => h⟩
      exact ⟨ml, rest, rfl, .inl hkn⟩

theorem undoChunk_ok (hk : Kept L X W m) (hok : undoChunk o r offset m = .ok m') : Kept L X W m' := by
  rw [undoChunk] at hok
  split at hok
  · cases pure_ok.mp hok
    exact hk
  · rename_i p hp
    obtain ⟨pr, _, hok⟩ := bind_ok.mp hok
    obtain ⟨pb, _, hok⟩ := bind_ok.mp hok
    obtain ⟨_, hok⟩ := kassert_bind_ok.mp hok
    exact (dropPhysr_ok hk (atKey_of_search hp) hok).2.1

theorem undoChunks_ok (hk : Kept L X W m) (hok : undoChunks o r memlist start m = .ok m') :
    Kept L X W m' := by
  induction memlist generalizing start m with
  | nil =>
    cases pure_ok.mp hok
    exact hk
  | cons ml rest ih =>
    obtain ⟨m₁, hundo, hok⟩ := bind_ok.mp hok
    exact ih (undoChunk_ok hk hundo) hok

theorem mapNewChunks_ok {reply : VmReply} (hk : Kept L X W m)
    (hok : mapNewChunks o r start length memlist m = .ok (reply, m')) :
    Kept L X W m' ∧ (reply = .OK → Grown m m' r (Behind start memlist)) := by
  obtain ⟨⟨added, stop, m₁⟩, hadd, hok⟩ := bind_ok.mp hok
  obtain ⟨hk₁, hgrown⟩ := addChunks_ok hk hadd
  dsimp only at hok
  split at hok
  · obtain ⟨_, hok⟩ := kassert_bind_ok.mp hok
    cases pure_ok.mp hok
    exact ⟨hk₁, fun _ => hgrown⟩
  · obtain ⟨m₂, hundo, hok⟩ := bind_ok.mp hok
    cases pure_ok.mp hok
    exact ⟨undoChunks_ok hk₁ hundo, by simp⟩

theorem mapNewPhysblock_ok {reply : VmReply} {whatMem : Option ℕ} (hk : Kept L X W m)
    (hok : mapNewPhysblock o r start length whatMem cut m = .ok (reply, m')) :
    Kept L X W m' ∧ (whatMem = none → reply = .OK →
      ∃ memlist, o.pages cut length m.tick = some memlist ∧ Grown m m' r (Behind start memlist)) := by
  obtain ⟨_, hok⟩ := kassert_bind_ok.mp hok
  obtain ⟨vr, _, hok⟩ := bind_ok.mp hok
  split at hok
  · cases pure_ok.mp hok
    exact ⟨hk, by simp⟩
  · cases whatMem with
    | none =>
      dsimp only at hok
      split at hok
      · cases pure_ok.mp hok
        exact ⟨hk.ticked, by simp⟩
      · rename_i memlist hpages
        obtain ⟨hk', hgrown⟩ := mapNewChunks_ok hk.ticked hok
        refine ⟨hk', fun _ hreply => ⟨memlist, hpages, ?_⟩⟩
        have hg := hgrown hreply
        exact ⟨hg.others, hg.keeps, hg.offset, hg.points, hg.extent, hg.blocks, hg.fresh⟩
    | some phys =>
      obtain ⟨_, hok⟩ := kassert_bind_ok.mp hok
      obtain ⟨⟨added, stop, m₁⟩, hadd, hok⟩ := bind_ok.mp hok
      cases pure_ok.mp hok
      exact ⟨(addChunks_ok hk hadd).1, by simp⟩

structure Cloned (o : Outcomes) (m m' : Memory) (L : Set PhysrId) (r : RegionId)
    (p q : PhysrId) (cut : ℕ) : Prop where
  key : AtKey m' r q
  offset : m'.offset q = m.offset p
  others : ∀ r' ≠ r, m'.tree r' = m.tree r'
  keeps : ∀ a ∈ m.tree r, a ≠ p → a ∈ m'.tree r ∧ m'.offset a = m.offset a
  points : ∀ a ≠ p, ∀ b, m.PointsTo a b → m'.PointsTo a b
  fresh : ∃ n i memlist, o.pages cut n i = some memlist ∧ ∀ a ∈ m'.tree r,
    a ≠ p ∧ a ∈ m.tree r ∧ m'.offset a = m.offset a ∨
      (∃ n, m'.extent a = some n ∧ Behind (m.offset p) memlist (m'.offset a) n) ∧
      ∀ c ≠ p, c ∉ L → ∀ b, m.PointsTo c b → ¬ m'.PointsTo a b

theorem resetPhysrIter_ok {key : ℕ} (hok : resetPhysrIter m r key = .ok p) :
    physrSearch m r key = some p := by
  rw [resetPhysrIter] at hok
  split at hok
  · exact absurd hok (by simp)
  · rename_i q hq
    cases hok
    exact hq

theorem search_offset {key : ℕ} (h : physrSearch m r key = some p) : m.offset p = key := by
  simpa using List.find?_some h

theorem Dropped.pointsTo (hd : Dropped m m₁ r p) (hq : q ≠ p) :
    m₁.PointsTo q b ↔ m.PointsTo q b :=
  pointsTo_of_bare (hd.physr q hq)

theorem Dropped.cloned {memlist : List MemList} {n i : ℕ} (hd : Dropped m m₁ r p)
    (hk : Kept L X W m) (hk₁ : Kept L X W m₁) (hpages : o.pages cut n i = some memlist)
    (hgrown : Grown m₁ m' r (Behind (m.offset p) memlist))
    (hq : physrSearch m' r (m.offset p) = some q) : Cloned o m m' L r p q cut where
  key := atKey_of_search hq
  offset := search_offset hq
  others r' hr' := (hgrown.others r' hr').trans (hd.others r' hr')
  keeps a ha hap := by
    have ha₁ : a ∈ m₁.tree r := by
      rw [hd.tree, (hk.trees.nodup r).mem_erase_iff]
      exact ⟨hap, ha⟩
    obtain ⟨pr, hpr, _⟩ := hk₁.trees.owned r a ha₁
    exact ⟨hgrown.keeps a ha₁, (hgrown.offset a (by simp [hpr])).2.trans (hd.offset hap)⟩
  points a ha b hb := hgrown.points a b ((hd.pointsTo ha).mpr hb)
  fresh := by
    refine ⟨n, i, memlist, hpages, fun a ha => ?_⟩
    rcases hgrown.fresh a ha with ha₁ | ⟨hnew, b, hb, hnone⟩
    · obtain ⟨pr, hpr, _⟩ := hk₁.trees.owned r a ha₁
      have hoffset := (hgrown.offset a (by simp [hpr])).2
      rw [hd.tree, (hk.trees.nodup r).mem_erase_iff] at ha₁
      exact .inl ⟨ha₁.1, ha₁.2, hoffset.trans (hd.offset ha₁.1)⟩
    · refine .inr ⟨hnew, fun c hc hcL b' hb' ha' => ?_⟩
      obtain rfl := pointsTo_unique hb ha'
      have hlive := hk₁.lists.live c b hcL ((hd.pointsTo hc).mpr hb')
      simp [hnone] at hlive

theorem mapClonePhBlock_ok {newpr : Option PhysrId} (hk : Kept L X W m) (hp : AtKey m r p)
    (hok : mapClonePhBlock o r p cut m = .ok (newpr, m')) :
    p ∉ L ∧ Kept L X W m' ∧ ∀ q, newpr = some q → Cloned o m m' L r p q cut := by
  obtain ⟨ph, hph, hok⟩ := bind_ok.mp hok
  obtain ⟨pb, _, hok⟩ := bind_ok.mp hok
  obtain ⟨_, hok⟩ := kassert_bind_ok.mp hok
  obtain ⟨m₁, hdrop, hok⟩ := bind_ok.mp hok
  obtain ⟨rest, _, hok⟩ := bind_ok.mp hok
  obtain ⟨_, hok⟩ := kassert_bind_ok.mp hok
  obtain ⟨vr, _, hok⟩ := bind_ok.mp hok
  obtain ⟨_, hok⟩ := kassert_bind_ok.mp hok
  obtain ⟨⟨reply, m₂⟩, hnew, hok⟩ := bind_ok.mp hok
  obtain ⟨hpL, hk₁, hdropped⟩ := dropPhysr_ok hk hp hdrop
  obtain ⟨hk₂, hgrown⟩ := mapNewPhysblock_ok hk₁ hnew
  refine ⟨hpL, ?_⟩
  dsimp only at hok
  split at hok
  · rename_i hreply
    obtain ⟨⟨copied, m₃⟩, hcopied, hok⟩ := bind_ok.mp hok
    dsimp only at hok
    have hcopy := copyAbs2region_ok hcopied
    split at hok
    · obtain ⟨q, hq, hok⟩ := bind_ok.mp hok
      cases pure_ok.mp hok
      refine ⟨hk₂.mapped hcopy, fun q' hq' => ?_⟩
      cases hq'
      obtain ⟨memlist, hpages, hgrown⟩ := hgrown rfl hreply
      rw [← offset_of_some (deref_ok hph)] at hgrown hq
      have hall := hgrown.trans hcopy.grown hk₂.trees (fun _ _ h => h) fun _ _ h => h
      exact hdropped.cloned hk hk₁ hpages hall (resetPhysrIter_ok hq)
    · exact absurd hok (by simp)
  · cases pure_ok.mp hok
    exact ⟨hk₂, by simp⟩

end NewBlock

end Vm
