import Cs111.Vm.SplitReturns

namespace Vm
open Kernel (Fault kassert bind_ok kassert_bind_ok pure_ok)
open Relation (ReflTransGen)
open Chain (Path)

structure Tidy (W : (ProcId → List RegionId) × Set RegionId) (m : Memory) :
    Prop extends Kept ∅ ∅ W m where
  apart : ∀ r, m.Apart r
  rooted : ∀ r, ∀ p ∈ m.tree r, ∀ b q, m.PointsTo p b → m.PointsTo q b → ∃ r', q ∈ m.tree r'

inductive Origin (m m' : Memory) (b : BlockId) (k : ℕ) : PhysrId → PhysrId → Prop
  | other {q : PhysrId} {pr : PhysRegion} {pb : PhysBlock} : m.physr q = some pr → pr.ph ≠ b →
      m.block pr.ph = some pb → m'.physr q = some pr → m'.block pr.ph = some pb →
      Origin m m' b k q q
  | front {q : PhysrId} {pr : PhysRegion} {pb : PhysBlock} : m.physr q = some pr → pr.ph = b →
      m.block pr.ph = some pb → m'.physr q = some pr →
      m'.block pr.ph = some { pb with length := k } → Origin m m' b k q q
  | back {a q : PhysrId} {pr ar : PhysRegion} {pb ab : PhysBlock} : m.physr q = some pr →
      pr.ph = b → m.block pr.ph = some pb → m'.physr a = some ar → m'.block ar.ph = some ab →
      ar.offset = pr.offset + k → ab.phys = pb.phys + k → ab.length = pb.length - k →
      Origin m m' b k a q

section Tidy
variable {o : Outcomes} {m m' : Memory} {W : (ProcId → List RegionId) × Set RegionId}
  {b nb : BlockId} {pb : PhysBlock}
  {news l done : List PhysrId} {p q a : PhysrId} {k offset length : ℕ} {pr : PhysRegion}
  {r : RegionId} {first : Option PhysrId}

theorem Tidy.listed (h : Tidy W m) (hpr : m.physr p = some pr) :
    ∃ pb l, m.block pr.ph = some pb ∧ l ≠ [] ∧ Listed m ∅ pr.ph pb l := by
  have hlive := h.lists.live p pr.ph (Set.notMem_empty p) ⟨pr, hpr, rfl⟩
  obtain ⟨pb, hpb⟩ := Option.isSome_iff_exists.mp hlive
  obtain ⟨l, hnil, hl⟩ := h.lists.listed pr.ph pb hpb
  exact ⟨pb, l, hpb, hnil, hl⟩

theorem Tidy.owner (h : Tidy W m) (hp : p ∈ m.tree r) (hpr : m.physr p = some pr) :
    pr.parent = r := by
  obtain ⟨pr', hpr', hparent⟩ := h.trees.owned r p hp
  cases hpr.symm.trans hpr'
  exact hparent

theorem Tidy.sharer {qr : PhysRegion} (h : Tidy W m) (hp : p ∈ m.tree r)
    (hpb : m.PointsTo p b) (hqb : m.PointsTo q b) (hqr : m.physr q = some qr) :
    q ∈ m.tree qr.parent := by
  obtain ⟨r', hq⟩ := h.rooted r p hp b q hpb hqb
  rwa [h.owner hq hqr]

theorem region_of_mem (hp : p ∈ m.tree r) : (m.region r).isSome := by
  by_contra hnone
  rw [Memory.tree, Option.not_isSome_iff_eq_none.mp hnone] at hp
  exact absurd hp List.not_mem_nil

theorem Tidy.walkable (h : Tidy W m) : Walkable m := by
  rintro r p hp b ⟨pr, hpr, rfl⟩
  obtain ⟨pb, l, hpb, hnil, hl⟩ := h.listed hpr
  refine ⟨pb, l, hpb, hnil, hl.path, fun a ha => ?_⟩
  obtain ⟨ar, har⟩ := hl.allocated ha
  have hroot := h.sharer hp ⟨pr, hpr, rfl⟩ ((hl.members a).mp ha).2 har
  exact ⟨ar, har, region_of_mem hroot⟩

theorem weighs_of_finite (h : Balanced m) : ∃ n, Weighs m n :=
  ⟨_, h.finite.toFinset, fun b hb => by simpa using hb, rfl⟩

theorem Tidy.cleanable (h : Tidy W m) (hnames : Names o m) : Cleanable o ∅ W m :=
  ⟨h.walkable, h.toKept.steady, hnames, weighs_of_finite h.balanced⟩

structure Doubled (m m' : Memory) (b nb : BlockId) (pb : PhysBlock) (k : ℕ) (l news : List PhysrId)
    (first : Option PhysrId) : Prop extends Parted m m' b nb pb k l l news first where
  root : ∃ r, ∃ p ∈ m.tree r, m.PointsTo p b
  copied : Path m'.nextPh first news
  length : news.length = l.length

theorem Doubled.listed' (h : Doubled m m' b nb pb k l news first) (ht : Tidy W m) :
    Listed m ∅ b pb l := by
  obtain ⟨r, p, hp, pr, hpr, rfl⟩ := h.root
  obtain ⟨pb', l', hpb', -, hl'⟩ := ht.listed hpr
  cases h.block.symm.trans hpb'
  rwa [Chain.path_unique h.path hl'.path]

theorem Doubled.rooted (h : Doubled m m' b nb pb k l news first) (ht : Tidy W m) (hq : q ∈ l) :
    ∃ qr, m.physr q = some qr ∧ qr.ph = b ∧ q ∈ m.tree qr.parent := by
  obtain ⟨qr, hqr, hph⟩ := (((h.listed' ht).members q).mp hq).2
  obtain ⟨r, p, hp, hpb⟩ := h.root
  exact ⟨qr, hqr, hph, ht.sharer hp hpb ⟨qr, hqr, hph⟩ hqr⟩

theorem Doubled.clearance (h : Doubled m m' b nb pb k l news first) (ht : Tidy W m) :
    Clearance (halved m.ticked b nb pb k) k l where
  clear q hq qr hqr a ha := by
    obtain ⟨qr', hqr', hph, hmem⟩ := h.rooted ht hq
    cases hqr'.symm.trans hqr
    have ha : a ∈ m.tree qr.parent := ha
    show m.offset a ≠ qr.offset + k
    have hoff := offset_of_some hqr'
    have hfin := finish_of_some hqr' (hph ▸ h.block)
    have hinside := h.inside
    rcases Nat.lt_trichotomy (m.offset a) (m.offset q) with hlt | he | hlt
    · omega
    · omega
    · have hapart := ht.apart _ q hmem a ha hlt
      omega
  apart := by
    refine (Chain.path_nodup h.path).pairwise_of_forall_ne fun q hq q' hq' hne => ?_
    intro qr qr' hqr hqr' hparent he
    obtain ⟨qr₁, hqr₁, -, hmem⟩ := h.rooted ht hq
    obtain ⟨qr₂, hqr₂, -, hmem'⟩ := h.rooted ht hq'
    cases hqr₁.symm.trans hqr
    cases hqr₂.symm.trans hqr'
    rw [← hparent] at hmem'
    refine hne ((ht.trees.ordered _ (Set.notMem_empty _)).unique hmem' hmem ?_)
    rw [offset_of_some hqr₁, offset_of_some hqr₂, he]

theorem Doubled.origin (h : Doubled m m' b nb pb k l news first) (ht : Tidy W m)
    (ht' : Trees ∅ m') (ha : a ∈ m'.tree r) : ∃ q ∈ m.tree r, Origin m m' b k a q := by
  rcases h.walk.sown.only r a ha with ha' | ha'
  · have ha' : a ∈ m.tree r := ha'
    obtain ⟨pr, hpr, -⟩ := ht.trees.owned r a ha'
    obtain ⟨pb', -, hpb', -⟩ := ht.listed hpr
    have hsame : m'.physr a = some pr := (h.old (by simp [hpr])).trans hpr
    refine ⟨a, ha', ?_⟩
    by_cases hb : pr.ph = b
    · have hfront := h.front
      rw [← hb] at hfront
      have hblock := h.block
      rw [← hb] at hblock
      exact .front hpr hb hblock hsame hfront
    · have hnb : pr.ph ≠ nb := fun he => by
        rw [he, h.fresh] at hpb'
        cases hpb'
      exact .other hpr hb hpb' hsame ((h.others hb hnb).trans hpb')
  · obtain ⟨q, hq, hcopy⟩ := h.walk.sown.copies a ha'
    obtain ⟨qr, ar, hqr, har, hph, hparent, hoffset⟩ := hcopy.offset
    obtain ⟨qr', hqr', hb, hmem⟩ := h.rooted ht hq
    cases hqr'.symm.trans hqr
    obtain ⟨ar', har', howned⟩ := ht'.owned r a ha
    cases har.symm.trans har'
    have hblock := h.block
    rw [← hb] at hblock
    refine ⟨q, by rwa [← howned, hparent], ?_⟩
    exact .back hqr' hb hblock har (hph ▸ h.walk.newpb) hoffset rfl rfl

theorem Origin.within (h : Origin m m' b k a q) (hk : ∀ pb, m.block b = some pb → k ≤ pb.length) :
    m.offset q ≤ m'.offset a ∧ m'.finish a ≤ m.finish q := by
  cases h with
  | other hpr hb hpb hpr' hpb' =>
    rw [offset_of_some hpr, offset_of_some hpr', finish_of_some hpr hpb, finish_of_some hpr' hpb']
    exact ⟨le_rfl, le_rfl⟩
  | front hpr hb hpb hpr' hpb' =>
    have hle := hk _ (hb ▸ hpb)
    rw [offset_of_some hpr, offset_of_some hpr', finish_of_some hpr hpb, finish_of_some hpr' hpb']
    dsimp only
    omega
  | back hpr hb hpb har hab hoffset hphys hlength =>
    have hle := hk _ (hb ▸ hpb)
    rw [offset_of_some hpr, offset_of_some har, finish_of_some hpr hpb, finish_of_some har hab]
    omega

theorem Origin.halves {c : PhysrId} (ha : Origin m m' b k a q) (hc : Origin m m' b k c q)
    (hlt : m'.offset a < m'.offset c) : m'.finish a ≤ m'.offset c := by
  cases ha with
  | other hpr hb hpb hpr' hpb' =>
    cases hc with
    | other => exact absurd hlt (lt_irrefl _)
    | front hpr₁ hb₁ =>
      cases hpr.symm.trans hpr₁
      exact absurd hb₁ hb
    | back hpr₁ hb₁ =>
      cases hpr.symm.trans hpr₁
      exact absurd hb₁ hb
  | front hpr hb hpb hpr' hpb' =>
    cases hc with
    | other => exact absurd hlt (lt_irrefl _)
    | front => exact absurd hlt (lt_irrefl _)
    | back hpr₁ hb₁ hpb₁ hcr hcb hoffset =>
      cases hpr.symm.trans hpr₁
      rw [finish_of_some hpr' hpb', offset_of_some hcr, hoffset]
  | back hpr hb hpb har hab hoffset =>
    rw [offset_of_some har] at hlt
    cases hc with
    | other hpr₁ hb₁ =>
      cases hpr.symm.trans hpr₁
      exact absurd hb hb₁
    | front hpr₁ hb₁ hpb₁ hpr' =>
      cases hpr.symm.trans hpr₁
      rw [offset_of_some hpr'] at hlt
      omega
    | back hpr₁ hb₁ hpb₁ hcr hcb hoffset₁ =>
      cases hpr.symm.trans hpr₁
      rw [offset_of_some hcr] at hlt
      omega

theorem Doubled.apart (h : Doubled m m' b nb pb k l news first) (ht : Tidy W m)
    (ht' : Trees ∅ m') (r : RegionId) : m'.Apart r := by
  intro a ha c hc hlt
  obtain ⟨q, hq, haq⟩ := h.origin ht ht' ha
  obtain ⟨q', hq', hcq⟩ := h.origin ht ht' hc
  have hk : ∀ pb', m.block b = some pb' → k ≤ pb'.length := fun pb' hpb' => by
    cases h.block.symm.trans hpb'
    exact h.inside.2.le
  obtain ⟨hstart, hstop⟩ := haq.within hk
  obtain ⟨hstart', hstop'⟩ := hcq.within hk
  have hself : m'.offset c ≤ m'.finish c := Nat.le_add_right ..
  rcases Nat.lt_trichotomy (m.offset q) (m.offset q') with hqq | hqq | hqq
  · have hapart := ht.apart r q hq q' hq' hqq
    omega
  · obtain rfl := (ht.trees.ordered r (Set.notMem_empty r)).unique hq' hq hqq
    exact haq.halves hcq hlt
  · have hapart := ht.apart r q' hq' q hq hqq
    omega

theorem Doubled.placed (h : Doubled m m' b nb pb k l news first) (ht : Tidy W m) (ha : a ∈ news) :
    ∃ r, a ∈ m'.tree r :=
  h.walk.sown.placed (h.clearance ht) a ha

theorem Doubled.pointsTo (h : Doubled m m' b nb pb k l news first) {c : BlockId} (hc : c ≠ nb)
    (hp : m'.PointsTo p c) : m.PointsTo p c := by
  obtain ⟨pr, hpr, hph⟩ := hp
  rcases h.walk.only p (by simp [hpr]) with hold | hnew
  · exact ⟨pr, (h.old hold).symm.trans hpr, hph⟩
  · exact absurd (pointsTo_unique ⟨pr, hpr, hph⟩ (h.walk.fresh p hnew).2) hc

theorem Doubled.pointsNew (h : Doubled m m' b nb pb k l news first) (ht : Tidy W m)
    (hp : m'.PointsTo p nb) : p ∈ news := by
  obtain ⟨pr, hpr, hph⟩ := hp
  refine (h.walk.only p (by simp [hpr])).resolve_left fun hold => ?_
  have hlive := ht.lists.live p nb (Set.notMem_empty p) ⟨pr, (h.old hold).symm.trans hpr, hph⟩
  simp [h.fresh] at hlive

theorem Doubled.roots (h : Doubled m m' b nb pb k l news first) (ht : Tidy W m) :
    ∀ r, ∀ p ∈ m'.tree r, ∀ c q, m'.PointsTo p c → m'.PointsTo q c → ∃ r', q ∈ m'.tree r' := by
  intro r p hp c q hpc hqc
  by_cases hc : c = nb
  · subst hc
    exact h.placed ht (h.pointsNew ht hqc)
  · have hold : p ∈ m.tree r := (h.walk.sown.only r p hp).resolve_right fun hnew =>
      hc (pointsTo_unique hpc (h.walk.fresh p hnew).2)
    obtain ⟨r', hq⟩ := ht.rooted r p hold c q (h.pointsTo hc hpc) (h.pointsTo hc hqc)
    exact ⟨r', h.walk.sown.keeps r' q hq⟩

theorem Origin.maps {x f : ℕ} (h : Origin m m' b k a q) (hq : q ∈ m.tree r)
    (hk : ∀ pb, m.block b = some pb → k ≤ pb.length) {ar : PhysRegion} {ab : PhysBlock}
    (har : m'.physr a = some ar) (hab : m'.block ar.ph = some ab) (hle : ar.offset ≤ x)
    (hlt : x < ar.offset + ab.length) (hf : f = ab.phys + (x - ar.offset)) : m.Maps r x f := by
  cases h with
  | other hpr hb hpb hpr' hpb' =>
    cases hpr'.symm.trans har
    cases hpb'.symm.trans hab
    exact ⟨q, hq, _, _, hpr, hpb, hle, hlt, hf⟩
  | front hpr hb hpb hpr' hpb' =>
    cases hpr'.symm.trans har
    cases hpb'.symm.trans hab
    have hshort := hk _ (hb ▸ hpb)
    exact ⟨q, hq, _, _, hpr, hpb, hle, by dsimp only at hlt; omega, hf⟩
  | back hpr hb hpb har' hab' hoffset hphys hlength =>
    cases har'.symm.trans har
    cases hab'.symm.trans hab
    have hshort := hk _ (hb ▸ hpb)
    exact ⟨q, hq, _, _, hpr, hpb, by omega, by omega, by omega⟩

theorem Doubled.maps (h : Doubled m m' b nb pb k l news first) (ht : Tidy W m)
    (ht' : Trees ∅ m') (r : RegionId) (x f : ℕ) : m'.Maps r x f ↔ m.Maps r x f := by
  have hk : ∀ pb', m.block b = some pb' → k ≤ pb'.length := fun pb' hpb' => by
    cases h.block.symm.trans hpb'
    exact h.inside.2.le
  constructor
  · rintro ⟨a, ha, ar, ab, har, hab, hle, hlt, hf⟩
    obtain ⟨q, hq, haq⟩ := h.origin ht ht' ha
    exact haq.maps hq hk har hab hle hlt hf
  · rintro ⟨q, hq, qr, qb, hqr, hqb, hle, hlt, hf⟩
    have hqr' : m'.physr q = some qr := (h.old (by simp [hqr])).trans hqr
    have hq' : q ∈ m'.tree r := h.walk.sown.keeps r q hq
    by_cases hb : qr.ph = b
    · rw [hb, h.block] at hqb
      cases hqb
      by_cases hx : x < qr.offset + k
      · exact ⟨q, hq', qr, { pb with length := k }, hqr', hb ▸ h.front, hle, hx, hf⟩
      · have hql : q ∈ l := ((h.listed' ht).members q).mpr ⟨Set.notMem_empty q, qr, hqr, hb⟩
        obtain ⟨n, hn, hcopy⟩ := h.walk.sown.every q hql
        obtain ⟨qr₁, nr, hqr₁, hnr, hph, hparent, hoffset⟩ := hcopy.offset
        have hqr₁ : m.physr q = some qr₁ := hqr₁
        cases hqr.symm.trans hqr₁
        obtain ⟨r', hn'⟩ := h.placed ht hn
        obtain ⟨nr', hnr', howned⟩ := ht'.owned r' n hn'
        cases hnr.symm.trans hnr'
        have hr : r' = r := by rw [← howned, hparent, ht.owner hq hqr]
        have hinside := h.inside
        refine ⟨n, hr ▸ hn', nr, _, hnr, hph ▸ h.walk.newpb, by omega, ?_, ?_⟩
        · show x < nr.offset + (backOf pb k).length
          simp only [backOf]
          omega
        · show f = (backOf pb k).phys + (x - nr.offset)
          simp only [backOf]
          omega
    · have hnb : qr.ph ≠ nb := fun he => by
        rw [he, h.fresh] at hqb
        cases hqb
      exact ⟨q, hq', qr, qb, hqr', (h.others hb hnb).trans hqb, hle, hlt, hf⟩

theorem Doubled.lists (h : Doubled m m' b nb pb k l news first) (ht : Tidy W m) : Lists ∅ m' := by
  have hnews : news ≠ [] := by
    rintro rfl
    exact h.nonempty (List.eq_nil_of_length_eq_zero h.length.symm)
  have hsplit : Split (halved m.ticked b nb pb k) m' nb (backOf pb k) news first :=
    ⟨h.walk.toMade, h.walk.blocks, h.walk.newpb, h.copied⟩
  refine hsplit.lists ht.lists rfl h.fresh hnews ?_ fun c hc => ?_
  · rw [h.length]
    exact (h.listed' ht).count
  · by_cases hcb : c = b
    · subst hcb
      simp [halved, Memory.setBlock, h.block]
    · simp [halved, Memory.setBlock, Memory.ticked, hcb, hc]

theorem Doubled.tidy (h : Doubled m m' b nb pb k l news first) (ht : Tidy W m)
    (hst : Steady ∅ W m') : Tidy W m' :=
  ⟨⟨h.lists ht, hst.trees, hst.balanced, hst.roll⟩, h.apart ht hst.trees, h.roots ht⟩

def SlabsGiven (o : Outcomes) (m : Memory) : Prop :=
  ∀ t ≥ m.tick, (o.slab .splitBlock t).isSome ∧ (o.slab .splitRegion t).isSome

theorem Cleaning.tidy (h : Cleaning o r offset length m m') (ht : Tidy W m) (hnames : Names o m)
    (hgiven : SlabsGiven o m) : Tidy W m' ∧ Names o m' ∧ SlabsGiven o m' ∧
      ∀ r x f, m'.Maps r x f ↔ m.Maps r x f := by
  obtain ⟨hclean, hdivided⟩ := cleaning_divides (ht.cleanable hnames) h
  rcases hdivided with ⟨hnone, -⟩ | ⟨b, nb, pb, k, l, done, news, first, -, hparted, hroot, htick,
    hend⟩
  · have hblock := (hgiven m.tick le_rfl).1
    simp [hnone] at hblock
  · rcases hend with ⟨rfl, hpath, hlen⟩ | ⟨t, hle, hnone⟩
    · have hdoubled : Doubled m m' b nb pb k done news first := ⟨hparted, hroot, hpath, hlen⟩
      exact ⟨hdoubled.tidy ht hclean.steady, hclean.names,
        fun t hle => hgiven t (htick.le.trans hle), hdoubled.maps ht hclean.steady.trees⟩
    · have hregion := (hgiven t hle).2
      simp [hnone] at hregion

theorem Cleaning.tidy_run (h : ReflTransGen (Cleaning o r offset length) m m') (ht : Tidy W m)
    (hnames : Names o m) (hgiven : SlabsGiven o m) : ∀ r x f, m'.Maps r x f ↔ m.Maps r x f := by
  have hrun : Tidy W m' ∧ Names o m' ∧ SlabsGiven o m' ∧
      ∀ r x f, m'.Maps r x f ↔ m.Maps r x f := by
    induction h with
    | refl => exact ⟨ht, hnames, hgiven, fun _ _ _ => Iff.rfl⟩
    | tail _ hstep ih =>
      obtain ⟨ht₁, hnames₁, hgiven₁, hmaps₁⟩ := ih
      obtain ⟨ht', hnames', hgiven', hmaps'⟩ := hstep.tidy ht₁ hnames₁ hgiven₁
      exact ⟨ht', hnames', hgiven', fun r x f => (hmaps' r x f).trans (hmaps₁ r x f)⟩
  exact hrun.2.2.2

def CleansUp (o : Outcomes) (r : RegionId) (offset length : ℕ) (m : Memory) : Prop :=
  ∃ m' n, (∀ j ≥ n, cleanPhysRegions (o.withFuel j) r offset length m = .ok m') ∧
    (SlabsGiven o m → ¬ Crossing m' r offset length ∧ ∀ r x f, m'.Maps r x f ↔ m.Maps r x f)

theorem cleanPhysRegions_iff (ht : Tidy W m) (hnames : Names o m) :
    CleansUp o r offset length m ↔ AlwaysSplits o r offset length m := by
  have hclean := ht.cleanable hnames
  constructor
  · rintro ⟨m', n, hrun, -⟩
    exact (cleanPhysRegions_returns_iff hclean).mp ⟨m', n, hrun⟩
  · intro hsplits
    obtain ⟨m', n, hrun, hreach, hdone⟩ := cleanLoop_returns hclean hsplits
    exact ⟨m', n, fun j hj => hrun j hj j hj,
      fun hgiven => ⟨hdone, Cleaning.tidy_run hreach ht hnames hgiven⟩⟩

end Tidy

section Sample

def bareRegion (n : ℕ) : Memory :=
  (({ emptyMemory with tick := 1 } : Memory).setVmRegions 0 [0]).setRegion 0
    ⟨⟨0x1000, BitVec.ofNat 32 n, VR_ANON ||| VR_WRITABLE, VRT_NONE, []⟩, 0⟩

def oneBlock (n : ℕ) : Memory :=
  (makeBlock (sampleOutcomes (fun _ => true) 0 0) 0 ⟨0x10000, n⟩ 0 0 0 (bareRegion n)).setRegion 0
    ⟨⟨0x1000, BitVec.ofNat 32 n, VR_ANON ||| VR_WRITABLE, VRT_NONE, [0]⟩, 0⟩

theorem bareRegion_tree (n : ℕ) (r : RegionId) : (bareRegion n).tree r = [] := by
  rw [bareRegion, tree_setRegion]
  split <;> rfl

theorem kept_bareRegion (n : ℕ) : Kept ∅ ∅ (bareRegion n).roll (bareRegion n) := by
  refine ⟨⟨?_, ?_, by simp⟩, ⟨fun r p hp => ?_, fun r => ?_, fun r _ => ?_⟩, ⟨?_, ?_, ?_⟩, rfl⟩
  · simp [bareRegion, emptyMemory, Memory.setRegion, Memory.setVmRegions]
  · simp [bareRegion, emptyMemory, Memory.setRegion, Memory.setVmRegions, Memory.PointsTo]
  · simp [bareRegion_tree] at hp
  · simp [bareRegion_tree]
  · simp [bareRegion_tree, ByOffset]
  · simp [bareRegion, emptyMemory, Memory.setRegion, Memory.setVmRegions]
  · simp [bareRegion, emptyMemory, Memory.setRegion, Memory.setVmRegions, Memory.holders]
  · simp [bareRegion, emptyMemory, Memory.setRegion, Memory.setVmRegions]

theorem kept_oneBlock (n : ℕ) : Kept ∅ ∅ (bareRegion n).roll (oneBlock n) := by
  have hmade : Kept ∅ ∅ (bareRegion n).roll
      (makeBlock (sampleOutcomes (fun _ => true) 0 0) 0 ⟨0x10000, n⟩ 0 0 0 (bareRegion n)) :=
    (kept_bareRegion n).makeBlock rfl rfl
  exact hmade.inserted (r := 0) (p := 0) rfl rfl rfl (by
    show 0 ∉ (bareRegion n).tree 0
    simp [bareRegion_tree])

theorem oneBlock_tree {n : ℕ} {r : RegionId} {p : PhysrId} (hp : p ∈ (oneBlock n).tree r) :
    p = 0 := by
  rw [oneBlock, tree_setRegion] at hp
  split at hp
  · exact List.mem_singleton.mp hp
  · have hp : p ∈ (bareRegion n).tree r := hp
    simp [bareRegion_tree] at hp

theorem tidy_oneBlock (n : ℕ) : Tidy (bareRegion n).roll (oneBlock n) where
  toKept := kept_oneBlock n
  apart r p hp q hq hlt := by
    obtain rfl := oneBlock_tree hp
    obtain rfl := oneBlock_tree hq
    exact absurd hlt (lt_irrefl _)
  rooted r p hp b q hpb hqb := by
    obtain ⟨pr, hpr, -⟩ := hqb
    by_cases hq : q = 0
    · subst hq
      exact ⟨0, List.mem_singleton_self 0⟩
    · have hnone : (oneBlock n).physr q = none := Function.update_of_ne hq ..
      rw [hnone] at hpr
      cases hpr

theorem names_oneBlock (slab : SlabSite → Bool) (n : ℕ) :
    Names (sampleOutcomes slab 0 0) (oneBlock n) := by
  have hid : ∀ site t a, (sampleOutcomes slab 0 0).slab site t = some a → a = t := by
    intro site t a ha
    rw [sampleOutcomes, Option.ite_none_right_eq_some] at ha
    exact (Option.some.inj ha.2).symm
  refine ⟨fun site t p _ ht hp => ?_, fun site t b _ ht hb => ?_,
    fun site site' t t' p _ _ _ _ hp hp' => ?_, fun site site' t t' b _ _ _ _ hb hb' => ?_⟩
  · obtain rfl := hid site t p hp
    have hp0 : p ≠ 0 := Nat.ne_of_gt ht
    exact Function.update_of_ne hp0 ..
  · obtain rfl := hid site t b hb
    have hb0 : b ≠ 0 := Nat.ne_of_gt ht
    exact Function.update_of_ne hb0 ..
  · exact (hid site t p hp).symm.trans (hid site' t' p hp')
  · exact (hid site t b hb).symm.trans (hid site' t' b hb')

theorem cleanPhysRegions_splits :
    CleansUp (sampleOutcomes (fun _ => true) 0 0) 0 0x1000 0x1000 (oneBlock 0x2000) :=
  (cleanPhysRegions_iff (tidy_oneBlock 0x2000) (names_oneBlock _ _)).mpr
    fun m' _ _ => ⟨m'.tick, le_rfl, rfl⟩

def noSplits : Outcomes := sampleOutcomes (fun site => site != .splitBlock) 0 0

theorem cleanPhysRegions_hangs :
    (∀ j, cleanPhysRegions (noSplits.withFuel j) 0 0x1000 0x1000 (oneBlock 0x2000) =
      .error .hang) ∧ ¬ CleansUp noSplits 0 0x1000 0x1000 (oneBlock 0x2000) := by
  have hclean :=
    (tidy_oneBlock 0x2000).cleanable (names_oneBlock (fun site => site != .splitBlock) _)
  have hcross : Crossing (oneBlock 0x2000) 0 0x1000 0x1000 :=
    ⟨0, List.mem_singleton_self 0, .inl (by decide)⟩
  have hhangs : ∀ j, cleanPhysRegions (noSplits.withFuel j) 0 0x1000 0x1000 (oneBlock 0x2000) =
      .error .hang := fun j => cleanLoop_hangs hclean hcross fun _ _ => rfl
  refine ⟨hhangs, ?_⟩
  rintro ⟨m', n, hrun, -⟩
  cases (hrun n le_rfl).symm.trans (hhangs n)

end Sample

end Vm
