import Cs111.Vm.PhysMaps

namespace Vm
open Kernel (Fault kassert bind_ok kassert_bind_ok pure_ok)
open Chain (Path)

section Split
variable {o : Outcomes} {m m' base : Memory} {L : Set PhysrId} {X : Set RegionId}
  {W : (ProcId → List RegionId) × Set RegionId} {b nb : BlockId} {pb pbn : PhysBlock}
  {news l done rest : List PhysrId} {prev first at_ : Option PhysrId} {p q n last : PhysrId}
  {fuel point : ℕ} {reply : VmReply}

inductive Linked (m : Memory) : Option PhysrId → Option PhysrId → List PhysrId → Prop
  | start (f : Option PhysrId) : Linked m none f []
  | more (f : Option PhysrId) (front : List PhysrId) (i : PhysrId) :
      Path (Function.update m.nextPh i none) f (front ++ [i]) → Linked m (some i) f (front ++ [i])

structure Made (base m : Memory) (nb : BlockId) (news : List PhysrId) : Prop where
  old : ∀ q, (base.physr q).isSome → m.physr q = base.physr q
  fresh : ∀ a ∈ news, base.physr a = none ∧ m.PointsTo a nb
  only : ∀ q, (m.physr q).isSome → (base.physr q).isSome ∨ q ∈ news

structure Splitting (base m : Memory) (nb : BlockId) (pbn : PhysBlock) (news : List PhysrId)
    (prev first : Option PhysrId) : Prop extends Made base m nb news where
  blocks : ∀ b ≠ nb, m.block b = base.block b
  newpb : m.block nb = some { pbn with firstregion := first }
  linked : Linked m prev first news

structure Steady (X : Set RegionId) (W : (ProcId → List RegionId) × Set RegionId) (m : Memory) :
    Prop where
  trees : Trees X m
  balanced : Balanced m
  roll : m.roll = W

theorem Kept.steady (hk : Kept L X W m) : Steady X W m := ⟨hk.trees, hk.balanced, hk.roll⟩

theorem Steady.ticked (hst : Steady X W m) : Steady X W m.ticked where
  trees := hst.trees.congr (fun _ => rfl) fun _ => rfl
  balanced := hst.balanced.congr (fun _ => rfl) rfl rfl rfl
  roll := hst.roll

theorem Steady.setNext {pr : PhysRegion} {x : Option PhysrId} (hst : Steady X W m)
    (hpr : m.physr p = some pr) : Steady X W (m.setPhysr p { pr with nextPhList := x }) where
  trees := hst.trees.congr (fun _ => rfl) fun q => by
    by_cases hq : q = p
    · subst hq
      simp [Memory.setPhysr, PhysRegion.bare, hpr]
    · simp [Memory.setPhysr, hq]
  balanced := hst.balanced.congr (fun _ => rfl) rfl rfl rfl
  roll := hst.roll

theorem Steady.setFirst {x : Option PhysrId} (hst : Steady X W m) (hb : m.block b = some pb) :
    Steady X W (m.setBlock b { pb with firstregion := x }) where
  trees := hst.trees.congr (fun _ => rfl) fun _ => rfl
  balanced := hst.balanced.congr (fun b' => by
    by_cases hbb : b' = b
    · subst hbb
      simp [Memory.setBlock, PhysBlock.mem, hb]
    · simp [Memory.setBlock, hbb]) rfl rfl rfl
  roll := hst.roll

theorem Steady.add {pr : PhysRegion} (hst : Steady X W m) (hn : m.physr n = none)
    (hok : physrInsert (m.setPhysr n pr) pr.parent n = .ok m') : Steady X W m' := by
  have htrees : Trees X (m.setPhysr n pr) :=
    hst.trees.outside (fun _ => rfl) (hst.trees.notMem hn) fun q hq => by simp [Memory.setPhysr, hq]
  have htrees' := htrees.insert hok (Function.update_self ..) rfl (hst.trees.notMem hn pr.parent)
  obtain ⟨vr, hvr, rfl⟩ := physrInsert_ok hok
  exact ⟨htrees', hst.balanced.congr (fun _ => rfl) rfl rfl rfl,
    (roll_setRegion (m := m.setPhysr n pr) hvr).trans hst.roll⟩

structure Extended (m m' : Memory) (nb : BlockId) (n : PhysrId) : Prop where
  fresh : m.physr n = none
  points : m'.PointsTo n nb
  others : ∀ q ≠ n, m'.physr q = m.physr q
  block : m'.block = m.block

theorem Extended.nextPh (he : Extended m m' nb n) (hq : q ≠ n) : m'.nextPh q = m.nextPh q := by
  rw [Memory.nextPh, Memory.nextPh, he.others q hq]

theorem Made.extend {m₁ : Memory} (hmade : Made base m nb news) (he : Extended m m₁ nb n) :
    Made base m₁ nb (news ++ [n]) := by
  have hbase : base.physr n = none := by
    by_contra hsome
    have hsame := hmade.old n (Option.isSome_iff_ne_none.mpr hsome)
    exact hsome (hsame.symm.trans he.fresh)
  refine ⟨fun q hq => ?_, fun a ha => ?_, fun q hq => ?_⟩
  · rw [he.others q, hmade.old q hq]
    rintro rfl
    simp [hbase] at hq
  · rcases List.mem_append.mp ha with ha | ha
    · obtain ⟨hnone, pr, hpr, hph⟩ := hmade.fresh a ha
      refine ⟨hnone, pr, ?_, hph⟩
      rw [he.others a, hpr]
      rintro rfl
      simp [he.fresh] at hpr
    · obtain rfl := List.mem_singleton.mp ha
      exact ⟨hbase, he.points⟩
  · by_cases hqn : q = n
    · exact .inr (by simp [hqn])
    · rw [he.others q hqn] at hq
      exact (hmade.only q hq).imp_right fun hnew => List.mem_append_left [n] hnew

theorem Made.setNext {pr : PhysRegion} {i : PhysrId} {x : Option PhysrId}
    (hmade : Made base m nb news) (hi : i ∈ news) (hpr : m.physr i = some pr) :
    Made base (m.setPhysr i { pr with nextPhList := x }) nb news := by
  refine ⟨fun q hq => ?_, fun a ha => ⟨(hmade.fresh a ha).1, ?_⟩, fun q hq => ?_⟩
  · have hqi : q ≠ i := by
      rintro rfl
      simp [(hmade.fresh q hi).1] at hq
    exact (Function.update_of_ne hqi ..).trans (hmade.old q hq)
  · rw [pointsTo_setPhysr]
    obtain ⟨pr', hpr', hph⟩ := (hmade.fresh a ha).2
    by_cases hai : a = i
    · subst hai
      rw [hpr] at hpr'
      cases hpr'
      exact .inl ⟨rfl, hph⟩
    · exact .inr ⟨hai, pr', hpr', hph⟩
  · refine hmade.only q ?_
    by_cases hqi : q = i
    · subst hqi
      simp [hpr]
    · simpa [Memory.setPhysr, hqi] using hq

theorem Splitting.start {m₁ : Memory} {x : Option PhysrId}
    (hsp : Splitting base m nb pbn [] prev x) (he : Extended m m₁ nb n) :
    Splitting base (m₁.setBlock nb { pbn with firstregion := some n }) nb pbn [n] (some n)
      (some n) := by
  obtain ⟨hold, hfresh, honly⟩ := hsp.toMade.extend he
  refine ⟨⟨hold, hfresh, honly⟩, fun b' hb' => ?_, Function.update_self .., ?_⟩
  · refine (Function.update_of_ne hb' ..).trans ?_
    rw [he.block]
    exact hsp.blocks b' hb'
  · exact .more _ [] n ⟨rfl, Function.update_self ..⟩

theorem Splitting.more {m₁ : Memory} {pr : PhysRegion} {i : PhysrId}
    (hsp : Splitting base m nb pbn news (some i) first) (he : Extended m m₁ nb n)
    (hpr : m₁.physr i = some pr) :
    Splitting base (m₁.setPhysr i { pr with nextPhList := some n }) nb pbn (news ++ [n]) (some n)
      first := by
  have hmade := hsp.toMade.extend he
  have hblock := he.block
  cases hsp.linked with
  | more _ front _ hpath =>
    have hnmem : n ∉ front ++ [i] := by
      intro hmem
      obtain ⟨_, pr', hpr', _⟩ := hsp.fresh n hmem
      simp [he.fresh] at hpr'
    have hin : i ≠ n := fun h => hnmem (h ▸ by simp)
    refine ⟨hmade.setNext (by simp) hpr, fun b' hb' => ?_, ?_, ?_⟩
    · change m₁.block b' = _
      rw [hblock]
      exact hsp.blocks b' hb'
    · change m₁.block nb = _
      rw [hblock]
      exact hsp.newpb
    · refine .more _ (front ++ [i]) n ?_
      refine Chain.path_extend hpath (fun k hk => ?_) ?_ (Function.update_self ..)
      · have hki : k ≠ i := by
          rintro rfl
          have hnodup := Chain.path_nodup hpath
          exact (List.nodup_append.mp hnodup).2.2 k hk k (by simp) rfl
        have hkn : k ≠ n := by
          rintro rfl
          exact hnmem (List.mem_append_left [i] hk)
        rw [Function.update_of_ne hkn, nextPh_setPhysr, Function.update_of_ne hki, he.nextPh hkn]
      · rw [Function.update_of_ne hin, nextPh_setPhysr, Function.update_self]

structure Split (base m : Memory) (nb : BlockId) (pbn : PhysBlock) (news : List PhysrId)
    (first : Option PhysrId) : Prop extends Made base m nb news where
  blocks : ∀ b ≠ nb, m.block b = base.block b
  newpb : m.block nb = some { pbn with firstregion := first }
  path : Path m.nextPh first news

theorem Splitting.stop {pr : PhysRegion} {i : PhysrId}
    (hsp : Splitting base m nb pbn news (some i) first) (hpr : m.physr i = some pr) :
    Split base (m.setPhysr i { pr with nextPhList := none }) nb pbn news first := by
  cases hsp.linked with
  | more _ front _ hpath =>
    refine ⟨hsp.toMade.setNext (by simp) hpr, hsp.blocks, hsp.newpb, ?_⟩
    rw [nextPh_setPhysr]
    exact hpath

theorem splitList_ok (hs : Supplied o) (hst : Steady X W m)
    (hsp : Splitting base m nb pbn news prev first) (hb : base.block b = some pb) (hbn : b ≠ nb)
    (hl : Path base.nextPh pb.firstregion (done ++ rest)) (hat : Path base.nextPh at_ rest)
    (hall : ∀ a ∈ rest, (base.physr a).isSome) (hlen : news.length = done.length)
    (hok : splitList o b nb fuel at_ prev m = .ok (reply, m')) :
    ∃ news first, news.length = (done ++ rest).length ∧ Split base m' nb pbn news first ∧
      Steady X W m' := by
  induction fuel generalizing at_ prev m news first done rest with
  | zero => exact absurd hok (by simp [splitList])
  | succ fuel ih =>
    cases rest with
    | nil =>
      obtain rfl : at_ = none := hat
      obtain ⟨i, hi, hok⟩ := bind_ok.mp hok
      obtain ⟨pr, hpr, hok⟩ := bind_ok.mp hok
      cases pure_ok.mp hok
      have hpr := deref_ok hpr
      obtain rfl := deref_ok hi
      exact ⟨news, first, by simpa using hlen, hsp.stop hpr, hst.setNext hpr⟩
    | cons q rest =>
      obtain ⟨rfl, hrest⟩ := hat
      obtain ⟨⟨newpr, m₁⟩, hslab, hok⟩ := bind_ok.mp hok
      obtain ⟨rfl, hfree, hfail⟩ := slaballoc_ok hslab
      cases newpr with
      | none =>
        have hgiven := hs.splits m.tick
        simp [hfail rfl] at hgiven
      | some n =>
        obtain ⟨qr, hqr, hok⟩ := bind_ok.mp hok
        obtain ⟨pb₁, hpb₁, hok⟩ := bind_ok.mp hok
        obtain ⟨m₂, hinsert, hok⟩ := bind_ok.mp hok
        have hqr : base.physr q = some qr :=
          (hsp.old q (hall q List.mem_cons_self)).symm.trans (deref_ok hqr)
        have hpb₁ : m.block b = some pb₁ := deref_ok hpb₁
        obtain rfl : pb = pb₁ := by
          rw [hsp.blocks b hbn, hb] at hpb₁
          exact Option.some.inj hpb₁
        rw [nextPh_of_some hqr] at hrest
        have hst₂ := hst.ticked.add (hfree n rfl) hinsert
        have he : Extended m m₂ nb n := by
          obtain ⟨vr, _, rfl⟩ := physrInsert_ok hinsert
          exact ⟨hfree n rfl, ⟨_, Function.update_self .., rfl⟩,
            fun q' hq' => Function.update_of_ne hq' .., rfl⟩
        have hrest' := fun a ha => hall a (List.mem_cons_of_mem q ha)
        rw [show done ++ q :: rest = done ++ [q] ++ rest by simp] at hl ⊢
        split at hok
        · rename_i hfirst
          obtain ⟨newpb, hnewpb, hok⟩ := bind_ok.mp hok
          obtain rfl : done = [] := by
            cases done with
            | nil => rfl
            | cons a done =>
              have hnodup := Chain.path_nodup hl
              obtain rfl : a = q := Option.some.inj (hl.1.symm.trans hfirst)
              exact absurd hnodup (by simp)
          obtain rfl : news = [] := List.eq_nil_of_length_eq_zero hlen
          have hnewpb := deref_ok hnewpb
          have hsame : { newpb with firstregion := some n } = { pbn with firstregion := some n } := by
            rw [he.block, hsp.newpb] at hnewpb
            cases hnewpb
            rfl
          have hst₃ := hst₂.setFirst (x := some n) hnewpb
          rw [hsame] at hok hst₃
          exact ih hst₃ (hsp.start he) hl hrest hrest' rfl hok
        · obtain ⟨i, hi, hlink⟩ := bind_ok.mp hok
          obtain ⟨pr, hpr, hlink⟩ := bind_ok.mp hlink
          clear hok
          have hpr := deref_ok hpr
          obtain rfl := deref_ok hi
          exact ih (hst₂.setNext hpr) (hsp.more he hpr) hl hrest hrest' (by simp [hlen]) hlink

theorem Split.lists (hs : Split base m' nb pbn news first) (hl : Lists L m)
    (hphysr : base.physr = m.physr) (hnb : m.block nb = none) (hnews : news ≠ [])
    (hcount : pbn.refcount = BitVec.ofNat 8 news.length)
    (hblock : ∀ b ≠ nb, (base.block b).map (fun pb => (pb.refcount, pb.firstregion)) =
      (m.block b).map fun pb => (pb.refcount, pb.firstregion)) : Lists L m' := by
  have hold : ∀ q, (m.physr q).isSome → m'.physr q = m.physr q := fun q hq => by
    rw [← hphysr] at hq ⊢
    exact hs.old q hq
  have hpoints : ∀ q c, c ≠ nb → (m'.PointsTo q c ↔ m.PointsTo q c) := fun q c hc => by
    constructor
    · rintro ⟨pr, hpr, hph⟩
      rcases hs.only q (by simp [hpr]) with hq | hq
      · rw [hphysr] at hq
        exact ⟨pr, (hold q hq).symm.trans hpr, hph⟩
      · exact absurd (pointsTo_unique ⟨pr, hpr, hph⟩ (hs.fresh q hq).2) hc
    · rintro ⟨pr, hpr, hph⟩
      exact ⟨pr, (hold q (by simp [hpr])).trans hpr, hph⟩
  refine ⟨fun c pc hc => ?_, fun q c hq hqc => ?_, fun q hq => ?_⟩
  · by_cases hcn : c = nb
    · subst hcn
      obtain rfl : { pbn with firstregion := first } = pc := by
        rw [hs.newpb] at hc
        exact Option.some.inj hc
      refine ⟨news, hnews, hs.path, fun q => ⟨fun hq => ⟨fun hqL => ?_, (hs.fresh q hq).2⟩, ?_⟩,
        hcount⟩
      · have hsome := hl.limbo q hqL
        rw [← hphysr, (hs.fresh q hq).1] at hsome
        exact absurd hsome (by simp)
      · rintro ⟨hqL, pr, hpr, hph⟩
        rcases hs.only q (by simp [hpr]) with hq | hq
        · rw [hphysr] at hq
          have hlive := hl.live q c hqL ⟨pr, (hold q hq).symm.trans hpr, hph⟩
          simp [hnb] at hlive
        · exact hq
    · have hview := hblock c hcn
      rw [← hs.blocks c hcn, hc] at hview
      obtain ⟨pc', hc', hview⟩ := Option.map_eq_some_iff.mp hview.symm
      obtain ⟨l, hnil, hlist⟩ := hl.listed c pc' hc'
      refine ⟨l, hnil, hlist.of_same (fun q hq => ?_) (fun q => by rw [hpoints q c hcn])
        (congrArg Prod.snd hview).symm (congrArg Prod.fst hview).symm⟩
      obtain ⟨pr, hpr⟩ := hlist.allocated hq
      rw [Memory.nextPh, Memory.nextPh, hold q (by simp [hpr])]
  · by_cases hcn : c = nb
    · subst hcn
      simp [hs.newpb]
    · have hlive := hl.live q c hq ((hpoints q c hcn).mp hqc)
      have hview := congrArg Option.isSome (hblock c hcn)
      rw [hs.blocks c hcn]
      simpa [hlive] using hview
  · have hsome := hl.limbo q hq
    rwa [hold q hsome]

def backOf (pb : PhysBlock) (length : ℕ) : PhysBlock :=
  { pb with length := pb.length - length, phys := pb.phys + length }

def halved (m : Memory) (b nb : BlockId) (pb : PhysBlock) (length : ℕ) : Memory :=
  (m.setBlock nb (backOf pb length)).setBlock b { pb with length := length }

theorem Steady.halved {length : ℕ} (hst : Steady X W m) (hb : m.block b = some pb)
    (hnb : m.block nb = none) (hlen : length ≤ pb.length) :
    Steady X W (halved m b nb pb length) where
  trees := hst.trees.congr (fun _ => rfl) fun _ => rfl
  balanced := hst.balanced.split hb hnb hlen rfl rfl
  roll := hst.roll

theorem splitting_halved {length : ℕ} (hbn : b ≠ nb) :
    Splitting (halved m b nb pb length) (halved m b nb pb length) nb (backOf pb length) [] none
      pb.firstregion where
  old _ _ := rfl
  fresh _ ha := absurd ha List.not_mem_nil
  only _ hq := .inl hq
  blocks _ _ := rfl
  newpb := (Function.update_of_ne hbn.symm ..).trans (Function.update_self ..)
  linked := .start _

theorem splitPhys_ok (hs : Supplied o) (hk : Kept L X W m)
    (hok : splitPhys o p point m = .ok (reply, m')) : Kept L X W m' := by
  obtain ⟨pr, hpr, hok⟩ := bind_ok.mp hok
  obtain ⟨pb, hpb, hok⟩ := bind_ok.mp hok
  have hpb := deref_ok hpb
  split at hok
  · cases pure_ok.mp hok
    exact hk
  · rename_i hpoint
    obtain ⟨⟨newpb, m₁⟩, hslab, hok⟩ := bind_ok.mp hok
    obtain ⟨rfl, hfree, _⟩ := slaballoc_ok hslab
    cases newpb with
    | none =>
      cases pure_ok.mp hok
      exact hk.ticked
    | some nb =>
      have hnb : m.block nb = none := hfree nb rfl
      have hbn : pr.ph ≠ nb := by
        rintro he
        rw [he, hnb] at hpb
        exact absurd hpb (by simp)
      have hwalk : splitList o pr.ph nb o.fuel pb.firstregion none
          (halved m.ticked pr.ph nb pb (point - pr.offset)) = .ok (reply, m') := hok
      have hcut : point - pr.offset ≤ pb.length := by omega
      obtain ⟨l, hnil, hlist⟩ := hk.lists.listed pr.ph pb hpb
      have hsome : ∀ a ∈ l, (m.physr a).isSome := fun a ha =>
        Option.isSome_iff_exists.mpr (hlist.allocated ha)
      have hpath : Path m.nextPh pb.firstregion ([] ++ l) := hlist.path
      obtain ⟨news, first, hlen, hsplit, hst⟩ := splitList_ok hs
        (hk.ticked.steady.halved hpb hnb hcut) (splitting_halved hbn)
        (Function.update_self ..) hbn hpath hlist.path hsome rfl hwalk
      refine ⟨hsplit.lists hk.lists rfl hnb ?_ ?_ fun c hc => ?_, hst.trees, hst.balanced, hst.roll⟩
      · rintro rfl
        exact hnil (List.eq_nil_of_length_eq_zero hlen.symm)
      · rw [hlen]
        exact hlist.count
      · by_cases hcb : c = pr.ph
        · subst hcb
          simp [halved, Memory.setBlock, hpb]
        · simp [halved, Memory.setBlock, Memory.ticked, hcb, hc]

theorem cleanLoop_ok {r : RegionId} {offset length : ℕ} (hs : Supplied o) (hk : Kept L X W m)
    (hok : cleanLoop o r offset length fuel at_ m = .ok m') : Kept L X W m' := by
  induction fuel generalizing at_ m with
  | zero => exact absurd hok (by simp [cleanLoop])
  | succ fuel ih =>
    cases at_ with
    | none =>
      cases pure_ok.mp hok
      exact hk
    | some p =>
      obtain ⟨pr, _, hok⟩ := bind_ok.mp hok
      obtain ⟨pb, _, hok⟩ := bind_ok.mp hok
      split at hok
      · obtain ⟨⟨reply, m₁⟩, hsplit, hok⟩ := bind_ok.mp hok
        exact ih (splitPhys_ok hs hk hsplit) hok
      · split at hok
        · obtain ⟨⟨reply, m₁⟩, hsplit, hok⟩ := bind_ok.mp hok
          exact ih (splitPhys_ok hs hk hsplit) hok
        · obtain ⟨next, _, hok⟩ := bind_ok.mp hok
          exact ih hk hok

theorem rmLoop_ok {r : RegionId} {start length : ℕ} (hk : Kept L X W m) (hr : r ∉ X)
    (hok : rmLoop o r start length fuel m = .ok m') : Kept L X W m' := by
  induction fuel generalizing m with
  | zero => exact absurd hok (by simp [rmLoop])
  | succ fuel ih =>
    rw [rmLoop] at hok
    split at hok
    · cases pure_ok.mp hok
      exact hk
    · rename_i p hp
      split at hok
      · obtain ⟨m₁, hdrop, hok⟩ := bind_ok.mp hok
        have hmem : p ∈ m.tree r := List.mem_of_find?_eq_some hp
        exact ih (dropPhysr_ok hk (hk.trees.atKey hr hmem) hdrop).2.1 hok
      · cases pure_ok.mp hok
        exact hk

end Split

section Share
variable {o : Outcomes} {m m' : Memory} {L : Set PhysrId} {X : Set RegionId}
  {W : (ProcId → List RegionId) × Set RegionId} {vrs vrd : RegionId} {b : BlockId}
  {p n : PhysrId} {flag : ℤ} {offset offsetS offsetD length stop fuel : ℕ} {reply : VmReply}

theorem dropPhysr_kept {pr : PhysRegion} (hk : Kept L X W m) (hr : pr.parent ∉ X)
    (hpr : m.physr p = some pr) (hok : dropPhysr o pr.parent p m = .ok m') : Kept L X W m' := by
  by_cases hp : p ∈ m.tree pr.parent
  · exact (dropPhysr_ok hk (hk.trees.atKey hr hp) hok).2.1
  · obtain ⟨pr', hpr', hok⟩ := bind_ok.mp hok
    obtain ⟨m₁, hunref, hok⟩ := bind_ok.mp hok
    obtain ⟨m₂, hremove, hok⟩ := bind_ok.mp hok
    cases pure_ok.mp hok
    obtain ⟨hpL, hk₁, hbare, _⟩ := pbUnreferenced_ok hk hunref
    obtain ⟨vr, hvr, hremove⟩ := bind_ok.mp hremove
    cases pure_ok.mp hremove
    have hvr := deref_ok hvr
    have hsub : (vr.phys.eraseP fun q => m₁.offset q == pr'.offset).Sublist (m₁.tree pr.parent) := by
      rw [tree_of_some hvr]
      exact List.eraseP_sublist
    have hk₂ : Kept (insert p L) X W (m₁.setRegion pr.parent
        { vr with phys := vr.phys.eraseP fun q => m₁.offset q == pr'.offset }) :=
      ⟨hk₁.lists.congr rfl fun _ => rfl,
        hk₁.trees.setTree (fun q hq => hk₁.trees.owned _ q (hsub.subset hq))
          ((hk₁.trees.nodup _).sublist hsub) fun hrX => (hk₁.trees.ordered _ hrX).sublist hsub,
        hk₁.balanced.congr (fun _ => rfl) rfl rfl rfl, (roll_setRegion hvr).trans hk₁.roll⟩
    refine hk₂.free hpL fun r hmem => ?_
    have hmem₁ : p ∈ m.tree r := by
      rw [← hbare.tree]
      rw [tree_setRegion] at hmem
      split at hmem
      · rename_i hrr
        rw [hrr]
        exact hsub.subset hmem
      · exact hmem
    obtain ⟨pr₂, hpr₂, hparent⟩ := hk.trees.owned r p hmem₁
    rw [hpr] at hpr₂
    cases hpr₂
    exact hp (hparent ▸ hmem₁)

theorem mapClonePhBlock_kept {pr : PhysRegion} {cut : ℕ} {newpr : Option PhysrId}
    (hk : Kept L X W m) (hr : pr.parent ∉ X) (hpr : m.physr p = some pr)
    (hok : mapClonePhBlock o pr.parent p cut m = .ok (newpr, m')) : Kept L X W m' := by
  obtain ⟨ph, _, hok⟩ := bind_ok.mp hok
  obtain ⟨pb, _, hok⟩ := bind_ok.mp hok
  obtain ⟨_, hok⟩ := kassert_bind_ok.mp hok
  obtain ⟨m₁, hdrop, hok⟩ := bind_ok.mp hok
  obtain ⟨rest, _, hok⟩ := bind_ok.mp hok
  obtain ⟨_, hok⟩ := kassert_bind_ok.mp hok
  obtain ⟨vr, _, hok⟩ := bind_ok.mp hok
  obtain ⟨_, hok⟩ := kassert_bind_ok.mp hok
  obtain ⟨⟨reply, m₂⟩, hnew, hok⟩ := bind_ok.mp hok
  obtain ⟨hk₂, _⟩ := mapNewPhysblock_ok (dropPhysr_kept hk hr hpr hdrop) hnew
  dsimp only at hok
  split at hok
  · obtain ⟨⟨copied, m₃⟩, hcopied, hok⟩ := bind_ok.mp hok
    dsimp only at hok
    split at hok
    · obtain ⟨q, _, hok⟩ := bind_ok.mp hok
      cases pure_ok.mp hok
      exact hk₂.mapped (copyAbs2region_ok hcopied)
    · exact absurd hok (by simp)
  · cases pure_ok.mp hok
    exact hk₂

theorem shareBlock_ok (hk : Kept ∅ X W m) (hn : m.physr n = none)
    (hok : shareBlock vrd b n offset m = .ok m') :
    Kept ∅ X W m' ∧ ∃ pr, m'.physr n = some pr ∧ pr.parent = vrd := by
  obtain ⟨pb, hpb, hok⟩ := bind_ok.mp hok
  have hpb := deref_ok hpb
  have hk₁ : Kept (insert n ∅) X W (m.setPhysr n ⟨b, vrd, offset, none⟩) := hk.alloc hn
  have hpr : (m.setPhysr n ⟨b, vrd, offset, none⟩).physr n = some ⟨b, vrd, offset, none⟩ :=
    Function.update_self ..
  have hlists := hk₁.lists.link (by simp) hpr hpb
  have hk₂ : Kept ∅ X W ((m.setPhysr n ⟨b, vrd, offset, pb.firstregion⟩).setBlock b
      { pb with firstregion := some n, refcount := pb.refcount + 1 }) := by
    refine ⟨?_, ?_, ?_, hk.roll⟩
    · refine hlists.congr ?_ fun _ => rfl
      simp [Memory.setPhysr, Memory.setBlock]
    · exact hk.trees.outside (fun _ => rfl) (hk.trees.notMem hn) fun q hq => by
        simp [Memory.setPhysr, Memory.setBlock, hq]
    · refine hk.balanced.congr (fun c => ?_) rfl rfl rfl
      by_cases hc : c = b
      · subst hc
        simp [Memory.setPhysr, Memory.setBlock, PhysBlock.mem, hpb]
      · simp [Memory.setPhysr, Memory.setBlock, hc]
  refine ⟨hk₂.inserted hok (Function.update_self ..) rfl (hk.trees.notMem hn vrd), ?_⟩
  obtain ⟨vr, _, rfl⟩ := physrInsert_ok hok
  exact ⟨_, Function.update_self .., rfl⟩

theorem sourceBlock_ok {prs : Option PhysrId} (hk : Kept ∅ X W m) (hr : vrs ∉ X)
    (hp : p ∈ m.tree vrs) (hok : sourceBlock o vrs flag p m = .ok (prs, m')) : Kept ∅ X W m' := by
  obtain ⟨pr, _, hok⟩ := bind_ok.mp hok
  obtain ⟨pb, _, hok⟩ := bind_ok.mp hok
  split at hok
  · exact (mapClonePhBlock_ok hk (hk.trees.atKey hr hp) hok).2.1
  · cases pure_ok.mp hok
    exact hk

theorem destBlock_ok {done : Bool} {pr : PhysRegion} (hk : Kept ∅ X W m) (hr : pr.parent ∉ X)
    (hpr : m.physr n = some pr) (hok : destBlock o pr.parent flag b n m = .ok (done, m')) :
    Kept ∅ X W m' := by
  obtain ⟨pb, hpb, hok⟩ := bind_ok.mp hok
  split at hok
  · obtain ⟨⟨newpr, m₁⟩, hclone, hok⟩ := bind_ok.mp hok
    cases pure_ok.mp hok
    exact mapClonePhBlock_kept hk hr hpr hclone
  · cases pure_ok.mp hok
    exact hk.setShare (deref_ok hpb)

theorem doMapLoop_ok {at_ : Option PhysrId} (hk : Kept ∅ X W m) (hrs : vrs ∉ X) (hrd : vrd ∉ X)
    (hat : ∀ p ∈ at_, p ∈ m.tree vrs)
    (hok : doMapLoop o vrs vrd flag stop fuel at_ offset m = .ok (reply, m')) : Kept ∅ X W m' := by
  induction fuel generalizing at_ offset m with
  | zero => exact absurd hok (by simp [doMapLoop])
  | succ fuel ih =>
    cases at_ with
    | none =>
      cases pure_ok.mp hok
      exact hk
    | some p =>
      rw [doMapLoop] at hok
      split at hok
      · obtain ⟨⟨prs, m₁⟩, hsource, hok⟩ := bind_ok.mp hok
        have hk₁ := sourceBlock_ok hk hrs (hat p rfl) hsource
        cases prs with
        | none =>
          cases pure_ok.mp hok
          exact hk₁
        | some p =>
          obtain ⟨pr, _, hok⟩ := bind_ok.mp hok
          obtain ⟨⟨newphysr, m₂⟩, hslab, hok⟩ := bind_ok.mp hok
          obtain ⟨rfl, hfree, _⟩ := slaballoc_ok hslab
          cases newphysr with
          | none =>
            cases pure_ok.mp hok
            exact hk₁.ticked
          | some n =>
            obtain ⟨m₃, hshare, hok⟩ := bind_ok.mp hok
            obtain ⟨⟨done, m₄⟩, hdest, hok⟩ := bind_ok.mp hok
            obtain ⟨hk₃, prn, hprn, rfl⟩ := shareBlock_ok hk₁.ticked (hfree n rfl) hshare
            have hk₄ := destBlock_ok hk₃ hrd hprn hdest
            dsimp only at hok
            split at hok
            · obtain ⟨next, hnext, hok⟩ := bind_ok.mp hok
              obtain ⟨pb, _, hok⟩ := bind_ok.mp hok
              exact ih hk₄ (fun a ha => nextIn_mem (physrIncr_ok hnext) ha) hok
            · cases pure_ok.mp hok
              exact hk₄
      · cases pure_ok.mp hok
        exact hk

theorem doMapMemory_ok (hk : Kept ∅ X W m) (hrs : vrs ∉ X) (hrd : vrd ∉ X)
    (hok : doMapMemory o vrs vrd flag offsetS offsetD length m = .ok (reply, m')) :
    Kept ∅ X W m' := by
  rw [doMapMemory] at hok
  split at hok
  · exact absurd hok (by simp)
  · rename_i p hp
    refine doMapLoop_ok hk hrs hrd (fun q hq => ?_) hok
    cases hq
    exact (atKey_of_search hp).mem

theorem mapM_keys {l : List RegionId} {found : List (RegionId × MappedRegion)}
    (hok : (l.mapM fun r => do
      let vr ← deref (m.region r)
      pure (r, vr)) = .ok found) : found.map Prod.fst = l := by
  induction l generalizing found with
  | nil =>
    cases pure_ok.mp hok
    rfl
  | cons r l ih =>
    rw [List.mapM_cons] at hok
    obtain ⟨x, hx, hok⟩ := bind_ok.mp hok
    obtain ⟨rest, hrest, hok⟩ := bind_ok.mp hok
    cases pure_ok.mp hok
    obtain ⟨vr, _, hx⟩ := bind_ok.mp hx
    cases pure_ok.mp hx
    rw [List.map_cons, ih hrest]

theorem mapLookup_ok {v : ProcId} {addr : VirBytes} {r : RegionId} {vr : MappedRegion}
    (hok : mapLookup v addr m = .ok (r, vr)) : r ∈ m.vmRegions v := by
  obtain ⟨regions, hregions, hok⟩ := bind_ok.mp hok
  split at hok
  · exact absurd hok (by simp)
  · rename_i found hfound
    cases hok
    rw [← mapM_keys hregions]
    exact List.mem_map_of_mem (List.mem_of_find?_eq_some hfound)

theorem mapMemory_ok {vms vmd : ProcId} {call : MapCall} (hs : Supplied o) (hk : Kept.Ready ∅ m)
    (hok : mapMemory o vms vmd call m = .ok (reply, m')) : Kept.Ready ∅ m' := by
  obtain ⟨X, W, hk, hh⟩ := hk
  obtain ⟨⟨vrs, rs⟩, hrs, hok⟩ := bind_ok.mp hok
  obtain ⟨⟨vrd, rd⟩, hrd, hok⟩ := bind_ok.mp hok
  obtain ⟨⟨reply', m₁⟩, hhandle, hok⟩ := bind_ok.mp hok
  obtain ⟨m₂, hsource, hok⟩ := bind_ok.mp hok
  obtain ⟨m₃, hdest, hok⟩ := bind_ok.mp hok
  obtain ⟨m₄, hrm, hok⟩ := bind_ok.mp hok
  have hrs := mapLookup_ok hrs
  have hrd := mapLookup_ok hrd
  rw [hk.vm] at hrs hrd
  have hrsX := (hh.live vms vrs hrs).1
  have hrdX := (hh.live vmd vrd hrd).1
  have hk₁ := mapHandleMemory_ok hk hhandle
  have hk₂ := cleanLoop_ok hs hk₁ hsource
  have hk₃ := cleanLoop_ok hs hk₂ hdest
  have hk₄ := rmLoop_ok hk₃ hrdX hrm
  exact ⟨X, W, doMapMemory_ok hk₄ hrsX hrdX hok, hh⟩

end Share

end Vm
