import Cs111.Vm.Extents

namespace Vm
open Kernel (Fault kassert bind_ok kassert_bind_ok pure_ok)
open Chain (Path)

def Outcomes.withFuel (o : Outcomes) (n : ℕ) : Outcomes := { o with fuel := n }

def Copies (base m : Memory) (nb : BlockId) (k : ℕ) (q n : PhysrId) : Prop :=
  ∃ qr, base.physr q = some qr ∧
    (m.physr n).map PhysRegion.bare = some { qr.bare with ph := nb, offset := qr.offset + k }

structure Clearance (base : Memory) (k : ℕ) (l : List PhysrId) : Prop where
  clear : ∀ q ∈ l, ∀ qr, base.physr q = some qr → ∀ a ∈ base.tree qr.parent,
    base.offset a ≠ qr.offset + k
  apart : l.Pairwise fun q q' => ∀ qr qr', base.physr q = some qr → base.physr q' = some qr' →
    qr.parent = qr'.parent → qr.offset ≠ qr'.offset

structure Sown (base m : Memory) (nb : BlockId) (k : ℕ) (done news : List PhysrId) : Prop where
  copies : ∀ n ∈ news, ∃ q ∈ done, Copies base m nb k q n
  every : ∀ q ∈ done, ∃ n ∈ news, Copies base m nb k q n
  region : ∀ r, (m.region r).map (fun vr => { vr with phys := [] }) =
    (base.region r).map fun vr => { vr with phys := [] }
  keeps : ∀ r, ∀ p ∈ base.tree r, p ∈ m.tree r
  only : ∀ r, ∀ p ∈ m.tree r, p ∈ base.tree r ∨ p ∈ news
  placed : Clearance base k done → ∀ n ∈ news, ∃ r, n ∈ m.tree r

def sow (m : Memory) (nb : BlockId) (k : ℕ) (n : PhysrId) (qr : PhysRegion) (vr : MappedRegion) :
    Memory :=
  let m := m.ticked.setPhysr n { qr with ph := nb, offset := qr.offset + k }
  m.setRegion qr.parent { vr with phys := placed m n (m.tree qr.parent) }

section Walk
variable {o : Outcomes} {m m' base : Memory} {L : Set PhysrId} {X : Set RegionId}
  {W : (ProcId → List RegionId) × Set RegionId} {b nb : BlockId} {pb pbn : PhysBlock}
  {news l done rest : List PhysrId} {prev first at_ : Option PhysrId} {p q n : PhysrId}
  {fuel k : ℕ} {reply : VmReply} {qr : PhysRegion} {vr : MappedRegion}

theorem sow_insert (hvr : m.region qr.parent = some vr) :
    physrInsert (m.ticked.setPhysr n { qr with ph := nb, offset := qr.offset + k }) qr.parent n =
      .ok (sow m nb k n qr vr) :=
  physrInsert_some hvr

theorem sow_extended (hn : m.physr n = none) : Extended m (sow m nb k n qr vr) nb n where
  fresh := hn
  points := ⟨_, Function.update_self .., rfl⟩
  others _ hq := Function.update_of_ne hq ..
  block := rfl

theorem sow_tree (r : RegionId) : (sow m nb k n qr vr).tree r = if r = qr.parent then
    placed (m.ticked.setPhysr n { qr with ph := nb, offset := qr.offset + k }) n (m.tree r)
    else m.tree r := by
  rw [sow, tree_setRegion]
  split
  · rename_i hr
    rw [hr]
    rfl
  · rfl

theorem Steady.sow (hst : Steady X W m) (hn : m.physr n = none)
    (hvr : m.region qr.parent = some vr) : Steady X W (sow m nb k n qr vr) :=
  hst.ticked.add hn (sow_insert hvr)

theorem Copies.of_same {a : PhysrId} (h : Copies base m nb k q a)
    (hsame : (m'.physr a).map PhysRegion.bare = (m.physr a).map PhysRegion.bare) :
    Copies base m' nb k q a := by
  obtain ⟨qr, hqr, hcopy⟩ := h
  exact ⟨qr, hqr, hsame.trans hcopy⟩

theorem Copies.offset {a : PhysrId} (h : Copies base m nb k q a) :
    ∃ qr ar, base.physr q = some qr ∧ m.physr a = some ar ∧ ar.ph = nb ∧ ar.parent = qr.parent ∧
      ar.offset = qr.offset + k := by
  obtain ⟨qr, hqr, hcopy⟩ := h
  obtain ⟨ar, har, hbare⟩ := Option.map_eq_some_iff.mp hcopy
  have hph : ar.bare.ph = nb := by rw [hbare]
  have hparent : ar.bare.parent = qr.parent := by rw [hbare]; rfl
  have hoffset : ar.bare.offset = qr.offset + k := by rw [hbare]
  exact ⟨qr, ar, hqr, har, hph, hparent, hoffset⟩

theorem Clearance.subset (h : Clearance base k (done ++ rest)) : Clearance base k done where
  clear q hq := h.clear q (List.mem_append_left rest hq)
  apart := (List.pairwise_append.mp h.apart).1

theorem Sown.next (h : Sown base m nb k done news) (hmade : Made base m nb news)
    (hbase : ∀ r, ∀ a ∈ base.tree r, (base.physr a).isSome) (ht : Trees X m)
    (hqr : base.physr q = some qr) (hn : m.physr n = none)
    (hvr : m.region qr.parent = some vr) :
    Sown base (sow m nb k n qr vr) nb k (done ++ [q]) (news ++ [n]) := by
  have hne : ∀ a, (m.physr a).isSome → a ≠ n := by
    rintro a ha rfl
    simp [hn] at ha
  have hsome : ∀ a ∈ news, (m.physr a).isSome := fun a ha => by
    obtain ⟨pr, hpr, -⟩ := (hmade.fresh a ha).2
    simp [hpr]
  have hself : (sow m nb k n qr vr).physr n = some { qr with ph := nb, offset := qr.offset + k } :=
    Function.update_self ..
  have hcopy : Copies base (sow m nb k n qr vr) nb k q n := ⟨qr, hqr, by rw [hself]; rfl⟩
  have hold : ∀ a ∈ news, ((sow m nb k n qr vr).physr a).map PhysRegion.bare =
      (m.physr a).map PhysRegion.bare := fun a ha =>
    congrArg _ ((sow_extended hn).others a (hne a (hsome a ha)))
  refine ⟨fun a ha => ?_, fun a ha => ?_, fun r => ?_, fun r p hp => ?_, fun r p hp => ?_,
    fun hroom a ha => ?_⟩
  · rcases List.mem_append.mp ha with ha | ha
    · obtain ⟨a', ha', hcopy⟩ := h.copies a ha
      exact ⟨a', List.mem_append_left _ ha', hcopy.of_same (hold a ha)⟩
    · obtain rfl := List.mem_singleton.mp ha
      exact ⟨q, by simp, hcopy⟩
  · rcases List.mem_append.mp ha with ha | ha
    · obtain ⟨a', ha', hcopy⟩ := h.every a ha
      exact ⟨a', List.mem_append_left _ ha', hcopy.of_same (hold a' ha')⟩
    · obtain rfl := List.mem_singleton.mp ha
      exact ⟨n, by simp, hcopy⟩
  · rw [← h.region r]
    by_cases hr : r = qr.parent
    · subst hr
      simp [sow, Memory.setRegion, hvr]
    · simp [sow, Memory.setRegion, hr, Memory.setPhysr, Memory.ticked]
  · rw [sow_tree]
    split
    · exact subset_placed (h.keeps r p hp)
    · exact h.keeps r p hp
  · rw [List.mem_append, List.mem_singleton]
    rw [sow_tree] at hp
    split at hp
    · rcases mem_placed hp with rfl | hp
      · exact .inr (.inr rfl)
      · exact (h.only r p hp).imp_right .inl
    · exact (h.only r p hp).imp_right .inl
  · rcases List.mem_append.mp ha with ha | ha
    · obtain ⟨r, hr⟩ := h.placed hroom.subset a ha
      refine ⟨r, ?_⟩
      rw [sow_tree]
      split
      · exact subset_placed hr
      · exact hr
    · obtain rfl := List.mem_singleton.mp ha
      refine ⟨qr.parent, ?_⟩
      rw [sow_tree, if_pos rfl]
      refine self_placed fun a' ha' => ?_
      have hne' : a' ≠ a := hne a' (by obtain ⟨pr, hpr, -⟩ := ht.owned _ a' ha'; simp [hpr])
      rw [offset_setPhysr, if_neg hne', offset_setPhysr, if_pos rfl]
      show m.offset a' ≠ qr.offset + k
      rcases h.only _ a' ha' with hold | hnew
      · have hsame : m.offset a' = base.offset a' := by
          rw [Memory.offset, Memory.offset, hmade.old a' (hbase _ a' hold)]
        rw [hsame]
        exact hroom.clear q (by simp) qr hqr a' hold
      · obtain ⟨q', hq', hcopy'⟩ := h.copies a' hnew
        obtain ⟨qr', ar, hqr', har, -, hparent, hoffset⟩ := hcopy'.offset
        obtain ⟨ar', har', howned⟩ := ht.owned _ a' ha'
        rw [har] at har'
        cases har'
        rw [offset_of_some har, hoffset]
        have hdiff := (List.pairwise_append.mp hroom.apart).2.2 q' hq' q (by simp) qr' qr hqr' hqr
          (hparent.symm.trans howned)
        omega

theorem Sown.relink (h : Sown base m nb k done news) (hregion : m'.region = m.region)
    (hbare : ∀ a, (m'.physr a).map PhysRegion.bare = (m.physr a).map PhysRegion.bare) :
    Sown base m' nb k done news := by
  have htree : ∀ r, m'.tree r = m.tree r := fun r => by rw [Memory.tree, Memory.tree, hregion]
  refine ⟨fun n hn => ?_, fun q hq => ?_, fun r => by rw [hregion, h.region], fun r p hp => ?_,
    fun r p hp => ?_, fun hroom n hn => ?_⟩
  · obtain ⟨q, hq, hcopy⟩ := h.copies n hn
    exact ⟨q, hq, hcopy.of_same (hbare n)⟩
  · obtain ⟨n, hn, hcopy⟩ := h.every q hq
    exact ⟨n, hn, hcopy.of_same (hbare n)⟩
  · rw [htree]
    exact h.keeps r p hp
  · rw [htree] at hp
    exact h.only r p hp
  · obtain ⟨r, hr⟩ := h.placed hroom n hn
    exact ⟨r, by rwa [htree]⟩

theorem bare_setNext {i : PhysrId} {pr : PhysRegion} {x : Option PhysrId}
    (hpr : m.physr i = some pr) (a : PhysrId) :
    ((m.setPhysr i { pr with nextPhList := x }).physr a).map PhysRegion.bare =
      (m.physr a).map PhysRegion.bare := by
  by_cases ha : a = i
  · subst ha
    simp [Memory.setPhysr, PhysRegion.bare, hpr]
  · simp [Memory.setPhysr, ha]

theorem Names.sow (h : Names o m) (hn : o.slab .splitRegion m.tick = some n)
    (hphysr : ∀ a, (m'.physr a).isSome → (m.physr a).isSome ∨ a = n)
    (hblock : ∀ c, (m'.block c).isSome → (m.block c).isSome) (htick : m'.tick = m.tick + 1) :
    Names o m' := by
  refine h.later (by omega) (fun a ha => ?_) fun c hc => .inl (hblock c hc)
  rcases hphysr a ha with hold | rfl
  · exact .inl hold
  · exact .inr ⟨.splitRegion, m.tick, rfl, le_rfl, by omega, hn⟩

structure Sundered (base m : Memory) (nb : BlockId) (pbn : PhysBlock) (k : ℕ)
    (l done news : List PhysrId) (first : Option PhysrId) : Prop extends Made base m nb news where
  blocks : ∀ b ≠ nb, m.block b = base.block b
  newpb : m.block nb = some { pbn with firstregion := first }
  sown : Sown base m nb k done news
  part : done ⊆ l
  chain : ∃ c, c ≠ [] ∧ Path m.nextPh first c ∧ ∀ a ∈ c, a ∈ news ∨ a ∈ l

theorem splitList_first {newpb : PhysBlock} (hslab : o.slab .splitRegion m.tick = some n)
    (hn : m.physr n = none) (hqr : m.physr q = some qr) (hpb : m.block b = some pb)
    (hvr : m.region qr.parent = some vr) (hnb : m.block nb = some newpb)
    (hq : pb.firstregion = some q) :
    splitList o b nb (fuel + 1) (some q) prev m = splitList o b nb fuel qr.nextPhList (some n)
      ((sow m nb pb.length n qr vr).setBlock nb { newpb with firstregion := some n }) := by
  rw [splitList, slaballoc_some hslab hn, ok_bind]
  dsimp only
  rw [deref_some (show m.ticked.physr q = some qr from hqr), ok_bind,
    deref_some (show m.ticked.block b = some pb from hpb), ok_bind, sow_insert hvr, ok_bind,
    if_pos hq,
    deref_some (show (sow m nb pb.length n qr vr).block nb = some newpb from hnb)]
  rfl

theorem splitList_later {i : PhysrId} {ir : PhysRegion}
    (hslab : o.slab .splitRegion m.tick = some n) (hn : m.physr n = none)
    (hqr : m.physr q = some qr) (hpb : m.block b = some pb)
    (hvr : m.region qr.parent = some vr) (hi : m.physr i = some ir)
    (hq : pb.firstregion ≠ some q) :
    splitList o b nb (fuel + 1) (some q) (some i) m = splitList o b nb fuel qr.nextPhList (some n)
      ((sow m nb pb.length n qr vr).setPhysr i { ir with nextPhList := some n }) := by
  have hin : i ≠ n := by
    rintro rfl
    simp [hn] at hi
  have hi' : (sow m nb pb.length n qr vr).physr i = some ir :=
    ((sow_extended hn).others i hin).trans hi
  rw [splitList, slaballoc_some hslab hn, ok_bind]
  dsimp only
  rw [deref_some (show m.ticked.physr q = some qr from hqr), ok_bind,
    deref_some (show m.ticked.block b = some pb from hpb), ok_bind, sow_insert hvr, ok_bind,
    if_neg hq, deref_some (show some i = some i from rfl), ok_bind,
    deref_some hi']
  rfl

def WalkEnds (o : Outcomes) (X : Set RegionId) (W : (ProcId → List RegionId) × Set RegionId)
    (base : Memory) (b nb : BlockId) (pbn : PhysBlock) (k : ℕ) (l : List PhysrId) (rounds : ℕ)
    (at_ prev : Option PhysrId) (m : Memory) : Prop :=
  ∃ reply m' done news first, (∀ j fuel, rounds < fuel →
      splitList (o.withFuel j) b nb fuel at_ prev m = .ok (reply, m')) ∧
    Steady X W m' ∧ Names o m' ∧ m.tick ≤ m'.tick ∧
    Sundered base m' nb pbn k l done news first ∧
    (reply = .OK → done = l ∧ Path m'.nextPh first news ∧ news.length = done.length) ∧
    (reply ≠ .OK → ∃ t ≥ m.tick, o.slab .splitRegion t = none)

theorem WalkEnds.step {m₁ : Memory} {at₁ prev₁ : Option PhysrId} {rounds : ℕ}
    (h : WalkEnds o X W base b nb pbn k l rounds at₁ prev₁ m₁) (htick : m.tick ≤ m₁.tick)
    (hround : ∀ j fuel, splitList (o.withFuel j) b nb (fuel + 1) at_ prev m =
      splitList (o.withFuel j) b nb fuel at₁ prev₁ m₁) :
    WalkEnds o X W base b nb pbn k l (rounds + 1) at_ prev m := by
  obtain ⟨reply, m', done, news, first, hrun, hst, hnames, hle, hsun, hOK, hfail⟩ := h
  refine ⟨reply, m', done, news, first, fun j fuel hfuel => ?_, hst, hnames, htick.trans hle, hsun,
    hOK, fun hr => ?_⟩
  · obtain ⟨fuel, rfl⟩ := Nat.exists_eq_succ_of_ne_zero (Nat.ne_of_gt (Nat.zero_lt_of_lt hfuel))
    rw [Nat.succ_eq_add_one, hround]
    exact hrun j fuel (by omega)
  · obtain ⟨t, ht, hnone⟩ := hfail hr
    exact ⟨t, htick.trans ht, hnone⟩

theorem splitList_walk (hnames : Names o m) (hst : Steady X W m)
    (hsp : Splitting base m nb pbn news prev first) (hsown : Sown base m nb pb.length done news)
    (hbase : ∀ r, ∀ a ∈ base.tree r, (base.physr a).isSome) (hb : base.block b = some pb)
    (hbn : b ≠ nb) (hl : Path base.nextPh pb.firstregion (done ++ rest))
    (hat : Path base.nextPh at_ rest) (hne : done ++ rest ≠ [])
    (hall : ∀ a ∈ rest, ∃ ar, base.physr a = some ar ∧ (base.region ar.parent).isSome)
    (hlen : news.length = done.length) (hfirst : news = [] → first = pb.firstregion)
    (htail : ∀ i, prev = some i → m.nextPh i = at_) :
    WalkEnds o X W base b nb pbn pb.length (done ++ rest) rest.length at_ prev m := by
  induction rest generalizing at_ prev m news first done with
  | nil =>
    obtain rfl : at_ = none := hat
    have hlinked := hsp.linked
    cases hlinked with
    | start =>
      exact absurd (List.eq_nil_of_length_eq_zero hlen.symm) (by simpa using hne)
    | more _ front i hpath =>
      obtain ⟨pr, hpr, -⟩ := (hsp.fresh i (by simp)).2
      have hstop := hsp.stop hpr
      refine ⟨.OK, m.setPhysr i { pr with nextPhList := none }, done, front ++ [i], first,
        fun j fuel hfuel => ?_, hst.setNext hpr, ?_, le_rfl, ?_, fun _ => ?_, by simp⟩
      · obtain ⟨fuel, rfl⟩ := Nat.exists_eq_succ_of_ne_zero (Nat.ne_of_gt hfuel)
        simp [splitList, deref, hpr]
      · refine hnames.fewer le_rfl (fun a ha => ?_) fun _ hc => hc
        rwa [← isSome_of_bare (bare_setNext hpr a)]
      · exact ⟨hstop.toMade, hstop.blocks, hstop.newpb, hsown.relink rfl (bare_setNext hpr),
          List.subset_append_left .., front ++ [i], by simp, hstop.path, fun a ha => .inl ha⟩
      · exact ⟨(List.append_nil done).symm, hstop.path, hlen⟩
  | cons q rest ih =>
    obtain ⟨rfl, hrest⟩ := hat
    obtain ⟨qr, hqr, hparent⟩ := hall q List.mem_cons_self
    have hqm : m.physr q = some qr := (hsp.old q (by simp [hqr])).trans hqr
    have hpbm : m.block b = some pb := (hsp.blocks b hbn).trans hb
    obtain ⟨vr, hvr⟩ : ∃ vr, m.region qr.parent = some vr := by
      have hsame := congrArg Option.isSome (hsown.region qr.parent)
      rw [Option.isSome_map, Option.isSome_map, hparent] at hsame
      exact Option.isSome_iff_exists.mp hsame
    cases hslab : o.slab .splitRegion m.tick with
    | none =>
      have hold : ∀ a ∈ q :: rest, m.nextPh a = base.nextPh a := fun a ha => by
        obtain ⟨ar, har, -⟩ := hall a ha
        rw [Memory.nextPh, Memory.nextPh, hsp.old a (by simp [har])]
      have hpath : Path m.nextPh (some q) (q :: rest) := Chain.path_congr hold ⟨rfl, hrest⟩
      refine ⟨.ENOMEM, m.ticked, done, news, first, fun j fuel hfuel => ?_,
        hst.ticked, hnames.ticked, Nat.le_succ _, ?_, by simp, fun _ => ⟨_, le_rfl, hslab⟩⟩
      · obtain ⟨fuel, rfl⟩ := Nat.exists_eq_succ_of_ne_zero (Nat.ne_of_gt (Nat.zero_lt_of_lt hfuel))
        rw [splitList, slaballoc_none (o := o.withFuel j) hslab]
        rfl
      · refine ⟨⟨hsp.old, hsp.fresh, hsp.only⟩, hsp.blocks, hsp.newpb,
          hsown.relink rfl fun _ => rfl, List.subset_append_left .., ?_⟩
        have hlinked := hsp.linked
        cases hlinked with
        | start =>
          obtain rfl : done = [] := List.eq_nil_of_length_eq_zero hlen.symm
          obtain rfl := hfirst rfl
          exact ⟨q :: rest, by simp, Chain.path_congr hold hl, fun a ha => .inr ha⟩
        | more _ front i hfront =>
          refine ⟨front ++ [i] ++ q :: rest, by simp, Chain.path_join hfront (fun _ _ => rfl) ?_,
            fun a ha => ?_⟩
          · rw [show m.ticked.nextPh i = some q from htail i rfl]
            exact hpath
          · rcases List.mem_append.mp ha with ha | ha
            · exact .inl ha
            · exact .inr (List.mem_append_right done ha)
    | some n =>
      have hn : m.physr n = none := hnames.physr .splitRegion m.tick n rfl le_rfl hslab
      have he : Extended m (sow m nb pb.length n qr vr) nb n := sow_extended hn
      have hst₂ : Steady X W (sow m nb pb.length n qr vr) := hst.sow hn hvr
      have hsown₂ := hsown.next hsp.toMade hbase hst.trees hqr hn hvr
      have hself : (sow m nb pb.length n qr vr).physr n =
          some { qr with ph := nb, offset := qr.offset + pb.length } := Function.update_self ..
      have hnext : (sow m nb pb.length n qr vr).nextPh n = qr.nextPhList :=
        (nextPh_of_some hself).trans rfl
      have hrest' : Path base.nextPh qr.nextPhList rest := nextPh_of_some hqr ▸ hrest
      have hall' : ∀ a ∈ rest, ∃ ar, base.physr a = some ar ∧ (base.region ar.parent).isSome :=
        fun a ha => hall a (List.mem_cons_of_mem q ha)
      have hused : ∀ a, ((sow m nb pb.length n qr vr).physr a).isSome →
          (m.physr a).isSome ∨ a = n := by
        intro a ha
        by_cases han : a = n
        · exact .inr han
        · exact .inl (by rwa [← he.others a han])
      rw [show done ++ q :: rest = done ++ [q] ++ rest by simp] at hl hne ⊢
      by_cases hq : pb.firstregion = some q
      · obtain rfl : done = [] := by
          cases done with
          | nil => rfl
          | cons a done =>
            have hnodup := Chain.path_nodup hl
            obtain rfl : a = q := Option.some.inj (hl.1.symm.trans hq)
            exact absurd hnodup (by simp)
        obtain rfl : news = [] := List.eq_nil_of_length_eq_zero hlen
        have hnb : (sow m nb pb.length n qr vr).block nb = some { pbn with firstregion := first } :=
          hsp.newpb
        have hnames₃ : Names o ((sow m nb pb.length n qr vr).setBlock nb
            { pbn with firstregion := some n }) := by
          refine hnames.sow hslab hused (fun c hc => ?_) rfl
          by_cases hcn : c = nb
          · rw [hcn, hsp.newpb]
            rfl
          · have hsame : ((sow m nb pb.length n qr vr).setBlock nb
                { pbn with firstregion := some n }).block c = m.block c :=
              Function.update_of_ne hcn ..
            rwa [← hsame]
        have hst₃ := hst₂.setFirst (x := some n) hnb
        have hround : ∀ j fuel, splitList (o.withFuel j) b nb (fuel + 1) (some q) prev m =
            splitList (o.withFuel j) b nb fuel qr.nextPhList (some n)
              ((sow m nb pb.length n qr vr).setBlock nb { pbn with firstregion := some n }) :=
          fun j fuel => by
            rw [splitList_first (o := o.withFuel j) hslab hn hqm hpbm hvr hsp.newpb hq]
        have hwalk := ih hnames₃ hst₃ (hsp.start he)
          (hsown₂.relink rfl fun _ => rfl) hl hrest' hne hall' rfl (by simp)
          fun i hi => by cases hi; exact hnext
        exact hwalk.step (Nat.le_succ _) hround
      · have hlinked := hsp.linked
        cases hlinked with
        | start =>
          obtain rfl : done = [] := List.eq_nil_of_length_eq_zero hlen.symm
          exact absurd hl.1 hq
        | more _ front i hfront =>
          obtain ⟨ir, hir, -⟩ := (hsp.fresh i (by simp)).2
          have hin : i ≠ n := by
            rintro rfl
            simp [hn] at hir
          have hir' : (sow m nb pb.length n qr vr).physr i = some ir := (he.others i hin).trans hir
          have hnames₃ : Names o ((sow m nb pb.length n qr vr).setPhysr i
              { ir with nextPhList := some n }) := by
            refine hnames.sow hslab (fun a ha => hused a ?_) (fun _ hc => hc) rfl
            rwa [← isSome_of_bare (bare_setNext hir' a)]
          have hwalk := ih hnames₃ (hst₂.setNext hir') (hsp.more he hir')
            (hsown₂.relink rfl (bare_setNext hir')) hl hrest' hne hall' (by simpa using hlen)
            (by simp)
            fun i' hi' => by
              cases hi'
              rw [nextPh_setPhysr, Function.update_of_ne hin.symm]
              exact hnext
          exact hwalk.step (Nat.le_succ _) fun j fuel =>
            splitList_later (o := o.withFuel j) hslab hn hqm hpbm hvr hir hq

end Walk

end Vm
