import Cs111.Vm.SplitWalk

namespace Vm
open Kernel (Fault kassert bind_ok kassert_bind_ok pure_ok)
open Chain (Path)

def Walkable (m : Memory) : Prop :=
  ∀ r, ∀ p ∈ m.tree r, ∀ b, m.PointsTo p b → ∃ pb l, m.block b = some pb ∧ l ≠ [] ∧
    Path m.nextPh pb.firstregion l ∧
    ∀ a ∈ l, ∃ ar, m.physr a = some ar ∧ (m.region ar.parent).isSome

namespace Memory
variable (m : Memory)

def Crosses (p : PhysrId) (point : ℕ) : Prop := m.offset p < point ∧ point < m.finish p

instance (p : PhysrId) (point : ℕ) : Decidable (m.Crosses p point) :=
  inferInstanceAs (Decidable (_ ∧ _))

end Memory

structure Parted (m m' : Memory) (b nb : BlockId) (pb : PhysBlock) (k : ℕ)
    (l done news : List PhysrId) (first : Option PhysrId) : Prop where
  block : m.block b = some pb
  fresh : m.block nb = none
  path : Path m.nextPh pb.firstregion l
  nonempty : l ≠ []
  inside : 0 < k ∧ k < pb.length
  listed : ∀ a ∈ l, ∃ ar, m.physr a = some ar ∧ (m.region ar.parent).isSome
  walk : Sundered (halved m.ticked b nb pb k) m' nb (backOf pb k) k l done news first

def Weighs (m : Memory) (n : ℕ) : Prop :=
  ∃ s : Finset BlockId, (∀ b, (m.block b).isSome → b ∈ s) ∧
    ∑ b ∈ s, ((m.block b).elim 0 fun pb => pb.length - 1) = n

section Part
variable {o : Outcomes} {m m' : Memory} {X : Set RegionId}
  {W : (ProcId → List RegionId) × Set RegionId} {b nb : BlockId} {pb : PhysBlock}
  {news l done : List PhysrId} {p : PhysrId} {k point : ℕ} {pr : PhysRegion} {r : RegionId}

theorem Walkable.block (h : Walkable m) (ht : Trees X m) (hp : p ∈ m.tree r) :
    ∃ pr pb l, m.physr p = some pr ∧ m.block pr.ph = some pb ∧ l ≠ [] ∧
      Path m.nextPh pb.firstregion l ∧
      ∀ a ∈ l, ∃ ar, m.physr a = some ar ∧ (m.region ar.parent).isSome := by
  obtain ⟨pr, hpr, -⟩ := ht.owned r p hp
  obtain ⟨pb, l, hpb, hl⟩ := h r p hp pr.ph ⟨pr, hpr, rfl⟩
  exact ⟨pr, pb, l, hpr, hpb, hl⟩

theorem Names.halved (h : Names o m) (hnb : o.slab .splitBlock m.tick = some nb)
    (hpb : m.block b = some pb) : Names o (halved m.ticked b nb pb k) := by
  refine h.later (Nat.le_succ _) (fun a ha => .inl ha) fun c hc => ?_
  by_cases hcn : c = nb
  · exact .inr ⟨.splitBlock, m.tick, rfl, le_rfl, Nat.lt_succ_self _, hcn ▸ hnb⟩
  · by_cases hcb : c = b
    · exact .inl (by simp [hcb, hpb])
    · have hsame : (Vm.halved m.ticked b nb pb k).block c = m.block c :=
        (Function.update_of_ne hcb ..).trans (Function.update_of_ne hcn ..)
      exact .inl (by rwa [← hsame])

section Parted
variable {first : Option PhysrId}

theorem Parted.ne (h : Parted m m' b nb pb k l done news first) : b ≠ nb := by
  rintro rfl
  have hnone := h.fresh
  rw [h.block] at hnone
  cases hnone

theorem Parted.front (h : Parted m m' b nb pb k l done news first) :
    m'.block b = some { pb with length := k } :=
  (h.walk.blocks b h.ne).trans (Function.update_self ..)

theorem Parted.others (h : Parted m m' b nb pb k l done news first) {c : BlockId} (hb : c ≠ b)
    (hnb : c ≠ nb) : m'.block c = m.block c :=
  (h.walk.blocks c hnb).trans
    ((Function.update_of_ne hb ..).trans (Function.update_of_ne hnb ..))

theorem Parted.old (h : Parted m m' b nb pb k l done news first) {a : PhysrId}
    (ha : (m.physr a).isSome) : m'.physr a = m.physr a :=
  h.walk.old a ha

theorem Parted.region (h : Parted m m' b nb pb k l done news first) (r : RegionId) :
    (m'.region r).isSome = (m.region r).isSome := by
  have hsame := congrArg Option.isSome (h.walk.sown.region r)
  rwa [Option.isSome_map, Option.isSome_map] at hsame

theorem Parted.lighter {n : ℕ} (h : Parted m m' b nb pb k l done news first) (hm : Weighs m n) :
    ∃ n' < n, Weighs m' n' := by
  obtain ⟨s, hs, rfl⟩ := hm
  have hb : b ∈ (insert nb s).erase nb :=
    Finset.mem_erase.mpr ⟨h.ne, Finset.mem_insert_of_mem (hs b (by simp [h.block]))⟩
  have hsum : ∀ w : BlockId → ℕ, ∑ c ∈ insert nb s, w c =
      w nb + (w b + ∑ c ∈ ((insert nb s).erase nb).erase b, w c) := fun w => by
    rw [Finset.add_sum_erase _ w hb, Finset.add_sum_erase _ w (Finset.mem_insert_self nb s)]
  refine ⟨_, ?_, insert nb s, fun c hc => ?_, rfl⟩
  · have hrest : ∑ c ∈ ((insert nb s).erase nb).erase b,
        ((m'.block c).elim 0 fun pb => pb.length - 1) =
        ∑ c ∈ ((insert nb s).erase nb).erase b, ((m.block c).elim 0 fun pb => pb.length - 1) := by
      refine Finset.sum_congr rfl fun c hc => ?_
      obtain ⟨hcb, hc⟩ := Finset.mem_erase.mp hc
      rw [h.others hcb (Finset.ne_of_mem_erase hc)]
    have hall : ∑ c ∈ s, ((m.block c).elim 0 fun pb => pb.length - 1) =
        ∑ c ∈ insert nb s, ((m.block c).elim 0 fun pb => pb.length - 1) :=
      (Finset.sum_insert_of_eq_zero_if_notMem fun _ => by simp [h.fresh]).symm
    obtain ⟨hpos, hlt⟩ := h.inside
    rw [hall, hsum, hsum, hrest, h.front, h.walk.newpb, h.block, h.fresh]
    simp only [Option.elim_some, Option.elim_none, backOf]
    omega
  · by_cases hcn : c = nb
    · exact hcn ▸ Finset.mem_insert_self nb s
    · refine Finset.mem_insert_of_mem (hs c ?_)
      by_cases hcb : c = b
      · simp [hcb, h.block]
      · rwa [h.others hcb hcn] at hc

theorem Parted.walkable (h : Parted m m' b nb pb k l done news first) (ht : Trees X m)
    (hw : Walkable m) : Walkable m' := by
  have hold : ∀ a, (∃ ar, m.physr a = some ar ∧ (m.region ar.parent).isSome) →
      ∃ ar, m'.physr a = some ar ∧ (m'.region ar.parent).isSome := by
    rintro a ⟨ar, har, hparent⟩
    exact ⟨ar, (h.old (by simp [har])).trans har, by rwa [h.region]⟩
  have hnew : ∀ a ∈ news, ∃ ar, m'.physr a = some ar ∧ (m'.region ar.parent).isSome := by
    intro a ha
    obtain ⟨q, hq, hcopy⟩ := h.walk.sown.copies a ha
    obtain ⟨qr, ar, hqr, har, -, hparent, -⟩ := hcopy.offset
    obtain ⟨qr', hqr', hsome⟩ := h.listed q (h.walk.part hq)
    cases hqr.symm.trans hqr'
    exact ⟨ar, har, by rwa [h.region, hparent]⟩
  have hpath : ∀ f c, Path m.nextPh f c → (∀ a ∈ c, (m.physr a).isSome) → Path m'.nextPh f c := by
    intro f c hc hsome
    refine Chain.path_congr (fun a ha => ?_) hc
    rw [Memory.nextPh, Memory.nextPh, h.old (hsome a ha)]
  have hlist : ∀ a ∈ l, (m.physr a).isSome := fun a ha => by
    obtain ⟨ar, har, -⟩ := h.listed a ha
    simp [har]
  intro r p hp c hpc
  rcases h.walk.sown.only r p hp with hp | hp
  · have hp : p ∈ m.tree r := hp
    obtain ⟨pr, pb', l', hpr, hpb', hnil, hl', halive⟩ := hw.block ht hp
    obtain ⟨pr', hpr', rfl⟩ := hpc
    rw [h.old (by simp [hpr]), hpr] at hpr'
    cases hpr'
    by_cases hcb : pr.ph = b
    · have hfront := h.front
      rw [← hcb] at hfront
      refine ⟨_, l, hfront, h.nonempty, hpath _ _ h.path hlist,
        fun a ha => hold a (h.listed a ha)⟩
    · have hcn : pr.ph ≠ nb := fun he => by
        rw [he, h.fresh] at hpb'
        cases hpb'
      refine ⟨pb', l', (h.others hcb hcn).trans hpb', hnil, hpath _ _ hl' fun a ha => ?_,
        fun a ha => hold a (halive a ha)⟩
      obtain ⟨ar, har, -⟩ := halive a ha
      simp [har]
  · obtain rfl : c = nb := pointsTo_unique hpc (h.walk.fresh p hp).2
    obtain ⟨chain, hnil, hchain, hmem⟩ := h.walk.chain
    refine ⟨_, chain, h.walk.newpb, hnil, hchain, fun a ha => ?_⟩
    rcases hmem a ha with ha | ha
    · exact hnew a ha
    · exact hold a (h.listed a ha)

end Parted

theorem splitPhys_parts (hw : Walkable m) (hst : Steady X W m) (hnames : Names o m)
    (hp : p ∈ m.tree r) (hcross : m.Crosses p point)
    (hslab : o.slab .splitBlock m.tick = some nb) :
    ∃ pr pb l reply m' done news first, m.physr p = some pr ∧
      (∃ n, ∀ j ≥ n, splitPhys (o.withFuel j) p point m = .ok (reply, m')) ∧
      Parted m m' pr.ph nb pb (point - pr.offset) l done news first ∧ Steady X W m' ∧
      Names o m' ∧ m.tick < m'.tick ∧
      (reply = .OK → done = l ∧ Path m'.nextPh first news ∧ news.length = done.length) ∧
      (reply ≠ .OK → ∃ t ≥ m.tick, o.slab .splitRegion t = none) := by
  obtain ⟨pr, pb, l, hpr, hpb, hnil, hpath, halive⟩ := hw.block hst.trees hp
  obtain ⟨hstart, hstop⟩ := hcross
  rw [offset_of_some hpr] at hstart
  rw [finish_of_some hpr hpb] at hstop
  have hnb : m.block nb = none := hnames.block .splitBlock m.tick nb rfl le_rfl hslab
  have hbn : pr.ph ≠ nb := by
    rintro he
    rw [he, hnb] at hpb
    cases hpb
  have hcut : point - pr.offset ≤ pb.length := by omega
  have hfront : (halved m.ticked pr.ph nb pb (point - pr.offset)).block pr.ph =
      some { pb with length := point - pr.offset } := Function.update_self ..
  have hbase : ∀ r, ∀ a ∈ (halved m.ticked pr.ph nb pb (point - pr.offset)).tree r,
      ((halved m.ticked pr.ph nb pb (point - pr.offset)).physr a).isSome := fun r a ha => by
    obtain ⟨ar, har, -⟩ := hst.trees.owned r a ha
    exact Option.isSome_iff_exists.mpr ⟨ar, har⟩
  have hsown : Sown (halved m.ticked pr.ph nb pb (point - pr.offset))
      (halved m.ticked pr.ph nb pb (point - pr.offset)) nb (point - pr.offset) [] [] :=
    ⟨by simp, by simp, fun _ => rfl, fun _ _ ha => ha, fun _ _ ha => .inl ha, by simp⟩
  have hwhole : Path m.nextPh pb.firstregion ([] ++ l) := hpath
  obtain ⟨reply, m', done, news, first, hrun, hst', hnames', htick, hsun, hOK, hfail⟩ :=
    splitList_walk (hnames.halved hslab hpb) (hst.ticked.halved hpb hnb hcut)
      (splitting_halved hbn) hsown hbase hfront hbn hwhole hpath hnil halive rfl (fun _ => rfl)
      (by simp)
  refine ⟨pr, pb, l, reply, m', done, news, first, hpr, ⟨l.length + 1, fun j hj => ?_⟩,
    ⟨hpb, hnb, hpath, hnil, by omega, halive, hsun⟩, hst', hnames', Nat.lt_of_succ_le htick, hOK,
    fun hr => ?_⟩
  · rw [splitPhys, deref_some hpr, ok_bind, deref_some hpb, ok_bind, if_neg (by omega),
      slaballoc_some (o := o.withFuel j) hslab hnb, ok_bind]
    exact hrun j j (by omega)
  · obtain ⟨t, ht, hnone⟩ := hfail hr
    exact ⟨t, (Nat.le_succ _).trans ht, hnone⟩

end Part

open Relation (ReflTransGen)

def crossPoint (m : Memory) (offset length : ℕ) (p : PhysrId) : Option ℕ :=
  if m.Crosses p offset then some offset
  else if m.Crosses p (offset + length) then some (offset + length)
  else none

def Crossing (m : Memory) (r : RegionId) (offset length : ℕ) : Prop :=
  ∃ p ∈ m.tree r, m.Crosses p offset ∨ m.Crosses p (offset + length)

inductive Cleaning (o : Outcomes) (r : RegionId) (offset length : ℕ) : Memory → Memory → Prop
  | split {m m' : Memory} {pre post : List PhysrId} {p : PhysrId} {point : ℕ} {reply : VmReply} :
      m.tree r = pre ++ p :: post → (∀ a ∈ pre, crossPoint m offset length a = none) →
      crossPoint m offset length p = some point →
      (∃ n, ∀ j ≥ n, splitPhys (o.withFuel j) p point m = .ok (reply, m')) →
      Cleaning o r offset length m m'

def AlwaysSplits (o : Outcomes) (r : RegionId) (offset length : ℕ) (m : Memory) : Prop :=
  ∀ m', ReflTransGen (Cleaning o r offset length) m m' → Crossing m' r offset length →
    ∃ t ≥ m'.tick, (o.slab .splitBlock t).isSome

structure Cleanable (o : Outcomes) (X : Set RegionId)
    (W : (ProcId → List RegionId) × Set RegionId) (m : Memory) : Prop where
  walkable : Walkable m
  steady : Steady X W m
  names : Names o m
  weighs : ∃ n, Weighs m n

def Divided (o : Outcomes) (m m' : Memory) : Prop :=
  o.slab .splitBlock m.tick = none ∧ m' = m.ticked ∨
    ∃ b nb pb k l done news first, o.slab .splitBlock m.tick = some nb ∧
      Parted m m' b nb pb k l done news first ∧ (∃ r, ∃ p ∈ m.tree r, m.PointsTo p b) ∧
      m.tick < m'.tick ∧ (done = l ∧ Path m'.nextPh first news ∧ news.length = done.length ∨
        ∃ t ≥ m.tick, o.slab .splitRegion t = none)

section Loop
variable {o : Outcomes} {m m' m₁ x : Memory} {r : RegionId} {offset length point fuel j : ℕ}
  {p : PhysrId} {pre mid post : List PhysrId} {reply : VmReply} {X : Set RegionId}
  {W : (ProcId → List RegionId) × Set RegionId}

theorem crosses_iff {pr : PhysRegion} {pb : PhysBlock} (hpr : m.physr p = some pr)
    (hpb : m.block pr.ph = some pb) :
    m.Crosses p point ↔ pr.offset < point ∧ pr.offset + pb.length > point := by
  rw [Memory.Crosses, offset_of_some hpr, finish_of_some hpr hpb]

theorem crossPoint_crosses (h : crossPoint m offset length p = some point) : m.Crosses p point := by
  rw [crossPoint] at h
  split at h
  · rename_i hcross
    cases h
    exact hcross
  · split at h
    · rename_i hcross
      cases h
      exact hcross
    · cases h

theorem crossPoint_none : crossPoint m offset length p = none ↔
    ¬ (m.Crosses p offset ∨ m.Crosses p (offset + length)) := by
  rw [crossPoint]
  split
  · simp_all
  · split <;> simp_all

theorem Cleanable.ticked (h : Cleanable o X W m) : Cleanable o X W m.ticked := by
  obtain ⟨n, hn⟩ := h.weighs
  exact ⟨h.walkable, h.steady.ticked, h.names.ticked, n, hn⟩

theorem Cleanable.block (h : Cleanable o X W m) (hp : p ∈ m.tree r) :
    ∃ pr pb, m.physr p = some pr ∧ m.block pr.ph = some pb := by
  obtain ⟨pr, pb, l, hpr, hpb, -⟩ := h.walkable.block h.steady.trees hp
  exact ⟨pr, pb, hpr, hpb⟩

theorem cleanLoop_pass (h : Cleanable o X W m) (htree : m.tree r = pre ++ p :: post)
    (hnone : crossPoint m offset length p = none) :
    cleanLoop (o.withFuel j) r offset length (fuel + 1) (some p) m =
      cleanLoop (o.withFuel j) r offset length fuel post.head? m := by
  obtain ⟨pr, pb, hpr, hpb⟩ := h.block (r := r) (p := p) (by simp [htree])
  have hnodup := h.steady.trees.nodup r
  rw [htree] at hnodup
  have hpre : p ∉ pre := fun hp =>
    (List.nodup_append.mp hnodup).2.2 p hp p List.mem_cons_self rfl
  rw [crossPoint_none, crosses_iff hpr hpb, crosses_iff hpr hpb, not_or] at hnone
  rw [cleanLoop, deref_some hpr, ok_bind, deref_some hpb, ok_bind, if_neg hnone.1, if_neg hnone.2,
    physrIncr, htree, nextIn_append hpre]
  rfl

theorem cleanLoop_part (h : Cleanable o X W m) (hp : p ∈ m.tree r)
    (hpoint : crossPoint m offset length p = some point)
    (hsplit : splitPhys (o.withFuel j) p point m = .ok (reply, m')) :
    cleanLoop (o.withFuel j) r offset length (fuel + 1) (some p) m =
      cleanLoop (o.withFuel j) r offset length fuel (m'.tree r).head? m' := by
  obtain ⟨pr, pb, hpr, hpb⟩ := h.block hp
  rw [cleanLoop, deref_some hpr, ok_bind, deref_some hpb, ok_bind]
  rw [crossPoint] at hpoint
  split at hpoint
  · rename_i hcross
    cases hpoint
    rw [if_pos ((crosses_iff hpr hpb).mp hcross), hsplit]
    rfl
  · rename_i hcross
    rw [if_neg ((crosses_iff hpr hpb).not.mp hcross)]
    split at hpoint
    · rename_i hcross'
      cases hpoint
      rw [if_pos ((crosses_iff hpr hpb).mp hcross'), hsplit]
      rfl
    · cases hpoint

theorem cleanLoop_walk (h : Cleanable o X W m) (htree : m.tree r = pre ++ mid ++ post)
    (hnone : ∀ a ∈ mid, crossPoint m offset length a = none) :
    cleanLoop (o.withFuel j) r offset length (mid.length + fuel) (mid ++ post).head? m =
      cleanLoop (o.withFuel j) r offset length fuel post.head? m := by
  induction mid generalizing pre with
  | nil => rw [List.nil_append, List.length_nil, Nat.zero_add]
  | cons p mid ih =>
    rw [List.append_assoc, List.cons_append] at htree
    have hrest : m.tree r = pre ++ [p] ++ mid ++ post := by rw [htree]; simp
    rw [List.length_cons, Nat.add_right_comm, List.cons_append, List.head?_cons,
      cleanLoop_pass h htree (hnone p List.mem_cons_self)]
    exact ih hrest fun a ha => hnone a (List.mem_cons_of_mem p ha)

theorem splitPhys_fails (hcross : m.Crosses p point) (h : Cleanable o X W m) (hp : p ∈ m.tree r)
    (hslab : o.slab .splitBlock m.tick = none) :
    splitPhys (o.withFuel j) p point m = .ok (.ENOMEM, m.ticked) := by
  obtain ⟨pr, pb, hpr, hpb⟩ := h.block hp
  rw [crosses_iff hpr hpb] at hcross
  rw [splitPhys, deref_some hpr, ok_bind, deref_some hpb, ok_bind, if_neg (by omega),
    slaballoc_none (o := o.withFuel j) hslab]
  rfl

theorem Crossing.first (h : Crossing m r offset length) : ∃ pre p post point,
    m.tree r = pre ++ p :: post ∧ (∀ a ∈ pre, crossPoint m offset length a = none) ∧
      crossPoint m offset length p = some point := by
  obtain ⟨p, hp, hcross⟩ := h
  have hsome : ((m.tree r).findSome? (crossPoint m offset length)).isSome := by
    rw [List.findSome?_isSome_iff]
    refine ⟨p, hp, ?_⟩
    by_contra hnone
    exact crossPoint_none.mp (by simpa using hnone) hcross
  obtain ⟨point, hpoint⟩ := Option.isSome_iff_exists.mp hsome
  obtain ⟨pre, p, post, htree, hp, hpre⟩ := List.findSome?_eq_some_iff.mp hpoint
  exact ⟨pre, p, post, point, htree, hpre, hp⟩

theorem splitPhys_divides (h : Cleanable o X W m) (hp : p ∈ m.tree r) (hcross : m.Crosses p point) :
    ∃ reply m', (∃ n, ∀ j ≥ n, splitPhys (o.withFuel j) p point m = .ok (reply, m')) ∧
      Cleanable o X W m' ∧ Divided o m m' := by
  cases hslab : o.slab .splitBlock m.tick with
  | none =>
    exact ⟨_, _, ⟨0, fun j _ => splitPhys_fails hcross h hp hslab⟩, h.ticked, .inl ⟨hslab, rfl⟩⟩
  | some nb =>
    obtain ⟨pr, pb, l, reply, m', done, news, first, hpr, hrun, hparted, hst', hnames, htick, hOK,
      hfail⟩ := splitPhys_parts h.walkable h.steady h.names hp hcross hslab
    obtain ⟨n, hn⟩ := h.weighs
    obtain ⟨n', -, hn'⟩ := hparted.lighter hn
    refine ⟨reply, m', hrun, ⟨hparted.walkable h.steady.trees h.walkable, hst', hnames, n', hn'⟩,
      .inr ⟨_, nb, pb, _, l, done, news, first, hslab, hparted, ⟨r, p, hp, pr, hpr, rfl⟩, htick,
        ?_⟩⟩
    by_cases hr : reply = .OK
    · exact .inl (hOK hr)
    · exact .inr (hfail hr)

theorem cleaning_divides (h : Cleanable o X W m) (hstep : Cleaning o r offset length m m') :
    Cleanable o X W m' ∧ Divided o m m' := by
  cases hstep with
  | @split pre post p point reply htree hpre hpoint hrun =>
    obtain ⟨n, hrun⟩ := hrun
    obtain ⟨reply', m₁, ⟨n', hrun'⟩, hclean, hdivided⟩ :=
      splitPhys_divides h (r := r) (p := p) (by simp [htree]) (crossPoint_crosses hpoint)
    have hsame := (hrun (max n n') (le_max_left ..)).symm.trans (hrun' _ (le_max_right ..))
    cases hsame
    exact ⟨hclean, hdivided⟩

theorem cleanLoop_short (h : Cleanable o X W m) (htree : m.tree r = pre ++ mid ++ p :: post)
    (hnone : ∀ a ∈ mid, crossPoint m offset length a = none) (hfuel : fuel ≤ mid.length) :
    cleanLoop (o.withFuel j) r offset length fuel (mid ++ p :: post).head? m = .error .hang := by
  obtain ⟨done, todo, rfl, hdone⟩ : ∃ done todo, mid = done ++ todo ∧ done.length = fuel :=
    ⟨mid.take fuel, mid.drop fuel, (List.take_append_drop fuel mid).symm,
      List.length_take_of_le hfuel⟩
  have htree' : m.tree r = pre ++ done ++ (todo ++ p :: post) := by rw [htree]; simp
  have hwalk : cleanLoop (o.withFuel j) r offset length (done.length + 0)
      (done ++ (todo ++ p :: post)).head? m =
      cleanLoop (o.withFuel j) r offset length 0 (todo ++ p :: post).head? m :=
    cleanLoop_walk h htree' fun a ha => hnone a (List.mem_append_left todo ha)
  rw [Nat.add_zero, hdone, ← List.append_assoc] at hwalk
  rw [hwalk]
  rfl

theorem cleanLoop_cleaning (h : Cleanable o X W m) (hstep : Cleaning o r offset length m m') :
    ∃ n rounds, 0 < rounds ∧
      (∀ j ≥ n, ∀ fuel,
        cleanLoop (o.withFuel j) r offset length (rounds + fuel) (m.tree r).head? m =
        cleanLoop (o.withFuel j) r offset length fuel (m'.tree r).head? m') ∧
      ∀ j, ∀ fuel < rounds,
        cleanLoop (o.withFuel j) r offset length fuel (m.tree r).head? m = .error .hang := by
  cases hstep with
  | @split pre post p point reply htree hpre hpoint hrun =>
    obtain ⟨n, hrun⟩ := hrun
    have htree' : m.tree r = [] ++ pre ++ p :: post := htree
    refine ⟨n, pre.length + 1, Nat.succ_pos _, fun j hj fuel => ?_, fun j fuel hfuel => ?_⟩
    · rw [Nat.add_assoc, htree, cleanLoop_walk h htree' hpre, Nat.add_comm 1, List.head?_cons]
      exact cleanLoop_part h (by simp [htree]) hpoint (hrun j hj)
    · rw [htree]
      exact cleanLoop_short h htree' hpre (Nat.le_of_lt_succ hfuel)

theorem Crossing.step (h : Cleanable o X W m) (hcross : Crossing m r offset length) :
    ∃ m', Cleaning o r offset length m m' := by
  obtain ⟨pre, p, post, point, htree, hpre, hpoint⟩ := hcross.first
  obtain ⟨reply, m', hrun, -⟩ :=
    splitPhys_divides h (r := r) (p := p) (by simp [htree]) (crossPoint_crosses hpoint)
  exact ⟨m', .split htree hpre hpoint hrun⟩

theorem cleanLoop_done (h : Cleanable o X W m) (hcross : ¬ Crossing m r offset length)
    (hfuel : (m.tree r).length < fuel) :
    cleanLoop (o.withFuel j) r offset length fuel (m.tree r).head? m = .ok m := by
  have hnone : ∀ a ∈ m.tree r, crossPoint m offset length a = none := fun a ha =>
    crossPoint_none.mpr fun hcrosses => hcross ⟨a, ha, hcrosses⟩
  obtain ⟨k, rfl⟩ := Nat.exists_eq_add_of_lt hfuel
  have htree : m.tree r = [] ++ m.tree r ++ [] := by simp
  have hwalk : cleanLoop (o.withFuel j) r offset length ((m.tree r).length + (k + 1))
      (m.tree r ++ []).head? m = cleanLoop (o.withFuel j) r offset length (k + 1) none m :=
    cleanLoop_walk h htree hnone
  rw [List.append_nil] at hwalk
  rw [Nat.add_assoc, hwalk]
  rfl

theorem AlwaysSplits.next (h : AlwaysSplits o r offset length m)
    (hstep : Cleaning o r offset length m m') : AlwaysSplits o r offset length m' :=
  fun x hx => h x (.head hstep hx)

theorem cleanLoop_before (h : Cleanable o X W m) (hstep : Cleaning o r offset length m m₁)
    (hrest : ∃ m' n, (∀ j ≥ n, ∀ fuel ≥ n,
        cleanLoop (o.withFuel j) r offset length fuel (m₁.tree r).head? m₁ = .ok m') ∧
      ReflTransGen (Cleaning o r offset length) m₁ m' ∧ ¬ Crossing m' r offset length) :
    ∃ m' n, (∀ j ≥ n, ∀ fuel ≥ n,
        cleanLoop (o.withFuel j) r offset length fuel (m.tree r).head? m = .ok m') ∧
      ReflTransGen (Cleaning o r offset length) m m' ∧ ¬ Crossing m' r offset length := by
  obtain ⟨m', n', hrun, hreach, hclean⟩ := hrest
  obtain ⟨n, rounds, -, hround, -⟩ := cleanLoop_cleaning h hstep
  refine ⟨m', max n n' + rounds, fun j hj fuel hfuel => ?_, .head hstep hreach, hclean⟩
  have hn := le_max_left n n'
  have hn' := le_max_right n n'
  obtain ⟨k, rfl⟩ := Nat.exists_eq_add_of_le (show rounds ≤ fuel by omega)
  rw [hround j (by omega)]
  exact hrun j (by omega) k (by omega)

theorem cleanLoop_returns (h : Cleanable o X W m) (hsplits : AlwaysSplits o r offset length m) :
    ∃ m' n, (∀ j ≥ n, ∀ fuel ≥ n,
        cleanLoop (o.withFuel j) r offset length fuel (m.tree r).head? m = .ok m') ∧
      ReflTransGen (Cleaning o r offset length) m m' ∧ ¬ Crossing m' r offset length := by
  obtain ⟨weight, hweight⟩ := h.weighs
  induction weight using Nat.strong_induction_on generalizing m with
  | _ weight ih =>
    by_cases hcross : Crossing m r offset length
    · obtain ⟨t, ht, hslab⟩ := hsplits m .refl hcross
      obtain ⟨wait, rfl⟩ := Nat.exists_eq_add_of_le ht
      induction wait generalizing m with
      | zero =>
        obtain ⟨m₁, hstep⟩ := hcross.step h
        obtain ⟨h₁, hdivided⟩ := cleaning_divides h hstep
        refine cleanLoop_before h hstep ?_
        rcases hdivided with ⟨hnone, -⟩ | ⟨b, nb, pb, k, l, done, news, first, -, hparted, -⟩
        · simp [hnone] at hslab
        · obtain ⟨n', hlt, hn'⟩ := hparted.lighter hweight
          exact ih n' hlt h₁ (hsplits.next hstep) hn'
      | succ wait ihw =>
        obtain ⟨m₁, hstep⟩ := hcross.step h
        obtain ⟨h₁, hdivided⟩ := cleaning_divides h hstep
        refine cleanLoop_before h hstep ?_
        rcases hdivided with ⟨-, rfl⟩ | ⟨b, nb, pb, k, l, done, news, first, -, hparted, -⟩
        · refine ihw h₁ (hsplits.next hstep) hweight hcross (Nat.le_add_right ..) ?_
          rwa [show m.ticked.tick + wait = m.tick + (wait + 1) from Nat.succ_add_eq_add_succ ..]
        · obtain ⟨n', hlt, hn'⟩ := hparted.lighter hweight
          exact ih n' hlt h₁ (hsplits.next hstep) hn'
    · refine ⟨m, (m.tree r).length + 1, fun j _ fuel hfuel => ?_, .refl, hcross⟩
      exact cleanLoop_done h hcross (by omega)

theorem cleanLoop_hangs (h : Cleanable o X W m) (hcross : Crossing m r offset length)
    (hslab : ∀ t ≥ m.tick, o.slab .splitBlock t = none) :
    cleanLoop (o.withFuel j) r offset length fuel (m.tree r).head? m = .error .hang := by
  induction fuel using Nat.strong_induction_on generalizing m with
  | _ fuel ih =>
    obtain ⟨pre, p, post, point, htree, hpre, hpoint⟩ := hcross.first
    have htree' : m.tree r = [] ++ pre ++ p :: post := htree
    by_cases hfuel : fuel ≤ pre.length
    · rw [htree]
      exact cleanLoop_short h htree' hpre hfuel
    · obtain ⟨k, rfl⟩ := Nat.exists_eq_add_of_lt (Nat.lt_of_not_le hfuel)
      have hp : p ∈ m.tree r := by simp [htree]
      have hsplit : splitPhys (o.withFuel j) p point m = .ok (.ENOMEM, m.ticked) :=
        splitPhys_fails (crossPoint_crosses hpoint) h hp (hslab m.tick le_rfl)
      rw [Nat.add_assoc, htree, cleanLoop_walk h htree' hpre, List.head?_cons,
        cleanLoop_part h hp hpoint hsplit]
      exact ih k (by omega) h.ticked hcross fun t ht => hslab t ((Nat.le_succ _).trans ht)

theorem cleanLoop_reaches (h : Cleanable o X W m)
    (hreach : ReflTransGen (Cleaning o r offset length) m m') :
    Cleanable o X W m' ∧ ∃ n, ∀ j ≥ n, ∀ fuel x,
      cleanLoop (o.withFuel j) r offset length fuel (m.tree r).head? m = .ok x →
      ∃ fuel', cleanLoop (o.withFuel j) r offset length fuel' (m'.tree r).head? m' = .ok x := by
  induction hreach with
  | refl => exact ⟨h, 0, fun j _ fuel x hx => ⟨fuel, hx⟩⟩
  | @tail m₁ m' hreach hstep ih =>
    obtain ⟨h₁, n₁, hpass₁⟩ := ih
    obtain ⟨n, rounds, hpos, hround, hshort⟩ := cleanLoop_cleaning h₁ hstep
    refine ⟨(cleaning_divides h₁ hstep).1, max n n₁, fun j hj fuel x hx => ?_⟩
    obtain ⟨fuel', hx'⟩ := hpass₁ j ((le_max_right ..).trans hj) fuel x hx
    by_cases hlt : fuel' < rounds
    · rw [hshort j fuel' hlt] at hx'
      cases hx'
    · obtain ⟨k, rfl⟩ := Nat.exists_eq_add_of_le (Nat.le_of_not_lt hlt)
      rw [hround j ((le_max_left ..).trans hj)] at hx'
      exact ⟨k, hx'⟩

theorem cleanPhysRegions_returns_iff (h : Cleanable o X W m) :
    (∃ m' n, ∀ j ≥ n, cleanPhysRegions (o.withFuel j) r offset length m = .ok m') ↔
      AlwaysSplits o r offset length m := by
  constructor
  · rintro ⟨x, n, hrun⟩ m' hreach hcross
    by_contra hnone
    have hslab : ∀ t ≥ m'.tick, o.slab .splitBlock t = none := by
      intro t ht
      by_contra hsome
      exact hnone ⟨t, ht, Option.isSome_iff_ne_none.mpr hsome⟩
    obtain ⟨h', n', hpass⟩ := cleanLoop_reaches h hreach
    obtain ⟨fuel', hx⟩ := hpass (max n n') (le_max_right ..) (max n n') x (hrun _ (le_max_left ..))
    rw [cleanLoop_hangs h' hcross hslab] at hx
    cases hx
  · intro hsplits
    obtain ⟨m', n, hrun, -, -⟩ := cleanLoop_returns h hsplits
    exact ⟨m', n, fun j hj => hrun j hj j hj⟩

end Loop

end Vm
