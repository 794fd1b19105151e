import Cs111.Vm.PhysCalls

namespace Vm
open Kernel (Fault kassert bind_ok kassert_bind_ok pure_ok)

structure Held (X : Set RegionId) (W : (ProcId → List RegionId) × Set RegionId) : Prop where
  live : ∀ v, ∀ r ∈ W.1 v, r ∉ X ∧ r ∈ W.2
  nodup : ∀ v, (W.1 v).Nodup
  one : ∀ v v' r, r ∈ W.1 v → r ∈ W.1 v' → v = v'

section Regions
variable {o : Outcomes} {m m' : Memory} {L : Set PhysrId} {X X' R : Set RegionId}
  {W : (ProcId → List RegionId) × Set RegionId} {v : ProcId} {r n : RegionId}
  {regions l : List RegionId} {reply : VmReply}

theorem Kept.setVmRegions (hk : Kept L X W m) :
    Kept L X (Function.update W.1 v l, W.2) (m.setVmRegions v l) := by
  refine ⟨hk.lists.congr rfl fun _ => rfl, hk.trees.congr (fun _ => rfl) fun _ => rfl,
    hk.balanced.congr (fun _ => rfl) rfl rfl rfl, ?_⟩
  rw [← hk.roll]
  rfl

theorem Held.mono (hh : Held X W) (hX : X' ⊆ insert n X) (hn : n ∉ W.2) (hR : W.2 ⊆ R) :
    Held X' (W.1, R) where
  live v r hr := by
    obtain ⟨hrX, hrW⟩ := hh.live v r hr
    refine ⟨fun hx => ?_, hR hrW⟩
    rcases Set.mem_insert_iff.mp (hX hx) with rfl | hx
    · exact hn hrW
    · exact hrX hx
  nodup := hh.nodup
  one := hh.one

theorem Held.fewer (hh : Held X W) (hl : l.Sublist (W.1 v)) :
    Held X (Function.update W.1 v l, W.2) := by
  have hsub : ∀ v', (Function.update W.1 v l v').Sublist (W.1 v') := fun v' => by
    by_cases hv : v' = v
    · subst hv
      rwa [Function.update_self]
    · rw [Function.update_of_ne hv]
  exact ⟨fun v' r' hr' => hh.live v' r' ((hsub v').subset hr'),
    fun v' => (hh.nodup v').sublist (hsub v'),
    fun v₁ v₂ r' h₁ h₂ => hh.one v₁ v₂ r' ((hsub v₁).subset h₁) ((hsub v₂).subset h₂)⟩

theorem Held.without (hh : Held X W) (hr : r ∈ W.1 v) (hl : l.Sublist (W.1 v)) (hrl : r ∉ l)
    (hX : X' ⊆ insert r X) (hR : W.2 \ {r} ⊆ R) : Held X' (Function.update W.1 v l, R) := by
  have hfewer := hh.fewer hl
  refine ⟨fun v' r' hr' => ?_, hfewer.nodup, hfewer.one⟩
  obtain ⟨hX', hlive⟩ := hfewer.live v' r' hr'
  have hne : r' ≠ r := by
    rintro rfl
    by_cases hv : v' = v
    · subst hv
      exact hrl (by simpa using hr')
    · replace hr' : r' ∈ Function.update W.1 v l v' := hr'
      rw [Function.update_of_ne hv] at hr'
      exact hv (hh.one v' v r' hr' hr)
  exact ⟨fun hx => hX' ((Set.mem_insert_iff.mp (hX hx)).resolve_left hne), hR ⟨hlive, hne⟩⟩

theorem Held.added (hh : Held X W) (hn : n ∉ W.2) (hl : l.Perm (n :: W.1 v)) :
    Held (X \ {n}) (Function.update W.1 v l, insert n W.2) := by
  have hfresh : ∀ v', n ∉ W.1 v' := fun v' hmem => hn (hh.live v' n hmem).2
  have hcases : ∀ v' r', r' ∈ Function.update W.1 v l v' → r' = n ∧ v' = v ∨ r' ∈ W.1 v' := by
    intro v' r' hr'
    by_cases hv : v' = v
    · subst hv
      rw [Function.update_self, hl.mem_iff, List.mem_cons] at hr'
      exact hr'.imp_left fun he => ⟨he, rfl⟩
    · rw [Function.update_of_ne hv] at hr'
      exact .inr hr'
  refine ⟨fun v' r' hr' => ?_, fun v' => ?_, fun v₁ v₂ r' h₁ h₂ => ?_⟩
  · rcases hcases v' r' hr' with ⟨rfl, _⟩ | hr'
    · exact ⟨fun hx => hx.2 rfl, Set.mem_insert r' W.2⟩
    · obtain ⟨hX', hlive⟩ := hh.live v' r' hr'
      exact ⟨fun hx => hX' hx.1, Set.mem_insert_of_mem n hlive⟩
  · change (Function.update W.1 v l v').Nodup
    by_cases hv : v' = v
    · subst hv
      rw [Function.update_self, hl.nodup_iff]
      exact List.nodup_cons.mpr ⟨hfresh v', hh.nodup v'⟩
    · rw [Function.update_of_ne hv]
      exact hh.nodup v'
  · rcases hcases v₁ r' h₁ with ⟨hr₁, hv₁⟩ | hold₁ <;>
      rcases hcases v₂ r' h₂ with ⟨hr₂, hv₂⟩ | hold₂
    · exact hv₁.trans hv₂.symm
    · exact absurd (hr₁ ▸ hold₂) (hfresh v₂)
    · exact absurd (hr₂ ▸ hold₁) (hfresh v₁)
    · exact hh.one v₁ v₂ r' hold₁ hold₂

def Kept.Ready (L : Set PhysrId) (m : Memory) : Prop := ∃ X W, Kept L X W m ∧ Held X W

theorem mapFreeAll_ok (hs : Supplied o) (hk : Kept L X W m) (hh : Held X W)
    (hregions : W.1 v = regions) (hok : mapFreeAll o v regions m = .ok m') : Kept.Ready L m' := by
  induction regions generalizing m X W with
  | nil =>
    cases pure_ok.mp hok
    refine ⟨X, _, hk.setVmRegions, ?_⟩
    rw [← hregions, Function.update_eq_self]
    exact hh
  | cons r rest ih =>
    obtain ⟨⟨reply, m₁⟩, hfree, hok⟩ := bind_ok.mp hok
    have hr : r ∈ W.1 v := by simp [hregions]
    obtain ⟨X', R, hX, hR, hk₁⟩ := mapFree_ok hs hk (hh.live v r hr).1 hfree
    have hnodup := hh.nodup v
    rw [hregions] at hnodup
    have hrest : rest.Sublist (W.1 v) := by
      rw [hregions]
      exact List.sublist_cons_self r rest
    exact ih hk₁.setVmRegions (hh.without hr hrest (List.nodup_cons.mp hnodup).1 hX hR)
      (Function.update_self ..) hok

theorem mapFreeProc_ok (hs : Supplied o) (hk : Kept.Ready L m) (hok : mapFreeProc o v m = .ok m') :
    Kept.Ready L m' := by
  obtain ⟨X, W, hk, hh⟩ := hk
  have hregions : W.1 v = m.vmRegions v := by
    rw [← hk.roll]
    rfl
  exact mapFreeAll_ok hs hk hh hregions hok

end Regions

section Limbo
variable {o : Outcomes} {m m' : Memory} {L : Set PhysrId} {X : Set RegionId}
  {W : (ProcId → List RegionId) × Set RegionId} {p q : PhysrId} {r n : RegionId}
  {vr vr' : MappedRegion} {pr : PhysRegion} {fuel : ℕ} {l : List PhysrId}

theorem Kept.sameTree (hk : Kept L X W m) (hvr : m.region n = some vr)
    (hphys : vr'.phys = vr.phys) : Kept L X W (m.setRegion n vr') where
  lists := hk.lists.congr rfl fun _ => rfl
  trees := hk.trees.congr (fun r' => by
    rw [tree_setRegion]
    split
    · rename_i he
      rw [he, hphys, tree_of_some hvr]
    · rfl) fun _ => rfl
  balanced := hk.balanced.congr (fun _ => rfl) rfl rfl rfl
  roll := (roll_setRegion hvr).trans hk.roll

theorem Kept.newRegion (hk : Kept L X W m) (hphys : vr.phys = []) :
    Kept L (X \ {n}) (W.1, insert n W.2) (m.setRegion n vr) where
  lists := hk.lists.congr rfl fun _ => rfl
  trees := by
    refine ⟨fun r' p hp => ?_, fun r' => ?_, fun r' hr' => ?_⟩
    · rw [tree_setRegion, hphys] at hp
      split at hp
      · exact absurd hp List.not_mem_nil
      · exact hk.trees.owned r' p hp
    · rw [tree_setRegion, hphys]
      split
      · exact List.nodup_nil
      · exact hk.trees.nodup r'
    · rw [tree_setRegion, hphys]
      split
      · exact List.Pairwise.nil
      · rename_i hne
        exact hk.trees.ordered r' fun hx => hr' ⟨hx, hne⟩
  balanced := hk.balanced.congr (fun _ => rfl) rfl rfl rfl
  roll := by
    rw [← hk.roll]
    refine Prod.ext rfl (Set.ext fun r' => ?_)
    by_cases hr : r' = n
    · subst hr
      simp [Memory.roll, Memory.setRegion]
    · simp [Memory.roll, Memory.setRegion, hr]

theorem Kept.alloc (hk : Kept L X W m) (hp : m.physr p = none) :
    Kept (insert p L) X W (m.setPhysr p pr) where
  lists := hk.lists.alloc hp
  trees := hk.trees.outside (fun _ => rfl) (hk.trees.notMem hp) fun q hq => by
    simp [Memory.setPhysr, hq]
  balanced := hk.balanced.congr (fun _ => rfl) rfl rfl rfl
  roll := hk.roll

theorem nextIn_ok {α : Type} [DecidableEq α] {a : α} {l : List α} {x : Option α}
    (h : nextIn a l = some x) : ∃ pre post, l = pre ++ a :: post ∧ x = post.head? := by
  induction l with
  | nil => exact absurd h (by simp [nextIn])
  | cons b l ih =>
    rw [nextIn] at h
    split at h
    · rename_i hb
      subst hb
      exact ⟨[], l, rfl, (Option.some.inj h).symm⟩
    · obtain ⟨pre, post, rfl, hx⟩ := ih h
      exact ⟨b :: pre, post, rfl, hx⟩

theorem ByOffset.next {x : Option PhysrId} (h : ByOffset m l) (hx : nextIn p l = some x) :
    (∀ a ∈ x, a ∈ l ∧ m.offset p < m.offset a) ∧
      ∀ a ∈ l, m.offset p < m.offset a → ∃ b ∈ x, m.offset b ≤ m.offset a := by
  obtain ⟨pre, post, rfl, rfl⟩ := nextIn_ok hx
  obtain ⟨_, hpost, hcross⟩ := List.pairwise_append.mp h
  obtain ⟨hlt, hpost⟩ := List.pairwise_cons.mp hpost
  refine ⟨fun a ha => ?_, fun a ha hpa => ?_⟩
  · have ha := List.mem_of_head? ha
    exact ⟨by simp [ha], hlt a ha⟩
  · rcases List.mem_append.mp ha with ha | ha
    · have hap := hcross a ha p List.mem_cons_self
      omega
    · rcases List.mem_cons.mp ha with rfl | ha
      · omega
      · cases post with
        | nil => exact absurd ha List.not_mem_nil
        | cons b post =>
          refine ⟨b, rfl, ?_⟩
          rcases List.mem_cons.mp ha with rfl | ha
          · exact le_rfl
          · exact ((List.pairwise_cons.mp hpost).1 a ha).le

structure Copying (m : Memory) (L : Set PhysrId) (r n : RegionId) (at_ : Option PhysrId) :
    Prop where
  limbo : ∀ q, q ∈ L ↔ q ∈ m.tree n
  start : ∀ p ∈ at_, p ∈ m.tree r ∧ ∀ q ∈ m.tree n, m.offset q < m.offset p

theorem Copying.step {m₁ : Memory} {x : Option PhysrId} {at_ : Option PhysrId}
    (hc : Copying m L r n at_) (pr : PhysRegion) (hat : p ∈ at_)
    (hk : Kept L X W m) (hr : r ∉ X) (hne : r ≠ n) (hq : m.physr q = none)
    (hoffset : pr.offset = m.offset p) (hparent : pr.parent = n)
    (hinsert : physrInsert (m.setPhysr q pr) n q = .ok m₁) (hx : nextIn p (m₁.tree r) = some x) :
    Kept (insert q L) X W m₁ ∧ Copying m₁ (insert q L) r n x := by
  obtain ⟨hp, hbefore⟩ := hc.start p hat
  have hqt : ∀ r', q ∉ m.tree r' := hk.trees.notMem hq
  have hpr : (m.setPhysr q pr).physr q = some pr := Function.update_self ..
  have hk₀ : Kept (insert q L) X W (m.setPhysr q pr) := hk.alloc hq
  have hk₁ := hk₀.inserted hinsert hpr hparent (hqt n)
  obtain ⟨vr, _, rfl⟩ := physrInsert_ok hinsert
  have hsame : ∀ r', ∀ a ∈ m.tree r', (m.setPhysr q pr).offset a = m.offset a := fun r' a ha => by
    rw [offset_setPhysr, if_neg]
    rintro rfl
    exact hqt r' ha
  have hlast : placed (m.setPhysr q pr) q (m.tree n) = m.tree n ++ [q] := placed_last fun a ha => by
    rw [hsame n a ha, offset_setPhysr, if_pos rfl, hoffset]
    exact hbefore a ha
  have htn : ∀ a, a ∈ ((m.setPhysr q pr).setRegion n
      { vr with phys := placed (m.setPhysr q pr) q (m.tree n) }).tree n ↔ a ∈ m.tree n ∨ a = q := by
    intro a
    rw [tree_setRegion, if_pos rfl, hlast]
    simp
  have htr : ((m.setPhysr q pr).setRegion n
      { vr with phys := placed (m.setPhysr q pr) q (m.tree n) }).tree r = m.tree r := by
    rw [tree_setRegion, if_neg hne]
    rfl
  refine ⟨hk₁, fun a => ?_, fun a ha => ?_⟩
  · refine Iff.trans ?_ (htn a).symm
    rw [Set.mem_insert_iff, hc.limbo a]
    exact or_comm
  · replace hx : nextIn p (m.tree r) = some x := by
      rw [← htr]
      exact hx
    obtain ⟨hamem, hlt⟩ := ((hk.trees.ordered r hr).next hx).1 a ha
    have hamem' := hamem
    rw [← htr] at hamem'
    refine ⟨hamem', fun b hb => ?_⟩
    change (m.setPhysr q pr).offset b < (m.setPhysr q pr).offset a
    rw [hsame r a hamem]
    rcases (htn b).mp hb with hb | rfl
    · rw [hsame n b hb]
      exact (hbefore b hb).trans hlt
    · rw [offset_setPhysr, if_pos rfl, hoffset]
      exact hlt

def Copied (X : Set RegionId) (W : (ProcId → List RegionId) × Set RegionId) (m' : Memory)
    (n : RegionId) (copied : Bool) : Prop :=
  if copied then ∃ L, (∀ q, q ∈ L ↔ q ∈ m'.tree n) ∧ Kept L X W m'
  else ∃ X' R, X' ⊆ insert n X ∧ W.2 \ {n} ⊆ R ∧ Kept ∅ X' (W.1, R) m'

theorem copyPhysrs_ok {copied : Bool} {at_ : Option PhysrId} (hs : Supplied o) (hk : Kept L X W m)
    (hr : r ∉ X) (hn : n ∉ X) (hne : r ≠ n) (hc : Copying m L r n at_)
    (hok : copyPhysrs o r n fuel at_ m = .ok (copied, m')) : Copied X W m' n copied := by
  induction fuel generalizing at_ m L with
  | zero => exact absurd hok (by simp [copyPhysrs])
  | succ fuel ih =>
    cases at_ with
    | none =>
      cases pure_ok.mp hok
      exact ⟨L, hc.limbo, hk⟩
    | some p =>
      obtain ⟨ph, hph, hok⟩ := bind_ok.mp hok
      obtain ⟨⟨newph, m₁⟩, hslab, hok⟩ := bind_ok.mp hok
      obtain ⟨rfl, hfree, hnone⟩ := slaballoc_ok hslab
      cases newph with
      | none =>
        obtain ⟨⟨reply, m₁⟩, hmfree, hok⟩ := bind_ok.mp hok
        cases pure_ok.mp hok
        have hempty : m.tree n = [] := by
          by_contra hfull
          have hsite := hnone rfl
          rw [if_neg (by simpa using hfull)] at hsite
          have hsome := hs.copies m.tick
          simp [hsite] at hsome
        obtain rfl : L = ∅ := by
          ext q
          simp [hc.limbo, hempty]
        exact mapFree_ok hs hk.ticked hn hmfree
      | some q =>
        obtain ⟨m₂, hinsert, hok⟩ := bind_ok.mp hok
        obtain ⟨x, hx, hok⟩ := bind_ok.mp hok
        have hticked : Copying m.ticked L r n (some p) := ⟨hc.limbo, hc.start⟩
        obtain ⟨hk₁, hc₁⟩ := hticked.step ⟨ph.ph, n, ph.offset, none⟩ rfl hk.ticked hr hne
          (hfree q rfl) (offset_of_some (deref_ok hph)).symm rfl hinsert (deref_ok hx)
        exact ih hk₁ hc₁ hok

theorem mapCopyRegion_ok {v : ProcId} {copy : Option RegionId} (hs : Supplied o)
    (hk : Kept ∅ X W m) (hh : Held X W) (hrv : r ∈ W.1 v)
    (hok : mapCopyRegion o r m = .ok (copy, m')) : (copy = none ∧ Kept.Ready ∅ m') ∨
      ∃ n L, copy = some n ∧ n ∉ W.2 ∧ (∀ q, q ∈ L ↔ q ∈ m'.tree n) ∧
        Kept L (X \ {n}) (W.1, insert n W.2) m' := by
  obtain ⟨⟨newvr, m₁⟩, hslab, hok⟩ := bind_ok.mp hok
  obtain ⟨rfl, hfree, _⟩ := slaballoc_ok hslab
  cases newvr with
  | none =>
    cases pure_ok.mp hok
    exact .inl ⟨rfl, X, W, hk.ticked, hh⟩
  | some n =>
    obtain ⟨⟨phavl, m₁⟩, hslab', hok⟩ := bind_ok.mp hok
    obtain ⟨rfl, _, _⟩ := slaballoc_ok hslab'
    cases phavl with
    | none =>
      cases pure_ok.mp hok
      exact .inl ⟨rfl, X, W, hk.ticked.ticked, hh⟩
    | some avl =>
      obtain ⟨vr, hvr, hok⟩ := bind_ok.mp hok
      obtain ⟨⟨copied, m₁⟩, hcopy, hok⟩ := bind_ok.mp hok
      cases pure_ok.mp hok
      obtain ⟨hrX, hrW⟩ := hh.live v r hrv
      have hn : n ∉ W.2 := by
        rw [← hk.roll]
        simp [Memory.roll, hfree n rfl]
      have hne : r ≠ n := fun he => hn (he ▸ hrW)
      have hk₁ : Kept ∅ (X \ {n}) (W.1, insert n W.2)
          (m.ticked.ticked.setRegion n { vr with phys := [] }) := hk.ticked.ticked.newRegion rfl
      have htree : (m.ticked.ticked.setRegion n { vr with phys := [] }).tree n = [] := by
        rw [tree_setRegion, if_pos rfl]
      have hstart : Copying (m.ticked.ticked.setRegion n { vr with phys := [] }) ∅ r n
          ((m.ticked.ticked.setRegion n { vr with phys := [] }).tree r).head? := by
        refine ⟨fun q => by simp [htree], fun p hp => ⟨List.mem_of_head? hp, fun q hq => ?_⟩⟩
        rw [htree] at hq
        exact absurd hq List.not_mem_nil
      have hcopied := copyPhysrs_ok hs hk₁ (fun hx => hrX hx.1) (fun hx => hx.2 rfl) hne hstart hcopy
      cases copied with
      | true =>
        obtain ⟨L, hL, hk'⟩ := hcopied
        exact .inr ⟨n, L, rfl, hn, hL, hk'⟩
      | false =>
        obtain ⟨X', R, hX, hR, hk'⟩ := hcopied
        refine .inl ⟨rfl, X', _, hk', hh.mono (hX.trans ?_) hn fun r' hr' => ?_⟩
        · exact Set.insert_subset_insert Set.sdiff_subset
        · exact hR ⟨Set.mem_insert_of_mem n hr', fun he => hn (he ▸ hr')⟩

end Limbo

section Count
variable {o : Outcomes} {m m' m₁ : Memory} {L : Set PhysrId} {X : Set RegionId}
  {W : (ProcId → List RegionId) × Set RegionId} {p q : PhysrId} {r n : RegionId}
  {fuel : ℕ} {l : List PhysrId} {b : BlockId} {pb : PhysBlock} {new x : Option PhysrId}

theorem linkPhysr_ok (hk : Kept (insert p L) X W m) (hp : p ∉ L)
    (hok : linkPhysr p m = .ok m') : Kept L X W m' ∧ Bare m m' := by
  obtain ⟨ph, hph, hok⟩ := bind_ok.mp hok
  obtain ⟨pb, hpb, hok⟩ := bind_ok.mp hok
  obtain ⟨_, hok⟩ := kassert_bind_ok.mp hok
  obtain rfl := pure_ok.mp hok
  have hph := deref_ok hph
  have hpb := deref_ok hpb
  have hbare : Bare m ((m.setPhysr p { ph with nextPhList := pb.firstregion }).setBlock ph.ph
      { pb with firstregion := some p, refcount := pb.refcount + 1 }) := by
    refine ⟨fun q => ?_, rfl, rfl⟩
    by_cases hq : q = p
    · subst hq
      simp [Memory.setPhysr, Memory.setBlock, PhysRegion.bare, hph]
    · simp [Memory.setPhysr, Memory.setBlock, hq]
  refine ⟨⟨hk.lists.link hp hph hpb, hbare.trees hk.trees, hk.balanced.congr (fun b => ?_) rfl rfl rfl,
    hbare.roll.trans hk.roll⟩, hbare⟩
  by_cases hb : b = ph.ph
  · subst hb
    simp [Memory.setPhysr, Memory.setBlock, hpb, PhysBlock.mem]
  · simp [Memory.setPhysr, Memory.setBlock, hb]

theorem Kept.setShare {shareFlag : BitVec 8} (hk : Kept L X W m) (hpb : m.block b = some pb) :
    Kept L X W (m.setBlock b { pb with shareFlag }) where
  lists := hk.lists.congr rfl fun b' => by
    by_cases hb : b' = b
    · subst hb
      simp [Memory.setBlock, hpb]
    · simp [Memory.setBlock, hb]
  trees := hk.trees.congr (fun _ => rfl) fun _ => rfl
  balanced := hk.balanced.congr (fun b' => by
    by_cases hb : b' = b
    · subst hb
      simp [Memory.setBlock, hpb, PhysBlock.mem]
    · simp [Memory.setBlock, hb]) rfl rfl rfl
  roll := hk.roll

structure Counting (m : Memory) (L : Set PhysrId) (r n : RegionId) (new : Option PhysrId) :
    Prop where
  limbo : ∀ a ∈ L, a ∈ m.tree n ∧ ∃ q ∈ new, m.offset q ≤ m.offset a
  start : ∀ q ∈ new, q ∈ m.tree n
  apart : ∀ a ∈ m.tree n, a ∉ L → (∃ q ∈ new, m.offset q ≤ m.offset a) →
    ∀ p ∈ m.tree r, ∀ b, m.PointsTo p b → ¬ m.PointsTo a b

theorem Counting.mem (hc : Counting m L r n (some q)) (hp : p ∈ m.tree r) (hpb : m.PointsTo p b)
    (hqb : m.PointsTo q b) : q ∈ L := by
  by_contra hq
  exact hc.apart q (hc.start q rfl) hq ⟨q, rfl, le_rfl⟩ p hp b hpb hqb

theorem Counting.next (hc : Counting m L r n (some q)) (hbare : Bare m m₁)
    (horder : ByOffset m (m.tree n)) (hx : nextIn q (m.tree n) = some x) :
    Counting m₁ (L \ {q}) r n x := by
  obtain ⟨hafter, hreach⟩ := horder.next hx
  refine ⟨fun a ha => ?_, fun a ha => ?_, fun a ha haL hlater p hp b hpb hab => ?_⟩
  · obtain ⟨hamem, hle⟩ := hc.limbo a ha.1
    obtain ⟨q', hq', hle⟩ := hle
    cases hq'
    have hne : m.offset a ≠ m.offset q := fun he =>
      ha.2 (horder.unique (hc.start q rfl) hamem he)
    obtain ⟨c, hcx, hle'⟩ := hreach a hamem (by omega)
    rw [hbare.tree, hbare.offset]
    exact ⟨hamem, c, hcx, by rwa [hbare.offset]⟩
  · rw [hbare.tree]
    exact (hafter a ha).1
  · obtain ⟨c, hcx, hle⟩ := hlater
    rw [hbare.tree] at ha hp
    rw [hbare.offset, hbare.offset] at hle
    have hlt := (hafter c hcx).2
    have haL' : a ∉ L := fun haL' => haL ⟨haL', fun he => by
      rw [Set.mem_singleton_iff.mp he] at hle
      omega⟩
    exact hc.apart a ha haL' ⟨q, rfl, by omega⟩ p hp b (hbare.pointsTo.mp hpb)
      (hbare.pointsTo.mp hab)

theorem Trees.pointsTo (ht : Trees X m) (hp : p ∈ m.tree r) : ∃ b, m.PointsTo p b := by
  obtain ⟨pr, hpr, _⟩ := ht.owned r p hp
  exact ⟨pr.ph, pr, hpr, rfl⟩

theorem Counting.cloned {m₂ : Memory} {q₁ : PhysrId} (hc : Counting m L r n (some q))
    (hne : r ≠ n) (ht : Trees X m) (horder : ByOffset m (m.tree n)) (hbare : Bare m m₂)
    (hclone : Cloned o m₂ m₁ (L \ {q}) n q q₁ 0) (horder₁ : ByOffset m₁ (m₁.tree n))
    (hx : nextIn q₁ (m₁.tree n) = some x) : Counting m₁ (L \ {q}) r n x := by
  have hoffset : m₁.offset q₁ = m.offset q := hclone.offset.trans (hbare.offset q)
  obtain ⟨hafter, hreach⟩ := horder₁.next hx
  refine ⟨fun a ha => ?_, fun a ha => (hafter a ha).1, fun a ha haL hlater p hp b hpb hab => ?_⟩
  · obtain ⟨hamem, q', hq', hle⟩ := hc.limbo a ha.1
    cases hq'
    have hne : m.offset a ≠ m.offset q := fun he =>
      ha.2 (horder.unique (hc.start q rfl) hamem he)
    obtain ⟨hamem₁, hoffa⟩ := hclone.keeps a (by rwa [hbare.tree]) ha.2
    rw [hbare.offset] at hoffa
    exact ⟨hamem₁, hreach a hamem₁ (by omega)⟩
  · obtain ⟨c, hcx, hle⟩ := hlater
    have hlt := (hafter c hcx).2
    rw [hclone.others r hne, hbare.tree] at hp
    have hpq : p ≠ q := by
      rintro rfl
      exact hne (ht.one_tree (hc.start p rfl) hp)
    obtain ⟨b₀, hb₀⟩ := ht.pointsTo hp
    obtain rfl := pointsTo_unique (hclone.points p hpq b₀ (hbare.pointsTo.mpr hb₀)) hpb
    obtain ⟨_, _, _, _, hfresh⟩ := hclone.fresh
    rcases hfresh a ha with ⟨haq, hamem, hoffa⟩ | ⟨_, hnew⟩
    · rw [hbare.tree] at hamem
      rw [hbare.offset] at hoffa
      obtain ⟨b₁, hb₁⟩ := ht.pointsTo hamem
      obtain rfl := pointsTo_unique (hclone.points a haq b₁ (hbare.pointsTo.mpr hb₁)) hab
      exact hc.apart a hamem (fun haL' => haL ⟨haL', haq⟩) ⟨q, rfl, by omega⟩ p hp b₁ hb₀ hb₁
    · refine hnew p hpq (fun hpL => ?_) b₀ (hbare.pointsTo.mpr hb₀) hab
      exact hne (ht.one_tree (hc.limbo p hpL.1).1 hp)

theorem physrIncr_ok (hok : physrIncr m r p = .ok x) : nextIn p (m.tree r) = some x :=
  deref_ok hok

theorem nextIn_mem {a : PhysrId} (h : nextIn p l = some x) (ha : a ∈ x) : a ∈ l := by
  obtain ⟨pre, post, rfl, rfl⟩ := nextIn_ok h
  have ha := List.mem_of_head? ha
  simp [ha]

theorem countCopies_ok {orig : Option PhysrId} (hk : Kept L X W m) (hr : r ≠ n) (hn : n ∉ X)
    (hc : Counting m L r n new) (horig : ∀ p ∈ orig, p ∈ m.tree r)
    (hok : countCopies o r n fuel orig new m = .ok m') : Kept ∅ X W m' := by
  induction fuel generalizing orig new m L with
  | zero => exact absurd hok (by simp [countCopies])
  | succ fuel ih =>
    cases orig with
    | none =>
      obtain ⟨hnew, hok⟩ := kassert_bind_ok.mp hok
      cases pure_ok.mp hok
      obtain rfl : L = ∅ := by
        refine Set.eq_empty_iff_forall_notMem.mpr fun a ha => ?_
        obtain ⟨_, q, hq, _⟩ := hc.limbo a ha
        rw [Option.mem_def.mp hq] at hnew
        exact absurd hnew (by simp)
      exact hk
    | some p =>
      cases new with
      | none => exact absurd hok (by simp [countCopies])
      | some q =>
        obtain ⟨origPh, hop, hok⟩ := bind_ok.mp hok
        obtain ⟨newPh, hnp, hok⟩ := bind_ok.mp hok
        obtain ⟨_, hok⟩ := kassert_bind_ok.mp hok
        obtain ⟨hsame, hok⟩ := kassert_bind_ok.mp hok
        obtain ⟨pb, hpb, hok⟩ := bind_ok.mp hok
        obtain ⟨_, hok⟩ := kassert_bind_ok.mp hok
        obtain ⟨m₁, hlink, hok⟩ := bind_ok.mp hok
        obtain ⟨pb₁, hpb₁, hok⟩ := bind_ok.mp hok
        obtain ⟨_, hok⟩ := kassert_bind_ok.mp hok
        have hqL : q ∈ L := hc.mem (horig p rfl) ⟨origPh, deref_ok hop, by simpa using hsame⟩
          ⟨newPh, deref_ok hnp, rfl⟩
        have hL : insert q (L \ {q}) = L := by rw [Set.insert_sdiff_singleton, Set.insert_eq_of_mem hqL]
        have horder := hk.trees.ordered n hn
        have ht := hk.trees
        rw [← hL] at hk
        obtain ⟨hk₁, hbare⟩ := linkPhysr_ok hk (fun hq => hq.2 rfl) hlink
        split at hok
        · obtain ⟨⟨newpr, m₂⟩, hclone, hok⟩ := bind_ok.mp hok
          have hkey : AtKey m₁ n q := hk₁.trees.atKey hn (by
            rw [hbare.tree]
            exact hc.start q rfl)
          obtain ⟨_, hk₂, hcloned⟩ := mapClonePhBlock_ok hk₁ hkey hclone
          cases newpr with
          | none => exact absurd hok (by simp)
          | some q₁ =>
            obtain ⟨orig', horig', hok⟩ := bind_ok.mp hok
            obtain ⟨new', hnew', hok⟩ := bind_ok.mp hok
            have hc₂ := hc.cloned hr ht horder hbare (hcloned q₁ rfl) (hk₂.trees.ordered n hn)
              (physrIncr_ok hnew')
            exact ih hk₂ hc₂ (fun a ha => nextIn_mem (physrIncr_ok horig') ha) hok
        · obtain ⟨orig', horig', hok⟩ := bind_ok.mp hok
          obtain ⟨new', hnew', hok⟩ := bind_ok.mp hok
          have hk₂ : Kept (L \ {q}) X W (m₁.setBlock newPh.ph { pb₁ with shareFlag := PBSH_COW }) :=
            hk₁.setShare (deref_ok hpb₁)
          have hbare₂ : Bare m (m₁.setBlock newPh.ph { pb₁ with shareFlag := PBSH_COW }) :=
            ⟨hbare.physr, hbare.region, hbare.vm⟩
          have hnew' := physrIncr_ok hnew'
          rw [hbare₂.tree] at hnew'
          exact ih hk₂ (hc.next hbare₂ horder hnew')
            (fun a ha => nextIn_mem (physrIncr_ok horig') ha) hok

theorem linkAll_ok (hk : Kept L X W m) (hL : ∀ q, q ∈ L ↔ q ∈ l) (hl : l.Nodup)
    (hok : linkAll o n l m = .ok m') : Kept ∅ X W m' := by
  induction l generalizing m L with
  | nil =>
    cases pure_ok.mp hok
    obtain rfl : L = ∅ := by
      ext q
      simp [hL]
    exact hk
  | cons p rest ih =>
    obtain ⟨m₁, hlink, hok⟩ := bind_ok.mp hok
    obtain ⟨⟨written, m₂⟩, hwritten, hok⟩ := bind_ok.mp hok
    have hmapped := mapPhWritept_ok hwritten
    obtain ⟨hp, hrest⟩ := List.nodup_cons.mp hl
    obtain rfl : L = insert p {q | q ∈ rest} := by
      ext q
      rw [hL, List.mem_cons, Set.mem_insert_iff, Set.mem_ofPred_eq]
    obtain ⟨hk₁, _⟩ := linkPhysr_ok hk hp hlink
    dsimp only at hok
    split at hok
    · exact ih (hk₁.mapped hmapped) (fun q => Iff.rfl) hrest hok
    · exact absurd hok (by simp)

end Count

section Fork
variable {o : Outcomes} {m m' m₁ : Memory} {L : Set PhysrId} {X : Set RegionId}
  {W : (ProcId → List RegionId) × Set RegionId} {r n : RegionId} {v dst src : ProcId}
  {fuel : ℕ} {l : List PhysrId} {regions : List RegionId} {reply : VmReply}

theorem writeptTree_ok {written : Bool} (hk : Kept L X W m)
    (hok : writeptTree o r l m = .ok (written, m')) : Kept L X W m' := by
  induction l generalizing m with
  | nil =>
    cases pure_ok.mp hok
    exact hk
  | cons p rest ih =>
    obtain ⟨ph, _, hok⟩ := bind_ok.mp hok
    obtain ⟨pb, _, hok⟩ := bind_ok.mp hok
    split at hok
    · exact ih hk hok
    · obtain ⟨⟨done, m₁⟩, hwritten, hok⟩ := bind_ok.mp hok
      have hk₁ := hk.mapped (mapPhWritept_ok hwritten)
      dsimp only at hok
      split at hok
      · exact ih hk₁ hok
      · cases pure_ok.mp hok
        exact hk₁

theorem mapWriteptAll_ok (hk : Kept L X W m) (hok : mapWriteptAll o regions m = .ok m') :
    Kept L X W m' := by
  induction regions generalizing m with
  | nil =>
    cases pure_ok.mp hok
    exact hk
  | cons r rest ih =>
    obtain ⟨⟨written, m₁⟩, htree, hok⟩ := bind_ok.mp hok
    have hk₁ := writeptTree_ok hk htree
    dsimp only at hok
    split at hok
    · exact ih hk₁ hok
    · cases pure_ok.mp hok
      exact hk₁

theorem Kept.vm (hk : Kept L X W m) (v : ProcId) : m.vmRegions v = W.1 v := by
  rw [← hk.roll]
  rfl

theorem counting_start (hk : Kept L X W m) (hn : n ∉ X) (hL : ∀ q, q ∈ L ↔ q ∈ m.tree n) :
    Counting m L r n (m.tree n).head? := by
  refine ⟨fun a ha => ?_, fun q hq => List.mem_of_head? hq, fun a ha haL => ?_⟩
  · have ha := (hL a).mp ha
    refine ⟨ha, ?_⟩
    have horder := hk.trees.ordered n hn
    cases htree : m.tree n with
    | nil => simp [htree] at ha
    | cons q rest =>
      rw [htree] at ha horder
      refine ⟨q, rfl, ?_⟩
      rcases List.mem_cons.mp ha with rfl | ha
      · exact le_rfl
      · exact ((List.pairwise_cons.mp horder).1 a ha).le
  · exact absurd ((hL a).mpr ha) haL

theorem copyRegions_ok {vr : Option RegionId} (hs : Supplied o) (hk : Kept.Ready ∅ m)
    (hvr : ∀ r ∈ vr, r ∈ m.vmRegions src)
    (hok : copyRegions o dst src fuel vr m = .ok (reply, m')) : Kept.Ready ∅ m' := by
  induction fuel generalizing vr m with
  | zero => exact absurd hok (by simp [copyRegions])
  | succ fuel ih =>
    obtain ⟨X, W, hk, hh⟩ := hk
    cases vr with
    | none =>
      obtain ⟨m₁, hsrc, hok⟩ := bind_ok.mp hok
      obtain ⟨m₂, hdst, hok⟩ := bind_ok.mp hok
      cases pure_ok.mp hok
      exact ⟨X, W, mapWriteptAll_ok (mapWriteptAll_ok hk hsrc) hdst, hh⟩
    | some r =>
      have hr := hvr r rfl
      rw [hk.vm] at hr
      obtain ⟨⟨copy, m₁⟩, hcopy, hok⟩ := bind_ok.mp hok
      rcases mapCopyRegion_ok hs hk hh hr hcopy with ⟨rfl, hready⟩ | ⟨n, L, rfl, hn, hL, hk₁⟩
      · obtain ⟨m₂, hfree, hok⟩ := bind_ok.mp hok
        cases pure_ok.mp hok
        exact mapFreeProc_ok hs hready hfree
      · obtain ⟨m₂, hparent, hok⟩ := bind_ok.mp hok
        obtain ⟨m₃, hcount, hok⟩ := bind_ok.mp hok
        obtain ⟨next, hnext, hrest⟩ := bind_ok.mp hok
        clear hok
        obtain ⟨nvr, hnvr, hparent⟩ := bind_ok.mp hparent
        cases pure_ok.mp hparent
        have hnX : n ∉ X \ {n} := fun hx => hx.2 rfl
        have htree : (m₁.setRegion n { nvr with parent := dst }).tree n = m₁.tree n := by
          rw [tree_setRegion, if_pos rfl, tree_of_some (deref_ok hnvr)]
        have hk₂ : Kept L (X \ {n}) (W.1, insert n W.2)
            (m₁.setRegion n { nvr with parent := dst }) := hk₁.sameTree (deref_ok hnvr) rfl
        have hdst : (m₁.setRegion n { nvr with parent := dst }).vmRegions dst = W.1 dst :=
          hk₂.vm dst
        rw [hdst] at hcount
        have hk₃ : Kept L (X \ {n}) (Function.update W.1 dst (W.1 dst ++ [n]), insert n W.2)
            ((m₁.setRegion n { nvr with parent := dst }).setVmRegions dst (W.1 dst ++ [n])) :=
          hk₂.setVmRegions
        have hrn : r ≠ n := fun he => hn (he ▸ (hh.live src r hr).2)
        have hstart := counting_start (r := r) hk₃ hnX (fun q => by
          change q ∈ L ↔ q ∈ Memory.tree (m₁.setRegion n _) n
          rw [htree, hL])
        have hk₄ := countCopies_ok hk₃ hrn hnX hstart (fun p hp => List.mem_of_head? hp) hcount
        have hh₄ := hh.added hn (v := dst) (l := W.1 dst ++ [n]) (List.perm_append_singleton n _)
        refine ih ⟨_, _, hk₄, hh₄⟩ (fun a ha => ?_) hrest
        obtain ⟨pre, post, hlist, rfl⟩ := nextIn_ok (deref_ok hnext)
        have ha := List.mem_of_head? ha
        rw [hlist]
        simp [ha]

end Fork

end Vm
