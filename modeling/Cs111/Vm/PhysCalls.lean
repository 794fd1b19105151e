import Cs111.Vm.PhysSteps

namespace Vm
open Kernel (Fault kassert bind_ok kassert_bind_ok pure_ok)

section Faults
variable {o : Outcomes} {m m' : Memory} {L : Set PhysrId} {X : Set RegionId}
  {W : (ProcId → List RegionId) × Set RegionId} {p : PhysrId}
  {r : RegionId} {offset length fuel changes : ℕ} {write : Bool} {reply : VmReply}

theorem mem_searchLess {key : ℕ} (h : physrSearchLess m r key = some p) : p ∈ m.tree r :=
  List.mem_of_mem_filter (List.mem_of_getLast? h)

theorem mapPfNew_ok (hk : Kept L X W m) (hok : mapPfNew o r offset m = .ok (reply, m')) :
    Kept L X W m' := by
  obtain ⟨⟨reply', m₁⟩, hnew, hok⟩ := bind_ok.mp hok
  cases pure_ok.mp hok
  exact (mapNewPhysblock_ok hk hnew).1

theorem mapPf_ok (hk : Kept L X W m) (hr : r ∉ X) (hok : mapPf o r offset write m = .ok (reply, m')) :
    Kept L X W m' := by
  obtain ⟨vr, _, hok⟩ := bind_ok.mp hok
  obtain ⟨_, hok⟩ := kassert_bind_ok.mp hok
  obtain ⟨_, hok⟩ := kassert_bind_ok.mp hok
  obtain ⟨_, hok⟩ := kassert_bind_ok.mp hok
  split at hok
  · exact mapPfNew_ok hk hok
  · rename_i p hp
    obtain ⟨ph, _, hok⟩ := bind_ok.mp hok
    obtain ⟨pb, _, hok⟩ := bind_ok.mp hok
    split at hok
    · obtain ⟨_, hok⟩ := kassert_bind_ok.mp hok
      obtain ⟨_, hok⟩ := kassert_bind_ok.mp hok
      obtain ⟨_, hok⟩ := kassert_bind_ok.mp hok
      split at hok
      · obtain ⟨⟨written, m₁⟩, hwritten, hok⟩ := bind_ok.mp hok
        cases pure_ok.mp hok
        exact hk.mapped (mapPhWritept_ok hwritten)
      · split at hok
        · cases pure_ok.mp hok
          exact hk
        · obtain ⟨⟨newpr, m₁⟩, hclone, hok⟩ := bind_ok.mp hok
          cases pure_ok.mp hok
          exact (mapClonePhBlock_ok hk (hk.trees.atKey hr (mem_searchLess hp)) hclone).2.1
    · exact mapPfNew_ok hk hok

theorem freeRangeHere_ok {er1 er2 : Option PhysrId} {filled : Option ℕ} (hk : Kept L X W m)
    (hok : freeRangeHere o r offset length er1 er2 m = .ok (filled, m')) : Kept L X W m' := by
  obtain ⟨start, _, hok⟩ := bind_ok.mp hok
  dsimp only at hok
  split at hok
  · obtain ⟨⟨reply, m₁⟩, hnew, hok⟩ := bind_ok.mp hok
    cases pure_ok.mp hok
    exact (mapNewPhysblock_ok hk hnew).1
  · cases pure_ok.mp hok
    exact hk

theorem writeHere_ok {here : Option (PhysrId × ℕ)} (hk : Kept L X W m) (hp : AtKey m r p)
    (hok : writeHere o r write p m = .ok (here, m')) : Kept L X W m' := by
  rw [writeHere] at hok
  split at hok
  · obtain ⟨vr, _, hok⟩ := bind_ok.mp hok
    obtain ⟨pr, _, hok⟩ := bind_ok.mp hok
    obtain ⟨pb, _, hok⟩ := bind_ok.mp hok
    obtain ⟨_, hok⟩ := kassert_bind_ok.mp hok
    split at hok
    · obtain ⟨⟨written, m₁⟩, hwritten, hok⟩ := bind_ok.mp hok
      cases pure_ok.mp hok
      exact hk.mapped (mapPhWritept_ok hwritten)
    · obtain ⟨⟨newpr, m₁⟩, hclone, hok⟩ := bind_ok.mp hok
      cases pure_ok.mp hok
      exact (mapClonePhBlock_ok hk hp hclone).2.1
  · cases pure_ok.mp hok
    exact hk

theorem handleLoop_ok {at_ : Option PhysrId} (hk : Kept L X W m) (hat : ∀ p ∈ at_, AtKey m r p)
    (hok : handleLoop o r offset length write fuel at_ changes m = .ok (reply, m')) :
    Kept L X W m' := by
  induction fuel generalizing at_ changes m with
  | zero => exact absurd hok (by simp [handleLoop])
  | succ fuel ih =>
    cases at_ with
    | none =>
      cases pure_ok.mp hok
      exact hk
    | some p =>
      obtain ⟨⟨here, m₁⟩, hwrite, hok⟩ := bind_ok.mp hok
      have hk₁ := writeHere_ok hk (hat p rfl) hwrite
      dsimp only at hok
      split at hok
      · cases pure_ok.mp hok
        exact hk₁
      · obtain ⟨next, _, hok⟩ := bind_ok.mp hok
        obtain ⟨⟨filled, m₂⟩, hfilled, hok⟩ := bind_ok.mp hok
        have hk₂ := freeRangeHere_ok hk₁ hfilled
        dsimp only at hok
        split at hok
        · cases pure_ok.mp hok
          exact hk₂
        · split at hok
          · exact ih hk₂ (by simp) hok
          · split at hok
            · exact ih hk₂ (by simp) hok
            · obtain ⟨q, hq, hok⟩ := bind_ok.mp hok
              refine ih hk₂ (fun q' hq' => ?_) hok
              cases hq'
              exact atKey_of_search (resetPhysrIter_ok hq)

theorem handleFrom_ok (hk : Kept L X W m)
    (hok : handleFrom o r offset length write p changes m = .ok (reply, m')) : Kept L X W m' := by
  obtain ⟨p, hp, hok⟩ := bind_ok.mp hok
  obtain ⟨pr, _, hok⟩ := bind_ok.mp hok
  obtain ⟨pb, _, hok⟩ := bind_ok.mp hok
  split at hok
  · obtain ⟨next, _, hok⟩ := bind_ok.mp hok
    obtain ⟨⟨filled, m₁⟩, hfilled, hok⟩ := bind_ok.mp hok
    have hk₁ := freeRangeHere_ok hk hfilled
    dsimp only at hok
    split at hok
    · cases pure_ok.mp hok
      exact hk₁
    · split at hok
      · exact handleLoop_ok hk₁ (by simp) hok
      · obtain ⟨q, hq, hok⟩ := bind_ok.mp hok
        refine handleLoop_ok hk₁ (fun q' hq' => ?_) hok
        cases hq'
        exact atKey_of_search (resetPhysrIter_ok hq)
  · refine handleLoop_ok hk (fun q' hq' => ?_) hok
    cases hq'
    exact atKey_of_search (resetPhysrIter_ok hp)

theorem mapHandleMemory_ok (hk : Kept L X W m)
    (hok : mapHandleMemory o r offset length write m = .ok (reply, m')) : Kept L X W m' := by
  obtain ⟨vr, _, hok⟩ := bind_ok.mp hok
  obtain ⟨_, hok⟩ := kassert_bind_ok.mp hok
  obtain ⟨_, hok⟩ := kassert_bind_ok.mp hok
  obtain ⟨_, hok⟩ := kassert_bind_ok.mp hok
  obtain ⟨_, hok⟩ := kassert_bind_ok.mp hok
  obtain ⟨_, hok⟩ := kassert_bind_ok.mp hok
  obtain ⟨⟨filled, m₁⟩, hfilled, hok⟩ := bind_ok.mp hok
  have hk₁ := freeRangeHere_ok hk hfilled
  dsimp only at hok
  split at hok
  · cases pure_ok.mp hok
    exact hk₁
  · split at hok
    · exact handleLoop_ok hk₁ (by simp) hok
    · exact handleFrom_ok hk₁ hok

end Faults

structure Supplied (o : Outcomes) : Prop where
  copies : ∀ i, (o.slab .copyNext i).isSome
  splits : ∀ i, (o.slab .splitRegion i).isSome
  pages : ∀ cut n i ml rest, o.pages cut n i = some (ml :: rest) → cut < ml.length

section Free
variable {o : Outcomes} {m m' : Memory} {L : Set PhysrId} {X : Set RegionId}
  {W : (ProcId → List RegionId) × Set RegionId} {p q : PhysrId} {r : RegionId}
  {sublen n len fuel : ℕ} {reply : VmReply} {l : List PhysrId}

theorem ByOffset.moved (h : ByOffset m l)
    (hoffset : ∀ q, m'.offset q = if q = p then m.offset p + sublen else m.offset q)
    (hroom : ∀ q ∈ l, q ≠ p → m.offset q < m.offset p ∨ m.offset p + sublen < m.offset q) :
    ByOffset m' l := by
  refine List.Pairwise.imp_of_mem (fun {a b} ha hb hlt => ?_) h
  rw [hoffset, hoffset]
  by_cases hap : a = p
  · subst hap
    have hba : b ≠ a := fun he => by
      subst he
      omega
    rw [if_pos rfl, if_neg hba]
    rcases hroom b hb hba with hb | hb
    · omega
    · exact hb
  · rw [if_neg hap]
    split
    · rename_i hbp
      subst hbp
      omega
    · exact hlt

section Cut
variable {pr : PhysRegion} {pb : PhysBlock} {mg : Memory}

def cutTo (m : Memory) (p : PhysrId) (pr : PhysRegion) (pb : PhysBlock) (sublen : ℕ) : Memory :=
  (m.setPhysr p { pr with offset := pr.offset + sublen }).setBlock pr.ph
    { pb with phys := pb.phys + sublen, length := sub32 pb.length sublen }

theorem offset_cutTo (hpr : m.physr p = some pr) (q : PhysrId) :
    (cutTo m p pr pb sublen).offset q = if q = p then m.offset p + sublen else m.offset q := by
  rw [offset_of_some hpr]
  exact offset_setPhysr

theorem Lists.setOffset {k : ℕ} (hl : Lists L m) (hpr : m.physr p = some pr) :
    Lists L (m.setPhysr p { pr with offset := k }) := by
  refine hl.of_view ?_ (fun q b => ?_) (fun q => ?_) fun _ => rfl
  · rw [nextPh_setPhysr, ← nextPh_of_some hpr, Function.update_eq_self]
  · refine pointsTo_setPhysr.trans ?_
    by_cases hq : q = p
    · subst hq
      simp [Memory.PointsTo, hpr]
    · simp [hq]
  · by_cases hq : q = p
    · subst hq
      simp [Memory.setPhysr, hpr]
    · simp [Memory.setPhysr, hq]

theorem Trees.setOffset {k : ℕ} (ht : Trees X m) (hp : p ∈ m.tree r) (hpr : m.physr p = some pr)
    (horder : r ∉ X → ByOffset (m.setPhysr p { pr with offset := k }) (m.tree r)) :
    Trees X (m.setPhysr p { pr with offset := k }) where
  owned r' q hq := by
    obtain ⟨pr', hpr', hparent⟩ := ht.owned r' q hq
    by_cases hqp : q = p
    · subst hqp
      rw [hpr] at hpr'
      cases hpr'
      exact ⟨_, Function.update_self .., hparent⟩
    · exact ⟨pr', (Function.update_of_ne hqp ..).trans hpr', hparent⟩
  nodup r' := ht.nodup r'
  ordered r' hr' := by
    by_cases hrr : r' = r
    · subst hrr
      exact horder hr'
    · refine (ht.ordered r' hr').of_same fun q hq => ?_
      rw [offset_setPhysr, if_neg]
      rintro rfl
      exact hrr (ht.one_tree hp hq)

theorem Lists.cutTo (hl : Lists L m) (hpr : m.physr p = some pr) (hb : m.block pr.ph = some pb) :
    Lists L (cutTo m p pr pb sublen) := by
  refine (hl.setOffset hpr).congr rfl fun b => ?_
  by_cases hbb : b = pr.ph
  · subst hbb
    simp [Vm.cutTo, Memory.setPhysr, Memory.setBlock, hb]
  · simp [Vm.cutTo, Memory.setPhysr, Memory.setBlock, hbb]

theorem Trees.cutTo (ht : Trees X m) (hp : p ∈ m.tree r) (hpr : m.physr p = some pr)
    (hroom : r ∉ X → ∀ q ∈ m.tree r, q ≠ p →
      m.offset q < m.offset p ∨ m.offset p + sublen < m.offset q) :
    Trees X (cutTo m p pr pb sublen) := by
  refine (ht.setOffset hp hpr fun hr => ?_).congr (fun _ => rfl) fun _ => rfl
  have hoffset : ∀ q, (Vm.cutTo m p pr pb sublen).offset q =
      if q = p then m.offset p + sublen else m.offset q := offset_cutTo hpr
  exact (ht.ordered r hr).moved hoffset (hroom hr)

theorem Balanced.cutTo (hbal : Balanced m) (hb : m.block pr.ph = some pb)
    (hcut : sublen ≤ pb.length)
    (hmg : mg = m.freeMem ⟨pb.phys, sublen⟩ ∨ ∃ flags, hasAny flags VR_DIRECT = true ∧
      mg = m.leave flags ⟨pb.phys, sublen⟩) :
    Balanced (cutTo mg p pr pb sublen) := by
  have hmem : PhysBlock.mem { pb with phys := pb.phys + sublen, length := sub32 pb.length sublen } =
      ⟨pb.phys + sublen, pb.length - sublen⟩ := by
    rw [PhysBlock.mem, sub32, if_pos hcut]
  obtain ⟨hfreed, hleft⟩ := hbal.cut hb hcut hmem
  rcases hmg with rfl | ⟨flags, hdirect, rfl⟩
  · exact hfreed.congr (fun _ => rfl) rfl rfl rfl
  · exact (hleft flags hdirect).congr (fun _ => rfl) rfl rfl rfl

end Cut

theorem cutBlock_ok (hk : Kept L X W m) (hp : p ∈ m.tree r) (hn : m.extent p = some n)
    (hcut : sublen ≤ n) (hroom : r ∉ X → ∀ q ∈ m.tree r, q ≠ p →
      m.offset q < m.offset p ∨ m.offset p + sublen < m.offset q)
    (hok : cutBlock r p sublen m = .ok m') : Kept L X W m' ∧ (∀ r', m'.tree r' = m.tree r') ∧
      ∀ q, m'.offset q = if q = p then m.offset p + sublen else m.offset q := by
  obtain ⟨vr, _, hok⟩ := bind_ok.mp hok
  obtain ⟨pr, hpr, hok⟩ := bind_ok.mp hok
  obtain ⟨pb, hb, hok⟩ := bind_ok.mp hok
  obtain ⟨_, hok⟩ := kassert_bind_ok.mp hok
  obtain ⟨_, hok⟩ := kassert_bind_ok.mp hok
  have hpr := deref_ok hpr
  have hb := deref_ok hb
  obtain rfl : pb.length = n := by simpa [Memory.extent, hpr, hb] using hn
  obtain ⟨mg, hmg, hm'⟩ : ∃ mg, (mg = m.freeMem ⟨pb.phys, sublen⟩ ∨
      ∃ flags, hasAny flags VR_DIRECT = true ∧ mg = m.leave flags ⟨pb.phys, sublen⟩) ∧
        m' = cutTo mg p pr pb sublen := by
    refine ⟨_, ?_, (pure_ok.mp hok).symm⟩
    split
    · rename_i hdirect
      exact .inr ⟨vr.flags, hdirect, rfl⟩
    · exact .inl rfl
  have hbal := hk.balanced.cutTo (p := p) hb hcut hmg
  have hlists : Lists L (cutTo m p pr pb sublen) := hk.lists.cutTo hpr hb
  have htrees : Trees X (cutTo m p pr pb sublen) := hk.trees.cutTo hp hpr hroom
  subst hm'
  rcases hmg with rfl | ⟨flags, hdirect, rfl⟩
  · exact ⟨⟨hlists.congr rfl fun _ => rfl, htrees.congr (fun _ => rfl) fun _ => rfl, hbal,
      hk.roll⟩, fun _ => rfl, offset_cutTo hpr⟩
  · exact ⟨⟨hlists.congr rfl fun _ => rfl, htrees.congr (fun _ => rfl) fun _ => rfl, hbal,
      hk.roll⟩, fun _ => rfl, offset_cutTo hpr⟩

def Clear (m : Memory) (r : RegionId) (len : ℕ) : Prop :=
  ∀ p ∈ m.tree r, ∀ n, m.extent p = some n → m.offset p < len → len < m.offset p + n →
    ∀ q ∈ m.tree r, q ≠ p → m.offset q < m.offset p ∨ len < m.offset q

def Past (m : Memory) (len : ℕ) (at_ : Option PhysrId) : Prop := ∀ p ∈ at_, len ≤ m.offset p

theorem subfreeLoop_past {at_ : Option PhysrId} (hpast : Past m len at_)
    (hok : subfreeLoop o r len fuel at_ m = .ok (reply, m')) : m' = m := by
  cases fuel with
  | zero => exact absurd hok (by simp [subfreeLoop])
  | succ fuel =>
    cases at_ with
    | none =>
      cases pure_ok.mp hok
      rfl
    | some p =>
      obtain ⟨next, _, hok⟩ := bind_ok.mp hok
      obtain ⟨pr, hpr, hok⟩ := bind_ok.mp hok
      obtain ⟨pb, _, hok⟩ := bind_ok.mp hok
      have hlen := hpast p rfl
      rw [offset_of_some (deref_ok hpr)] at hlen
      rw [if_pos hlen] at hok
      cases pure_ok.mp hok
      rfl

inductive Round (o : Outcomes) (r : RegionId) (len fuel : ℕ) (p : PhysrId) (next : Option PhysrId)
    (m m' : Memory) (reply : VmReply) : Prop
  | past : len ≤ m.offset p → m' = m → Round o r len fuel p next m m' reply
  | dropped (m₁) : m.offset p < len → dropPhysr o r p m = .ok m₁ →
      subfreeLoop o r len fuel (m₁.tree r).head? m₁ = .ok (reply, m') →
      Round o r len fuel p next m m' reply
  | failed : m.offset p < len → mapClonePhBlock o r p (len - m.offset p) m = .ok (none, m') →
      Round o r len fuel p next m m' reply
  | copied (q n m₁ m₂) : m.offset p < len → m.extent p = some n → len < m.offset p + n →
      mapClonePhBlock o r p (len - m.offset p) m = .ok (some q, m₁) →
      cutBlock r q (len - m.offset p) m₁ = .ok m₂ →
      subfreeLoop o r len fuel (some q) m₂ = .ok (reply, m') →
      Round o r len fuel p next m m' reply
  | cut (n m₁) : m.offset p < len → m.extent p = some n → len < m.offset p + n →
      cutBlock r p (len - m.offset p) m = .ok m₁ →
      subfreeLoop o r len fuel next m₁ = .ok (reply, m') → Round o r len fuel p next m m' reply

theorem subfreeLoop_ok (hok : subfreeLoop o r len (fuel + 1) (some p) m = .ok (reply, m')) :
    ∃ next, nextIn p (m.tree r) = some next ∧ Round o r len fuel p next m m' reply := by
  obtain ⟨next, hnext, hok⟩ := bind_ok.mp hok
  obtain ⟨pr, hpr, hok⟩ := bind_ok.mp hok
  obtain ⟨pb, hb, hok⟩ := bind_ok.mp hok
  refine ⟨next, deref_ok hnext, ?_⟩
  have hpr := deref_ok hpr
  have hb := deref_ok hb
  have hn : m.extent p = some pb.length := by simp [Memory.extent, hpr, hb]
  rw [← offset_of_some hpr] at hok
  split at hok
  · rename_i hlen
    cases pure_ok.mp hok
    exact .past hlen rfl
  · rename_i hlen
    replace hlen : m.offset p < len := by omega
    split at hok
    · obtain ⟨m₁, hdrop, hok⟩ := bind_ok.mp hok
      exact .dropped m₁ hlen hdrop hok
    · rename_i hshort
      obtain ⟨_, hok⟩ := kassert_bind_ok.mp hok
      obtain ⟨_, hok⟩ := kassert_bind_ok.mp hok
      split at hok
      · obtain ⟨⟨newpr, m₁⟩, hclone, hok⟩ := bind_ok.mp hok
        cases newpr with
        | none =>
          cases pure_ok.mp hok
          exact .failed hlen hclone
        | some q =>
          obtain ⟨m₂, hcut, hok⟩ := bind_ok.mp hok
          exact .copied q pb.length m₁ m₂ hlen hn (by omega) hclone hcut hok
      · obtain ⟨m₁, hcut, hok⟩ := bind_ok.mp hok
        exact .cut pb.length m₁ hlen hn (by omega) hcut hok

theorem nextIn_append {α : Type} [DecidableEq α] {a : α} {pre post : List α} (ha : a ∉ pre) :
    nextIn a (pre ++ a :: post) = some post.head? := by
  induction pre with
  | nil => simp [nextIn]
  | cons b pre ih =>
    rw [List.mem_cons, not_or] at ha
    rw [List.cons_append, nextIn, if_neg fun he => ha.1 he.symm]
    exact ih ha.2

theorem Cloned.extent {m₁ : Memory} {cut : ℕ} (hs : Supplied o) (hc : Cloned o m m₁ L r p q cut)
    (hunique : ∀ a ∈ m.tree r, m.offset a = m.offset p → a = p) :
    ∃ n, m₁.extent q = some n ∧ cut ≤ n := by
  obtain ⟨k, i, memlist, hpages, hfresh⟩ := hc.fresh
  rcases hfresh q hc.key.mem with ⟨hne, hmem, hoffset⟩ | ⟨⟨n, hn, ml, rest, rfl, hbehind⟩, _⟩
  · exact absurd (hunique q hmem (hoffset.symm.trans hc.offset)) hne
  · have hlong := hs.pages cut k i ml rest hpages
    rw [hc.offset] at hbehind
    exact ⟨n, hn, by omega⟩

section FreeAll

structure Front (m : Memory) (r : RegionId) (len : ℕ) (at_ : Option PhysrId)
    (done rest : List PhysrId) : Prop where
  tree : m.tree r = done ++ rest
  cut : ∀ q ∈ done, m.offset q = len
  order : ByOffset m rest
  start : at_ = rest.head?

variable {done rest : List PhysrId} {at_ : Option PhysrId}

theorem Front.notMem (hf : Front m r len at_ done (p :: rest)) (hlen : m.offset p < len) :
    p ∉ done := fun hmem => by
  have hp := hf.cut p hmem
  omega

theorem Front.unique (hf : Front m r len at_ done (p :: rest)) (hlen : m.offset p < len) :
    ∀ q ∈ m.tree r, m.offset q = m.offset p → q = p := by
  intro q hq he
  rw [hf.tree, List.mem_append] at hq
  rcases hq with hq | hq
  · have hoff := hf.cut q hq
    omega
  · exact hf.order.unique List.mem_cons_self hq he

theorem Front.key (hf : Front m r len at_ done (p :: rest)) (hlen : m.offset p < len) :
    AtKey m r p :=
  atKey_of_unique (by simp [hf.tree]) (hf.unique hlen)

theorem Front.dropped {m₁ : Memory} (hf : Front m r len at_ done (p :: rest))
    (hlen : m.offset p < len) (hnodup : (m.tree r).Nodup) (hd : Dropped m m₁ r p) :
    Front m₁ r len (m₁.tree r).head? done rest ∨ Past m₁ len (m₁.tree r).head? := by
  have htree : m₁.tree r = done ++ rest := by
    rw [hd.tree, hf.tree, List.erase_append_right _ (hf.notMem hlen), List.erase_cons_head]
  have hrest : p ∉ rest := by
    rw [hf.tree] at hnodup
    exact (List.nodup_cons.mp (List.Nodup.of_append_right hnodup)).1
  have hdone : ∀ q ∈ done, m₁.offset q = len := fun q hq => by
    rw [hd.offset fun he => hf.notMem hlen (he ▸ hq), hf.cut q hq]
  cases done with
  | nil =>
    refine .inl ⟨htree, hdone, ?_, by rw [htree, List.nil_append]⟩
    exact (List.pairwise_cons.mp hf.order).2.imp_of_mem fun ha hb hlt => by
      rwa [hd.offset fun he => hrest (he ▸ ha), hd.offset fun he => hrest (he ▸ hb)]
  | cons q done =>
    refine .inr fun q' hq' => ?_
    rw [htree] at hq'
    cases hq'
    exact (hdone q List.mem_cons_self).ge

theorem subfreeLoop_kept (hs : Supplied o) (hk : Kept L (insert r X) W m)
    (hstate : (∃ done rest, Front m r len at_ done rest) ∨ Past m len at_)
    (hok : subfreeLoop o r len fuel at_ m = .ok (reply, m')) : Kept L (insert r X) W m' := by
  induction fuel generalizing at_ m with
  | zero => exact absurd hok (by simp [subfreeLoop])
  | succ fuel ih =>
    rcases hstate with ⟨done, rest, hf⟩ | hpast
    · cases rest with
      | nil =>
        obtain rfl := hf.start
        cases pure_ok.mp hok
        exact hk
      | cons p rest =>
        obtain rfl := hf.start
        obtain ⟨next, hnext, hround⟩ := subfreeLoop_ok hok
        cases hround with
        | past _ he => exact he ▸ hk
        | dropped m₁ hlen hdrop hrest =>
          obtain ⟨_, hk₁, hd⟩ := dropPhysr_ok hk (hf.key hlen) hdrop
          refine ih hk₁ ?_ hrest
          rcases hf.dropped hlen (hk.trees.nodup r) hd with hf₁ | hpast
          · exact .inl ⟨done, rest, hf₁⟩
          · exact .inr hpast
        | failed hlen hclone => exact (mapClonePhBlock_ok hk (hf.key hlen) hclone).2.1
        | copied q n m₁ m₂ hlen _ _ hclone hcut hrest =>
          obtain ⟨_, hk₁, hc⟩ := mapClonePhBlock_ok hk (hf.key hlen) hclone
          have hc := hc q rfl
          obtain ⟨n', hn', hle⟩ := hc.extent hs (hf.unique hlen)
          obtain ⟨hk₂, _, hoffset⟩ := cutBlock_ok hk₁ hc.key.mem hn' hle
            (fun hr => absurd (Set.mem_insert r X) hr) hcut
          refine ih hk₂ (.inr fun q' hq' => ?_) hrest
          cases hq'
          rw [hoffset, if_pos rfl, hc.offset]
          omega
        | cut n m₁ hlen hn hlong hcut hrest =>
          obtain ⟨hk₁, htree, hoffset⟩ := cutBlock_ok hk (hf.key hlen).mem hn (by omega)
            (fun hr => absurd (Set.mem_insert r X) hr) hcut
          have hnodup := hk.trees.nodup r
          rw [hf.tree] at hnodup hnext
          rw [nextIn_append (hf.notMem hlen)] at hnext
          have hp : p ∉ rest :=
            (List.nodup_cons.mp (List.Nodup.of_append_right hnodup)).1
          refine ih hk₁ (.inl ⟨done ++ [p], rest, ?_, fun q hq => ?_, ?_,
            (Option.some.inj hnext).symm⟩) hrest
          · rw [htree, hf.tree, List.append_assoc, List.singleton_append]
          · rw [hoffset]
            split
            · omega
            · rename_i hqp
              rcases List.mem_append.mp hq with hq | hq
              · exact hf.cut q hq
              · exact absurd (List.mem_singleton.mp hq) hqp
          · refine (List.pairwise_cons.mp hf.order).2.imp_of_mem fun {a b} ha hb hlt => ?_
            have hap : a ≠ p := fun he => hp (he ▸ ha)
            have hbp : b ≠ p := fun he => hp (he ▸ hb)
            rwa [hoffset, hoffset, if_neg hap, if_neg hbp]
    · exact subfreeLoop_past hpast hok ▸ hk

end FreeAll

section Shrink
variable {at_ : Option PhysrId}

theorem Dropped.clear {m₁ : Memory} (hd : Dropped m m₁ r p) (hk : Kept L X W m)
    (hclear : Clear m r len) : Clear m₁ r len := by
  have hmem : ∀ q ∈ m₁.tree r, q ≠ p ∧ q ∈ m.tree r := fun q hq => by
    rwa [hd.tree, (hk.trees.nodup r).mem_erase_iff] at hq
  intro q hq n hn hlen hlong a ha haq
  obtain ⟨hqp, hq⟩ := hmem q hq
  obtain ⟨hap, ha⟩ := hmem a ha
  rw [hd.offset hqp] at hlen hlong ⊢
  rw [hd.offset hap]
  refine hclear q hq n ?_ hlen hlong a ha haq
  obtain ⟨pr₁, hpr₁, hlength⟩ := Option.bind_eq_some_iff.mp hn
  obtain ⟨pb₁, hpb₁, rfl⟩ := Option.map_eq_some_iff.mp hlength
  have hsame := hd.physr q hqp
  rw [hpr₁] at hsame
  obtain ⟨pr, hpr, hbare⟩ := Option.map_eq_some_iff.mp hsame.symm
  obtain ⟨pb, hpb, hlen⟩ := hd.lengths pr₁.ph pb₁ hpb₁
  have hph : pr.bare.ph = pr₁.bare.ph := by rw [hbare]
  replace hph : pr.ph = pr₁.ph := hph
  simp [Memory.extent, hpr, hph, hpb, hlen]

theorem subfreeLoop_ordered (hs : Supplied o) (hk : Kept L X W m) (hr : r ∉ X)
    (hstate : at_ = (m.tree r).head? ∧ Clear m r len ∨ Past m len at_)
    (hok : subfreeLoop o r len fuel at_ m = .ok (reply, m')) : Kept L X W m' := by
  induction fuel generalizing at_ m with
  | zero => exact absurd hok (by simp [subfreeLoop])
  | succ fuel ih =>
    rcases hstate with ⟨rfl, hclear⟩ | hpast
    · cases htree : m.tree r with
      | nil =>
        rw [htree] at hok
        cases pure_ok.mp hok
        exact hk
      | cons p rest =>
        rw [htree] at hok
        have hp : p ∈ m.tree r := by simp [htree]
        have hkey := hk.trees.atKey hr hp
        obtain ⟨next, hnext, hround⟩ := subfreeLoop_ok hok
        cases hround with
        | past _ he => exact he ▸ hk
        | dropped m₁ hlen hdrop hrest =>
          obtain ⟨_, hk₁, hd⟩ := dropPhysr_ok hk hkey hdrop
          exact ih hk₁ (.inl ⟨rfl, hd.clear hk hclear⟩) hrest
        | failed hlen hclone => exact (mapClonePhBlock_ok hk hkey hclone).2.1
        | copied q n m₁ m₂ hlen hn hlong hclone hcut hrest =>
          obtain ⟨_, hk₁, hc⟩ := mapClonePhBlock_ok hk hkey hclone
          have hc := hc q rfl
          obtain ⟨n', hn', hle⟩ := hc.extent hs fun a ha he => (hk.trees.ordered r hr).unique hp ha he
          have hroom : ∀ a ∈ m₁.tree r, a ≠ q →
              m₁.offset a < m₁.offset q ∨ m₁.offset q + (len - m.offset p) < m₁.offset a := by
            obtain ⟨n₁, i, memlist, hpages, hfresh⟩ := hc.fresh
            intro a ha haq
            rw [hc.offset]
            rcases hfresh a ha with ⟨hap, ha, hoffset⟩ | ⟨⟨k, _, ml, rest', rfl, hbehind⟩, _⟩
            · rw [hoffset]
              rcases hclear p hp n hn hlen hlong a ha hap with hlt | hlt
              · exact .inl hlt
              · exact .inr (by omega)
            · have hfirst := hs.pages _ _ _ _ _ hpages
              rcases hbehind with ⟨he, _⟩ | hle
              · exact absurd ((hk₁.trees.ordered r hr).unique hc.key.mem ha (he.trans hc.offset.symm))
                  haq
              · exact .inr (by omega)
          obtain ⟨hk₂, _, hoffset⟩ := cutBlock_ok hk₁ hc.key.mem hn' hle (fun _ => hroom) hcut
          refine ih hk₂ (.inr fun q' hq' => ?_) hrest
          cases hq'
          rw [hoffset, if_pos rfl, hc.offset]
          omega
        | cut n m₁ hlen hn hlong hcut hrest =>
          have hroom := hclear p hp n hn hlen hlong
          obtain ⟨hk₁, htree₁, hoffset⟩ := cutBlock_ok hk hp hn (by omega) (fun _ q hq hqp => by
            rcases hroom q hq hqp with hlt | hlt
            · exact .inl hlt
            · exact .inr (by omega)) hcut
          refine ih hk₁ (.inr fun q hq => ?_) hrest
          have horder := hk.trees.ordered r hr
          rw [htree] at hnext horder
          obtain rfl : rest.head? = next := by simpa [nextIn] using hnext
          have hqrest : q ∈ rest := List.mem_of_head? hq
          have hlt := (List.pairwise_cons.mp horder).1 q hqrest
          have hqp : q ≠ p := fun he => by
            subst he
            omega
          rw [hoffset, if_neg hqp]
          rcases hroom q (by simp [htree, hqrest]) hqp with hq | hq <;> omega
    · exact subfreeLoop_past hpast hok ▸ hk

end Shrink

theorem mapSubfree_kept (hs : Supplied o) (hk : Kept L X W m) (hr : r ∉ X)
    (hok : mapSubfree o r len m = .ok (reply, m')) : Kept L (insert r X) W m' := by
  have hk' : Kept L (insert r X) W m :=
    ⟨hk.lists, ⟨hk.trees.owned, hk.trees.nodup, fun r' hr' =>
      hk.trees.ordered r' fun hx => hr' (Set.mem_insert_of_mem r hx)⟩, hk.balanced, hk.roll⟩
  exact subfreeLoop_kept hs hk' (.inl ⟨[], m.tree r, rfl, by simp, hk.trees.ordered r hr, rfl⟩) hok

theorem mapSubfree_ordered (hs : Supplied o) (hk : Kept L X W m) (hr : r ∉ X)
    (hclear : Clear m r len) (hok : mapSubfree o r len m = .ok (reply, m')) : Kept L X W m' :=
  subfreeLoop_ordered hs hk hr (.inl ⟨rfl, hclear⟩) hok

theorem tree_freeRegion {r' : RegionId} :
    (m.freeRegion r).tree r' = if r' = r then [] else m.tree r' := by
  by_cases hr : r' = r
  · subst hr
    simp [Memory.tree, Memory.freeRegion]
  · simp [Memory.tree, Memory.freeRegion, hr]

theorem Kept.freeRegion (hk : Kept L X W m) :
    Kept L (X \ {r}) (W.1, W.2 \ {r}) (m.freeRegion r) where
  lists := hk.lists.congr rfl fun _ => rfl
  trees := by
    refine ⟨fun r' p hp => ?_, fun r' => ?_, fun r' hr' => ?_⟩
    · rw [tree_freeRegion] at hp
      split at hp
      · exact absurd hp List.not_mem_nil
      · exact hk.trees.owned r' p hp
    · rw [tree_freeRegion]
      split
      · exact List.nodup_nil
      · exact hk.trees.nodup r'
    · rw [tree_freeRegion]
      split
      · exact List.Pairwise.nil
      · rename_i hne
        exact hk.trees.ordered r' fun hx => hr' ⟨hx, hne⟩
  balanced := hk.balanced.congr (fun _ => rfl) rfl rfl rfl
  roll := by
    rw [← hk.roll]
    refine Prod.ext rfl (Set.ext fun r' => ?_)
    by_cases hr : r' = r
    · subst hr
      simp [Memory.roll, Memory.freeRegion]
    · simp [Memory.roll, Memory.freeRegion, hr]

theorem mapFree_ok (hs : Supplied o) (hk : Kept L X W m) (hr : r ∉ X)
    (hok : mapFree o r m = .ok (reply, m')) : ∃ X' R, X' ⊆ insert r X ∧ W.2 \ {r} ⊆ R ∧
      Kept L X' (W.1, R) m' := by
  obtain ⟨vr, _, hok⟩ := bind_ok.mp hok
  obtain ⟨⟨reply', m₁⟩, hsub, hok⟩ := bind_ok.mp hok
  have hk₁ := mapSubfree_kept hs hk hr hsub
  dsimp only at hok
  split at hok
  · cases pure_ok.mp hok
    exact ⟨_, _, Set.sdiff_subset, subset_rfl, hk₁.freeRegion⟩
  · cases pure_ok.mp hok
    exact ⟨_, W.2, subset_rfl, Set.sdiff_subset, hk₁⟩

end Free

end Vm
