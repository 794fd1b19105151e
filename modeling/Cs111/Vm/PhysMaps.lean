import Cs111.Vm.PhysCopies

namespace Vm
open Kernel (Fault kassert bind_ok kassert_bind_ok pure_ok)

section Regions
variable {o : Outcomes} {m m' : Memory} {L : Set PhysrId} {X : Set RegionId}
  {W : (ProcId → List RegionId) × Set RegionId} {v dst src : ProcId} {r n : RegionId}
  {prev : Option ℕ} {startv : VirBytes} {len : ℕ} {reply : VmReply} {l : List PhysrId}

theorem perm_insertAt {regions : List RegionId} : (insertAt regions prev n).Perm (n :: regions) := by
  rw [insertAt]
  refine List.perm_middle.trans ?_
  rw [List.take_append_drop]

theorem mapWhat_ok {call : PageCall} (hk : Kept L X W m)
    (hok : mapWhat o call n startv m = .ok (reply, m')) : Kept L X W m' := by
  rw [mapWhat] at hok
  split at hok
  · obtain ⟨_, hok⟩ := kassert_bind_ok.mp hok
    obtain ⟨_, hok⟩ := kassert_bind_ok.mp hok
    obtain ⟨_, hok⟩ := kassert_bind_ok.mp hok
    exact (mapNewPhysblock_ok hk hok).1
  · cases pure_ok.mp hok
    exact hk

theorem fillRegion_ok {call : PageCall} (hk : Kept L X W m)
    (hok : fillRegion o call n startv m = .ok (reply, m')) : Kept L X W m' := by
  obtain ⟨⟨reply', m₁⟩, hwhat, hok⟩ := bind_ok.mp hok
  have hk₁ := mapWhat_ok hk hwhat
  dsimp only at hok
  split at hok
  · exact mapHandleMemory_ok hk₁ hok
  · cases pure_ok.mp hok
    exact hk₁

theorem mapPageRegionOf_ok {call : PageCall} {newregion : Option RegionId} (hk : Kept.Ready ∅ m)
    (hok : mapPageRegionOf o v call m = .ok (newregion, m')) : Kept.Ready ∅ m' := by
  obtain ⟨X, W, hk, hh⟩ := hk
  obtain ⟨_, hok⟩ := kassert_bind_ok.mp hok
  obtain ⟨regions, _, hok⟩ := bind_ok.mp hok
  obtain ⟨slot, _, hok⟩ := bind_ok.mp hok
  cases slot with
  | none =>
    cases pure_ok.mp hok
    exact ⟨X, W, hk, hh⟩
  | some slot =>
    obtain ⟨⟨newregion', m₁⟩, hslab, hok⟩ := bind_ok.mp hok
    obtain ⟨rfl, hfree, _⟩ := slaballoc_ok hslab
    cases newregion' with
    | none =>
      cases pure_ok.mp hok
      exact ⟨X, W, hk.ticked, hh⟩
    | some n =>
      obtain ⟨⟨phavl, m₁⟩, hslab', hok⟩ := bind_ok.mp hok
      obtain ⟨rfl, _, _⟩ := slaballoc_ok hslab'
      cases phavl with
      | none =>
        cases pure_ok.mp hok
        exact ⟨X, W, hk.ticked.ticked, hh⟩
      | some avl =>
        have hn : n ∉ W.2 := by
          rw [← hk.roll]
          simp [Memory.roll, hfree n rfl]
        obtain ⟨⟨reply, m₂⟩, hfill, hok⟩ := bind_ok.mp hok
        have hk₂ := fillRegion_ok (hk.ticked.ticked.newRegion rfl) hfill
        dsimp only at hok
        split at hok
        · obtain ⟨regions', _, hok⟩ := bind_ok.mp hok
          obtain ⟨_, _, hok⟩ := bind_ok.mp hok
          cases pure_ok.mp hok
          have hvm : m₂.vmRegions v = W.1 v := hk₂.vm v
          rw [hvm]
          exact ⟨_, _, hk₂.setVmRegions, hh.added hn perm_insertAt⟩
        · cases pure_ok.mp hok
          refine ⟨_, _, hk₂.freeRegion, hh.mono (fun r hr => ?_) hn fun r hr => ?_⟩
          · exact Set.mem_insert_of_mem _ hr.1.1
          · exact ⟨Set.mem_insert_of_mem n hr, fun he => hn (he ▸ hr)⟩

theorem mapProcCopyFrom_ok (hs : Supplied o) (hk : Kept.Ready ∅ m) (hr : r ∈ m.vmRegions src)
    (hok : mapProcCopyFrom o dst src r m = .ok (reply, m')) : Kept.Ready ∅ m' := by
  obtain ⟨vr, _, hok⟩ := bind_ok.mp hok
  obtain ⟨_, hok⟩ := kassert_bind_ok.mp hok
  refine copyRegions_ok hs hk (fun a ha => ?_) hok
  cases ha
  exact hr

theorem mapProcCopy_ok (hs : Supplied o) (hk : Kept.Ready ∅ m) (hne : dst ≠ src)
    (hok : mapProcCopy o dst src m = .ok (reply, m')) : Kept.Ready ∅ m' := by
  obtain ⟨r, hr, hok⟩ := bind_ok.mp hok
  obtain ⟨X, W, hk, hh⟩ := hk
  refine mapProcCopyFrom_ok hs ⟨X, _, hk.setVmRegions, hh.fewer (List.nil_sublist _)⟩ ?_ hok
  change r ∈ Function.update m.vmRegions dst [] src
  rw [Function.update_of_ne hne.symm]
  exact List.mem_of_head? (deref_ok hr)

theorem mapRemapTo_ok {call : RemapCall} (hs : Supplied o) (hk : Kept.Ready ∅ m)
    (hr : r ∈ m.vmRegions src) (hok : mapRemapTo o dst call r m = .ok (reply, m')) :
    Kept.Ready ∅ m' := by
  obtain ⟨region, _, hok⟩ := bind_ok.mp hok
  obtain ⟨_, hok⟩ := kassert_bind_ok.mp hok
  obtain ⟨_, hok⟩ := kassert_bind_ok.mp hok
  obtain ⟨regions, _, hok⟩ := bind_ok.mp hok
  obtain ⟨slot, _, hok⟩ := bind_ok.mp hok
  cases slot with
  | none =>
    cases pure_ok.mp hok
    exact hk
  | some slot =>
    dsimp only at hok
    split at hok
    · cases pure_ok.mp hok
      exact hk
    · obtain ⟨X, W, hk, hh⟩ := hk
      rw [hk.vm] at hr
      obtain ⟨⟨copy, m₁⟩, hcopy, hrest⟩ := bind_ok.mp hok
      clear hok
      rcases mapCopyRegion_ok hs hk hh hr hcopy with ⟨rfl, hready⟩ | ⟨n, L, rfl, hn, hL, hk₁⟩
      · cases pure_ok.mp hrest
        exact hready
      · obtain ⟨vr, hvr, hrest⟩ := bind_ok.mp hrest
        obtain ⟨m₂, hlink, hrest⟩ := bind_ok.mp hrest
        cases pure_ok.mp hrest
        have hk₂ : Kept L (X \ {n}) (W.1, insert n W.2) (m₁.setRegion n
            ⟨⟨slot.1, call.size, region.flags, VRT_NONE, vr.phys⟩, dst⟩) :=
          hk₁.sameTree (deref_ok hvr) rfl
        have htree : (m₁.setRegion n
            ⟨⟨slot.1, call.size, region.flags, VRT_NONE, vr.phys⟩, dst⟩).tree n = m₁.tree n := by
          rw [tree_setRegion, if_pos rfl, tree_of_some (deref_ok hvr)]
        have hnodup := hk₁.trees.nodup n
        rw [← htree] at hnodup
        have hk₃ := linkAll_ok hk₂.setVmRegions (fun q => (hL q).trans (by rw [← htree]))
          hnodup hlink
        rw [hk₂.vm] at hk₃
        exact ⟨_, _, hk₃, hh.added hn perm_insertAt⟩

theorem shiftTree_ok (hk : Kept L X W m) (hr : r ∈ X) (hl : l.Nodup) (hsub : ∀ q ∈ l, q ∈ m.tree r)
    (hok : shiftTree len l m = .ok m') : Kept L X W m' ∧ (∀ r', m'.tree r' = m.tree r') ∧
      ∀ q, (q ∈ l → len ≤ m.offset q) ∧
        m'.offset q = if q ∈ l then m.offset q - len else m.offset q := by
  induction l generalizing m with
  | nil =>
    cases pure_ok.mp hok
    exact ⟨hk, fun _ => rfl, fun q => ⟨by simp, by simp⟩⟩
  | cons p rest ih =>
    obtain ⟨pr, hpr, hok⟩ := bind_ok.mp hok
    obtain ⟨hlen, hok⟩ := kassert_bind_ok.mp hok
    have hpr := deref_ok hpr
    obtain ⟨hp, hrest⟩ := List.nodup_cons.mp hl
    have hk₁ : Kept L X W (m.setPhysr p { pr with offset := pr.offset - len }) :=
      ⟨hk.lists.setOffset hpr, hk.trees.setOffset (hsub p List.mem_cons_self) hpr
        fun hrX => absurd hr hrX, hk.balanced.congr (fun _ => rfl) rfl rfl rfl, hk.roll⟩
    obtain ⟨hk', htree, hoffset⟩ := ih hk₁ hrest
      (fun q hq => hsub q (List.mem_cons_of_mem p hq)) hok
    refine ⟨hk', htree, fun q => ?_⟩
    obtain ⟨hle, he⟩ := hoffset q
    rw [offset_setPhysr] at hle he
    have hpo := offset_of_some hpr
    replace hlen : len ≤ pr.offset := by simpa using hlen
    by_cases hqp : q = p
    · subst hqp
      rw [if_neg hp, if_pos rfl] at he
      refine ⟨fun _ => by rwa [hpo], ?_⟩
      rw [if_pos List.mem_cons_self, he, hpo]
    · rw [if_neg hqp] at hle he
      refine ⟨fun hq => hle ((List.mem_cons.mp hq).resolve_left hqp), ?_⟩
      rw [he]
      simp [hqp]

theorem Kept.exempt (hk : Kept L X W m) : Kept L (insert r X) W m :=
  ⟨hk.lists, ⟨hk.trees.owned, hk.trees.nodup, fun r' hr' =>
    hk.trees.ordered r' fun hx => hr' (Set.mem_insert_of_mem r hx)⟩, hk.balanced, hk.roll⟩

theorem shrinkRegion_ok (hs : Supplied o) (hk : Kept L X W m) (hr : r ∉ X) (hclear : Clear m r len)
    (hok : shrinkRegion o r len m = .ok m') : Kept L X W m' := by
  obtain ⟨⟨reply, m₁⟩, hsub, hok⟩ := bind_ok.mp hok
  obtain ⟨vr, hvr, hok⟩ := bind_ok.mp hok
  have hk₁ := mapSubfree_ordered hs hk hr hclear hsub
  have hk₂ : Kept L X W (m₁.setRegion r { vr with
      vaddr := vr.vaddr + BitVec.ofNat 32 len, length := vr.length - BitVec.ofNat 32 len }) :=
    hk₁.sameTree (deref_ok hvr) rfl
  obtain ⟨hk', htree, hoffset⟩ := shiftTree_ok (hk₂.exempt (r := r)) (Set.mem_insert r X)
    (hk₂.trees.nodup r) (fun _ h => h) hok
  refine ⟨hk'.lists, ⟨hk'.trees.owned, hk'.trees.nodup, fun r' hr' => ?_⟩, hk'.balanced, hk'.roll⟩
  have horder := hk₂.trees.ordered r' hr'
  by_cases hrr : r' = r
  · subst hrr
    rw [ByOffset, htree]
    refine List.Pairwise.imp_of_mem (fun {a b} ha hb hlt => ?_) horder
    obtain ⟨hla, ha'⟩ := hoffset a
    obtain ⟨hlb, hb'⟩ := hoffset b
    rw [if_pos ha] at ha'
    rw [if_pos hb] at hb'
    have hla := hla ha
    omega
  · exact hk'.trees.ordered r' fun hx => hr' ((Set.mem_insert_iff.mp hx).resolve_left hrr)

theorem mapUnmapRegion_ok (hs : Supplied o) (hk : Kept.Ready ∅ m)
    (hclear : ∀ vr, m.region r = some vr → len < vr.length.toNat → Clear m r len)
    (hok : mapUnmapRegion o v r len m = .ok (reply, m')) : Kept.Ready ∅ m' := by
  rw [mapUnmapRegion] at hok
  split at hok
  · exact absurd hok (by simp)
  · rename_i hr
    replace hr : r ∈ m.vmRegions v := not_not.mp hr
    obtain ⟨vr, hvr, hok⟩ := bind_ok.mp hok
    split at hok
    · cases pure_ok.mp hok
      exact hk
    · rename_i hlen
      split at hok
      · cases pure_ok.mp hok
        exact hk
      · obtain ⟨X, W, hk, hh⟩ := hk
        have hvm := hk.vm v
        rw [hvm] at hr
        obtain ⟨hrX, _⟩ := hh.live v r hr
        obtain ⟨m₁, hpart, hok⟩ := bind_ok.mp hok
        have hmapped : Mapped m₁ m' := by
          split at hok <;> cases pure_ok.mp hok <;> exact ⟨rfl, rfl, rfl, rfl, rfl, rfl, rfl⟩
        rw [unmapPart] at hpart
        split at hpart
        · obtain ⟨⟨reply, m₂⟩, hfree, hpart⟩ := bind_ok.mp hpart
          cases pure_ok.mp hpart
          rw [hvm] at hfree
          obtain ⟨X', R, hX, hR, hk₁⟩ := mapFree_ok hs hk.setVmRegions hrX hfree
          exact ⟨X', _, hk₁.mapped hmapped, hh.without hr List.erase_sublist (hh.nodup v).not_mem_erase hX hR⟩
        · have hclear := hclear vr (deref_ok hvr) (by omega)
          exact ⟨X, W, (shrinkRegion_ok hs hk hrX hclear hpart).mapped hmapped, hh⟩

end Regions

end Vm
