import Cs111.Mfs.ZoneTree

namespace Mfs
open LinkTree

section Refs
variable {H : MfsHeaders} {sp : ZoneSuper H} {s s' : ZoneState H} {t : Path ℕ} {e k : ℕ}
  {z : BitVec 32} {ref : IndirRef}

inductive RefAt (sp : ZoneSuper H) (s : ZoneState H) : IndirRef → Path ℕ → Prop
  | single : RefAt sp s .single (.root SINGLE)
  | inDouble {k : ℕ} : k < indirects sp → s.node sp (.root DOUBLE) ≠ NO_ZONE →
      RefAt sp s (.inDouble (zoneBlock sp (s.node sp (.root DOUBLE))) k) (.child (.root DOUBLE) k)

theorem RefAt.mem (h : RefAt sp s ref t) : t ∈ (shape sp).places := by
  cases h with
  | single => exact (show SINGLE < DOUBLE + 1 by decide)
  | inDouble hk _ => exact ⟨.inr rfl, hk⟩

theorem RefAt.entry_mem (h : RefAt sp s ref t) (he : e < indirects sp) :
    .child t e ∈ (shape sp).places := by
  cases h with
  | single => exact ⟨.inl rfl, he⟩
  | inDouble hk _ => exact ⟨rfl, hk, he⟩

theorem RefAt.entry_lt (h : RefAt sp s ref t) (he : .child t e ∈ (shape sp).places) :
    e < indirects sp := by
  cases h with
  | single => exact he.2
  | inDouble => exact he.2.2

theorem RefAt.entry_leaf (h : RefAt sp s ref t) : IsLeaf sp (.child t e) := by
  intro j hj
  cases h with
  | single => exact absurd hj.1 (by decide)
  | inDouble => exact hj

theorem RefAt.up (h : RefAt sp s ref t) : ∀ p e, t = .child p e → s.node sp p ≠ NO_ZONE := by
  intro p e he
  cases h with
  | single => cases he
  | inDouble _ h0 =>
    cases he
    exact h0

theorem RefAt.setIndir_eq (h : RefAt sp s ref t) (hnd : s.rip.iNdzones = V2_NR_DZONES) :
    setIndir sp ref z s = setLink sp t z s := by
  cases h with
  | single =>
    rw [setIndir, hnd]
    rfl
  | inDouble => rfl

theorem RefAt.congr (h : RefAt sp s ref t)
    (hnode : s'.node sp (.root DOUBLE) = s.node sp (.root DOUBLE)) : RefAt sp s' ref t := by
  cases h with
  | single => exact .single
  | inDouble hk h0 =>
    rw [← hnode] at h0 ⊢
    exact .inDouble hk h0

theorem RefAt.entry_ne (h : RefAt sp s ref t) : .root DOUBLE ≠ t ∧ .root DOUBLE ≠ Path.child t e := by
  refine ⟨?_, fun he => by cases he⟩
  cases h with
  | single => exact fun he => absurd (Path.root.inj he) (by decide)
  | inDouble => exact fun he => by cases he

theorem empty_links {p : Path ℕ} (h0 : s.node sp p ≠ NO_ZONE)
    (hmem : ∀ e, .child p e ∈ (shape sp).places ↔ e < indirects sp) :
    emptyIndir sp (s.block (zoneBlock sp (s.node sp p))) = true ↔
      ∀ e, .child p e ∈ (shape sp).places → s.node sp (.child p e) = NO_ZONE := by
  rw [empty_iff]
  refine forall_congr' fun e => ?_
  rw [hmem]
  have hnode : s.node sp (.child p e) = indirEntry sp (s.block (zoneBlock sp (s.node sp p))) e :=
    Links.node_child h0
  rw [hnode]
  rfl

end Refs

section Stages
variable {H : MfsHeaders} {sp : ZoneSuper H} {s s₁ s' : ZoneState H} {d p : Path ℕ} {k n : ℕ}

def Lost (sp : ZoneSuper H) (s : ZoneState H) (d c : Path ℕ) (n : ℕ) : Prop :=
  ∃ q ∈ (shape sp).places, (Gone (shape sp) (s.links sp) d q ∧ Below q c) ∧
    s.node sp q ≠ NO_ZONE ∧ zoneBit sp (s.node sp q) = n

structure Stage (sp : ZoneSuper H) (s s' : ZoneState H) (d c : Path ℕ) : Prop where
  tree : ZoneTree sp s'
  cleared : ClearedTo (shape sp) (s.links sp) (s'.links sp) d c
  zmap : ∀ n, n ∈ s'.zmap ↔ n ∈ s.zmap ∧ ¬ Lost sp s d c n

theorem Stage.of_dirty {c : Path ℕ} (h : Stage sp s.dirtied s' d c) : Stage sp s s' d c :=
  ⟨h.tree, h.cleared, h.zmap⟩

theorem Stage.data (h : Freed sp s s' d) (hd : d ∈ (shape sp).places) : Stage sp s s' d d where
  tree := h.tree
  cleared := cleared_data h.self h.others
  zmap n := by
    rw [h.zmap]
    refine and_congr_right fun _ => not_congr ⟨fun hn => ⟨d, hd, ⟨.data, .self⟩, hn⟩, ?_⟩
    rintro ⟨q, -, ⟨hg, hb⟩, hn⟩
    obtain rfl : d = q := hb.antisymm hg.is_below |>.symm
    exact hn

theorem Stage.kept (h : Stage sp s s' d (.child p k)) (hk : Below d (.child p k))
    (hno : ¬ Gone (shape sp) (s.links sp) d p) : Stage sp s s' d p where
  tree := h.tree
  cleared := h.cleared.kept hk hno
  zmap n := by
    rw [h.zmap]
    refine and_congr_right fun _ => not_congr (exists_congr fun q => and_congr_right fun _ => ?_)
    rw [gone_to hk, or_iff_right fun hg => hno hg.2]

theorem Stage.node_up (h : Stage sp s s' d (.child p k)) (hp : p ∈ (shape sp).places) :
    s'.node sp p = s.node sp p :=
  (h.cleared p hp).2 fun hg => absurd hg.2 Below.not_child

theorem Stage.cleared_up (h : Stage sp s s₁ d (.child p k)) (hk : Below d (.child p k))
    (hp : p ∈ (shape sp).places) (hg : Gone (shape sp) (s.links sp) d p) (hf : Freed sp s₁ s' p) :
    Stage sp s s' d p where
  tree := hf.tree
  cleared := h.cleared.cleared hk hg hf.self hf.others
  zmap n := by
    rw [hf.zmap, h.zmap, h.node_up hp, and_assoc, ← not_or]
    refine and_congr_right fun _ => not_congr ⟨?_, ?_⟩
    · rintro (⟨q, hq, hgq, hn⟩ | hn)
      · exact ⟨q, hq, (gone_to hk).mpr (.inr hgq), hn⟩
      · exact ⟨p, hp, ⟨hg, .self⟩, hn⟩
    · rintro ⟨q, hq, hgq, hn⟩
      cases (gone_to hk).mp hgq with
      | inl hqp =>
        obtain ⟨rfl, -⟩ := hqp
        exact .inr hn
      | inr hgq => exact .inl ⟨q, hq, hgq, hn⟩

theorem Stage.gone_iff (h : Stage sp s s' d (.child p k)) (hk : Below d (.child p k)) :
    Gone (shape sp) (s.links sp) d p ↔
      ∀ e, .child p e ∈ (shape sp).places → s'.node sp (.child p e) = NO_ZONE :=
  h.cleared.gone_iff hk

structure Dropped (sp : ZoneSuper H) (s s' : ZoneState H) (p : Path ℕ) : Prop where
  freed : (∀ e, .child p e ∈ (shape sp).places → s.node sp (.child p e) = NO_ZONE) → Freed sp s s' p
  kept : ¬ (∀ e, .child p e ∈ (shape sp).places → s.node sp (.child p e) = NO_ZONE) → s' = s

theorem ZoneTree.dropped_none (h : ZoneTree sp s) (h0 : s.node sp p = NO_ZONE) : Dropped sp s s p :=
  ⟨fun _ => h.freed_none h0, fun _ => rfl⟩

theorem Stage.up (h : Stage sp s s₁ d (.child p k)) (hk : Below d (.child p k))
    (hp : p ∈ (shape sp).places) (hdrop : Dropped sp s₁ s' p) : Stage sp s s' d p := by
  by_cases hall : ∀ e, .child p e ∈ (shape sp).places → s₁.node sp (.child p e) = NO_ZONE
  · exact h.cleared_up hk hp ((h.gone_iff hk).mpr hall) (hdrop.freed hall)
  · rw [hdrop.kept hall]
    exact h.kept hk fun hg => hall ((h.gone_iff hk).mp hg)

end Stages

section Calls
variable {H : MfsHeaders} {sp : ZoneSuper H} {s : ZoneState H} {p t : Path ℕ} {e i : ℕ}
  {stale : BitVec 32 → IndBlock} {ref : IndirRef} {op newZone : BitVec 32}

theorem ZoneTree.freeZone_erases (h : ZoneTree sp s) (ht : t ∈ (shape sp).places)
    (h0 : s.node sp t ≠ NO_ZONE) :
    Ends (sp.sRdOnly = true) (freeZone sp (s.node sp t) s) fun s' =>
      s'.zmap = s.zmap.erase (zoneBit sp (s.node sp t)) ∧ s'.rip = s.rip ∧ s'.block = s.block :=
  freeZone_ends ((h.legal t ht).resolve_left h0) (h.used t ht h0)

theorem ZoneTree.freeEntry_freed (h : ZoneTree sp s) (hp : .child p e ∈ (shape sp).places)
    (hleaf : IsLeaf sp (.child p e)) (h0 : s.node sp p ≠ NO_ZONE) :
    Ends (sp.sRdOnly = true) (freeEntry sp (zoneBlock sp (s.node sp p)) e s) fun s' =>
      Freed sp s s' (.child p e) := by
  rw [freeEntry, h.rdIndir_eq hp h0]
  show Ends _ (if s.node sp (.child p e) ≠ NO_ZONE then _ else _) _
  split
  · rename_i hne
    refine (h.freeZone_erases hp hne).bind fun s₁ ⟨hzmap, hrip, hblock⟩ => ?_
    have hfreed := h.free_leaf hp hleaf hne (fun q j he => by cases he; exact h0) hzmap hrip hblock
    rw [setLink, node_congr hrip hblock] at hfreed
    exact hfreed
  · rename_i hnone
    exact h.freed_none (not_not.mp hnone)

theorem ZoneTree.freeIndir_dropped (h : ZoneTree sp s) (href : RefAt sp s ref t)
    (h0 : s.node sp t ≠ NO_ZONE) :
    Ends (sp.sRdOnly = true) (freeIndir sp stale ref (s.node sp t) s) fun r =>
      r.1 = r.2.node sp t ∧ Dropped sp s r.2 t := by
  have hempty := empty_links h0 fun e => ⟨href.entry_lt, href.entry_mem⟩
  rw [freeIndir]
  split
  · rename_i hemp
    refine (h.freeZone_erases href.mem h0).bind fun s₁ ⟨hzmap, hrip, hblock⟩ => ?_
    have href₁ : RefAt sp s₁ ref t := href.congr (node_congr hrip hblock)
    have hfreed := h.free_node (stale (zoneBlock sp (s.node sp t))) href.mem h0 href.up
      (hempty.mp hemp) hzmap hrip hblock
    rw [← href₁.setIndir_eq (hrip ▸ h.ndzones)] at hfreed
    exact ⟨hfreed.self.symm, fun _ => hfreed, fun hno => absurd (hempty.mp hemp) hno⟩
  · rename_i hemp
    exact ⟨rfl, fun hall => absurd (hempty.mpr hall) hemp, fun _ => rfl⟩

theorem ZoneTree.fill_free (h : ZoneTree sp s) (href : RefAt sp s ref t)
    (hop : op &&& WMAP_FREE ≠ 0) (he : e < indirects sp) :
    Ends (sp.sRdOnly = true) (fillIndir sp op stale ref (s.node sp t) false e newZone s) fun r =>
      r.1 = r.2.node sp t ∧ Stage sp s r.2 (.child t e) t := by
  have hd := href.entry_mem he
  rw [fillIndir]
  split
  · rename_i h0
    have hdata := Stage.data (h.freed_none (Links.node_below h0)) hd
    exact ⟨rfl, hdata.up .self href.mem (h.dropped_none h0)⟩
  · rename_i h0
    simp only [Bool.false_eq_true, if_false]
    refine (h.freeEntry_freed hd href.entry_leaf h0).bind fun s₁ hf => ?_
    have hdata : Stage sp s s₁ (.child t e) (.child t e) := .data hf hd
    have href₁ : RefAt sp s₁ ref t :=
      href.congr (hf.others _ (show DOUBLE < DOUBLE + 1 by decide) href.entry_ne.2)
    rw [← hdata.node_up href.mem] at h0 ⊢
    exact (hf.tree.freeIndir_dropped href₁ h0).mono fun r ⟨hr, hdrop⟩ =>
      ⟨hr, hdata.up .self href.mem hdrop⟩

theorem makeIndir_free {z1 : BitVec 32} (hop : op &&& WMAP_FREE ≠ 0) :
    makeIndir sp op ref z1 s = .ok (z1, false, s) := if_neg fun h => hop h.2

theorem ZoneTree.mapSingle_free (h : ZoneTree sp s) (hop : op &&& WMAP_FREE ≠ 0)
    (he : e < indirects sp) :
    Ends (sp.sRdOnly = true) (mapSingle sp op stale e newZone s) fun r =>
      r.1 = .OK ∧ Stage sp s r.2 (.child (.root SINGLE) e) (.root SINGLE) := by
  rw [mapSingle, makeIndir_free hop, h.ndzones]
  exact (h.fill_free .single hop he).bind fun r hr => ⟨rfl, hr.2⟩

theorem double_mem : .root DOUBLE ∈ (shape sp).places := show DOUBLE < DOUBLE + 1 by decide

theorem double_entry : .child (.root DOUBLE) e ∈ (shape sp).places ↔ e < indirects sp :=
  ⟨And.right, fun he => ⟨.inr rfl, he⟩⟩

theorem ZoneTree.dropDouble_dropped {k : ℕ} (h : ZoneTree sp s) (hk : k < indirects sp)
    (h0 : s.node sp (.root DOUBLE) ≠ NO_ZONE) :
    Ends (sp.sRdOnly = true) (dropDouble sp stale (s.node sp (.child (.root DOUBLE) k))
      (s.node sp (.root DOUBLE)) s) fun s' => Dropped sp s s' (.root DOUBLE) := by
  have hempty := empty_links h0 fun e =>
    ⟨fun he => double_entry.mp he, fun he => double_entry.mpr he⟩
  rw [dropDouble]
  split
  · rename_i hdrop
    obtain ⟨-, -, hemp⟩ := hdrop
    refine (h.freeZone_erases double_mem h0).bind fun s₁ ⟨hzmap, hrip, hblock⟩ => ?_
    have hfreed := h.free_node (stale (zoneBlock sp (s.node sp (.root DOUBLE)))) double_mem h0
      (fun p e he => by cases he) (hempty.mp hemp) hzmap hrip hblock
    rw [hrip, h.ndzones]
    exact ⟨fun _ => hfreed, fun hno => absurd (hempty.mp hemp) hno⟩
  · rename_i hkeep
    refine ⟨fun hall => absurd ⟨hall k ⟨.inr rfl, hk⟩, h0, hempty.mpr hall⟩ hkeep, fun _ => rfl⟩

theorem Loaded.read_double {k : ℕ} (h : Loaded sp s) (hk : k < indirects sp) :
    rdDouble sp (s.node sp (.root DOUBLE)) k s = .ok (s.node sp (.child (.root DOUBLE) k)) := by
  rw [rdDouble]
  split
  · rename_i h0
    exact congrArg Except.ok (Links.node_below h0).symm
  · rename_i h0
    exact h.rdIndir_eq ⟨.inr rfl, hk⟩ h0

theorem ZoneTree.mapInDouble_free {k : ℕ} (h : ZoneTree sp s) (hop : op &&& WMAP_FREE ≠ 0)
    (hk : k < indirects sp) (he : e < indirects sp) :
    Ends (sp.sRdOnly = true) (mapInDouble sp op stale (s.node sp (.root DOUBLE))
      (s.node sp (.root DOUBLE)) false k e newZone s) fun r =>
      r.1 = .OK ∧ Stage sp s r.2 (.child (.child (.root DOUBLE) k) e) (.root DOUBLE) := by
  have hd : .child (.child (.root DOUBLE) k) e ∈ (shape sp).places := ⟨rfl, hk, he⟩
  rw [mapInDouble]
  simp only [Bool.false_eq_true, if_false]
  rw [h.read_double hk]
  show Ends _ (makeIndir sp op _ _ s >>= _) _
  rw [makeIndir_free hop]
  by_cases h0 : s.node sp (.root DOUBLE) = NO_ZONE
  · have hsub : s.node sp (.child (.root DOUBLE) k) = NO_ZONE := Links.node_below h0
    have hdata := Stage.data (h.freed_none (Links.node_below hsub)) hd
    have hup := (hdata.up .self ((shape sp).closed hd) (h.dropped_none hsub)).up (.up .self)
      double_mem (h.dropped_none h0)
    rw [hsub, h0]
    exact ⟨rfl, hup⟩
  · refine (h.fill_free (.inDouble hk h0) hop he).bind fun r ⟨hr, hst⟩ => ?_
    have hnode : r.2.node sp (.root DOUBLE) = s.node sp (.root DOUBLE) := hst.node_up double_mem
    rw [← hnode] at h0 ⊢
    rw [hr]
    exact (hst.tree.dropDouble_dropped hk h0).bind fun s' hdrop =>
      ⟨rfl, hst.up (.up .self) double_mem hdrop⟩

end Calls

end Mfs
