import Cs111.Mfs.ZoneFree

namespace Mfs
open LinkTree

section Making
variable {H : MfsHeaders} {sp : ZoneSuper H} {s s' : ZoneState H} {t d : Path ℕ} {e k : ℕ}
  {z op newZone near : BitVec 32} {stale : BitVec 32 → IndBlock} {ref : IndirRef} {new : Bool}

inductive Got (sp : ZoneSuper H) (s : ZoneState H) (t : Path ℕ) :
    BitVec 32 → Bool → ZoneState H → Prop
  | old : s.node sp t ≠ NO_ZONE → Got sp s t (s.node sp t) false s
  | made {z : BitVec 32} {s₁ : ZoneState H} : s.node sp t = NO_ZONE → Fresh sp s s₁ z →
      Got sp s t z true (setLink sp t z s₁)

structure Standing (sp : ZoneSuper H) (s s' : ZoneState H) (t : Path ℕ) (z : BitVec 32) : Prop where
  tree : ZoneTree sp s'
  self : s'.node sp t = z
  ne : z ≠ NO_ZONE
  others : ∀ q ∈ (shape sp).places, q ≠ t → s'.node sp q = s.node sp q

theorem Got.zeroed (h : ZoneTree sp s) (hgot : Got sp s t z new s') (ht : t ∈ (shape sp).places)
    (hup : ∀ p e, t = .child p e → s.node sp p ≠ NO_ZONE) :
    Standing sp s (if new then s'.setBlock (zoneBlock sp z) zeroBlock else s') t z := by
  cases hgot with
  | old h0 => exact ⟨h, rfl, h0, fun _ _ _ => rfl⟩
  | made h0 hf =>
    obtain ⟨hlinked, htree⟩ := h.attach hf ht hup h0
    exact ⟨htree, hlinked.self, hf.legal.ne_zone, hlinked.others⟩

theorem ZoneTree.makeIndir_got (h : ZoneTree sp s) (href : RefAt sp s ref t)
    (hop : op &&& WMAP_FREE = 0) :
    Ends (sp.sRdOnly = true) (makeIndir sp op ref (s.node sp t) s) fun r =>
      (r.1 = NO_ZONE ∧ r.2.1 = true ∧ r.2.2.errCode = .ENOSPC) ∨ Got sp s t r.1 r.2.1 r.2.2 := by
  rw [makeIndir]
  split
  · rename_i h0
    refine allocZone_ends.bind fun r hr => ?_
    cases hr with
    | inl hnone => exact .inl ⟨hnone.1, rfl, by cases ref <;> exact hnone.2⟩
    | inr hf =>
      have href₁ : RefAt sp r.2 ref t := href.congr (node_congr hf.rip hf.block)
      refine .inr ?_
      show Got sp s t r.1 true (setIndir sp ref r.1 r.2)
      rw [href₁.setIndir_eq (hf.rip ▸ h.ndzones)]
      exact .made h0.1 hf
  · rename_i h0
    exact .inr (.old fun hnone => h0 ⟨hnone, hop⟩)

theorem ZoneTree.makeDouble_got (h : ZoneTree sp s) (hop : op &&& WMAP_FREE = 0) :
    Ends (sp.sRdOnly = true) (makeDouble sp op s) fun r =>
      (r.1 = NO_ZONE ∧ r.2.1 = true ∧ r.2.2.errCode = .ENOSPC) ∨
        Got sp s (.root DOUBLE) r.1 r.2.1 r.2.2 := by
  rw [makeDouble, h.ndzones]
  split
  · rename_i h0
    refine allocZone_ends.bind ?_
    rintro ⟨z, s₁⟩ hr
    dsimp only at hr ⊢
    cases hr with
    | inl hnone =>
      rw [if_pos hnone.1]
      exact .inl ⟨hnone.1, rfl, hnone.2⟩
    | inr hf =>
      rw [if_neg hf.legal.ne_zone, hf.rip, h.ndzones]
      exact .inr (.made h0.1 hf)
  · rename_i h0
    exact .inr (.old fun hnone => h0 ⟨hnone, hop⟩)

structure LeafSet (sp : ZoneSuper H) (s s' : ZoneState H) (d : Path ℕ) (z : BitVec 32) : Prop where
  loaded : Loaded sp s'
  self : s'.node sp d = z
  others : ∀ q ∈ (shape sp).places, IsLeaf sp q → q ≠ d → s'.node sp q = s.node sp q

theorem LeafSet.after {s₁ : ZoneState H} (h : LeafSet sp s₁ s' d z) {b : BitVec 32}
    (hs : Standing sp s s₁ t b) (ht : .child t e ∈ (shape sp).places) : LeafSet sp s s' d z where
  loaded := h.loaded
  self := h.self
  others q hq hleaf hne := by
    have hqt : q ≠ t := fun he => hleaf e (he ▸ ht)
    rw [h.others q hq hleaf hne, hs.others q hq hqt]

theorem LeafSet.of_dirty (h : LeafSet sp s.dirtied s' d z) :
    LeafSet sp s s' d z := ⟨h.loaded, h.self, h.others⟩

theorem Linked.leafSet (h : Linked sp s s' d z) : LeafSet sp s s' d z :=
  ⟨h.loaded, h.self, fun q hq _ hne => h.others q hq hne⟩

theorem ZoneTree.fill_set {z1 : BitVec 32} {s₁ : ZoneState H} (h : ZoneTree sp s)
    (href : RefAt sp s ref t) (hop : op &&& WMAP_FREE = 0) (he : e < indirects sp)
    (hz : newZone = NO_ZONE ∨ Legal sp newZone) (hgot : Got sp s t z1 new s₁) :
    Ends (sp.sRdOnly = true) (fillIndir sp op stale ref z1 new e newZone s₁) fun r =>
      r.1 ≠ NO_ZONE ∧ LeafSet sp s r.2 (.child t e) newZone := by
  have hs := hgot.zeroed h href.mem href.up
  have hd := href.entry_mem he
  rw [fillIndir, if_neg hs.ne]
  dsimp only
  rw [if_neg (not_not.mpr hop)]
  have hset := (hs.tree.set_leaf hd href.entry_leaf hz fun p j hp => by
    cases hp
    rw [hs.self]
    exact hs.ne).leafSet.after hs hd
  rw [setLink, hs.self] at hset
  exact ⟨hs.ne, hset⟩

theorem ZoneTree.mapSingle_set (h : ZoneTree sp s) (hop : op &&& WMAP_FREE = 0)
    (he : e < indirects sp) (hz : newZone = NO_ZONE ∨ Legal sp newZone) :
    Ends (sp.sRdOnly = true) (mapSingle sp op stale e newZone s) fun r =>
      r.1 = .OK → LeafSet sp s r.2 (.child (.root SINGLE) e) newZone := by
  have href : RefAt sp s .single (.root SINGLE) := .single
  rw [mapSingle, h.ndzones]
  refine (h.makeIndir_got href hop).bind ?_
  rintro ⟨z1, newInd, s₁⟩ hr
  dsimp only at hr ⊢
  cases hr with
  | inl hnone =>
    rw [if_pos ⟨hnone.2.1, hnone.1⟩]
    exact fun hok => absurd (hok.symm.trans hnone.2.2) (by decide)
  | inr hgot =>
    have hs := hgot.zeroed h href.mem href.up
    rw [if_neg fun hno => hs.ne hno.2]
    exact (h.fill_set href hop he hz hgot).bind fun r' hr' _ => hr'.2

theorem ZoneTree.mapInDouble_set (h : ZoneTree sp s) (hop : op &&& WMAP_FREE = 0)
    (hk : k < indirects sp) (he : e < indirects sp) (hz : newZone = NO_ZONE ∨ Legal sp newZone)
    {z2 : BitVec 32} {s₀ : ZoneState H} (hgot : Got sp s (.root DOUBLE) z new s₀) :
    Ends (sp.sRdOnly = true) (mapInDouble sp op stale z z2 new k e newZone s₀) fun r =>
      r.1 = .OK → LeafSet sp s r.2 (.child (.child (.root DOUBLE) k) e) newZone := by
  have hs := hgot.zeroed h double_mem fun p j hp => by cases hp
  have hsub : .child (.root DOUBLE) k ∈ (shape sp).places := double_entry.mpr hk
  rw [mapInDouble]
  dsimp only
  generalize (if new = true then s₀.setBlock (zoneBlock sp z) zeroBlock else s₀) = s₁ at hs ⊢
  have h0 : s₁.node sp (.root DOUBLE) ≠ NO_ZONE := hs.self ▸ hs.ne
  have href : RefAt sp s₁ (.inDouble (zoneBlock sp z) k) (.child (.root DOUBLE) k) := by
    rw [← hs.self]
    exact .inDouble hk h0
  have hread : rdDouble sp z k s₁ = .ok (s₁.node sp (.child (.root DOUBLE) k)) := by
    rw [← hs.self]
    exact hs.tree.read_double hk
  rw [hread]
  refine (hs.tree.makeIndir_got href hop).bind ?_
  rintro ⟨z1, newInd, s₂⟩ hr
  dsimp only at hr ⊢
  cases hr with
  | inl hnone =>
    rw [if_pos ⟨hnone.2.1, hnone.1⟩]
    exact fun hok => absurd (hok.symm.trans hnone.2.2) (by decide)
  | inr hgot₁ =>
    have hs₁ := hgot₁.zeroed hs.tree href.mem href.up
    rw [if_neg fun hno => hs₁.ne hno.2]
    refine (hs.tree.fill_set href hop he hz hgot₁).bind ?_
    rintro ⟨z1, s₃⟩ ⟨hne, hset⟩
    dsimp only at hne hset ⊢
    rw [dropDouble, if_neg fun hno => hne hno.1]
    exact fun _ => hset.after hs hsub

theorem ZoneTree.mapDouble_set {n : ℕ} (h : ZoneTree sp s) (hop : op &&& WMAP_FREE = 0)
    (hn : n < indirects sp * indirects sp) (hz : newZone = NO_ZONE ∨ Legal sp newZone) :
    Ends (sp.sRdOnly = true) (mapDouble sp op stale n newZone s) fun r =>
      r.1 = .OK → LeafSet sp s r.2
        (.child (.child (.root DOUBLE) (n / indirects sp)) (n % indirects sp)) newZone := by
  have hk : n / indirects sp < indirects sp := (Nat.div_lt_iff_lt_mul indirects_pos).mpr hn
  have he : n % indirects sp < indirects sp := Nat.mod_lt _ indirects_pos
  rw [mapDouble]
  refine (h.makeDouble_got hop).bind ?_
  rintro ⟨z, newDbl, s₁⟩ hr
  dsimp only at hr ⊢
  cases hr with
  | inl hnone =>
    rw [if_pos ⟨hnone.2.1, hnone.1⟩]
    exact fun hok => absurd (hok.symm.trans hnone.2.2) (by decide)
  | inr hgot =>
    have hs := hgot.zeroed h double_mem fun p j hp => by cases hp
    have hni : s₁.rip.iNindirs = indirects sp := by
      rw [← hs.tree.nindirs]
      split <;> rfl
    rw [if_neg fun hno => hs.ne hno.2, hni, if_neg (by omega)]
    exact h.mapInDouble_set hop hk he hz hgot

end Making

section Calls
variable {H : MfsHeaders} {sp : ZoneSuper H} {s s' : ZoneState H} {d : Path ℕ}
  {stale : BitVec 32 → IndBlock} {op newZone z : BitVec 32} {position n i : ℕ}

theorem ZoneTree.mapDouble_free (h : ZoneTree sp s) (hop : op &&& WMAP_FREE ≠ 0)
    (hn : n < indirects sp * indirects sp) :
    Ends (sp.sRdOnly = true) (mapDouble sp op stale n newZone s) fun r =>
      r.1 = .OK ∧ Stage sp s r.2
        (.child (.child (.root DOUBLE) (n / indirects sp)) (n % indirects sp)) (.root DOUBLE) := by
  have hk : n / indirects sp < indirects sp := (Nat.div_lt_iff_lt_mul indirects_pos).mpr hn
  have he : n % indirects sp < indirects sp := Nat.mod_lt _ indirects_pos
  have hmake : makeDouble sp op s = .ok (s.node sp (.root DOUBLE), false, s) := by
    rw [makeDouble, h.ndzones, if_neg fun hno => hop hno.2]
    rfl
  rw [mapDouble, hmake, h.ndzones]
  refine Ends.bind (Q := fun r => r = (s.node sp (.root DOUBLE), false, s)) rfl ?_
  rintro _ rfl
  dsimp only
  rw [if_neg fun hno => Bool.false_ne_true hno.1, h.nindirs, if_neg (by omega)]
  exact h.mapInDouble_free hop hk he

theorem direct_mem (hi : i < V2_NR_DZONES) : .root i ∈ (shape sp).places :=
  hi.trans (show V2_NR_DZONES < DOUBLE + 1 by decide)

theorem direct_leaf (hi : i < V2_NR_DZONES) : IsLeaf sp (.root i) := by
  intro e he
  obtain ⟨h, -⟩ : (i = SINGLE ∨ i = DOUBLE) ∧ e < indirects sp := he
  simp only [SINGLE, DOUBLE] at h
  omega

theorem ZoneTree.mapDirect_set (h : ZoneTree sp s) (hi : i < V2_NR_DZONES)
    (hz : z = NO_ZONE ∨ Legal sp z) : LeafSet sp s (s.setZone i z) (.root i) z :=
  (h.set_leaf (direct_mem hi) (direct_leaf hi) hz fun p e he => by cases he).leafSet

theorem ZoneTree.mapDirect_free (h : ZoneTree sp s) (hi : i < V2_NR_DZONES)
    (hop : op &&& WMAP_FREE ≠ 0) (h0 : s.zone i ≠ NO_ZONE ∨ newZone = NO_ZONE) :
    Ends (sp.sRdOnly = true) (mapDirect sp op i newZone s) fun r =>
      r.1 = .OK ∧ Stage sp s r.2 (.root i) (.root i) := by
  have hmem : .root i ∈ (shape sp).places := direct_mem hi
  rw [mapDirect]
  split
  · rename_i hfree
    refine (h.freeZone_erases hmem hfree.1).bind fun s₁ ⟨hzmap, hrip, hblock⟩ => ?_
    exact ⟨rfl, .data (h.free_leaf hmem (direct_leaf hi) hfree.1 (fun p e he => by cases he) hzmap
      hrip hblock) hmem⟩
  · rename_i hno
    have hnone : s.zone i = NO_ZONE := by
      by_contra hz
      exact hno ⟨hz, hop⟩
    have hsame : s.setZone i newZone = s := by
      rw [h0.resolve_left (not_not.mpr hnone), ← hnone, ZoneState.setZone, ZoneState.zone,
        Function.update_eq_self]
    show Status.OK = .OK ∧ Stage sp s (s.setZone i newZone) (.root i) (.root i)
    rw [hsame]
    exact ⟨rfl, .data (h.freed_none hnone) hmem⟩

theorem ZoneTree.dirty (h : ZoneTree sp s) : ZoneTree sp s.dirtied :=
  ⟨⟨h.ndzones, h.nindirs, h.legal⟩, h.unshared, h.used⟩

theorem ZoneTree.writeMap_set (h : ZoneTree sp s) (hr : InRange sp (relZone sp position))
    (hop : op &&& WMAP_FREE = 0) (hz : newZone = NO_ZONE ∨ Legal sp newZone) :
    Ends (sp.sRdOnly = true) (writeMap sp op stale position newZone s) fun r =>
      r.1 = .OK → LeafSet sp s r.2 (dataPlace (indirects sp) (relZone sp position)) newZone := by
  have hs := h.dirty
  rw [InRange] at hr
  rw [writeMap, dataPlace, hs.ndzones, hs.nindirs]
  split
  · rename_i hi
    rw [mapDirect, if_neg fun hno => hno.2 hop]
    exact fun _ => (hs.mapDirect_set hi hz).of_dirty
  · split
    · rename_i he
      exact (hs.mapSingle_set hop he hz).mono fun r hr hok => (hr hok).of_dirty
    · exact (hs.mapDouble_set hop (by omega) hz).mono fun r hr hok => (hr hok).of_dirty

def rootPlace (n zone : ℕ) : Path ℕ :=
  if zone < V2_NR_DZONES then .root zone
  else if zone - V2_NR_DZONES < n then .root SINGLE
  else .root DOUBLE

theorem ZoneTree.writeMap_free (h : ZoneTree sp s) (hr : InRange sp (relZone sp position))
    (hop : op &&& WMAP_FREE ≠ 0)
    (h0 : relZone sp position < V2_NR_DZONES → s.zone (relZone sp position) = NO_ZONE →
      newZone = NO_ZONE) :
    Ends (sp.sRdOnly = true) (writeMap sp op stale position newZone s) fun r =>
      r.1 = .OK ∧ Stage sp s r.2 (dataPlace (indirects sp) (relZone sp position))
        (rootPlace (indirects sp) (relZone sp position)) := by
  have hs := h.dirty
  rw [InRange] at hr
  rw [writeMap, dataPlace, rootPlace, hs.ndzones, hs.nindirs]
  split
  · rename_i hi
    refine (hs.mapDirect_free hi hop ?_).mono fun r hr => ⟨hr.1, hr.2.of_dirty⟩
    by_cases hz : s.zone (relZone sp position) = NO_ZONE
    · exact .inr (h0 hi hz)
    · exact .inl hz
  · split
    · rename_i he
      exact (hs.mapSingle_free hop he).mono fun r hr => ⟨hr.1, hr.2.of_dirty⟩
    · exact (hs.mapDouble_free hop (by omega)).mono fun r hr => ⟨hr.1, hr.2.of_dirty⟩

theorem writeMap_hole (h : Loaded sp s) (hi : relZone sp position < V2_NR_DZONES)
    (h0 : s.zone (relZone sp position) = NO_ZONE) :
    writeMap sp op stale position newZone s =
      .ok (.OK, s.dirtied.setZone (relZone sp position) newZone) := by
  have hnd : s.dirtied.rip.iNdzones = V2_NR_DZONES := h.ndzones
  rw [writeMap, hnd, if_pos hi, mapDirect, if_neg fun hno => hno.1 h0]

end Calls

section Results
variable {H : MfsHeaders} {sp : ZoneSuper H} {s s' : ZoneState H} {position : ℕ} {z : BitVec 32}

structure SetsMap (sp : ZoneSuper H) (s s' : ZoneState H) (position : ℕ) (z : BitVec 32) : Prop where
  zone : ∀ q, relZone sp q = relZone sp position → readMap sp s' q = .ok (mapped sp z q)
  others : ∀ q, InRange sp (relZone sp q) → relZone sp q ≠ relZone sp position →
    readMap sp s' q = readMap sp s q

structure ClearsMap (sp : ZoneSuper H) (s s' : ZoneState H) (position : ℕ) : Prop where
  map : SetsMap sp s s' position NO_ZONE
  freed : ∀ n, n ∈ s'.zmap ↔ n ∈ s.zmap ∧ ¬ ∃ p ∈ (shape sp).places,
    Gone (shape sp) (s.links sp) (dataPlace (indirects sp) (relZone sp position)) p ∧
      s.node sp p ≠ NO_ZONE ∧ zoneBit sp (s.node sp p) = n
  -- an indirect block without entries had none before
  kept : ∀ p e, .child p e ∈ (shape sp).places → s'.node sp p ≠ NO_ZONE →
    (∀ j, .child p j ∈ (shape sp).places → s'.node sp (.child p j) = NO_ZONE) →
    s'.node sp p = s.node sp p ∧
      ∀ j, .child p j ∈ (shape sp).places → s.node sp (.child p j) = NO_ZONE

theorem Loaded.setsMap (h : Loaded sp s) (h' : Loaded sp s')
    (hr : InRange sp (relZone sp position))
    (hself : s'.node sp (dataPlace (indirects sp) (relZone sp position)) = z)
    (hothers : ∀ q ∈ (shape sp).places, IsLeaf sp q →
      q ≠ dataPlace (indirects sp) (relZone sp position) → s'.node sp q = s.node sp q) :
    SetsMap sp s s' position z where
  zone q hq := by
    rw [h'.readMap_eq (hq ▸ hr), hq, hself]
  others q hq hne := by
    rw [h'.readMap_eq hq, h.readMap_eq hq, hothers _ (dataPlace_mem hq) leaf_data fun he =>
      hne (dataPlace_inj he)]

theorem below_rootPlace (n zone : ℕ) : Below (dataPlace n zone) (rootPlace n zone) := by
  rw [dataPlace, rootPlace]
  split
  · exact .self
  · split
    · exact .up .self
    · exact .up (.up .self)

theorem gone_below_root {p : Path ℕ} {n zone : ℕ} {V : Shape ℕ} {l : Links ℕ (BitVec 32)}
    (h : Gone V l (dataPlace n zone) p) : Below p (rootPlace n zone) := by
  have hroot : ∃ i, rootPlace n zone = .root i := by
    rw [rootPlace]
    split
    · exact ⟨_, rfl⟩
    · split
      · exact ⟨_, rfl⟩
      · exact ⟨_, rfl⟩
  cases h.is_below.comparable (below_rootPlace n zone) with
  | inl hb => exact hb
  | inr hb =>
    obtain ⟨i, hi⟩ := hroot
    rw [hi] at hb ⊢
    rw [below_root.mp hb]
    exact .self

theorem Stage.node_gone {d c p : Path ℕ} (h : Stage sp s s' d c) (hp : p ∈ (shape sp).places)
    (hb : Gone (shape sp) (s.links sp) d p → Below p c) :
    (Gone (shape sp) (s.links sp) d p → s'.node sp p = NO_ZONE) ∧
      (¬ Gone (shape sp) (s.links sp) d p → s'.node sp p = s.node sp p) :=
  ⟨fun hg => (h.cleared p hp).1 ⟨hg, hb hg⟩, fun hg => (h.cleared p hp).2 fun hno => hg hno.1⟩

theorem leaf_not_gone {d q : Path ℕ} (hleaf : IsLeaf sp q) (hd : d ∈ (shape sp).places)
    (hne : q ≠ d) : ¬ Gone (shape sp) (s.links sp) d q := by
  intro hg
  cases hg with
  | data => exact hne rfl
  | inner hb _ => exact hleaf _ (hb.mem hd)

theorem Stage.clearsMap (h : ZoneTree sp s) (hr : InRange sp (relZone sp position))
    (hst : Stage sp s s' (dataPlace (indirects sp) (relZone sp position))
      (rootPlace (indirects sp) (relZone sp position))) : ClearsMap sp s s' position := by
  have hd := dataPlace_mem hr
  have hnode := fun p hp => hst.node_gone (p := p) hp gone_below_root
  refine ⟨h.toLoaded.setsMap hst.tree.toLoaded hr ((hnode _ hd).1 .data)
    fun q hq hleaf hne => (hnode q hq).2 (leaf_not_gone hleaf hd hne), fun n => ?_, ?_⟩
  · rw [hst.zmap]
    refine and_congr_right fun _ => not_congr (exists_congr fun p => and_congr_right fun _ => ?_)
    rw [and_iff_left_of_imp gone_below_root]
  · intro p e he hp0 hall
    have hp : p ∈ (shape sp).places := (shape sp).closed he
    have hno : ¬ Gone (shape sp) (s.links sp) _ p := fun hg => hp0 ((hnode p hp).1 hg)
    refine ⟨(hnode p hp).2 hno, fun j hj => ?_⟩
    by_contra h0
    -- an entry that was there and is gone lies on the way to the position
    have hgone : ∀ k, .child p k ∈ (shape sp).places → s.node sp (.child p k) ≠ NO_ZONE →
        Gone (shape sp) (s.links sp) (dataPlace (indirects sp) (relZone sp position))
          (.child p k) := by
      intro k hk hk0
      by_contra hg
      exact hk0 (((hnode _ hk).2 hg).symm.trans (hall k hk))
    exact hno (.inner (hgone j hj h0).is_below hgone)

theorem blockOff_lt : blockOff sp position < 2 ^ sp.sLogZoneSize := by
  rw [blockOff, relZone, Nat.shiftRight_eq_div_pow, Nat.shiftLeft_eq]
  have hmod := Nat.mod_lt (position / sp.sBlockSize) (Nat.two_pow_pos sp.sLogZoneSize)
  have hdiv := Nat.div_add_mod' (position / sp.sBlockSize) (2 ^ sp.sLogZoneSize)
  omega

theorem blockAt_ne (hz : Legal sp z) : blockAt sp z position ≠ BitVec.ofNat 32 NO_BLOCK := by
  have hoff : blockOff sp position < 2 ^ sp.sLogZoneSize := blockOff_lt
  have hle : (z.toNat + 1) * 2 ^ sp.sLogZoneSize ≤ 2 ^ 32 :=
    (Nat.mul_le_mul_right _ hz.2).trans sp.blocks_le
  rw [Nat.succ_mul] at hle
  have hpos : 0 < z.toNat * 2 ^ sp.sLogZoneSize :=
    Nat.mul_pos ((Nat.zero_lt_of_lt sp.first_gt).trans_le hz.1) (Nat.two_pow_pos _)
  intro he
  have hval := congrArg BitVec.toNat he
  rw [blockAt, zoneBlock, BitVec.toNat_add, BitVec.toNat_shiftLeft, BitVec.toNat_ofNat,
    Nat.shiftLeft_eq, Nat.mod_eq_of_lt (by omega), Nat.mod_eq_of_lt (by omega),
    Nat.mod_eq_of_lt (by omega)] at hval
  have hzero : z.toNat * 2 ^ sp.sLogZoneSize + blockOff sp position = 0 := hval
  omega

theorem writeMap_iff (sp : ZoneSuper H) (stale : BitVec 32 → IndBlock) (s : ZoneState H)
    (position : ℕ) (z op : BitVec 32) (h : ZoneTree sp s) (hr : InRange sp (relZone sp position))
    (hz : z = NO_ZONE ∨ Legal sp z) :
    (op &&& WMAP_FREE = 0 → ∀ s', writeMap sp op stale position z s = .ok (.OK, s') →
      SetsMap sp s s' position z) ∧
    (op &&& WMAP_FREE ≠ 0 →
      (sp.sRdOnly = false → ∃ s', writeMap sp op stale position z s = .ok (.OK, s')) ∧
      ∀ r s', writeMap sp op stale position z s = .ok (r, s') →
        (ClearsMap sp s s' position ↔ ¬ (relZone sp position < s.rip.iNdzones ∧
          s.zone (relZone sp position) = NO_ZONE ∧ z ≠ NO_ZONE))) := by
  refine ⟨fun hop s' hok => ?_, fun hop => ?_⟩
  · have hset := (h.writeMap_set hr hop hz).of_ok hok rfl
    exact h.toLoaded.setsMap hset.loaded hr hset.self hset.others
  · rw [h.ndzones]
    by_cases hhole : relZone sp position < V2_NR_DZONES ∧ s.zone (relZone sp position) = NO_ZONE ∧
        z ≠ NO_ZONE
    · obtain ⟨hi, h0, hne⟩ := hhole
      have hrun : writeMap sp op stale position z s = .ok _ := writeMap_hole h.toLoaded hi h0
      refine ⟨fun _ => ⟨_, hrun⟩, fun r s' hok => ?_⟩
      rw [hrun] at hok
      cases hok
      refine iff_of_false (fun hclear => ?_) (not_not.mpr ⟨hi, h0, hne⟩)
      have hread := hclear.map.zone position rfl
      have hset := h.dirty.mapDirect_set hi hz
      rw [hset.loaded.readMap_eq hr, dataPlace, if_pos hi, hset.self, mapped, if_neg hne,
        mapped_zero rfl] at hread
      exact blockAt_ne (hz.resolve_left hne) (Except.ok.inj hread)
    · have hend : Ends _ (writeMap sp op stale position z s) _ := h.writeMap_free hr hop fun hi h0 => by
        by_contra hne
        exact hhole ⟨hi, h0, hne⟩
      refine ⟨fun hro => ?_, fun r s' hok => ?_⟩
      · obtain ⟨⟨r, s'⟩, hok, hres, -⟩ := hend.ok (by rw [hro]; exact Bool.false_ne_true)
        cases hres
        exact ⟨s', hok⟩
      · exact iff_of_true ((hend.of_ok hok).2.clearsMap h hr) hhole

end Results

theorem zoned_above : 4 < 40 := by decide

theorem zoned_first : 40 < v1Super.sZones := by decide

theorem zoned_size : v1Super.sBlockSize % 512 = 0 := by decide

theorem zoned_blocks : v1Super.sZones * 2 ^ 0 ≤ 2 ^ 32 := by decide

def zonedSuper : ZoneSuper charHeaders :=
  ⟨v1Super, 0, 40, zoned_above, zoned_first, zoned_size, zoned_blocks⟩

def emptyFile : ZoneState charHeaders :=
  ⟨linkedInode 1, fun _ => zeroBlock, {0}, 0, .OK⟩

theorem emptyFile_node (p : Path ℕ) : emptyFile.node zonedSuper p = NO_ZONE := by
  induction p with
  | root i => rfl
  | child p e ih => exact Links.node_below ih

theorem emptyFile_tree : ZoneTree zonedSuper emptyFile where
  ndzones := rfl
  nindirs := rfl
  legal p _ := .inl (emptyFile_node p)
  unshared p _ _ _ h := absurd (emptyFile_node p) h
  used p _ h := absurd (emptyFile_node p) h

theorem writeMap_first : ∃ s', writeMap zonedSuper 0 (fun _ => zeroBlock) 0 41 emptyFile =
    .ok (.OK, s') ∧ readMap zonedSuper s' 0 = .ok 41 :=
  ⟨_, rfl, ((writeMap_iff zonedSuper (fun _ => zeroBlock) emptyFile 0 41 0 emptyFile_tree
    (show 0 < 7 + 512 + 512 * 512 by decide) (.inr ⟨by decide, by decide⟩)).1 rfl _ rfl).zone 0 rfl⟩

theorem free_fills_hole : ∃ s', writeMap zonedSuper WMAP_FREE (fun _ => zeroBlock) 0 41 emptyFile =
    .ok (.OK, s') ∧ readMap zonedSuper s' 0 = .ok 41 ∧ ¬ ClearsMap zonedSuper emptyFile s' 0 :=
  ⟨_, rfl, rfl, fun h => absurd (h.map.zone 0 rfl) (by decide)⟩

end Mfs
