import Cs111.Mfs.ZoneMap

namespace Mfs
open LinkTree

section Tree
variable {H : MfsHeaders} (sp : ZoneSuper H)

def SINGLE : ℕ := V2_NR_DZONES
def DOUBLE : ℕ := V2_NR_DZONES + 1

def ZoneState.links (s : ZoneState H) : Links ℕ (BitVec 32) where
  root := s.zone
  cell z e := indirEntry sp (s.block (zoneBlock sp z)) e

def IsPlace (n : ℕ) : Path ℕ → Prop
  | .root i => i < DOUBLE + 1
  | .child (.root i) e => (i = SINGLE ∨ i = DOUBLE) ∧ e < n
  | .child (.child (.root i) k) e => i = DOUBLE ∧ k < n ∧ e < n
  | _ => False

def shape : Shape ℕ where
  places := {p | IsPlace (indirects sp) p}
  closed := by
    intro p e h
    match p, h with
    | .root i, h =>
      obtain ⟨hi, -⟩ := h
      show i < DOUBLE + 1
      rcases hi with rfl | rfl <;> decide
    | .child (.root i) k, h => exact ⟨.inr h.1, h.2.1⟩

def dataPlace (n zone : ℕ) : Path ℕ :=
  if zone < V2_NR_DZONES then .root zone
  else if zone - V2_NR_DZONES < n then .child (.root SINGLE) (zone - V2_NR_DZONES)
  else .child (.child (.root DOUBLE) ((zone - V2_NR_DZONES - n) / n)) ((zone - V2_NR_DZONES - n) % n)

def InRange (zone : ℕ) : Prop := zone < V2_NR_DZONES + indirects sp + indirects sp * indirects sp

def ZoneState.node (s : ZoneState H) (p : Path ℕ) : BitVec 32 := (s.links sp).node p

structure Loaded (s : ZoneState H) : Prop where
  ndzones : s.rip.iNdzones = V2_NR_DZONES
  nindirs : s.rip.iNindirs = indirects sp
  legal : ∀ p ∈ (shape sp).places, s.node sp p = NO_ZONE ∨ Legal sp (s.node sp p)

structure ZoneTree (s : ZoneState H) : Prop extends Loaded sp s where
  unshared : Unshared (shape sp) (s.links sp)
  used : ∀ p ∈ (shape sp).places, s.node sp p ≠ NO_ZONE → zoneBit sp (s.node sp p) ∈ s.zmap

end Tree

section Places
variable {H : MfsHeaders} {sp : ZoneSuper H} {n zone zone' : ℕ}

theorem dataPlace_mem (h : InRange sp zone) :
    dataPlace (indirects sp) zone ∈ (shape sp).places := by
  have hpos : 0 < indirects sp := indirects_pos
  rw [InRange] at h
  rw [dataPlace]
  split
  · rename_i hz
    exact hz.trans (by decide)
  · split
    · rename_i hz
      exact ⟨.inl rfl, hz⟩
    · refine ⟨rfl, ?_, Nat.mod_lt _ hpos⟩
      rw [Nat.div_lt_iff_lt_mul hpos]
      omega

theorem dataPlace_inj (h : dataPlace n zone = dataPlace n zone') : zone = zone' := by
  simp only [dataPlace] at h
  split at h <;> split at h <;> (try split at h) <;> (try split at h) <;>
    simp only [Path.root.injEq, Path.child.injEq, reduceCtorEq, true_and, false_and] at h
  · exact h
  · omega
  · obtain ⟨hdiv, hmod⟩ := h
    have heq := Nat.div_add_mod (zone - V2_NR_DZONES - n) n
    rw [hdiv, hmod, Nat.div_add_mod] at heq
    omega

theorem leaf_data (e : ℕ) : .child (dataPlace (indirects sp) zone) e ∉ (shape sp).places := by
  intro h
  rw [dataPlace] at h
  split at h
  · rename_i hz
    obtain ⟨hi, -⟩ : (zone = SINGLE ∨ zone = DOUBLE) ∧ e < indirects sp := h
    simp only [SINGLE, DOUBLE] at hi
    omega
  · split at h
    · obtain ⟨hi, -⟩ : SINGLE = DOUBLE ∧ _ := h
      exact absurd hi (by decide)
    · exact h

end Places

section Reads
variable {H : MfsHeaders} {sp : ZoneSuper H} {s : ZoneState H} {p : Path ℕ} {e position : ℕ}

def mapped (sp : ZoneSuper H) (z : BitVec 32) (position : ℕ) : BitVec 32 :=
  if z = NO_ZONE then BitVec.ofNat 32 NO_BLOCK else blockAt sp z position

theorem mapped_zero {z : BitVec 32} (h : z = NO_ZONE) :
    mapped sp z position = BitVec.ofNat 32 NO_BLOCK := if_pos h

theorem Loaded.rdIndir_eq (h : Loaded sp s) (hp : .child p e ∈ (shape sp).places)
    (h0 : s.node sp p ≠ NO_ZONE) :
    rdIndir sp (s.block (zoneBlock sp (s.node sp p))) e = .ok (s.node sp (.child p e)) := by
  have hnode : s.node sp (.child p e) = indirEntry sp (s.block (zoneBlock sp (s.node sp p))) e :=
    Links.node_child h0
  rw [hnode]
  exact rdIndir_legal (hnode ▸ h.legal _ hp)

theorem Loaded.readIndirect_eq (h : Loaded sp s) (hp : .child p e ∈ (shape sp).places) :
    readIndirect sp s (s.node sp p) e position =
      .ok (mapped sp (s.node sp (.child p e)) position) := by
  rw [readIndirect]
  split
  · rename_i h0
    rw [mapped_zero (show s.node sp (.child p e) = NO_ZONE from Links.node_below h0)]
  · rename_i h0
    rw [h.rdIndir_eq hp h0]
    rfl

theorem Loaded.readMap_eq (h : Loaded sp s) (hr : InRange sp (relZone sp position)) :
    readMap sp s position =
      .ok (mapped sp (s.node sp (dataPlace (indirects sp) (relZone sp position))) position) := by
  have hp := dataPlace_mem hr
  simp only [readMap, h.ndzones, h.nindirs]
  rw [dataPlace] at hp ⊢
  split
  · rfl
  · rename_i hz
    rw [if_neg hz] at hp
    split
    · rename_i hs
      rw [if_pos hs] at hp
      exact h.readIndirect_eq hp
    · rename_i hs
      rw [if_neg hs] at hp
      split
      · rename_i h0
        have hsub : s.node sp (.child (.root DOUBLE)
            ((relZone sp position - V2_NR_DZONES - indirects sp) / indirects sp)) = 0 :=
          Links.node_below h0
        exact congrArg Except.ok (mapped_zero (Links.node_below hsub)).symm
      · rename_i h0
        rw [show s.zone (V2_NR_DZONES + 1) = s.node sp (.root DOUBLE) from rfl,
          h.rdIndir_eq ((shape sp).closed hp) h0]
        exact h.readIndirect_eq hp

end Reads

section Links
variable {H : MfsHeaders} {sp : ZoneSuper H} {s s' : ZoneState H} {p q t : Path ℕ} {i j e : ℕ}
  {z b : BitVec 32} {bp : IndBlock}

theorem zone_set_self : (s.setZone i z).zone i = z := Function.update_self ..

theorem zone_set_ne (hi : i < V2_NR_TZONES) (hj : j < V2_NR_TZONES) (h : j ≠ i) :
    (s.setZone i z).zone j = s.zone j := by
  refine Function.update_of_ne (fun he => h ?_) ..
  have hval := congrArg Fin.val he
  rwa [Fin.val_ofNat, Fin.val_ofNat, Nat.mod_eq_of_lt hj, Nat.mod_eq_of_lt hi] at hval

def setLink (sp : ZoneSuper H) (t : Path ℕ) (z : BitVec 32) (s : ZoneState H) : ZoneState H :=
  match t with
  | .root i => s.setZone i z
  | .child p e =>
    let b := zoneBlock sp (s.node sp p)
    s.setBlock b (wrIndir sp (s.block b) e z)

@[simp] theorem setLink_zmap : (setLink sp t z s).zmap = s.zmap := by
  cases t <;> rfl

theorem setLink_ndzones : (setLink sp t z s).rip.iNdzones = s.rip.iNdzones := by
  cases t <;> rfl

theorem setLink_nindirs : (setLink sp t z s).rip.iNindirs = s.rip.iNindirs := by
  cases t <;> rfl

theorem root_lt {i : ℕ} (h : .root i ∈ (shape sp).places) : i < V2_NR_TZONES :=
  Nat.lt_of_lt_of_le (show i < DOUBLE + 1 from h) (by decide)

theorem setLink_root (ht : t ∈ (shape sp).places) (hi : .root i ∈ (shape sp).places)
    (hne : .root i ≠ t) : (setLink sp t z s).zone i = s.zone i := by
  cases t with
  | root j =>
    exact zone_set_ne (root_lt ht) (root_lt hi) fun he => hne (congrArg Path.root he)
  | child p e => rfl

theorem ZoneTree.setLink_cell (h : ZoneTree sp s) (ht : t ∈ (shape sp).places)
    (hup : ∀ p e, t = .child p e → s.node sp p ≠ NO_ZONE) (hq : .child q j ∈ (shape sp).places)
    (hne : .child q j ≠ t) (h0 : s.node sp q ≠ NO_ZONE) :
    indirEntry sp ((setLink sp t z s).block (zoneBlock sp (s.node sp q))) j =
      indirEntry sp (s.block (zoneBlock sp (s.node sp q))) j := by
  cases t with
  | root i => rfl
  | child p e =>
    have hp := (shape sp).closed ht
    have hq := (shape sp).closed hq
    have hp0 : s.node sp p ≠ NO_ZONE := hup p e rfl
    by_cases hpq : q = p
    · subst hpq
      have hje : j ≠ e := fun he => hne (by rw [he])
      show indirEntry sp (Function.update s.block _ _ _) j = _
      rw [Function.update_self]
      exact entry_others hje
    · have hb : zoneBlock sp (s.node sp q) ≠ zoneBlock sp (s.node sp p) := by
        intro he
        have hnode := zoneBlock_inj ((h.legal q hq).resolve_left h0)
          ((h.legal p hp).resolve_left hp0) he
        exact hpq (h.unshared q hq p hp h0 hnode)
      show indirEntry sp (Function.update s.block _ _ _) j = _
      rw [Function.update_of_ne hb]

def Apart (sp : ZoneSuper H) (s : ZoneState H) (t : Path ℕ) (b : BitVec 32) : Prop :=
  ∀ q ∈ (shape sp).places, q ≠ t → s.node sp q ≠ NO_ZONE → zoneBlock sp (s.node sp q) ≠ b

theorem setLink_self (ht : t ∈ (shape sp).places) (hz : z = NO_ZONE ∨ Legal sp z) :
    (∀ i, t = .root i → (setLink sp t z s).zone i = z) ∧
    ∀ p e, t = .child p e →
      indirEntry sp ((setLink sp t z s).block (zoneBlock sp (s.node sp p))) e = z := by
  constructor
  · rintro i rfl
    exact zone_set_self
  · rintro p e rfl
    show indirEntry sp (Function.update s.block _ _ _) e = z
    rw [Function.update_self]
    exact entry_written hz

theorem ZoneTree.relinked (h : ZoneTree sp s) (ht : t ∈ (shape sp).places)
    (hz : z = NO_ZONE ∨ Legal sp z) (hup : ∀ p e, t = .child p e → s.node sp p ≠ NO_ZONE)
    (hbefore : ∀ e, .child t e ∈ (shape sp).places → s.node sp (.child t e) = NO_ZONE)
    (hafter : ∀ e, .child t e ∈ (shape sp).places → z = NO_ZONE) :
    Relinked (shape sp) (s.links sp) ((setLink sp t z s).links sp) t z where
  mem := ht
  self_root := (setLink_self ht hz).1
  self_cell p e he := ⟨hup p e he, (setLink_self ht hz).2 p e he⟩
  root _ hi hne := setLink_root ht hi hne
  cell _ _ hq hne _ h0 := h.setLink_cell ht hup hq hne h0
  before := hbefore
  after e he hne := absurd (hafter e he) hne

theorem cell_set_ne (s : ZoneState H) (bp : IndBlock) (h : zoneBlock sp z ≠ b) :
    ((s.setBlock b bp).links sp).cell z e = (s.links sp).cell z e := by
  simp only [ZoneState.links, ZoneState.setBlock, Function.update_of_ne h]

theorem cell_zeroed (s : ZoneState H) :
    ((s.setBlock (zoneBlock sp z) zeroBlock).links sp).cell z e = 0 := by
  simp only [ZoneState.links, ZoneState.setBlock, Function.update_self]
  exact entry_zeroBlock

variable (bp) in
theorem ZoneTree.relinked_block (h : ZoneTree sp s) (ht : t ∈ (shape sp).places)
    (hz : z = NO_ZONE ∨ Legal sp z) (hup : ∀ p e, t = .child p e → s.node sp p ≠ NO_ZONE)
    (hbefore : ∀ e, .child t e ∈ (shape sp).places → s.node sp (.child t e) = NO_ZONE)
    (hb : Apart sp s t b) (hnew : z = NO_ZONE ∨ b = zoneBlock sp z ∧ bp = zeroBlock) :
    Relinked (shape sp) (s.links sp) (((setLink sp t z s).setBlock b bp).links sp) t z where
  mem := ht
  self_root := (setLink_self ht hz).1
  self_cell p e he := by
    have hp : p ∈ (shape sp).places := (shape sp).closed (he ▸ ht)
    have hpt : p ≠ t := he ▸ p.ne_child e
    exact ⟨hup p e he, (cell_set_ne _ _ (hb p hp hpt (hup p e he))).trans
      ((setLink_self ht hz).2 p e he)⟩
  root _ hi hne := setLink_root ht hi hne
  cell q j hq hne hqt h0 :=
    (cell_set_ne _ _ (hb q ((shape sp).closed hq) hqt h0)).trans (h.setLink_cell ht hup hq hne h0)
  before := hbefore
  after e he hne := by
    obtain ⟨rfl, rfl⟩ := hnew.resolve_left hne
    exact cell_zeroed _

end Links

section Outcome
variable {α β : Type} {ro : Prop} {x : Except Fault α} {f : α → Except Fault β} {Q : α → Prop}
  {R : β → Prop}

def Ends (ro : Prop) (x : Except Fault α) (Q : α → Prop) : Prop :=
  match x with
  | .ok a => Q a
  | .error _ => ro

theorem Ends.bind (hx : Ends ro x Q) (hf : ∀ a, Q a → Ends ro (f a) R) : Ends ro (x >>= f) R := by
  cases x with
  | error => exact hx
  | ok a => exact hf a hx

theorem Ends.mono {Q' : α → Prop} (hx : Ends ro x Q) (h : ∀ a, Q a → Q' a) : Ends ro x Q' := by
  cases x with
  | error => exact hx
  | ok a => exact h a hx

theorem Ends.of_ok {a : α} (h : Ends ro x Q) (hok : x = .ok a) : Q a := by
  subst hok
  exact h

theorem Ends.ok (h : Ends ro x Q) (hro : ¬ ro) : ∃ a, x = .ok a ∧ Q a := by
  cases x with
  | error => exact absurd h hro
  | ok a => exact ⟨a, rfl, h⟩

end Outcome

section Zones
variable {H : MfsHeaders} {sp : ZoneSuper H} {s s' s₁ : ZoneState H} {p q t : Path ℕ} {e : ℕ}
  {z near b : BitVec 32} {bp : IndBlock}

theorem searchMap_lt {sp : SuperBlock H} {map : Finset ℕ}
    {mapBits bitBlocks bcount block word b : ℕ}
    (h : searchMap sp map mapBits bitBlocks bcount block word = some b) : b < mapBits := by
  induction bcount generalizing block word with
  | zero => cases h
  | succ n ih =>
    rw [searchMap] at h
    split at h
    · rename_i hblock
      cases h
      rw [searchBlock, Option.filter_eq_some_iff] at hblock
      exact of_decide_eq_true hblock.2
    · exact ih h

structure Fresh (sp : ZoneSuper H) (s s' : ZoneState H) (z : BitVec 32) : Prop where
  legal : Legal sp z
  unused : zoneBit sp z ∉ s.zmap
  zmap : s'.zmap = insert (zoneBit sp z) s.zmap
  rip : s'.rip = s.rip
  block : s'.block = s.block

theorem allocZone_ends : Ends (sp.sRdOnly = true) (allocZone sp near s) fun r =>
    (r.1 = NO_ZONE ∧ r.2.errCode = .ENOSPC) ∨ Fresh sp s r.2 r.1 := by
  rw [allocZone]
  split
  · assumption
  · split
    · exact .inl ⟨rfl, rfl⟩
    · rename_i b hb
      have hfree : b ∉ s.zmap := searchMap_free hb
      have hlt : b < sp.sZones - (sp.sFirstdatazone - 1) := searchMap_lt hb
      dsimp only
      split
      · exact .inl ⟨rfl, rfl⟩
      · rename_i hbit
        have hfirst := sp.first_gt
        have hpos : 0 < b := Nat.pos_of_ne_zero hbit
        have hzones : sp.sZones ≤ 2 ^ 32 :=
          (Nat.le_mul_of_pos_right _ (Nat.two_pow_pos _)).trans sp.blocks_le
        have hval : (BitVec.ofNat 32 (sp.sFirstdatazone - 1 + b)).toNat =
            sp.sFirstdatazone - 1 + b := by
          rw [BitVec.toNat_ofNat, Nat.mod_eq_of_lt (by omega)]
        have hzb : zoneBit sp (BitVec.ofNat 32 (sp.sFirstdatazone - 1 + b)) = b := by
          rw [zoneBit, hval]
          omega
        exact .inr ⟨⟨by rw [hval]; omega, by rw [hval]; omega⟩, hzb.symm ▸ hfree, by rw [hzb], rfl,
          rfl⟩

theorem freeZone_ends (hz : Legal sp z) (hused : zoneBit sp z ∈ s.zmap) :
    Ends (sp.sRdOnly = true) (freeZone sp z s) fun s' =>
      s'.zmap = s.zmap.erase (zoneBit sp z) ∧ s'.rip = s.rip ∧ s'.block = s.block := by
  have h₁ := hz.1
  have h₂ := hz.2
  rw [freeZone, if_neg (by omega)]
  dsimp only
  split
  · rename_i hbad
    exact hbad.resolve_right fun h => h hused
  · exact ⟨rfl, rfl, rfl⟩

theorem links_congr (hrip : s'.rip = s.rip) (hblock : s'.block = s.block) :
    s'.links sp = s.links sp := by
  have hzone : s'.zone = s.zone := funext fun i => by rw [ZoneState.zone, ZoneState.zone, hrip]
  rw [ZoneState.links, ZoneState.links, hzone, hblock]

theorem node_congr (hrip : s'.rip = s.rip) (hblock : s'.block = s.block) :
    s'.node sp p = s.node sp p := by
  rw [ZoneState.node, ZoneState.node, links_congr hrip hblock]

theorem ZoneTree.congr (h : ZoneTree sp s) (hrip : s'.rip = s.rip) (hblock : s'.block = s.block)
    (hused : ∀ p ∈ (shape sp).places, s.node sp p ≠ NO_ZONE → zoneBit sp (s.node sp p) ∈ s'.zmap) :
    ZoneTree sp s' where
  ndzones := hrip ▸ h.ndzones
  nindirs := hrip ▸ h.nindirs
  legal p hp := by
    rw [node_congr hrip hblock]
    exact h.legal p hp
  unshared := by
    rw [links_congr hrip hblock]
    exact h.unshared
  used p hp := by
    rw [node_congr hrip hblock]
    exact hused p hp

structure Linked (sp : ZoneSuper H) (s s' : ZoneState H) (t : Path ℕ) (z : BitVec 32) : Prop where
  loaded : Loaded sp s'
  self : s'.node sp t = z
  others : ∀ q ∈ (shape sp).places, q ≠ t → s'.node sp q = s.node sp q

theorem Linked.of_relinked (h : Loaded sp s) (hz : z = NO_ZONE ∨ Legal sp z)
    (hlink : Relinked (shape sp) (s.links sp) (s'.links sp) t z)
    (hnd : s'.rip.iNdzones = s.rip.iNdzones) (hni : s'.rip.iNindirs = s.rip.iNindirs) :
    Linked sp s s' t z where
  loaded := by
    refine ⟨hnd.trans h.ndzones, hni.trans h.nindirs, fun p hp => ?_⟩
    by_cases hpt : p = t
    · subst hpt
      rw [ZoneState.node, hlink.self]
      exact hz
    · rw [ZoneState.node, hlink.node_ne hp hpt]
      exact h.legal p hp
  self := hlink.self
  others _ hq hne := hlink.node_ne hq hne

def IsLeaf (sp : ZoneSuper H) (t : Path ℕ) : Prop := ∀ e, .child t e ∉ (shape sp).places

theorem ZoneTree.set_leaf (h : ZoneTree sp s) (ht : t ∈ (shape sp).places) (hleaf : IsLeaf sp t)
    (hz : z = NO_ZONE ∨ Legal sp z) (hup : ∀ p e, t = .child p e → s.node sp p ≠ NO_ZONE) :
    Linked sp s (setLink sp t z s) t z :=
  .of_relinked h.toLoaded hz (h.relinked ht hz hup (fun e he => absurd he (hleaf e))
    fun e he => absurd he (hleaf e)) setLink_ndzones setLink_nindirs

theorem Fresh.apart (hf : Fresh sp s₁ s z) (h : ZoneTree sp s₁) {q : Path ℕ}
    (hq : q ∈ (shape sp).places) (h0 : s₁.node sp q ≠ NO_ZONE) : s₁.node sp q ≠ z := fun he =>
  hf.unused (he ▸ h.used q hq h0)

theorem ZoneTree.allocated (h : ZoneTree sp s) (hf : Fresh sp s s₁ z) : ZoneTree sp s₁ :=
  h.congr hf.rip hf.block fun p hp h0 => hf.zmap ▸ Finset.mem_insert_of_mem (h.used p hp h0)

theorem ZoneTree.attach (h : ZoneTree sp s) (hf : Fresh sp s s₁ z) (ht : t ∈ (shape sp).places)
    (hup : ∀ p e, t = .child p e → s.node sp p ≠ NO_ZONE) (h0 : s.node sp t = NO_ZONE) :
    Linked sp s ((setLink sp t z s₁).setBlock (zoneBlock sp z) zeroBlock) t z ∧
      ZoneTree sp ((setLink sp t z s₁).setBlock (zoneBlock sp z) zeroBlock) := by
  have h₁ : ZoneTree sp s₁ := h.allocated hf
  have hnode : ∀ p, s₁.node sp p = s.node sp p := fun p => node_congr hf.rip hf.block
  have hnew : ∀ q ∈ (shape sp).places, s₁.node sp q ≠ z := by
    intro q hq
    rw [hnode]
    by_cases hq0 : s.node sp q = NO_ZONE
    · rw [hq0]
      exact fun he => hf.legal.ne_zone he.symm
    · exact hf.apart h hq hq0
  have hlink : Relinked (shape sp) (s₁.links sp)
      (((setLink sp t z s₁).setBlock (zoneBlock sp z) zeroBlock).links sp) t z := by
    refine h₁.relinked_block zeroBlock ht (.inr hf.legal) (fun p e he => by rw [hnode]; exact hup p e he)
      (fun e _ => Links.node_below ((hnode t).trans h0)) (fun q hq _ hq0 hb => ?_)
      (.inr ⟨rfl, rfl⟩)
    exact hnew q hq (zoneBlock_inj ((h₁.legal q hq).resolve_left hq0) hf.legal hb)
  have hlinked := Linked.of_relinked h₁.toLoaded (.inr hf.legal) hlink setLink_ndzones
    setLink_nindirs
  refine ⟨⟨hlinked.loaded, hlinked.self, fun q hq hne => ?_⟩, hlinked.loaded,
    hlink.unshared h₁.unshared (.inr hnew), fun p hp hp0 => ?_⟩
  · rw [hlinked.others q hq hne, hnode]
  · show zoneBit sp _ ∈ (setLink sp t z s₁).zmap
    rw [setLink_zmap]
    by_cases hpt : p = t
    · rw [hpt, hlinked.self, hf.zmap]
      exact Finset.mem_insert_self ..
    · rw [hlinked.others p hp hpt] at hp0 ⊢
      exact h₁.used p hp hp0

structure Freed (sp : ZoneSuper H) (s s' : ZoneState H) (t : Path ℕ) : Prop where
  tree : ZoneTree sp s'
  self : s'.node sp t = NO_ZONE
  others : ∀ q ∈ (shape sp).places, q ≠ t → s'.node sp q = s.node sp q
  zmap : ∀ n, n ∈ s'.zmap ↔
    n ∈ s.zmap ∧ ¬ (s.node sp t ≠ NO_ZONE ∧ zoneBit sp (s.node sp t) = n)

theorem ZoneTree.freed_none (h : ZoneTree sp s) (h0 : s.node sp t = NO_ZONE) : Freed sp s s t :=
  ⟨h, h0, fun _ _ _ => rfl, fun _ => ⟨fun hn => ⟨hn, fun hb => hb.1 h0⟩, fun hn => hn.1⟩⟩

theorem ZoneTree.freed (h : ZoneTree sp s) (ht : t ∈ (shape sp).places)
    (h0 : s.node sp t ≠ NO_ZONE) (hlinked : Linked sp s s' t NO_ZONE)
    (hlink : Relinked (shape sp) (s.links sp) (s'.links sp) t NO_ZONE)
    (hzmap : s'.zmap = s.zmap.erase (zoneBit sp (s.node sp t))) : Freed sp s s' t where
  tree := by
    refine ⟨hlinked.loaded, hlink.unshared h.unshared (.inl rfl), fun p hp hp0 => ?_⟩
    by_cases hpt : p = t
    · exact absurd (hpt ▸ hlinked.self) hp0
    · rw [hlinked.others p hp hpt] at hp0 ⊢
      rw [hzmap]
      refine Finset.mem_erase.mpr ⟨fun hbit => ?_, h.used p hp hp0⟩
      have hnode := zoneBit_inj ((h.legal p hp).resolve_left hp0) ((h.legal t ht).resolve_left h0)
        hbit
      exact hpt (h.unshared p hp t ht hp0 hnode)
  self := hlinked.self
  others := hlinked.others
  zmap n := by
    rw [hzmap, Finset.mem_erase]
    constructor
    · rintro ⟨hne, hn⟩
      exact ⟨hn, fun hb => hne hb.2.symm⟩
    · rintro ⟨hn, hb⟩
      exact ⟨fun he => hb ⟨h0, he.symm⟩, hn⟩

variable (sp t z) in
theorem setLink_congr (hrip : s₁.rip = s.rip) (hblock : s₁.block = s.block) :
    (setLink sp t z s₁).rip = (setLink sp t z s).rip ∧
      (setLink sp t z s₁).block = (setLink sp t z s).block := by
  cases t with
  | root i => exact ⟨by simp only [setLink, ZoneState.setZone, hrip], hblock⟩
  | child p e =>
    refine ⟨hrip, ?_⟩
    simp only [setLink, ZoneState.setBlock, hblock, node_congr hrip hblock]

theorem ZoneTree.free_leaf (h : ZoneTree sp s) (ht : t ∈ (shape sp).places)
    (hleaf : IsLeaf sp t) (h0 : s.node sp t ≠ NO_ZONE)
    (hup : ∀ p e, t = .child p e → s.node sp p ≠ NO_ZONE)
    (hzmap : s₁.zmap = s.zmap.erase (zoneBit sp (s.node sp t))) (hrip : s₁.rip = s.rip)
    (hblock : s₁.block = s.block) : Freed sp s (setLink sp t NO_ZONE s₁) t := by
  obtain ⟨hr, hb⟩ := setLink_congr sp t NO_ZONE hrip hblock
  have hlink := h.relinked ht (.inl rfl) hup (fun e he => absurd he (hleaf e)) fun _ _ => rfl
  rw [← links_congr hr hb] at hlink
  exact h.freed ht h0 (.of_relinked h.toLoaded (.inl rfl) hlink
    (by rw [hr, setLink_ndzones]) (by rw [hr, setLink_nindirs])) hlink (by rw [setLink_zmap, hzmap])

-- The same with an indirect block that has no entries, whose block may be lost.
variable (bp) in
theorem ZoneTree.free_node (h : ZoneTree sp s) (ht : t ∈ (shape sp).places)
    (h0 : s.node sp t ≠ NO_ZONE) (hup : ∀ p e, t = .child p e → s.node sp p ≠ NO_ZONE)
    (hempty : ∀ e, .child t e ∈ (shape sp).places → s.node sp (.child t e) = NO_ZONE)
    (hzmap : s₁.zmap = s.zmap.erase (zoneBit sp (s.node sp t))) (hrip : s₁.rip = s.rip)
    (hblock : s₁.block = s.block) :
    Freed sp s ((setLink sp t NO_ZONE s₁).setBlock (zoneBlock sp (s.node sp t)) bp) t := by
  obtain ⟨hr, hb⟩ := setLink_congr sp t NO_ZONE hrip hblock
  have hapart : Apart sp s t (zoneBlock sp (s.node sp t)) := by
    intro q hq hne hq0 hbq
    have hnode := zoneBlock_inj ((h.legal q hq).resolve_left hq0) ((h.legal t ht).resolve_left h0)
      hbq
    exact hne (h.unshared q hq t ht hq0 hnode)
  have hlink := h.relinked_block bp ht (.inl rfl) hup hempty hapart (.inl rfl)
  have hr' : ((setLink sp t NO_ZONE s₁).setBlock (zoneBlock sp (s.node sp t)) bp).rip =
      ((setLink sp t NO_ZONE s).setBlock (zoneBlock sp (s.node sp t)) bp).rip := hr
  have hb' : ((setLink sp t NO_ZONE s₁).setBlock (zoneBlock sp (s.node sp t)) bp).block =
      ((setLink sp t NO_ZONE s).setBlock (zoneBlock sp (s.node sp t)) bp).block := by
    rw [ZoneState.setBlock, ZoneState.setBlock, hb]
  rw [← links_congr hr' hb'] at hlink
  refine h.freed ht h0 (.of_relinked h.toLoaded (.inl rfl) hlink ?_ ?_) hlink ?_
  · rw [hr']
    exact setLink_ndzones
  · rw [hr']
    exact setLink_nindirs
  · show (setLink sp t NO_ZONE s₁).zmap = _
    rw [setLink_zmap, hzmap]

end Zones

end Mfs
