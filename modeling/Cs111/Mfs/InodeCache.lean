import Cs111.Mfs.InodeTable
import Cs111.Lib.Runs

namespace Mfs
open TransitionSystem

def Fits {H : MfsHeaders} (sp : SuperBlock H) (rip : Inode H) : Prop :=
  sp.sVersion = .V1 → rip.iNlinks.toNat < 256 ∧ rip.iGid.toNat < 256 ∧
    ∀ i : Fin V2_NR_TZONES, i.val < V1_NR_TZONES → (rip.iZone i).toNat < 65536

def Saved {H : MfsHeaders} (sp : SuperBlock H) (rip : Inode H) (blocks : InodeBlocks) : Prop :=
  Fits sp rip → SameContents sp rip (rwInodeRead sp rip blocks)

structure InodeTable.Good {H : MfsHeaders} (sp : SuperBlock H) (t : InodeTable H) : Prop where
  unused_nodup : t.unusedInodes.Nodup
  unused_iff : ∀ s, s ∈ t.unusedInodes ↔ s < NR_INODES ∧ (t.inode s).iCount = 0
  count : ∀ s, s < NR_INODES → 0 ≤ (t.inode s).iCount
  hash_nodup : ∀ i, (t.hashInodes i).Nodup
  hash_iff : ∀ i s, s ∈ t.hashInodes i ↔ s < NR_INODES ∧ (t.inode s).iNum ≠ NO_ENTRY ∧
    (t.inode s).iNum % INODE_HASH_SIZE = i
  unique : ∀ s s', s < NR_INODES → s' < NR_INODES → (t.inode s).iNum ≠ NO_ENTRY →
    (t.inode s).iNum = (t.inode s').iNum → s = s'
  dev : ∀ s, s < NR_INODES → (t.inode s).iNum ≠ NO_ENTRY → (t.inode s).iDev = sp.sDev
  alloc : ∀ s, s < NR_INODES → (t.inode s).iNum ≠ NO_ENTRY → (t.inode s).iNum ∈ t.imap
  zero : NO_ENTRY ∈ t.imap
  named : ∀ s, s < NR_INODES → 0 < (t.inode s).iCount → (t.inode s).iNum ≠ NO_ENTRY
  clean : ∀ s, s < NR_INODES → (t.inode s).iCount = 0 → (t.inode s).iNum ≠ NO_ENTRY →
    (t.inode s).iDirt = false
  saved : ∀ s, s < NR_INODES → (t.inode s).iNum ≠ NO_ENTRY → (t.inode s).iDirt = false →
    Saved sp (t.inode s) t.blocks

section Saving
variable {H : MfsHeaders} {sp : SuperBlock H} {now : BitVec 32} {rip rip' : Inode H}
  {blocks : InodeBlocks}

theorem SameContents.symm (h : SameContents sp rip rip') : SameContents sp rip' rip :=
  ⟨h.mode.symm, h.uid.symm, h.gid.symm, h.nlinks.symm, h.size.symm, fun i hi => (h.zones i hi).symm⟩

theorem SameContents.of_fits (h : SameContents sp rip rip') : Fits sp rip' ↔ Fits sp rip := by
  have hz : sp.sVersion = .V1 → ∀ i : Fin V2_NR_TZONES, i.val < V1_NR_TZONES →
      rip'.iZone i = rip.iZone i := by
    intro hv i hi
    exact h.zones i (by rw [tzones, hv]; exact hi)
  constructor
  · intro hf hv
    obtain ⟨hn, hg, hzones⟩ := hf hv
    exact ⟨h.nlinks ▸ hn, h.gid ▸ hg, fun i hi => hz hv i hi ▸ hzones i hi⟩
  · intro hf hv
    obtain ⟨hn, hg, hzones⟩ := hf hv
    exact ⟨h.nlinks ▸ hn, h.gid ▸ hg, fun i hi => (hz hv i hi).symm ▸ hzones i hi⟩

theorem read_same (hnum : rip'.iNum = rip.iNum) :
    SameContents sp (rwInodeRead sp rip blocks) (rwInodeRead sp rip' blocks) := by
  rw [rwInodeRead, rwInodeRead, hnum]
  split
  · rename_i hv
    refine ⟨rfl, rfl, rfl, rfl, rfl, fun i hi => ?_⟩
    rw [tzones, hv] at hi
    simp only [oldIcopyRead, dif_pos (show i.val < V1_NR_TZONES from hi)]
  · exact ⟨rfl, rfl, rfl, rfl, rfl, fun _ _ => rfl⟩

theorem Saved.congr (h : Saved sp rip blocks) (hsame : SameContents sp rip rip')
    (hnum : rip'.iNum = rip.iNum) : Saved sp rip' blocks := fun hf =>
  (hsame.symm.trans (h (hsame.of_fits.mp hf))).trans (read_same hnum)

theorem saved_read (hsame : SameContents sp (rwInodeRead sp rip blocks) rip')
    (hnum : rip'.iNum = rip.iNum) : Saved sp rip' blocks :=
  fun _ => hsame.symm.trans (read_same hnum)

theorem saved_others {s : Inode H} (h : Saved sp s blocks) (hnum : 1 ≤ rip.iNum)
    (hs : 1 ≤ s.iNum) (hne : s.iNum ≠ rip.iNum) :
    Saved sp s (rwInodeWrite sp now rip blocks).2 := by
  intro hf
  rw [read_others hnum hs hne]
  exact h hf

theorem write_fields (sp : SuperBlock H) (now : BitVec 32) (rip : Inode H) (blocks : InodeBlocks) :
    SameContents sp rip (rwInodeWrite sp now rip blocks).1 ∧
    (rwInodeWrite sp now rip blocks).1.iNum = rip.iNum ∧
    (rwInodeWrite sp now rip blocks).1.iDev = rip.iDev ∧
    (rwInodeWrite sp now rip blocks).1.iCount = rip.iCount ∧
    (rwInodeWrite sp now rip blocks).1.iDirt = false := by
  simp only [rwInodeWrite, touched, updateTimes]
  split
  · split
    · exact ⟨⟨rfl, rfl, rfl, rfl, rfl, fun _ _ => rfl⟩, rfl, rfl, rfl, trivial⟩
    · exact ⟨⟨rfl, rfl, rfl, rfl, rfl, fun _ _ => rfl⟩, rfl, rfl, rfl, trivial⟩
  · exact ⟨⟨rfl, rfl, rfl, rfl, rfl, fun _ _ => rfl⟩, rfl, rfl, rfl, trivial⟩

theorem saved_written (sp : SuperBlock H) (now : BitVec 32) (rip : Inode H)
    (blocks : InodeBlocks) :
    Saved sp (rwInodeWrite sp now rip blocks).1 (rwInodeWrite sp now rip blocks).2 := by
  obtain ⟨hsame, hnum, -⟩ := write_fields sp now rip blocks
  intro hf
  have hfits : Fits sp rip := hsame.of_fits.mp hf
  have hback : SameContents sp rip (rwInodeRead sp (rwInodeWrite sp now rip blocks).1
      (rwInodeWrite sp now rip blocks).2) :=
    (same_back (fun hv => (hfits hv).2.2) _ hnum).mpr fun hv => ⟨(hfits hv).1, (hfits hv).2.1⟩
  exact hsame.symm.trans hback

end Saving

section Slots
variable {H : MfsHeaders} {sp : SuperBlock H} {t t' : InodeTable H} {s n : ℕ} {rip : Inode H}

structure SlotChange (sp : SuperBlock H) (t t' : InodeTable H) (s : ℕ) : Prop where
  others : ∀ s', s' ≠ s → t'.inode s' = t.inode s'
  unused_nodup : t'.unusedInodes.Nodup
  unused : ∀ s', s' ≠ s → (s' ∈ t'.unusedInodes ↔ s' ∈ t.unusedInodes)
  unused_self : s ∈ t'.unusedInodes ↔ (t'.inode s).iCount = 0
  count : 0 ≤ (t'.inode s).iCount
  hash_nodup : ∀ i, (t'.hashInodes i).Nodup
  hash : ∀ i s', s' ≠ s → (s' ∈ t'.hashInodes i ↔ s' ∈ t.hashInodes i)
  hash_self : ∀ i, s ∈ t'.hashInodes i ↔ (t'.inode s).iNum ≠ NO_ENTRY ∧
    (t'.inode s).iNum % INODE_HASH_SIZE = i
  unique : (t'.inode s).iNum ≠ NO_ENTRY → ∀ s', s' < NR_INODES → s' ≠ s →
    (t.inode s').iNum ≠ (t'.inode s).iNum
  dev : (t'.inode s).iNum ≠ NO_ENTRY → (t'.inode s).iDev = sp.sDev
  alloc : (t'.inode s).iNum ≠ NO_ENTRY → (t'.inode s).iNum ∈ t'.imap
  named : 0 < (t'.inode s).iCount → (t'.inode s).iNum ≠ NO_ENTRY
  clean : (t'.inode s).iCount = 0 → (t'.inode s).iNum ≠ NO_ENTRY → (t'.inode s).iDirt = false
  saved : (t'.inode s).iNum ≠ NO_ENTRY → (t'.inode s).iDirt = false →
    Saved sp (t'.inode s) t'.blocks
  imap : ∀ s', s' < NR_INODES → s' ≠ s → (t.inode s').iNum ≠ NO_ENTRY →
    (t.inode s').iNum ∈ t'.imap
  zero : NO_ENTRY ∈ t'.imap
  saved_others : ∀ s', s' < NR_INODES → s' ≠ s → (t.inode s').iNum ≠ NO_ENTRY →
    (t.inode s').iDirt = false → Saved sp (t.inode s') t'.blocks

theorem InodeTable.Good.change (h : t.Good sp) (hs : s < NR_INODES) (c : SlotChange sp t t' s) :
    t'.Good sp where
  unused_nodup := c.unused_nodup
  unused_iff s' := by
    by_cases he : s' = s
    · subst he
      rw [c.unused_self]
      exact ⟨fun hz => ⟨hs, hz⟩, fun hz => hz.2⟩
    · rw [c.unused s' he, c.others s' he]
      exact h.unused_iff s'
  count s' hs' := by
    by_cases he : s' = s
    · rw [he]
      exact c.count
    · rw [c.others s' he]
      exact h.count s' hs'
  hash_nodup := c.hash_nodup
  hash_iff i s' := by
    by_cases he : s' = s
    · subst he
      rw [c.hash_self]
      exact ⟨fun hz => ⟨hs, hz⟩, fun hz => hz.2⟩
    · rw [c.hash i s' he, c.others s' he]
      exact h.hash_iff i s'
  unique s₁ s₂ h₁ h₂ hne heq := by
    by_cases he₁ : s₁ = s
    · by_cases he₂ : s₂ = s
      · rw [he₁, he₂]
      · rw [c.others s₂ he₂, he₁] at heq
        rw [he₁] at hne
        exact absurd heq.symm (c.unique hne s₂ h₂ he₂)
    · by_cases he₂ : s₂ = s
      · rw [c.others s₁ he₁] at hne heq
        rw [he₂] at heq
        exact absurd heq (c.unique (heq ▸ hne) s₁ h₁ he₁)
      · rw [c.others s₁ he₁] at hne heq
        rw [c.others s₂ he₂] at heq
        exact h.unique s₁ s₂ h₁ h₂ hne heq
  dev s' hs' hne := by
    by_cases he : s' = s
    · rw [he] at hne ⊢
      exact c.dev hne
    · rw [c.others s' he] at hne ⊢
      exact h.dev s' hs' hne
  alloc s' hs' hne := by
    by_cases he : s' = s
    · rw [he] at hne ⊢
      exact c.alloc hne
    · rw [c.others s' he] at hne ⊢
      exact c.imap s' hs' he hne
  zero := c.zero
  named s' hs' hpos := by
    by_cases he : s' = s
    · rw [he] at hpos ⊢
      exact c.named hpos
    · rw [c.others s' he] at hpos ⊢
      exact h.named s' hs' hpos
  clean s' hs' hz hne := by
    by_cases he : s' = s
    · rw [he] at hz hne ⊢
      exact c.clean hz hne
    · rw [c.others s' he] at hz hne ⊢
      exact h.clean s' hs' hz hne
  saved s' hs' hne hdirt := by
    by_cases he : s' = s
    · rw [he] at hne hdirt ⊢
      exact c.saved hne hdirt
    · rw [c.others s' he] at hne hdirt ⊢
      exact c.saved_others s' hs' he hne hdirt

theorem inode_set (s' : ℕ) : (setInode s rip t).inode s' = if s' = s then rip else t.inode s' :=
  Function.update_apply ..

theorem inode_set_self : (setInode s rip t).inode s = rip := Function.update_self ..

theorem InodeTable.Good.set (h : t.Good sp) (hs : s < NR_INODES) (hname : rip.iNum ≠ NO_ENTRY)
    (hnum : rip.iNum = (t.inode s).iNum) (hdev : rip.iDev = (t.inode s).iDev)
    (hcount : 0 < rip.iCount)
    (hsaved : rip.iDirt = false → Saved sp rip t.blocks) :
    (setInode s rip { t with unusedInodes := t.unusedInodes.erase s }).Good sp := by
  have hself : (setInode s rip { t with unusedInodes := t.unusedInodes.erase s }).inode s = rip :=
    inode_set_self
  refine h.change hs ⟨fun s' he => by rw [inode_set, if_neg he], h.unused_nodup.erase s,
    fun s' he => List.mem_erase_of_ne he, ?_, ?_, h.hash_nodup, fun _ _ _ => Iff.rfl, fun i => ?_,
    fun hne s' hs' he heq => ?_, fun hne => ?_, fun hne => ?_, fun _ => by rw [hself]; exact hname,
    fun hz => ?_, fun hne hdirt => ?_, fun s' hs' _ hne => h.alloc s' hs' hne, h.zero, fun s' hs' _ hne hdirt => h.saved s' hs' hne hdirt⟩
  · rw [hself]
    exact iff_of_false (h.unused_nodup.not_mem_erase) hcount.ne'
  · rw [hself]
    exact hcount.le
  · rw [hself, hnum]
    exact (h.hash_iff i s).trans ⟨fun hz => hz.2, fun hz => ⟨hs, hz⟩⟩
  · rw [hself, hnum] at hne heq
    exact he (h.unique s s' hs hs' hne heq.symm).symm
  · rw [hself, hnum] at hne
    rw [hself, hdev]
    exact h.dev s hs hne
  · rw [hself, hnum] at hne ⊢
    exact h.alloc s hs hne
  · rw [hself] at hz
    omega
  · rw [hself] at hdirt ⊢
    exact hsaved hdirt

theorem InodeTable.Good.set_used (h : t.Good sp) (rip : Inode H) (hs : s < NR_INODES)
    (hused : 0 < (t.inode s).iCount) (hnum : rip.iNum = (t.inode s).iNum)
    (hdev : rip.iDev = (t.inode s).iDev) (hcount : 0 < rip.iCount)
    (hsaved : rip.iDirt = false → Saved sp rip t.blocks) : (setInode s rip t).Good sp := by
  have hname : rip.iNum ≠ NO_ENTRY := by
    rw [hnum]
    exact h.named s hs hused
  have hnot : s ∉ t.unusedInodes := by
    intro hmem
    have hz := ((h.unused_iff s).mp hmem).2
    omega
  have hset := h.set hs hname hnum hdev hcount hsaved
  rwa [List.erase_of_not_mem hnot] at hset

theorem InodeTable.Good.imap (h : t.Good sp) {imap : Finset ℕ} {search : ℕ}
    (hsub : t.imap ⊆ imap) : InodeTable.Good sp { t with imap := imap, sIsearch := search } :=
  { h with
    alloc := fun s hs hne => hsub (h.alloc s hs hne)
    zero := hsub h.zero }

theorem erase_hash (h : t.Good sp) (hs : (t.inode s).iNum = NO_ENTRY) (i : ℕ) :
    (t.hashInodes i).erase s = t.hashInodes i :=
  List.erase_of_not_mem fun hmem => ((h.hash_iff i s).mp hmem).2.1 hs

theorem InodeTable.Good.place (h : t.Good sp) (rip : Inode H) {rest : List ℕ} (hun : t.unusedInodes = s :: rest)
    (hinode : ∀ s', t'.inode s' = if s' = s then rip else t.inode s')
    (hrest : t'.unusedInodes = rest)
    (hhash : ∀ i, t'.hashInodes i = if i = rip.iNum % INODE_HASH_SIZE
      then s :: (t.hashInodes i).erase s else (t.hashInodes i).erase s)
    (hblocks : t'.blocks = t.blocks) (himap : t.imap ⊆ t'.imap) (hname : rip.iNum ≠ NO_ENTRY)
    (hmem : rip.iNum ∈ t'.imap) (hdev : rip.iDev = sp.sDev) (hcount : rip.iCount = 1)
    (hfresh : ∀ s', s' < NR_INODES → s' ≠ s → (t.inode s').iNum ≠ rip.iNum)
    (hsaved : rip.iDirt = false → Saved sp rip t.blocks) : t'.Good sp := by
  have hself : t'.inode s = rip := by rw [hinode, if_pos rfl]
  have hnodup := h.unused_nodup
  rw [hun, List.nodup_cons] at hnodup
  have hs : s < NR_INODES := ((h.unused_iff s).mp (by rw [hun]; exact List.mem_cons_self)).1
  have hin : ∀ i s', s' ∈ t'.hashInodes i ↔
      (s' = s ∧ i = rip.iNum % INODE_HASH_SIZE) ∨ s' ∈ (t.hashInodes i).erase s := by
    intro i s'
    rw [hhash]
    split
    · rename_i hi
      rw [List.mem_cons]
      simp [hi]
    · rename_i hi
      simp [hi]
  refine h.change hs ⟨fun s' he => by rw [hinode, if_neg he], by rw [hrest]; exact hnodup.2,
    fun s' he => ?_, ?_, ?_, fun i => ?_, fun i s' he => ?_, fun i => ?_,
    fun _ s' hs' he => by rw [hself]; exact hfresh s' hs' he, fun _ => by rw [hself]; exact hdev,
    fun _ => by rw [hself]; exact hmem, fun _ => by rw [hself]; exact hname, fun hz => ?_,
    fun _ hdirt => ?_, fun s' hs' _ hne => himap (h.alloc s' hs' hne), himap h.zero,
    fun s' hs' _ hne hdirt => by rw [hblocks]; exact h.saved s' hs' hne hdirt⟩
  · rw [hrest, hun, List.mem_cons]
    exact ⟨.inr, fun hor => hor.resolve_left he⟩
  · rw [hself, hrest, hcount]
    exact iff_of_false hnodup.1 (by decide)
  · rw [hself, hcount]
    decide
  · rw [hhash]
    have herase := (h.hash_nodup i).erase s
    split
    · exact List.nodup_cons.mpr ⟨(h.hash_nodup i).not_mem_erase, herase⟩
    · exact herase
  · rw [hin, List.mem_erase_of_ne he]
    exact ⟨fun hor => hor.resolve_left fun hl => he hl.1, .inr⟩
  · rw [hin, hself]
    constructor
    · rintro (⟨-, rfl⟩ | hmem)
      · exact ⟨hname, rfl⟩
      · exact absurd hmem (h.hash_nodup i).not_mem_erase
    · rintro ⟨-, rfl⟩
      exact .inl ⟨rfl, rfl⟩
  · rw [hself, hcount] at hz
    cases hz
  · rw [hself] at hdirt ⊢
    rw [hblocks]
    exact hsaved hdirt

end Slots

section Getting
variable {H : MfsHeaders} {sp : SuperBlock H} {t t' : InodeTable H} {s dev numb : ℕ}

theorem searchHash_some (h : t.Good sp) (hf : searchHash dev numb t = some s) :
    s < NR_INODES ∧ (t.inode s).iNum = numb ∧ numb ≠ NO_ENTRY := by
  have hmem := List.mem_of_find?_eq_some hf
  have hp := List.find?_some hf
  simp only [decide_eq_true_eq] at hp
  obtain ⟨hs, hne, -⟩ := (h.hash_iff _ s).mp hmem
  exact ⟨hs, hp.1, hp.1 ▸ hne⟩

theorem searchHash_none (h : t.Good sp) (hf : searchHash sp.sDev numb t = none)
    (hnumb : numb ≠ NO_ENTRY) : ∀ s', s' < NR_INODES → (t.inode s').iNum ≠ numb := by
  intro s' hs' heq
  have hmem : s' ∈ t.hashInodes (numb % INODE_HASH_SIZE) :=
    (h.hash_iff _ s').mpr ⟨hs', heq ▸ hnumb, by rw [heq]⟩
  have hmiss := List.find?_eq_none.mp hf s' hmem
  simp only [decide_eq_true_eq] at hmiss
  exact hmiss ⟨heq, h.dev s' hs' (heq ▸ hnumb)⟩

theorem get_hit (h : t.Good sp) (hf : searchHash dev numb t = some s) :
    (setInode s { t.inode s with iCount := (t.inode s).iCount + 1 }
      (if (t.inode s).iCount = 0 then { t with unusedInodes := t.unusedInodes.erase s }
        else t)).Good sp := by
  obtain ⟨hs, hnum, hne⟩ := searchHash_some h hf
  have hcount := h.count s hs
  have hsaved : (t.inode s).iDirt = false → Saved sp
      { t.inode s with iCount := (t.inode s).iCount + 1 } t.blocks := fun hdirt =>
    (h.saved s hs (by rw [hnum]; exact hne) hdirt).congr
      ⟨rfl, rfl, rfl, rfl, rfl, fun _ _ => rfl⟩ rfl
  split
  · exact h.set hs (by rw [hnum]; exact hne) rfl rfl (by dsimp only; omega) hsaved
  · exact h.set_used _ hs (by omega) rfl rfl (by dsimp only; omega) hsaved

structure Reused (sp : SuperBlock H) (t t' : InodeTable H) (dev numb s : ℕ) (rest : List ℕ)
    (rip : Inode H) : Prop where
  inode : ∀ s', t'.inode s' = if s' = s then rip else t.inode s'
  unused : t'.unusedInodes = rest
  hash : ∀ i, t'.hashInodes i = if i = rip.iNum % INODE_HASH_SIZE
    then s :: (t.hashInodes i).erase s else (t.hashInodes i).erase s
  blocks : t'.blocks = t.blocks
  imap : t'.imap = t.imap
  num : rip.iNum = numb
  place : rip.iDev = dev
  count : rip.iCount = 1
  loaded : dev ≠ NO_DEV → dev = sp.sDev ∧ Saved sp rip t.blocks

theorem reuse_ok (h : t.Good sp) {rest : List ℕ}
    (hok : reuseInode sp dev numb s rest t = .ok t') :
    ∃ rip, Reused sp t t' dev numb s rest rip := by
  have hcleared : ∀ i, (if (t.inode s).iNum = NO_ENTRY then t else unhashInode s t).hashInodes i =
      (t.hashInodes i).erase s := by
    intro i
    split
    · rename_i hz
      exact (erase_hash h hz i).symm
    · rfl
  have hinode : (if (t.inode s).iNum = NO_ENTRY then t else unhashInode s t).inode = t.inode := by
    split <;> rfl
  have hblocks : (if (t.inode s).iNum = NO_ENTRY then t else unhashInode s t).blocks = t.blocks := by
    split <;> rfl
  have himap : (if (t.inode s).iNum = NO_ENTRY then t else unhashInode s t).imap = t.imap := by
    split <;> rfl
  simp only [reuseInode] at hok
  rw [hblocks] at hok
  cases hload : loadInode sp dev numb (t.inode s) t.blocks with
  | error f =>
    rw [hload] at hok
    cases hok
  | ok rip =>
    rw [hload] at hok
    cases hok
    have hnum : rip.iNum = numb ∧ rip.iDev = dev ∧ rip.iCount = 1 ∧
        (dev ≠ NO_DEV → dev = sp.sDev ∧ Saved sp rip t.blocks) := by
      simp only [loadInode] at hload
      split at hload
      · rename_i hdev
        cases hload
        exact ⟨rfl, rfl, rfl, fun hne => absurd hdev hne⟩
      · split at hload
        · rename_i hdev
          cases hload
          have hplace : ∀ rip : Inode H, (rwInodeRead sp rip t.blocks).iNum = rip.iNum ∧
              (rwInodeRead sp rip t.blocks).iDev = rip.iDev ∧
              (rwInodeRead sp rip t.blocks).iCount = rip.iCount := by
            intro rip
            simp only [rwInodeRead]
            split <;> exact ⟨rfl, rfl, rfl⟩
          exact ⟨(hplace _).1, (hplace _).2.1, (hplace _).2.2, fun _ => ⟨hdev,
            saved_read ⟨rfl, rfl, rfl, rfl, rfl, fun _ _ => rfl⟩ (hplace _).1⟩⟩
        · cases hload
    obtain ⟨hnum, hdev, hcount, hloaded⟩ := hnum
    refine ⟨{ rip with
      updateAtime := false, updateCtime := false, updateMtime := false
      iZsearch := 0, iMountpoint := false },
      fun s' => ?_, rfl, fun i => ?_, rfl, himap, hnum, hdev, hcount, fun hne => ⟨(hloaded hne).1, (hloaded hne).2.congr
        ⟨rfl, rfl, rfl, rfl, rfl, fun _ _ => rfl⟩ rfl⟩⟩
    · simp only [addhashInode, inode_set, hinode]
    · simp only [addhashInode, setInode, Function.update_apply, if_true]
      by_cases hi : i = rip.iNum % INODE_HASH_SIZE
      · simp only [hi, if_true, hcleared]
      · simp only [hi, if_false, hcleared]

theorem InodeTable.Good.get {r : Option ℕ} (h : t.Good sp) (hdev : dev = sp.sDev)
    (hnumb : numb ≠ NO_ENTRY) (hmem : numb ∈ t.imap)
    (hok : getInode sp dev numb t = .ok (r, t')) : t'.Good sp := by
  simp only [getInode] at hok
  split at hok
  · rename_i s hf
    cases hok
    exact get_hit h hf
  · rename_i hf
    split at hok
    · cases hok
      exact h
    · rename_i s rest hun
      split at hok
      · cases hok
      · rename_i t₁ hreuse
        cases hok
        obtain ⟨rip, hr⟩ := reuse_ok h hreuse
        rw [hdev] at hf
        refine h.place _ hun hr.inode hr.unused hr.hash hr.blocks hr.imap.ge (by rw [hr.num]; exact hnumb)
          (by rw [hr.num, hr.imap]; exact hmem) (hr.place.trans hdev) hr.count
          (fun s' hs' _ => by rw [hr.num]; exact searchHash_none h hf hnumb s' hs')
          fun _ => (hr.loaded ?_).2
        rw [hdev]
        exact sp.dev_ne

theorem searchMap_free {map : Finset ℕ} {mapBits bitBlocks bcount block word b : ℕ}
    (h : searchMap sp map mapBits bitBlocks bcount block word = some b) : b ∉ map := by
  induction bcount generalizing block word with
  | zero => cases h
  | succ n ih =>
    rw [searchMap] at h
    split at h
    · rename_i hblock
      cases h
      rw [searchBlock, Option.filter_eq_some_iff] at hblock
      obtain ⟨w, -, hw⟩ := List.exists_of_findSome?_eq_some hblock.1
      rw [wordFree, Option.map_eq_some_iff] at hw
      obtain ⟨i, hi, rfl⟩ := hw
      simpa using List.find?_some hi
    · exact ih h

theorem InodeTable.Good.allocInode_good {r : Option ℕ} {bits uid : BitVec 16}
    {gid : BitVec H.gidBits} (h : t.Good sp)
    (hok : allocInode sp dev bits uid gid t = .ok (r, t')) : t'.Good sp := by
  simp only [allocInode] at hok
  split at hok
  · cases hok
  · rename_i hdev
    have hdev : dev = sp.sDev := not_not.mp hdev
    split at hok
    · cases hok
      exact h
    · split at hok
      · cases hok
        exact h
      · rename_i b hb
        have hfree : b ∉ t.imap := searchMap_free hb
        have hne : b ≠ NO_ENTRY := fun he => hfree (he ▸ h.zero)
        have h₁ : InodeTable.Good sp { t with imap := insert b t.imap, sIsearch := b } :=
          h.imap (Finset.subset_insert b t.imap)
        split at hok
        · cases hok
        · rename_i t₁ hget
          cases hok
          simp only [getInode] at hget
          split at hget
          · cases hget
          · split at hget
            · cases hget
              refine h.imap fun x hx => Finset.mem_erase.mpr ⟨?_, Finset.mem_insert_of_mem hx⟩
              rintro rfl
              exact hfree hx
            · split at hget <;> cases hget
        · rename_i s t₁ hget
          cases hok
          simp only [getInode] at hget
          split at hget
          · rename_i s' hf
            obtain ⟨hs, hnum, -⟩ := searchHash_some h₁ hf
            exact absurd (hnum ▸ h.alloc s' hs (by rw [hnum]; exact hne)) hfree
          · split at hget
            · cases hget
            · rename_i s' rest hun
              split at hget <;> cases hget
              rename_i hreuse
              obtain ⟨rip, hr⟩ := reuse_ok h₁ hreuse
              have hself : t₁.inode s = rip := by rw [hr.inode, if_pos rfl]
              refine h₁.place (newInode dev bits uid gid (sNdzones sp) (sNindirs sp) rip) hun
                (fun s' => ?_) hr.unused hr.hash hr.blocks hr.imap.ge (by
                  rw [show (newInode dev bits uid gid _ _ rip).iNum = rip.iNum from rfl, hr.num]
                  exact hne)
                (by
                  rw [show (newInode dev bits uid gid _ _ rip).iNum = rip.iNum from rfl, hr.num]
                  exact hr.imap.ge (Finset.mem_insert_self b t.imap))
                hdev hr.count (fun s' hs' _ heq => ?_) fun hdirt => by cases hdirt
              · rw [inode_set, hself, hr.inode]
                split <;> rfl
              · rw [show (newInode dev bits uid gid _ _ rip).iNum = rip.iNum from rfl, hr.num] at heq
                exact hfree (heq ▸ h.alloc s' hs' (by
                  rw [show (t.inode s').iNum = b from heq]
                  exact hne))

end Getting

section Putting
variable {H : MfsHeaders} {sp : SuperBlock H} {now : BitVec 32} {t t' t₁ : InodeTable H} {s : ℕ}
  {rip : Inode H} {cut : Cut}

structure Written (sp : SuperBlock H) (t t₁ : InodeTable H) (s : ℕ) (rip rip₁ : Inode H) : Prop where
  inode : ∀ s', t₁.inode s' = if s' = s then rip₁ else t.inode s'
  unused : t₁.unusedInodes = t.unusedInodes
  hash : t₁.hashInodes = t.hashInodes
  imap : t₁.imap = t.imap
  num : rip₁.iNum = rip.iNum
  dev : rip₁.iDev = rip.iDev
  count : rip₁.iCount = rip.iCount
  clean : rip₁.iDirt = false
  saved : Saved sp rip₁ t₁.blocks
  others : ∀ r : Inode H, r.iNum ≠ NO_ENTRY → r.iNum ≠ rip.iNum → Saved sp r t.blocks →
    Saved sp r t₁.blocks

theorem writeBack_ok (rip : Inode H) (hnum : rip.iNum ≠ NO_ENTRY)
    (hsaved : rip.iDirt = false → Saved sp rip t.blocks)
    (hok : writeBack sp now s rip t = .ok t₁) : ∃ rip₁, Written sp t t₁ s rip rip₁ := by
  have hpos : ∀ {r : Inode H}, r.iNum ≠ NO_ENTRY → 1 ≤ r.iNum := fun hr => Nat.pos_of_ne_zero hr
  simp only [writeBack] at hok
  split at hok
  · split at hok
    · cases hok
    · cases hok
      obtain ⟨-, hn, hd, hc, hclean⟩ :=
        write_fields sp now { rip with iMountpoint := false } t.blocks
      exact ⟨_, fun s' => inode_set s', rfl, rfl, rfl, hn, hd, hc, hclean, saved_written sp now _ _,
        fun r hr hne h => saved_others h (hpos hnum) (hpos hr) hne⟩
  · rename_i hdirt
    cases hok
    have hclean : rip.iDirt = false := by simpa using hdirt
    exact ⟨{ rip with iMountpoint := false }, fun s' => inode_set s', rfl, rfl, rfl, rfl, rfl, rfl,
      hclean, (hsaved hclean).congr ⟨rfl, rfl, rfl, rfl, rfl, fun _ _ => rfl⟩ rfl,
      fun r _ _ h => h⟩

theorem InodeTable.Good.keep (h : t.Good sp) {rip₁ : Inode H} (hw : Written sp t t₁ s rip rip₁)
    (hs : s < NR_INODES) (hused : 0 < (t.inode s).iCount) (hnum : rip.iNum = (t.inode s).iNum)
    (hdev : rip.iDev = (t.inode s).iDev) (hcount : rip.iCount = 0) :
    InodeTable.Good sp { t₁ with unusedInodes := t₁.unusedInodes ++ [s] } := by
  have hself : t₁.inode s = rip₁ := by rw [hw.inode, if_pos rfl]
  have hnot : s ∉ t.unusedInodes := fun hmem => by
    have hz := ((h.unused_iff s).mp hmem).2
    omega
  have hname := h.named s hs hused
  have hn₁ : rip₁.iNum = (t.inode s).iNum := hw.num.trans hnum
  refine h.change hs ⟨fun s' he => by rw [hw.inode, if_neg he], ?_, fun s' he => ?_, ?_, ?_,
    fun i => ?_, fun i s' _ => ?_, fun i => ?_, fun hne s' hs' he heq => ?_, fun _ => ?_,
    fun _ => ?_, fun _ => ?_, fun _ _ => ?_, fun _ _ => ?_, fun s' hs' _ hne => ?_, ?_,
    fun s' hs' he hne hdirt => ?_⟩
  · rw [hw.unused]
    exact List.nodup_append.mpr ⟨h.unused_nodup, List.nodup_singleton s, fun a ha b hb =>
      fun hab => hnot (by rw [← List.mem_singleton.mp hb, ← hab]; exact ha)⟩
  · rw [hw.unused, List.mem_append, List.mem_singleton]
    exact ⟨fun hor => hor.resolve_right he, .inl⟩
  · rw [hself, hw.unused, hw.count, hcount]
    exact iff_of_true (List.mem_append_right _ List.mem_cons_self) rfl
  · rw [hself, hw.count, hcount]
  · rw [hw.hash]
    exact h.hash_nodup i
  · rw [hw.hash]
  · rw [hself, hw.hash, hn₁]
    exact (h.hash_iff i s).trans ⟨fun hz => hz.2, fun hz => ⟨hs, hz⟩⟩
  · rw [hself, hn₁] at heq
    exact he (h.unique s s' hs hs' hname heq.symm).symm
  · rw [hself, hw.dev, hdev]
    exact h.dev s hs hname
  · rw [hself, hn₁, hw.imap]
    exact h.alloc s hs hname
  · rw [hself, hn₁]
    exact hname
  · rw [hself]
    exact hw.clean
  · rw [hself]
    exact hw.saved
  · rw [hw.imap]
    exact h.alloc s' hs' hne
  · rw [hw.imap]
    exact h.zero
  · refine hw.others _ hne (fun heq => ?_) (h.saved s' hs' hne hdirt)
    exact he (h.unique s s' hs hs' hname ((heq.trans hnum).symm)).symm

theorem InodeTable.Good.drop {t₀ : InodeTable H} (h : t.Good sp) {rip₁ : Inode H}
    (hw : Written sp t₀ t₁ s rip rip₁) (hs : s < NR_INODES) (hused : 0 < (t.inode s).iCount)
    (hnum : rip.iNum = (t.inode s).iNum) (hcount : rip.iCount = 0)
    (hfree : freeInode sp rip.iDev rip.iNum t = .ok t₀) : (dropInode s t₁).Good sp := by
  have hname := h.named s hs hused
  have h₀ : t₀.inode = t.inode ∧ t₀.unusedInodes = t.unusedInodes ∧
      t₀.hashInodes = t.hashInodes ∧ t₀.blocks = t.blocks ∧
      ∀ n ∈ t.imap, n ≠ rip.iNum → n ∈ t₀.imap := by
    rw [freeInode] at hfree
    split at hfree
    · cases hfree
    · split at hfree
      · cases hfree
        exact ⟨rfl, rfl, rfl, rfl, fun n hn _ => hn⟩
      · split at hfree <;> cases hfree
        exact ⟨rfl, rfl, rfl, rfl, fun n hn hne => Finset.mem_erase.mpr ⟨hne, hn⟩⟩
  obtain ⟨hinode, hunused, hhash, hblocks, himap⟩ := h₀
  have hnot : s ∉ t.unusedInodes := fun hmem => by
    have hz := ((h.unused_iff s).mp hmem).2
    omega
  have hothers : ∀ s', s' ≠ s → (dropInode s t₁).inode s' = t.inode s' := by
    intro s' he
    rw [show (dropInode s t₁).inode s' = _ from inode_set s', if_neg he]
    rw [show (unhashInode s t₁).inode s' = t₁.inode s' from rfl, hw.inode, if_neg he, hinode]
  have hself : (dropInode s t₁).inode s = { rip₁ with iNum := NO_ENTRY } := by
    rw [show (dropInode s t₁).inode s = _ from inode_set s, if_pos rfl]
    rw [show (unhashInode s t₁).inode s = t₁.inode s from rfl, hw.inode, if_pos rfl]
  have hun : (dropInode s t₁).unusedInodes = s :: t.unusedInodes := by
    rw [← hunused, ← hw.unused]
    rfl
  have hha : ∀ i, (dropInode s t₁).hashInodes i = (t.hashInodes i).erase s := by
    intro i
    rw [← hhash, ← hw.hash]
    rfl
  have hother_ne : ∀ s', s' < NR_INODES → s' ≠ s → (t.inode s').iNum ≠ rip.iNum :=
    fun s' hs' he heq => he (h.unique s s' hs hs' hname (heq.trans hnum).symm).symm
  have hmem : ∀ n ∈ t.imap, n ≠ rip.iNum → n ∈ (dropInode s t₁).imap := by
    intro n hn hne
    rw [show (dropInode s t₁).imap = t₁.imap from rfl, hw.imap]
    exact himap n hn hne
  refine h.change hs ⟨hothers, ?_, fun s' he => ?_, ?_, ?_, fun i => ?_, fun i s' he => ?_,
    fun i => ?_, fun hne => ?_, fun hne => ?_, fun hne => ?_, fun hpos => ?_, fun _ hne => ?_,
    fun hne => ?_, fun s' hs' he hne => hmem _ (h.alloc s' hs' hne) (hother_ne s' hs' he),
    hmem _ h.zero fun heq => hname (hnum ▸ heq.symm), fun s' hs' he hne hdirt => ?_⟩
  · rw [hun]
    exact List.nodup_cons.mpr ⟨hnot, h.unused_nodup⟩
  · rw [hun, List.mem_cons]
    exact ⟨fun hor => hor.resolve_left he, .inr⟩
  · rw [hself, hun]
    exact iff_of_true List.mem_cons_self (hw.count.trans hcount)
  · rw [hself]
    exact (hw.count.trans hcount).ge
  · rw [hha]
    exact (h.hash_nodup i).erase s
  · rw [hha]
    exact List.mem_erase_of_ne he
  · rw [hha, hself]
    exact iff_of_false (h.hash_nodup i).not_mem_erase fun hz => hz.1 rfl
  · rw [hself] at hne
    exact absurd rfl hne
  · rw [hself] at hne
    exact absurd rfl hne
  · rw [hself] at hne
    exact absurd rfl hne
  · rw [hself] at hpos
    rw [show ({ rip₁ with iNum := NO_ENTRY } : Inode H).iCount = rip.iCount from hw.count,
      hcount] at hpos
    exact absurd hpos (lt_irrefl 0)
  · rw [hself] at hne
    exact absurd rfl hne
  · rw [hself] at hne
    exact absurd rfl hne
  · refine hw.others _ hne (hother_ne s' hs' he) ?_
    rw [hblocks]
    exact h.saved s' hs' hne hdirt

theorem truncate_place (cut : Cut) (rip : Inode H) :
    (truncateInode cut rip).iNum = rip.iNum ∧ (truncateInode cut rip).iDev = rip.iDev ∧
    (truncateInode cut rip).iCount = rip.iCount := by
  simp only [truncateInode]
  split
  · exact ⟨rfl, rfl, rfl⟩
  · split <;> exact ⟨rfl, rfl, rfl⟩

theorem InodeTable.Good.put (h : t.Good sp) (hs : s < NR_INODES)
    (hok : putInode sp now cut s t = .ok t') : t'.Good sp := by
  simp only [putInode] at hok
  split at hok
  · cases hok
  · rename_i hcount
    have hused : 0 < (t.inode s).iCount := by omega
    have hname := h.named s hs hused
    have hsaved : (t.inode s).iDirt = false →
        Saved sp { t.inode s with iCount := (t.inode s).iCount - 1 } t.blocks := fun hdirt =>
      (h.saved s hs hname hdirt).congr ⟨rfl, rfl, rfl, rfl, rfl, fun _ _ => rfl⟩ rfl
    split at hok
    · rename_i hzero
      simp only [releaseInode] at hok
      split at hok
      · split at hok
        · cases hok
        · rename_i t₀ hfree
          split at hok
          · cases hok
          · rename_i t₁ hwrite
            cases hok
            obtain ⟨hn, hd, hc⟩ := truncate_place cut
              { t.inode s with iCount := (t.inode s).iCount - 1 }
            obtain ⟨rip₁, hw⟩ := writeBack_ok _ (by
              rw [show ({ truncateInode cut { t.inode s with iCount := (t.inode s).iCount - 1 } with
                iMode := I_NOT_ALLOC, iDirt := true } : Inode H).iNum = _ from hn]
              exact hname) (fun hdirt => by cases hdirt) hwrite
            exact h.drop hw hs hused hn (hc.trans hzero) hfree
      · split at hok
        · cases hok
        · rename_i t₁ hwrite
          cases hok
          obtain ⟨rip₁, hw⟩ := writeBack_ok
            { t.inode s with iCount := (t.inode s).iCount - 1 } hname hsaved hwrite
          exact h.keep hw hs hused rfl rfl hzero
    · rename_i hne
      cases hok
      exact h.set_used _ hs hused rfl rfl (by dsimp only at hne ⊢; omega) hsaved

theorem InodeTable.Good.putnode {numb : ℕ} {count : ℤ} (h : t.Good sp)
    (hok : fsPutnode sp now numb count cut t = .ok t') : t'.Good sp := by
  simp only [fsPutnode] at hok
  split at hok
  · cases hok
  · rename_i s hf
    have hmem := List.mem_of_find?_eq_some hf
    have hp := List.find?_some hf
    simp only [decide_eq_true_eq] at hp
    obtain ⟨hs, hne, -⟩ := (h.hash_iff _ s).mp hmem
    split at hok
    · cases hok
    · rename_i hcount
      refine InodeTable.Good.put (h.set_used { t.inode s with
        iCount := (t.inode s).iCount - (count - 1) } hs hp.1 rfl rfl (by dsimp only; omega)
        fun hdirt => ?_) hs hok
      exact (h.saved s hs hne hdirt).congr ⟨rfl, rfl, rfl, rfl, rfl, fun _ _ => rfl⟩ rfl

theorem InodeTable.Good.dup (h : t.Good sp) (hs : s < NR_INODES)
    (hused : 0 < (t.inode s).iCount) : (dupInode s t).Good sp :=
  h.set_used _ hs hused rfl rfl (by dsimp only; omega) fun hdirt =>
    (h.saved s hs (h.named s hs hused) hdirt).congr ⟨rfl, rfl, rfl, rfl, rfl, fun _ _ => rfl⟩ rfl

theorem InodeTable.Good.changed (h : t.Good sp) (hs : s < NR_INODES)
    (hused : 0 < (t.inode s).iCount) : (changeInode s rip t).Good sp :=
  h.set_used _ hs hused rfl rfl hused fun hdirt => by cases hdirt

theorem InodeTable.Good.written (h : t.Good sp) (hs : s < NR_INODES)
    (hused : 0 < (t.inode s).iCount) : (writeInodeBack sp s now t).Good sp := by
  obtain ⟨-, hn, hd, hc, hclean⟩ := write_fields sp now (t.inode s) t.blocks
  have hname := h.named s hs hused
  have h₁ : InodeTable.Good sp (setInode s { t.inode s with iDirt := true } t) :=
    h.set_used _ hs hused rfl rfl hused fun hdirt => by cases hdirt
  have hpos : ∀ {n : ℕ}, n ≠ NO_ENTRY → 1 ≤ n := fun hr => Nat.pos_of_ne_zero hr
  -- the blocks change first, with the slot dirty
  have h₂ : InodeTable.Good sp { setInode s { t.inode s with iDirt := true } t with
      blocks := (rwInodeWrite sp now (t.inode s) t.blocks).2 } := by
    refine { h₁ with saved := fun s' hs' hne hdirt => ?_ }
    have hsaved := h₁.saved s' hs' hne hdirt
    refine saved_others hsaved (hpos hname) (hpos hne) fun heq => ?_
    change ((setInode s { t.inode s with iDirt := true } t).inode s').iDirt = false at hdirt
    rw [inode_set] at hdirt heq
    split at hdirt
    · cases hdirt
    · rename_i he
      rw [if_neg he] at heq
      exact he (h.unique s' s hs' hs (heq ▸ hname) heq)
  have h₃ := h₂.set_used (rwInodeWrite sp now (t.inode s) t.blocks).1 hs (by
      rw [show InodeTable.inode _ s = _ from inode_set_self]
      exact hused)
    (by rw [show InodeTable.inode _ s = _ from inode_set_self]; exact hn)
    (by rw [show InodeTable.inode _ s = _ from inode_set_self]; exact hd) (by rw [hc]; exact hused)
    fun _ => saved_written sp now _ _
  have heq : writeInodeBack sp s now t = setInode s (rwInodeWrite sp now (t.inode s) t.blocks).1
      { setInode s { t.inode s with iDirt := true } t with
        blocks := (rwInodeWrite sp now (t.inode s) t.blocks).2 } := by
    simp only [writeInodeBack, setInode, Function.update_idem]
  rw [heq]
  exact h₃

end Putting

section Runs
variable {H : MfsHeaders} {sp : SuperBlock H} {t t' : InodeTable H}

structure FreshTable (t : InodeTable H) : Prop where
  unused : t.unusedInodes = (List.range NR_INODES).reverse
  hash : ∀ i, t.hashInodes i = []
  free : ∀ s, s < NR_INODES → (t.inode s).iNum = NO_ENTRY ∧ (t.inode s).iCount = 0
  zero : NO_ENTRY ∈ t.imap

def InodeCall.OfTable (t : InodeTable H) : InodeCall H → Prop
  | .put s _ _ => s < NR_INODES
  | .dup s => s < NR_INODES
  | .change s _ => s < NR_INODES ∧ 0 < (t.inode s).iCount
  | .write s _ => s < NR_INODES ∧ 0 < (t.inode s).iCount
  | _ => True

def inodeSystem (sp : SuperBlock H) : TransitionSystem (InodeTable H) (InodeCall H) where
  initial := FreshTable
  step t call t' := call.OfTable t ∧ callInode sp t call = .ok t'

def InodeCall.Names (sp : SuperBlock H) (t : InodeTable H) : InodeCall H → Prop
  | .get dev numb => dev = sp.sDev ∧ numb ≠ NO_ENTRY ∧ numb ∈ t.imap
  | .dup s => 0 < (t.inode s).iCount
  | _ => True

theorem FreshTable.good (h : FreshTable t) : t.Good sp := by
  have hnum : ∀ s, s < NR_INODES → ¬ (t.inode s).iNum ≠ NO_ENTRY := fun s hs hne =>
    hne (h.free s hs).1
  refine ⟨?_, fun s => ?_, fun s hs => ?_, fun i => ?_, fun i s => ?_,
    fun s _ hs _ hne => absurd hne (hnum s hs), fun s hs hne => absurd hne (hnum s hs),
    fun s hs hne => absurd hne (hnum s hs), h.zero, fun s hs hpos => ?_,
    fun s hs _ hne => absurd hne (hnum s hs), fun s hs hne => absurd hne (hnum s hs)⟩
  · rw [h.unused]
    exact List.nodup_reverse.mpr List.nodup_range
  · rw [h.unused, List.mem_reverse, List.mem_range]
    exact ⟨fun hs => ⟨hs, (h.free s hs).2⟩, fun hs => hs.1⟩
  · rw [(h.free s hs).2]
  · rw [h.hash]
    exact List.nodup_nil
  · rw [h.hash]
    exact iff_of_false List.not_mem_nil fun hz => hnum s hz.1 hz.2.1
  · rw [(h.free s hs).2] at hpos
    exact absurd hpos (lt_irrefl 0)

theorem map_ok_snd {α : Type} {x : Except Fault (α × InodeTable H)} (h : x.map (·.2) = .ok t') :
    ∃ a, x = .ok (a, t') := by
  cases x with
  | error f => cases h
  | ok a =>
    cases h
    exact ⟨a.1, rfl⟩

theorem InodeTable.Good.step {call : InodeCall H} (h : t.Good sp) (hn : call.Names sp t)
    (hstep : (inodeSystem sp).step t call t') : t'.Good sp := by
  obtain ⟨hof, hok⟩ := hstep
  cases call with
  | get dev numb =>
    obtain ⟨r, hget⟩ := map_ok_snd hok
    exact h.get hn.1 hn.2.1 hn.2.2 hget
  | find dev numb =>
    cases hok
    exact h
  | put s now cut => exact h.put hof hok
  | dup s =>
    cases hok
    exact h.dup hof hn
  | alloc dev bits uid gid =>
    obtain ⟨r, halloc⟩ := map_ok_snd hok
    exact h.allocInode_good halloc
  | putnode numb count now cut => exact h.putnode hok
  | change s rip =>
    cases hok
    exact h.changed hof.1 hof.2
  | write s now =>
    cases hok
    exact h.written hof.1 hof.2

theorem inode_cache_kept {past : List (InodeTable H × InodeCall H)}
    (h : Run (inodeSystem sp) (fun _ t call => call.Names sp t) past t) :
    (∀ s s', s < NR_INODES → s' < NR_INODES → (t.inode s).iNum ≠ NO_ENTRY →
      (t.inode s).iDev = (t.inode s').iDev → (t.inode s).iNum = (t.inode s').iNum → s = s') ∧
    (∀ i, (t.hashInodes i).Nodup ∧ ∀ s, s ∈ t.hashInodes i ↔ s < NR_INODES ∧
      (t.inode s).iNum ≠ NO_ENTRY ∧ (t.inode s).iNum % INODE_HASH_SIZE = i) ∧
    (t.unusedInodes.Nodup ∧
      ∀ s, s ∈ t.unusedInodes ↔ s < NR_INODES ∧ (t.inode s).iCount = 0) ∧
    ∀ s ∈ t.unusedInodes, (t.inode s).iNum ≠ NO_ENTRY → (t.inode s).iDirt = false ∧
      Saved sp (t.inode s) t.blocks := by
  have hgood : t.Good sp := h.invariant (P := fun t => InodeTable.Good sp t)
    (fun _ hinit => FreshTable.good hinit) fun _ _ _ _ hgood hn hstep => hgood.step hn hstep
  refine ⟨fun s s' hs hs' hne _ heq => hgood.unique s s' hs hs' hne heq,
    fun i => ⟨hgood.hash_nodup i, hgood.hash_iff i⟩, ⟨hgood.unused_nodup, hgood.unused_iff⟩,
    fun s hmem hne => ?_⟩
  obtain ⟨hs, hcount⟩ := (hgood.unused_iff s).mp hmem
  have hclean := hgood.clean s hs hcount hne
  exact ⟨hclean, hgood.saved s hs hne hclean⟩

def freeSlot : Inode charHeaders := { linkedInode 0 with iNum := NO_ENTRY, iCount := 0 }

def freshTable : InodeTable charHeaders :=
  ⟨fun _ => freeSlot, (List.range NR_INODES).reverse, fun _ => [], 0, {0, 1}, noBlocks⟩

theorem freshTable_fresh : FreshTable freshTable where
  unused := by simp only [freshTable]
  hash _ := by simp only [freshTable]
  free _ _ := by simp only [freshTable, freeSlot, and_self]
  zero := by simp only [freshTable, Finset.mem_insert, NO_ENTRY, true_or]

theorem unused_first :
    (List.range NR_INODES).reverse = 511 :: 510 :: (List.range 510).reverse := by
  have h : List.range NR_INODES = List.range 510 ++ [510] ++ [511] := by
    rw [← List.range_succ, ← List.range_succ]
    simp only [NR_INODES]
  rw [h, List.reverse_append, List.reverse_append]
  simp only [List.reverse_singleton, List.cons_append, List.nil_append]

def gotInode (n : ℕ) : Inode charHeaders :=
  { rwInodeRead v1Super { freeSlot with iDev := 1, iNum := n, iCount := 1 } noBlocks with
    updateAtime := false, updateCtime := false, updateMtime := false
    iZsearch := 0, iMountpoint := false }

def gotTable (n : ℕ) : InodeTable charHeaders :=
  addhashInode 511 (setInode 511 (gotInode n)
    { freshTable with unusedInodes := 510 :: (List.range 510).reverse })

theorem get_fresh (n : ℕ) : getInode v1Super 1 n freshTable = .ok (some 511, gotTable n) := by
  have hnone : searchHash 1 n freshTable = none := by
    simp only [searchHash, freshTable, List.find?_nil]
  have hunused : freshTable.unusedInodes = 511 :: 510 :: (List.range 510).reverse := by
    simp only [freshTable, unused_first]
  have hload : loadInode v1Super 1 n (freshTable.inode 511) freshTable.blocks =
      .ok (rwInodeRead v1Super { freeSlot with iDev := 1, iNum := n, iCount := 1 } noBlocks) := by
    rw [loadInode, if_neg (by decide), if_pos (by decide)]
    simp only [freshTable]
  have hfree : (freshTable.inode 511).iNum = NO_ENTRY := by simp only [freshTable, freeSlot]
  simp only [getInode, hnone, hunused, reuseInode, hfree, if_true, hload, gotTable, gotInode]

def changedTable : InodeTable charHeaders := changeInode 511 (linkedInode 3) (gotTable 1)

theorem inode_cache_kept_put : ∃ past t, Run (inodeSystem v1Super)
    (fun _ t call => call.Names v1Super t) past t ∧ 511 ∈ t.unusedInodes ∧
    (t.inode 511).iDirt = false ∧ (rwInodeRead v1Super (t.inode 511) t.blocks).iNlinks = 3 := by
  obtain ⟨t, hput, hunused, hnum, hfits, hlinks⟩ : ∃ t,
      callInode v1Super changedTable (.put 511 0 ⟨true, fun _ => 0⟩) = .ok t ∧
      511 ∈ t.unusedInodes ∧ (t.inode 511).iNum ≠ NO_ENTRY ∧ Fits v1Super (t.inode 511) ∧
      (t.inode 511).iNlinks = 3 := by
    refine ⟨_, rfl, List.mem_append_right _ List.mem_cons_self, by decide, fun _ => ?_, rfl⟩
    exact ⟨by decide, by decide, by decide⟩
  have hgot : Run (inodeSystem v1Super) (fun _ t call => call.Names v1Super t)
      [(freshTable, .get 1 1)] (gotTable 1) :=
    .next (.start freshTable_fresh) ⟨rfl, by decide, by simp [freshTable]⟩
      ⟨trivial, by rw [callInode, get_fresh, Except.map]⟩
  have hchanged : Run (inodeSystem v1Super) (fun _ t call => call.Names v1Super t)
      [(gotTable 1, .change 511 (linkedInode 3)), (freshTable, .get 1 1)] changedTable :=
    .next hgot trivial ⟨⟨by decide, by decide⟩, rfl⟩
  have hrun : Run (inodeSystem v1Super) (fun _ t call => call.Names v1Super t)
      [(changedTable, .put 511 0 ⟨true, fun _ => 0⟩), (gotTable 1, .change 511 (linkedInode 3)),
        (freshTable, .get 1 1)] t := .next hchanged trivial ⟨show 511 < NR_INODES by decide, hput⟩
  obtain ⟨hclean, hsaved⟩ := (inode_cache_kept hrun).2.2.2 511 hunused hnum
  exact ⟨_, t, hrun, hunused, hclean, (hsaved hfits).nlinks.trans hlinks⟩

theorem free_number_twice : ∃ past t, Run (inodeSystem v1Super) always past t ∧
    (t.inode 510).iNum ≠ NO_ENTRY ∧ (t.inode 510).iDev = (t.inode 511).iDev ∧
    (t.inode 510).iNum = (t.inode 511).iNum := by
  have hbit : allocBit v1Super (gotTable 2).imap (v1Super.sNinodes + 1) v1Super.sImapBlocks
      (gotTable 2).sIsearch = some 2 := by decide +kernel
  obtain ⟨t, halloc, hnum, hdev, hother⟩ : ∃ t, callInode v1Super (gotTable 2) (.alloc 1 0 0 0) = .ok t ∧
      (t.inode 510).iNum = 2 ∧ (t.inode 510).iDev = 1 ∧ t.inode 511 = gotInode 2 := by
    simp only [callInode, allocInode, hbit]
    exact ⟨_, rfl, rfl, rfl, rfl⟩
  have hget : (inodeSystem v1Super).step freshTable (.get 1 2) (gotTable 2) :=
    ⟨trivial, by rw [callInode, get_fresh, Except.map]⟩
  have hnew : (inodeSystem v1Super).step (gotTable 2) (.alloc 1 0 0 0) t := ⟨trivial, halloc⟩
  refine ⟨_, t, .next (.next (.start freshTable_fresh) trivial hget) trivial hnew, ?_, ?_, ?_⟩
  · rw [hnum]
    decide
  · rw [hdev, hother]
    rfl
  · rw [hnum, hother]
    rfl

end Runs

end Mfs
