import Cs111.Vm.Chunks
import Cs111.Vm.PhysRuns

namespace Vm
open Kernel (Fault kassert bind_ok kassert_bind_ok pure_ok)

namespace Memory
variable (m : Memory)

def length (p : PhysrId) : ℕ := (m.extent p).getD 0

def finish (p : PhysrId) : ℕ := m.offset p + m.length p

def Maps (r : RegionId) (x f : ℕ) : Prop :=
  ∃ p ∈ m.tree r, ∃ pr pb, m.physr p = some pr ∧ m.block pr.ph = some pb ∧ pr.offset ≤ x ∧
    x < pr.offset + pb.length ∧ f = pb.phys + (x - pr.offset)

def Apart (r : RegionId) : Prop :=
  ∀ p ∈ m.tree r, ∀ q ∈ m.tree r, m.offset p < m.offset q → m.finish p ≤ m.offset q

end Memory

def SlabSite.physr : SlabSite → Bool
  | .newphysr | .copyFirst | .copyNext | .mapPhysr | .splitRegion => true
  | _ => false

def SlabSite.block : SlabSite → Bool
  | .newpb | .splitBlock => true
  | _ => false

structure Names (o : Outcomes) (m : Memory) : Prop where
  physr : ∀ site t p, site.physr → m.tick ≤ t → o.slab site t = some p → m.physr p = none
  block : ∀ site t b, site.block → m.tick ≤ t → o.slab site t = some b → m.block b = none
  physrOnce : ∀ site site' t t' p, site.physr → site'.physr → m.tick ≤ t → m.tick ≤ t' →
    o.slab site t = some p → o.slab site' t' = some p → t = t'
  blockOnce : ∀ site site' t t' b, site.block → site'.block → m.tick ≤ t → m.tick ≤ t' →
    o.slab site t = some b → o.slab site' t' = some b → t = t'

section Facts
variable {o : Outcomes} {m m' : Memory} {p q : PhysrId} {pr : PhysRegion} {pb : PhysBlock}
  {r : RegionId} {vr : MappedRegion} {b : BlockId} {site : SlabSite} {t : ℕ}

theorem extent_of_some (hpr : m.physr p = some pr) (hpb : m.block pr.ph = some pb) :
    m.extent p = some pb.length := by
  simp [Memory.extent, hpr, hpb]

theorem length_of_some (hpr : m.physr p = some pr) (hpb : m.block pr.ph = some pb) :
    m.length p = pb.length := by
  rw [Memory.length, extent_of_some hpr hpb]
  rfl

theorem finish_of_some (hpr : m.physr p = some pr) (hpb : m.block pr.ph = some pb) :
    m.finish p = pr.offset + pb.length := by
  rw [Memory.finish, offset_of_some hpr, length_of_some hpr hpb]

theorem slaballoc_none {α : Type} {used : ℕ → Option α} (h : o.slab site m.tick = none) :
    slaballoc o site used m = .ok (none, m.ticked) := by
  rw [slaballoc, h]

theorem slaballoc_some {α : Type} {used : ℕ → Option α} {a : ℕ} (h : o.slab site m.tick = some a)
    (hused : used a = none) : slaballoc o site used m = .ok (some a, m.ticked) := by
  rw [slaballoc, h]
  simp [hused]

theorem physrInsert_some (hvr : m.region r = some vr) :
    physrInsert m r p = .ok (m.setRegion r { vr with phys := placed m p (m.tree r) }) := by
  rw [physrInsert, deref_some hvr, tree_of_some hvr]
  rfl

theorem Names.later (h : Names o m) (htick : m.tick ≤ m'.tick)
    (hphysr : ∀ p, (m'.physr p).isSome → (m.physr p).isSome ∨
      ∃ site t, site.physr ∧ m.tick ≤ t ∧ t < m'.tick ∧ o.slab site t = some p)
    (hblock : ∀ b, (m'.block b).isSome → (m.block b).isSome ∨
      ∃ site t, site.block ∧ m.tick ≤ t ∧ t < m'.tick ∧ o.slab site t = some b) : Names o m' where
  physr site t p hsite ht hp := by
    have hle := htick.trans ht
    by_contra hsome
    rcases hphysr p (Option.isSome_iff_ne_none.mpr hsome) with hold | ⟨s', t', hs', hge, hlt, hp'⟩
    · simp [h.physr site t p hsite hle hp] at hold
    · have hsame := h.physrOnce site s' t t' p hsite hs' hle hge hp hp'
      omega
  block site t b hsite ht hb := by
    have hle := htick.trans ht
    by_contra hsome
    rcases hblock b (Option.isSome_iff_ne_none.mpr hsome) with hold | ⟨s', t', hs', hge, hlt, hb'⟩
    · simp [h.block site t b hsite hle hb] at hold
    · have hsame := h.blockOnce site s' t t' b hsite hs' hle hge hb hb'
      omega
  physrOnce site site' t t' p hsite hsite' ht ht' :=
    h.physrOnce site site' t t' p hsite hsite' (htick.trans ht) (htick.trans ht')
  blockOnce site site' t t' b hsite hsite' ht ht' :=
    h.blockOnce site site' t t' b hsite hsite' (htick.trans ht) (htick.trans ht')

theorem Names.fewer (h : Names o m) (htick : m.tick ≤ m'.tick)
    (hphysr : ∀ p, (m'.physr p).isSome → (m.physr p).isSome)
    (hblock : ∀ b, (m'.block b).isSome → (m.block b).isSome) : Names o m' :=
  h.later htick (fun p hp => .inl (hphysr p hp)) fun b hb => .inl (hblock b hb)

theorem Names.ticked (h : Names o m) : Names o m.ticked :=
  h.fewer (Nat.le_succ _) (fun _ hp => hp) fun _ hb => hb

end Facts

open Span

def VR_PHYS64K : BitVec 32 := 0x004
def VR_LOWER16MB : BitVec 32 := 0x008
def VR_LOWER1MB : BitVec 32 := 0x010

def vrallocflags (flags : BitVec 32) : BitVec 32 :=
  (if hasAny flags VR_PHYS64K then PAF_ALIGN64K else 0) |||
    (if hasAny flags VR_LOWER16MB then PAF_LOWER16MB else 0) |||
    (if hasAny flags VR_LOWER1MB then PAF_LOWER1MB else 0) |||
    (if hasAny flags VR_CONTIG then PAF_CONTIG else 0)

def freedSince (m m' : Memory) : List MemList :=
  (m'.freed.take (m'.freed.length - m.freed.length)).reverse

section Code
variable (env : VmEnv)

def giveBack : List MemList → FreePool → Except Fault FreePool
  | [], s => pure s
  | ml :: rest, s => do
    let s ← s.freeMem env (abs2click ml.phys) (abs2click ml.length)
    giveBack rest s

def mapNewFromPool (o : Outcomes) (r : RegionId) (start length : ℕ) (allocflags : BitVec 32)
    (m : Memory) (s : FreePool) : Except Fault (VmReply × Memory × FreePool) := do
  kassert (paged length)
  let vr ← deref (m.region r)
  if hasAny vr.flags VR_CONTIG ∧ (start > 0 ∨ length < vr.length.toNat) then pure (.EFAULT, m, s)
  else do
    let (mem, s) ← allocMemInList env length (allocflags ||| vrallocflags vr.flags) s
    match mem with
    | none => pure (.ENOMEM, m.ticked, s)
    | some memlist => do
      let (reply, m') ← mapNewChunks o r start length memlist m.ticked
      let s ← giveBack env (freedSince m m') s
      let s ← freeMemList env false memlist s
      pure (reply, m', s)

end Code

structure Untouched (m m' : Memory) (s s' : FreePool) : Prop where
  region : m'.region = m.region
  free : ∀ page, s'.Holds page ↔ s.Holds page

section Leak
variable {env : VmEnv} {o : Outcomes} {m m' : Memory} {r : RegionId} {s s₀ s₁ s' : FreePool}
  {start length cut : ℕ} {allocflags : BitVec 32} {vr : MappedRegion} {memlist rest : List MemList}
  {reply : VmReply} {l : List Chunk}

theorem mapNewFromPool_block (hvr : m.region r = some vr)
    (hmem : allocMemInList env length (allocflags ||| vrallocflags vr.flags) s =
      .ok (o.pages cut length m.tick, s₁))
    (hok : mapNewFromPool env o r start length allocflags m s = .ok (reply, m', s')) :
    mapNewPhysblock o r start length none cut m = .ok (reply, m') := by
  obtain ⟨hpaged, hok⟩ := kassert_bind_ok.mp hok
  rw [deref_some hvr, ok_bind] at hok
  rw [mapNewPhysblock, hpaged, deref_some hvr]
  simp only [kassert_true, ok_bind]
  split at hok
  · rename_i hcontig
    cases pure_ok.mp hok
    rw [if_pos hcontig]
    rfl
  · rename_i hcontig
    rw [hmem, ok_bind] at hok
    rw [if_neg hcontig]
    cases hpages : o.pages cut length m.tick with
    | none =>
      rw [hpages] at hok
      cases pure_ok.mp hok
      rfl
    | some memlist =>
      rw [hpages] at hok
      obtain ⟨⟨reply', m₁⟩, hchunks, hok⟩ := bind_ok.mp hok
      obtain ⟨s₂, -, hok⟩ := bind_ok.mp hok
      obtain ⟨s₃, -, hok⟩ := bind_ok.mp hok
      cases pure_ok.mp hok
      exact hchunks

theorem Laid.same_region (h : Laid m m' r []) (hm : InOrder m r) : m'.region = m.region := by
  have hmem : ∀ q, q ∈ m'.tree r ↔ q ∈ m.tree r := fun q => (h.mem q).trans (by simp)
  have horder : ByOffset m' (m.tree r) :=
    hm.order.of_same fun q hq => h.offset (hm.physr q hq)
  have hperm := (List.perm_ext_iff_of_nodup h.order.nodup hm.order.nodup).mpr hmem
  have htree : m'.tree r = m.tree r :=
    hperm.eq_of_pairwise (fun a b _ _ hab hba => absurd (hab.trans hba) (lt_irrefl _)) h.order
      horder
  funext r'
  by_cases hr' : r' = r
  · subst hr'
    obtain ⟨vr, hvr, hvr'⟩ := h.region
    rw [hvr', htree, tree_of_some hvr, hvr]
  · exact h.others r' hr'

theorem Lent.given (h : Lent env s₀ s (memlist ++ rest)) (hok : giveBack env memlist s = .ok s') :
    Lent env s₀ s' rest := by
  induction memlist generalizing s with
  | nil =>
    cases pure_ok.mp hok
    exact h
  | cons ml memlist ih =>
    obtain ⟨s₁, hfree, hok⟩ := bind_ok.mp hok
    have hsize : 0 < ml.block.size := (h.whole ml List.mem_cons_self).nonempty
    have hne : abs2click ml.length ≠ 0 := Nat.ne_of_gt hsize
    rw [FreePool.freeMem, if_neg hne] at hfree
    rcases h.free with ⟨s₂, hs₂, hlent, -⟩ | ⟨hpanic, -⟩
    · cases hfree.symm.trans hs₂
      exact ih hlent hok
    · cases hfree.symm.trans hpanic

theorem freeMemList_nodes (hok : freeMemList env false memlist s = .ok s') : s' = s := by
  induction memlist with
  | nil => exact (pure_ok.mp hok).symm
  | cons ml memlist ih =>
    obtain ⟨-, hok⟩ := kassert_bind_ok.mp hok
    obtain ⟨-, hok⟩ := kassert_bind_ok.mp hok
    exact ih hok

theorem Lent.short (h : Lent env s₀ s rest) (hrest : rest ≠ []) :
    ¬ ∀ page, s.Holds page ↔ s₀.Holds page := by
  intro hsame
  obtain ⟨ml, rest, rfl⟩ := List.exists_cons_of_ne_nil hrest
  have hsize := (h.whole ml List.mem_cons_self).nonempty
  have hcovered : covered (chunkPages (ml :: rest)) ml.block.addr :=
    ⟨ml.block, List.mem_cons_self, le_rfl, Nat.lt_add_of_pos_right hsize⟩
  exact h.apart _ hcovered ((hsame _).mpr ((h.held _).mpr (.inr hcovered)))

theorem allocMemInList_lent {bytes : ℕ} {flags : BitVec 32} (hs : s.Sound env)
    (hword : bytes < 4294967296)
    (hfuel : s.lru.length < env.fuel ∧ bytes / CLICK_SIZE ≤ env.fuel)
    (hok : allocMemInList env bytes flags s = .ok (some memlist, s₁)) :
    Lent env s s₁ memlist ∧ lengths memlist = bytes := by
  obtain ⟨hpos, hpaged⟩ : 0 < bytes ∧ CLICK_SIZE ∣ bytes := by
    obtain ⟨hpos, hrest⟩ := kassert_bind_ok.mp hok
    obtain ⟨hpaged, -⟩ := kassert_bind_ok.mp hrest
    exact ⟨of_decide_eq_true hpos, Nat.dvd_of_mod_eq_zero (of_decide_eq_true hpaged)⟩
  rcases allocMemInList_settles flags hs hpos hpaged hword hfuel with hsettles | ⟨hpanic, -⟩
  · rw [hok] at hsettles
    exact hsettles
  · cases hok.symm.trans hpanic

theorem Lent.positive (h : Lent env s₀ s memlist) : ∀ ml ∈ memlist, 0 < ml.length := by
  intro ml hml
  have hsize := (h.whole ml hml).nonempty
  rw [MemList.block] at hsize
  exact Nat.pos_of_div_pos hsize

theorem freedSince_append {given : List MemList} (h : m'.freed = given.reverse ++ m.freed) :
    freedSince m m' = given := by
  rw [freedSince, h, List.length_append, Nat.add_sub_cancel, List.take_left, List.reverse_reverse]

theorem mapNewChunks_undone (hm : InOrder m r) (hvr : m.region r = some vr)
    (hpos : ∀ ml ∈ memlist, 0 < ml.length) (hfree : Vacant m r start (start + lengths memlist))
    (hok : mapNewChunks o r start length memlist m = .ok (.ENOMEM, m')) :
    ∃ k < memlist.length, Laid m m' r [] ∧
      m'.freed = givenBack vr (memlist.take k).reverse ++ m.freed := by
  obtain ⟨⟨added, stop, m₁⟩, hadd, hok⟩ := bind_ok.mp hok
  obtain ⟨k, l, hlaid, hat, hfreed, hk⟩ := addChunks_laid hm hpos hfree hadd
  dsimp only at hok
  cases added with
  | true =>
    obtain ⟨-, hok⟩ := kassert_bind_ok.mp hok
    cases pure_ok.mp hok
  | false =>
    obtain ⟨m₂, hundo, hok⟩ := bind_ok.mp hok
    cases pure_ok.mp hok
    obtain ⟨h', hfreed'⟩ := undoChunks_laid hm hvr hpos hfree hlaid hat hundo
    exact ⟨k, hk, h', by rw [hfreed', hfreed]⟩

theorem failed_chunks_lent (hs : s.Sound env) (hm : InOrder m r) (hvr : m.region r = some vr)
    (hword : length < 4294967296)
    (hfuel : s.lru.length < env.fuel ∧ length / CLICK_SIZE ≤ env.fuel)
    (hfree : Vacant m r start (start + length))
    (hmem : allocMemInList env length (allocflags ||| vrallocflags vr.flags) s =
      .ok (some memlist, s₁))
    (hok : mapNewFromPool env o r start length allocflags m s = .ok (.ENOMEM, m', s')) :
    Laid m m' r [] ∧ ∃ k < memlist.length,
      Lent env s s' (memlist.drop (if hasAny vr.flags VR_ANON then k else 0)) := by
  obtain ⟨hlent, hlength⟩ := allocMemInList_lent hs hword hfuel hmem
  obtain ⟨-, hok⟩ := kassert_bind_ok.mp hok
  rw [deref_some hvr, ok_bind] at hok
  split at hok
  · cases pure_ok.mp hok
  · rw [hmem, ok_bind] at hok
    obtain ⟨⟨reply', m₁⟩, hchunks, hok⟩ := bind_ok.mp hok
    obtain ⟨s₂, hgive, hok⟩ := bind_ok.mp hok
    obtain ⟨s₃, hnodes, hok⟩ := bind_ok.mp hok
    cases pure_ok.mp hok
    obtain rfl := freeMemList_nodes hnodes
    have hticked := laid_mapped hm (mapped_ticked m) rfl
    have hvacant : Vacant m.ticked r start (start + lengths memlist) := by
      rw [hlength]
      exact hfree
    obtain ⟨k, hk, hlaid, hfreed⟩ := mapNewChunks_undone (hm.mapped (mapped_ticked m)) hvr
      hlent.positive hvacant hchunks
    refine ⟨hticked.trans hlaid, k, hk, ?_⟩
    rw [givenBack] at hfreed
    split at hfreed
    · rename_i hanon
      have hsince : freedSince m m' = memlist.take k := freedSince_append hfreed
      rw [hsince] at hgive
      rw [if_pos hanon]
      rw [← List.take_append_drop k memlist] at hlent
      exact hlent.given hgive
    · rename_i hanon
      have hsince : freedSince m m' = [] := freedSince_append (by exact hfreed)
      rw [hsince] at hgive
      cases pure_ok.mp hgive
      rw [if_neg hanon]
      exact hlent

theorem failedBlock_leaks (hs : s.Sound env) (hm : InOrder m r) (hvr : m.region r = some vr)
    (hword : length < 4294967296)
    (hfuel : s.lru.length < env.fuel ∧ length / CLICK_SIZE ≤ env.fuel)
    (hfree : Vacant m r start (start + length))
    (hmem : allocMemInList env length (allocflags ||| vrallocflags vr.flags) s =
      .ok (some memlist, s₁))
    (hok : mapNewFromPool env o r start length allocflags m s = .ok (.ENOMEM, m', s')) :
    m'.region = m.region ∧ ¬ Untouched m m' s s' := by
  obtain ⟨hlaid, k, hk, hlent⟩ := failed_chunks_lent hs hm hvr hword hfuel hfree hmem hok
  refine ⟨hlaid.same_region hm, fun h => hlent.short ?_ h.free⟩
  intro hnil
  rw [List.drop_eq_nil_iff] at hnil
  split at hnil <;> omega

end Leak

def untouchedRegion : Memory :=
  emptyMemory.setRegion 0 ⟨⟨0x1000, 0x1000, VR_ANON ||| VR_WRITABLE, 0, []⟩, 0⟩

def failedBlock : Except Fault (VmReply × Memory × FreePool) :=
  mapNewFromPool freshEnv (sampleOutcomes (fun _ => false) 0 0) 0 0 4096 PAF_CLEAR
    untouchedRegion (freshPool [⟨100, 1⟩])

theorem ok_of_map {α β : Type} {x : Except Fault α} {f : α → β} {b : β}
    (h : x.toOption.map f = some b) : ∃ a, x = .ok a ∧ f a = b := by
  match x, h with
  | .ok a, h => exact ⟨a, rfl, Option.some.inj h⟩

theorem failedBlock_ok : ∃ m' s', failedBlock = .ok (.ENOMEM, m', s') ∧ ¬ s'.Holds 100 := by
  have hrun : (failedBlock.toOption.map fun x => (x.1, decide (x.2.2.Holds 100))) =
      some (.ENOMEM, false) := by decide +kernel
  obtain ⟨⟨reply, m', s'⟩, hok, hresult⟩ := ok_of_map hrun
  obtain ⟨rfl, hgone⟩ := Prod.mk.inj hresult
  exact ⟨m', s', hok, of_decide_eq_false hgone⟩

theorem failedBlock_leaks_page : ∃ m' s', failedBlock = .ok (.ENOMEM, m', s') ∧
    m'.region = untouchedRegion.region ∧
      ¬ Untouched untouchedRegion m' (freshPool [⟨100, 1⟩]) s' := by
  have hs : (freshPool [⟨100, 1⟩]).Sound freshEnv :=
    fresh_sound ⟨⟨by simp, by simp⟩, by simp [maxPages]⟩ (by decide)
  have htree : untouchedRegion.tree 0 = [] := rfl
  have horder : InOrder untouchedRegion 0 :=
    ⟨rfl, by simp [htree], by simp [htree, ByOffset]⟩
  have hfree : Vacant untouchedRegion 0 0 (0 + 4096) := by simp [Vacant, htree]
  have hlist : ((allocMemInList freshEnv 4096
      (PAF_CLEAR ||| vrallocflags (VR_ANON ||| VR_WRITABLE))
      (freshPool [⟨100, 1⟩])).toOption.map fun x => x.1) = some (some [⟨409600, 4096⟩]) := by
    decide +kernel
  obtain ⟨⟨mem, s₁⟩, hmem, rfl⟩ := ok_of_map hlist
  obtain ⟨m', s', hrun, -⟩ := failedBlock_ok
  exact ⟨m', s', hrun, failedBlock_leaks hs horder rfl (by decide) (by decide) hfree hmem hrun⟩

theorem failedBlock_not_undone : ∃ m' s', failedBlock = .ok (.ENOMEM, m', s') ∧
    (freshPool [⟨100, 1⟩]).Holds 100 ∧ ¬ s'.Holds 100 ∧
      ¬ Untouched untouchedRegion m' (freshPool [⟨100, 1⟩]) s' := by
  obtain ⟨m', s', hrun, hgone⟩ := failedBlock_ok
  have hfree : (freshPool [⟨100, 1⟩]).Holds 100 := by decide
  exact ⟨m', s', hrun, hfree, hgone, fun h => hgone ((h.free 100).mpr hfree)⟩

end Vm
