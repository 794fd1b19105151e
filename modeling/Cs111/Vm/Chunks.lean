import Cs111.Vm.MemInList
import Cs111.Vm.PhysSteps

namespace Vm
open Kernel (Fault kassert bind_ok kassert_bind_ok pure_ok)

structure Chunk where
  off : ℕ
  ml : MemList
  p : PhysrId
  b : BlockId

def Vacant (m : Memory) (r : RegionId) (start stop : ℕ) : Prop :=
  ∀ q ∈ m.tree r, m.offset q < start ∨ stop ≤ m.offset q

structure Laid (m m' : Memory) (r : RegionId) (l : List Chunk) : Prop where
  physr : ∀ q, (m.physr q).isSome → m'.physr q = m.physr q
  block : ∀ b, (m.block b).isSome → m'.block b = m.block b
  others : ∀ r' ≠ r, m'.region r' = m.region r'
  region : ∃ vr, m.region r = some vr ∧ m'.region r = some { vr with phys := m'.tree r }
  mem : ∀ q, q ∈ m'.tree r ↔ q ∈ m.tree r ∨ q ∈ l.map Chunk.p
  order : ByOffset m' (m'.tree r)
  fresh : ∀ c ∈ l, m.physr c.p = none ∧ m.block c.b = none
  newPhysr : ∀ c ∈ l, m'.physr c.p = some ⟨c.b, r, c.off, none⟩
  newBlock : ∀ c ∈ l, ∃ flag, m'.block c.b = some ⟨c.ml.length, c.ml.phys, 1, flag, some c.p⟩
  single : ∀ b pb, m'.block b = some pb → m.block b = none → pb.refcount = 1
  physrs : (l.map Chunk.p).Nodup
  blocks : (l.map Chunk.b).Nodup
  vm : m'.vmRegions = m.vmRegions
  bytes : m'.bytes = m.bytes

structure InOrder (m : Memory) (r : RegionId) : Prop where
  region : (m.region r).isSome
  physr : ∀ p ∈ m.tree r, (m.physr p).isSome
  order : ByOffset m (m.tree r)

section Laid
variable {o : Outcomes} {m m' m₁ : Memory} {r : RegionId} {l l' : List Chunk} {c : Chunk}
  {ml : MemList} {off start stop : ℕ} {p q : PhysrId} {b : BlockId} {memlist : List MemList}
  {L : Set PhysrId} {X : Set RegionId} {W : (ProcId → List RegionId) × Set RegionId}

theorem InOrder.mapped (h : InOrder m r) (hm : Mapped m m') : InOrder m' r := by
  have htree : m'.tree r = m.tree r := by rw [Memory.tree, Memory.tree, hm.region]
  refine ⟨by rw [hm.region]; exact h.region, fun p hp => ?_, ?_⟩
  · rw [hm.physr]
    exact h.physr p (htree ▸ hp)
  · rw [htree]
    exact h.order.of_same fun p _ => by rw [Memory.offset, Memory.offset, hm.physr]

theorem Laid.inOrder (h : Laid m m' r l) (hm : InOrder m r) : InOrder m' r where
  region := by
    obtain ⟨vr, -, hvr⟩ := h.region
    simp [hvr]
  physr p hp := by
    rcases (h.mem p).mp hp with hp | hp
    · rw [h.physr p (hm.physr p hp)]
      exact hm.physr p hp
    · obtain ⟨c, hc, rfl⟩ := List.mem_map.mp hp
      simp [h.newPhysr c hc]
  order := h.order

theorem Laid.offset (h : Laid m m' r l) (hq : (m.physr q).isSome) : m'.offset q = m.offset q := by
  rw [Memory.offset, Memory.offset, h.physr q hq]

theorem Laid.trans (h : Laid m m₁ r l) (h' : Laid m₁ m' r l') : Laid m m' r (l ++ l') where
  physr q hq := by rw [h'.physr q (by rwa [h.physr q hq]), h.physr q hq]
  block b hb := by rw [h'.block b (by rwa [h.block b hb]), h.block b hb]
  others r' hr := (h'.others r' hr).trans (h.others r' hr)
  region := by
    obtain ⟨vr, hvr, hvr₁⟩ := h.region
    obtain ⟨vr₁, hsame, hvr'⟩ := h'.region
    rw [hvr₁] at hsame
    cases hsame
    exact ⟨vr, hvr, hvr'⟩
  mem q := by rw [h'.mem, h.mem, List.map_append, List.mem_append, or_assoc]
  order := h'.order
  fresh c hc := by
    rcases List.mem_append.mp hc with hc | hc
    · exact h.fresh c hc
    · obtain ⟨hp, hb⟩ := h'.fresh c hc
      constructor
      · by_contra hsome
        rw [h.physr c.p (Option.isSome_iff_ne_none.mpr hsome)] at hp
        exact hsome hp
      · by_contra hsome
        rw [h.block c.b (Option.isSome_iff_ne_none.mpr hsome)] at hb
        exact hsome hb
  newPhysr c hc := by
    rcases List.mem_append.mp hc with hc | hc
    · rw [h'.physr c.p (by simp [h.newPhysr c hc]), h.newPhysr c hc]
    · exact h'.newPhysr c hc
  newBlock c hc := by
    rcases List.mem_append.mp hc with hc | hc
    · obtain ⟨flag, hb⟩ := h.newBlock c hc
      exact ⟨flag, by rw [h'.block c.b (by simp [hb]), hb]⟩
    · exact h'.newBlock c hc
  single b pb hpb hnone := by
    cases hb : m₁.block b with
    | none => exact h'.single b pb hpb hb
    | some pb₁ =>
      rw [h'.block b (by simp [hb])] at hpb
      exact h.single b pb hpb hnone
  physrs := by
    rw [List.map_append]
    refine h.physrs.append h'.physrs fun q hq hq' => ?_
    obtain ⟨c, hc, rfl⟩ := List.mem_map.mp hq
    obtain ⟨c', hc', he⟩ := List.mem_map.mp hq'
    have hnone := (h'.fresh c' hc').1
    rw [he, h.newPhysr c hc] at hnone
    cases hnone
  blocks := by
    rw [List.map_append]
    refine h.blocks.append h'.blocks fun b hb hb' => ?_
    obtain ⟨c, hc, rfl⟩ := List.mem_map.mp hb
    obtain ⟨c', hc', he⟩ := List.mem_map.mp hb'
    have hnone := (h'.fresh c' hc').2
    obtain ⟨flag, hsome⟩ := h.newBlock c hc
    rw [he, hsome] at hnone
    cases hnone
  vm := h'.vm.trans h.vm
  bytes := h'.bytes.trans h.bytes

theorem laid_mapped (h : InOrder m r) (hm : Mapped m m') (hbytes : m'.bytes = m.bytes) :
    Laid m m' r [] := by
  have htree : ∀ r, m'.tree r = m.tree r := fun r => by rw [Memory.tree, Memory.tree, hm.region]
  obtain ⟨vr, hvr⟩ := Option.isSome_iff_exists.mp h.region
  refine ⟨fun q _ => by rw [hm.physr], fun b _ => by rw [hm.block], fun r' _ => by rw [hm.region],
    ⟨vr, hvr, ?_⟩, fun q => by simp [htree], ?_, by simp, by simp, by simp,
    fun b pb hpb hnone => ?_, .nil, .nil, hm.vm, hbytes⟩
  · rw [hm.region, htree, hvr, tree_of_some hvr]
  · rw [htree]
    exact h.order.of_same fun p _ => by rw [Memory.offset, Memory.offset, hm.physr]
  · rw [hm.block, hnone] at hpb
    cases hpb

theorem laid_refl (h : InOrder m r) : Laid m m r [] := laid_mapped h (.refl m) rfl

theorem laid_makeBlock (h : InOrder m r) (hp : m.physr p = none) (hb : m.block b = none) :
    Laid m (makeBlock o r ml off p b m) r [] := by
  have hne : ∀ q, (m.physr q).isSome → q ≠ p := by
    rintro q hq rfl
    simp [hp] at hq
  obtain ⟨vr, hvr⟩ := Option.isSome_iff_exists.mp h.region
  refine ⟨fun q hq => ?_, fun b' hb' => ?_, fun _ _ => rfl, ⟨vr, hvr, ?_⟩, fun q => ?_, ?_, by simp,
    by simp, by simp, fun b' pb hpb hnone => ?_, .nil, .nil, rfl, rfl⟩
  · exact Function.update_of_ne (hne q hq) ..
  · refine Function.update_of_ne ?_ ..
    rintro rfl
    simp [hb] at hb'
  · show m.region r = some { vr with phys := m.tree r }
    rw [hvr, tree_of_some hvr]
  · show q ∈ m.tree r ↔ _
    simp
  · exact h.order.of_same fun q hq => offset_setPhysr.trans (if_neg (hne q (h.physr q hq)))
  · by_cases hbb : b' = b
    · subst hbb
      have hnew := (Function.update_self ..).symm.trans hpb
      cases hnew
      rfl
    · have hold := (Function.update_of_ne hbb ..).symm.trans hpb
      exact absurd (hold.symm.trans hnone) (by simp)

theorem self_placed (h : ∀ q ∈ m.tree r, m.offset q ≠ m.offset p) : p ∈ placed m p (m.tree r) := by
  generalize m.tree r = l at h
  induction l with
  | nil => exact List.mem_singleton_self p
  | cons a l ih =>
    rw [placed]
    split
    · exact List.mem_cons_self
    · have ha : m.offset p ≠ m.offset a := fun he => h a List.mem_cons_self he.symm
      rw [if_neg ha]
      exact List.mem_cons_of_mem a (ih fun q hq => h q (List.mem_cons_of_mem a hq))

theorem mem_placed_iff (h : ∀ q ∈ m.tree r, m.offset q ≠ m.offset p) :
    q ∈ placed m p (m.tree r) ↔ q ∈ m.tree r ∨ q = p := by
  constructor
  · intro hq
    exact (mem_placed hq).symm
  · rintro (hq | rfl)
    · exact subset_placed hq
    · exact self_placed h

theorem mapPhWritept_bytes {written : Bool} (hok : mapPhWritept o r p m = .ok (written, m')) :
    m'.bytes = m.bytes := by
  obtain ⟨vr, _, hok⟩ := bind_ok.mp hok
  obtain ⟨pr, _, hok⟩ := bind_ok.mp hok
  obtain ⟨pb, _, hok⟩ := bind_ok.mp hok
  obtain ⟨_, hok⟩ := kassert_bind_ok.mp hok
  obtain ⟨_, hok⟩ := kassert_bind_ok.mp hok
  obtain ⟨_, hok⟩ := kassert_bind_ok.mp hok
  obtain ⟨_, hok⟩ := kassert_bind_ok.mp hok
  split at hok <;> cases pure_ok.mp hok <;> rfl

theorem Laid.inserted (h : Laid m m₁ r []) (hm : InOrder m r) (hp : m.physr c.p = none)
    (hb : m.block c.b = none) (hpr : m₁.physr c.p = some ⟨c.b, r, c.off, none⟩)
    (hpb : ∃ flag, m₁.block c.b = some ⟨c.ml.length, c.ml.phys, 1, flag, some c.p⟩)
    (hfree : ∀ q ∈ m.tree r, m.offset q ≠ c.off) (hok : physrInsert m₁ r c.p = .ok m') :
    Laid m m' r [c] := by
  obtain ⟨vr₁, hvr₁, rfl⟩ := physrInsert_ok hok
  obtain ⟨vr, hvr, hsame⟩ := h.region
  have htree : ∀ q, q ∈ m₁.tree r ↔ q ∈ m.tree r := fun q => (h.mem q).trans (by simp)
  have hkeys : ∀ q ∈ m₁.tree r, m₁.offset q ≠ m₁.offset c.p := by
    intro q hq
    have hq := (htree q).mp hq
    rw [h.offset (hm.physr q hq), offset_of_some hpr]
    exact hfree q hq
  have hnew : (m₁.setRegion r { vr₁ with phys := placed m₁ c.p (m₁.tree r) }).tree r =
      placed m₁ c.p (m₁.tree r) := tree_setRegion.trans (if_pos rfl)
  refine ⟨h.physr, h.block, fun r' hr' => ?_, ⟨vr, hvr, ?_⟩, fun q => ?_, ?_, ?_, ?_, ?_,
    h.single, List.nodup_singleton _, List.nodup_singleton _, h.vm, h.bytes⟩
  · exact (Function.update_of_ne hr' ..).trans (h.others r' hr')
  · rw [hnew]
    refine (Function.update_self ..).trans ?_
    rw [hvr₁] at hsame
    cases hsame
    rfl
  · rw [hnew, mem_placed_iff hkeys, htree]
    simp
  · rw [hnew]
    exact byOffset_placed h.order
  · intro c' hc'
    obtain rfl := List.mem_singleton.mp hc'
    exact ⟨hp, hb⟩
  · intro c' hc'
    obtain rfl := List.mem_singleton.mp hc'
    exact hpr
  · intro c' hc'
    obtain rfl := List.mem_singleton.mp hc'
    exact hpb

theorem addChunk_laid {added : Bool} (hm : InOrder m r) (hfree : ∀ q ∈ m.tree r, m.offset q ≠ off)
    (hok : addChunk o r ml off m = .ok (added, m')) :
    (if added then ∃ p b, Laid m m' r [⟨off, ml, p, b⟩] else Laid m m' r []) ∧
      m'.freed = m.freed := by
  obtain ⟨⟨newphysr, m₁⟩, hphysr, hok⟩ := bind_ok.mp hok
  obtain ⟨rfl, hfreep, _⟩ := slaballoc_ok hphysr
  have hticked := laid_mapped hm (mapped_ticked m) rfl
  cases newphysr with
  | none =>
    cases pure_ok.mp hok
    exact ⟨hticked, rfl⟩
  | some p =>
    obtain ⟨⟨newpb, m₁⟩, hblock, hok⟩ := bind_ok.mp hok
    obtain ⟨rfl, hfreeb, _⟩ := slaballoc_ok hblock
    have hm₁ : InOrder m.ticked.ticked r :=
      (hm.mapped (mapped_ticked m)).mapped (mapped_ticked m.ticked)
    have hticked₁ : Laid m m.ticked.ticked r [] :=
      hticked.trans (laid_mapped (hm.mapped (mapped_ticked m)) (mapped_ticked m.ticked) rfl)
    cases newpb with
    | none =>
      cases pure_ok.mp hok
      exact ⟨hticked₁, rfl⟩
    | some b =>
      obtain ⟨_, hok⟩ := kassert_bind_ok.mp hok
      obtain ⟨⟨written, m₁⟩, hwritten, hok⟩ := bind_ok.mp hok
      have hmapped := mapPhWritept_ok hwritten
      have hp : m.physr p = none := hfreep p rfl
      have hb : m.block b = none := hfreeb b rfl
      have hmade : Laid m (makeBlock o r ml off p b m.ticked.ticked) r [] :=
        hticked₁.trans (laid_makeBlock hm₁ hp hb)
      have hlaid : Laid m m₁ r [] :=
        hmade.trans (laid_mapped (hmade.inOrder hm) hmapped (mapPhWritept_bytes hwritten))
      have hfreed : m₁.freed = m.freed := hmapped.freed
      dsimp only at hok
      split at hok
      · obtain ⟨m₂, hinsert, hok⟩ := bind_ok.mp hok
        cases pure_ok.mp hok
        have hpr : m₁.physr p = some ⟨b, r, off, none⟩ := by
          rw [hmapped.physr]
          exact Function.update_self ..
        have hpb : m₁.block b =
            some ⟨ml.length, ml.phys, 1, o.stale m.ticked.ticked.tick, some p⟩ := by
          rw [hmapped.block]
          exact Function.update_self ..
        have hchunk : Laid m m' r [⟨off, ml, p, b⟩] :=
          hlaid.inserted hm hp hb hpr ⟨_, hpb⟩ hfree hinsert
        refine ⟨⟨p, b, hchunk⟩, ?_⟩
        obtain ⟨_, _, rfl⟩ := physrInsert_ok hinsert
        exact hfreed
      · cases pure_ok.mp hok
        exact ⟨hlaid, hfreed⟩

def layout : ℕ → List MemList → List (ℕ × MemList)
  | _, [] => []
  | start, ml :: rest => (start, ml) :: layout (start + ml.length) rest

def Chunk.at (c : Chunk) : ℕ × MemList := (c.off, c.ml)

theorem Vacant.next {n : ℕ} (h : Vacant m r start stop) (hm : InOrder m r)
    (hlaid : Laid m m' r [c]) (hc : c.off = start) (hn : 0 < n) : Vacant m' r (start + n) stop := by
  intro q hq
  rcases (hlaid.mem q).mp hq with hq | hq
  · rw [hlaid.offset (hm.physr q hq)]
    have hq := h q hq
    omega
  · obtain rfl : q = c.p := by simpa using hq
    refine .inl ?_
    rw [offset_of_some (hlaid.newPhysr c (List.mem_singleton_self c))]
    show c.off < start + n
    omega

theorem addChunks_laid {added : Bool} (hm : InOrder m r) (hpos : ∀ ml ∈ memlist, 0 < ml.length)
    (hfree : Vacant m r start (start + lengths memlist))
    (hok : addChunks o r memlist start m = .ok (added, stop, m')) :
    ∃ k l, Laid m m' r l ∧ l.map Chunk.at = layout start (memlist.take k) ∧ m'.freed = m.freed ∧
      if added then k = memlist.length ∧ stop = start + lengths memlist
      else k < memlist.length := by
  induction memlist generalizing start m with
  | nil =>
    cases pure_ok.mp hok
    exact ⟨0, [], laid_refl hm, rfl, rfl, by simp [lengths]⟩
  | cons ml rest ih =>
    obtain ⟨⟨done, m₁⟩, hadd, hok⟩ := bind_ok.mp hok
    have hml : 0 < ml.length := hpos ml List.mem_cons_self
    have hlen : lengths (ml :: rest) = ml.length + lengths rest := by simp [lengths]
    have hkey : ∀ q ∈ m.tree r, m.offset q ≠ start := fun q hq he => by
      have hq := hfree q hq
      omega
    obtain ⟨hlaid, hfreed⟩ := addChunk_laid hm hkey hadd
    dsimp only at hok
    cases done with
    | false =>
      cases pure_ok.mp hok
      exact ⟨0, [], hlaid, rfl, hfreed, by simp⟩
    | true =>
      obtain ⟨p, b, hlaid⟩ := hlaid
      have hfree₁ : Vacant m₁ r (start + ml.length) (start + ml.length + lengths rest) := by
        rw [hlen, ← Nat.add_assoc] at hfree
        exact hfree.next hm hlaid rfl hml
      obtain ⟨k, l, hrest, hat, hfreed₁, hk⟩ := ih (hlaid.inOrder hm)
        (fun ml' h => hpos ml' (List.mem_cons_of_mem ml h)) hfree₁ hok
      refine ⟨k + 1, ⟨start, ml, p, b⟩ :: l, hlaid.trans hrest, ?_, hfreed₁.trans hfreed, ?_⟩
      · rw [List.map_cons, hat]
        rfl
      · cases added with
        | false => exact Nat.succ_lt_succ hk
        | true =>
          obtain ⟨rfl, rfl⟩ := hk
          exact ⟨rfl, by rw [hlen]; omega⟩

end Laid

open Span

section Undo
variable {o : Outcomes} {m m' m₁ : Memory} {r : RegionId} {l l' : List Chunk} {c : Chunk}
  {start stop : ℕ} {memlist : List MemList} {vr : MappedRegion}

def givenBack (vr : MappedRegion) (memlist : List MemList) : List MemList :=
  if hasAny vr.flags VR_ANON then memlist else []

theorem releaseBlock_last {pb : PhysBlock} {b : BlockId} (hb : m.block b = some pb)
    (hcount : pb.refcount = 0) (hvr : m.region r = some vr) (hok : releaseBlock r b m = .ok m') :
    ∃ left, m' = Memory.freeBlock
      { m with freed := givenBack vr [pb.mem] ++ m.freed, left := left } b := by
  rw [releaseBlock, deref_some hb, ok_bind, if_pos hcount] at hok
  obtain ⟨-, hok⟩ := kassert_bind_ok.mp hok
  rw [deref_some hvr, ok_bind] at hok
  rw [givenBack]
  split at hok
  · rename_i hanon
    cases pure_ok.mp hok
    rw [if_pos hanon]
    exact ⟨_, rfl⟩
  · rename_i hanon
    rw [if_neg hanon]
    split at hok
    · cases pure_ok.mp hok
      exact ⟨_, rfl⟩
    · cases hok

theorem unreference_last {p : PhysrId} {b : BlockId} {ml : MemList} {flag : BitVec 8} {off : ℕ}
    (hpr : m.physr p = some ⟨b, r, off, none⟩)
    (hpb : m.block b = some ⟨ml.length, ml.phys, 1, flag, some p⟩) (hvr : m.region r = some vr)
    (hok : pbUnreferenced o r p m = .ok m') :
    ∃ left, m' = { m with
      block := Function.update m.block b none
      freed := givenBack vr [ml] ++ m.freed
      left := left } := by
  rw [pbUnreferenced, deref_some hpr, ok_bind, deref_some hpb, ok_bind] at hok
  obtain ⟨-, hok⟩ := kassert_bind_ok.mp hok
  obtain ⟨m₀, hunlink, hok⟩ := bind_ok.mp hok
  rw [unlinkPhysr, if_pos rfl] at hunlink
  cases pure_ok.mp hunlink
  have hpb₁ : (m.setBlock b ⟨ml.length, ml.phys, 1 - 1, flag, none⟩).block b =
      some ⟨ml.length, ml.phys, 1 - 1, flag, none⟩ := Function.update_self ..
  obtain ⟨left, rfl⟩ := releaseBlock_last hpb₁ (BitVec.sub_self 1) hvr hok
  refine ⟨left, ?_⟩
  simp only [Memory.freeBlock, Memory.setBlock, Function.update_idem, PhysBlock.mem]

structure ChunkGone (m m' : Memory) (r : RegionId) (vr : MappedRegion) (c : Chunk) : Prop where
  block : m'.block = Function.update m.block c.b none
  physr : m'.physr = Function.update m.physr c.p none
  region : m'.region = Function.update m.region r (some { vr with phys := (m.tree r).erase c.p })
  freed : m'.freed = givenBack vr [c.ml] ++ m.freed
  vm : m'.vmRegions = m.vmRegions
  bytes : m'.bytes = m.bytes

theorem drop_chunk (hpr : m.physr c.p = some ⟨c.b, r, c.off, none⟩)
    (hpb : ∃ flag, m.block c.b = some ⟨c.ml.length, c.ml.phys, 1, flag, some c.p⟩)
    (hvr : m.region r = some vr) (hkey : AtKey m r c.p)
    (hok : dropPhysr o r c.p m = .ok m') : ChunkGone m m' r vr c := by
  obtain ⟨flag, hpb⟩ := hpb
  rw [dropPhysr, deref_some hpr, ok_bind] at hok
  obtain ⟨m₁, hunref, hok⟩ := bind_ok.mp hok
  obtain ⟨m₂, hremove, hok⟩ := bind_ok.mp hok
  cases pure_ok.mp hok
  obtain ⟨left, rfl⟩ := unreference_last hpr hpb hvr hunref
  have hoff : c.off = m.offset c.p := (offset_of_some hpr).symm
  generalize hn : ({ m with
      block := Function.update m.block c.b none
      freed := givenBack vr [c.ml] ++ m.freed
      left := left } : Memory) = n at hremove
  have hkey : AtKey n r c.p := by
    rw [← hn]
    exact hkey
  rw [show (⟨c.b, r, c.off, none⟩ : PhysRegion).offset = n.offset c.p by rw [← hn]; exact hoff]
    at hremove
  obtain ⟨vr₁, hvr₁, rfl⟩ := physrRemove_ok hkey hremove
  subst hn
  have hvr₁ : m.region r = some vr₁ := hvr₁
  rw [hvr] at hvr₁
  cases hvr₁
  exact ⟨rfl, rfl, rfl, rfl, rfl, rfl⟩

theorem ByOffset.nodup {trees : List PhysrId} (h : ByOffset m trees) : trees.Nodup :=
  h.imp fun hlt he => absurd hlt (by simp [he])

theorem Laid.dropped (h : Laid m m₁ r (c :: l)) (hm : InOrder m r) (hvr : m.region r = some vr)
    (hok : dropPhysr o r c.p m₁ = .ok m') :
    Laid m m' r l ∧ m'.freed = givenBack vr [c.ml] ++ m₁.freed := by
  have hc := List.mem_cons_self (a := c) (l := l)
  obtain ⟨hp, hb⟩ := h.fresh c hc
  obtain ⟨vr₀, hvr₀, hvr₁⟩ := h.region
  rw [hvr] at hvr₀
  cases hvr₀
  have hmem : c.p ∈ m₁.tree r := (h.mem c.p).mpr (.inr (by simp))
  have hkey : AtKey m₁ r c.p :=
    atKey_of_unique hmem fun q hq he => h.order.unique hmem hq he
  have hgone := drop_chunk (h.newPhysr c hc) (h.newBlock c hc) hvr₁ hkey hok
  have hphysrs := List.nodup_cons.mp (h.physrs)
  have hblocks := List.nodup_cons.mp (h.blocks)
  have hnodup : (m₁.tree r).Nodup := h.order.nodup
  have hnep : ∀ c' ∈ l, c'.p ≠ c.p := fun c' hc' he => hphysrs.1 (he ▸ List.mem_map_of_mem hc')
  have hneb : ∀ c' ∈ l, c'.b ≠ c.b := fun c' hc' he => hblocks.1 (he ▸ List.mem_map_of_mem hc')
  have hlaid (q : PhysrId) : q ∈ (m₁.tree r).erase c.p ↔ q ∈ m.tree r ∨ q ∈ l.map Chunk.p := by
    rw [hnodup.mem_erase_iff, h.mem, List.map_cons, List.mem_cons]
    constructor
    · rintro ⟨hne, hq | hq | hq⟩
      · exact .inl hq
      · exact absurd hq hne
      · exact .inr hq
    · rintro (hq | hq)
      · refine ⟨?_, .inl hq⟩
        rintro rfl
        have hsome := hm.physr c.p hq
        simp [hp] at hsome
      · refine ⟨?_, .inr (.inr hq)⟩
        rintro rfl
        exact hphysrs.1 hq
  have htree : m'.tree r = (m₁.tree r).erase c.p := by
    rw [Memory.tree, hgone.region, Function.update_self]
    rfl
  refine ⟨⟨fun q hq => ?_, fun b hb' => ?_, fun r' hr' => ?_, ⟨vr, hvr, ?_⟩, fun q => ?_, ?_,
    fun c' hc' => h.fresh c' (List.mem_cons_of_mem c hc'), fun c' hc' => ?_, fun c' hc' => ?_,
    fun b pb hpb hnone => ?_, hphysrs.2, hblocks.2, hgone.vm.trans h.vm, hgone.bytes.trans h.bytes⟩, hgone.freed⟩
  · have hne : q ≠ c.p := by
      rintro rfl
      simp [hp] at hq
    rw [hgone.physr, Function.update_of_ne hne, h.physr q hq]
  · have hne : b ≠ c.b := by
      rintro rfl
      simp [hb] at hb'
    rw [hgone.block, Function.update_of_ne hne, h.block b hb']
  · rw [hgone.region, Function.update_of_ne hr', h.others r' hr']
  · rw [hgone.region, Function.update_self, htree]
  · rw [htree]
    exact hlaid q
  · rw [htree]
    have horder : ByOffset m₁ ((m₁.tree r).erase c.p) := h.order.sublist List.erase_sublist
    refine horder.of_same fun q hq => ?_
    rw [Memory.offset, Memory.offset, hgone.physr,
      Function.update_of_ne (hnodup.mem_erase_iff.mp hq).1]
  · rw [hgone.physr, Function.update_of_ne (hnep c' hc')]
    exact h.newPhysr c' (List.mem_cons_of_mem c hc')
  · obtain ⟨flag, hflag⟩ := h.newBlock c' (List.mem_cons_of_mem c hc')
    exact ⟨flag, by rw [hgone.block, Function.update_of_ne (hneb c' hc'), hflag]⟩
  · rw [hgone.block] at hpb
    by_cases hbc : b = c.b
    · rw [hbc, Function.update_self] at hpb
      cases hpb
    · rw [Function.update_of_ne hbc] at hpb
      exact h.single b pb hpb hnone

theorem Vacant.search {stop : ℕ} (hvacant : Vacant m r start stop) (hlt : start < stop)
    (h : Laid m m₁ r []) (hm : InOrder m r) : physrSearch m₁ r start = none := by
  rw [physrSearch, List.find?_eq_none]
  intro q hq
  have hq : q ∈ m.tree r := by simpa using (h.mem q).mp hq
  rw [h.offset (hm.physr q hq)]
  have hq := hvacant q hq
  simp only [beq_iff_eq]
  omega

theorem Laid.search (h : Laid m m₁ r (c :: l)) : physrSearch m₁ r c.off = some c.p := by
  have hmem : c.p ∈ m₁.tree r := (h.mem c.p).mpr (.inr (by simp))
  have hkey : AtKey m₁ r c.p := atKey_of_unique hmem fun q hq he => h.order.unique hmem hq he
  rw [AtKey, offset_of_some (h.newPhysr c List.mem_cons_self)] at hkey
  exact hkey

theorem Vacant.mono {start' : ℕ} (h : Vacant m r start stop) (hle : start ≤ start') :
    Vacant m r start' stop := fun q hq => (h q hq).imp_left fun hlt => hlt.trans_le hle

theorem undoChunks_laid {k : ℕ} (hm : InOrder m r) (hvr : m.region r = some vr)
    (hpos : ∀ ml ∈ memlist, 0 < ml.length) (hfree : Vacant m r start (start + lengths memlist))
    (h : Laid m m₁ r l) (hl : l.map Chunk.at = layout start (memlist.take k))
    (hok : undoChunks o r memlist start m₁ = .ok m') :
    Laid m m' r [] ∧ m'.freed = givenBack vr (memlist.take k).reverse ++ m₁.freed := by
  induction memlist generalizing start m₁ l k with
  | nil =>
    cases pure_ok.mp hok
    obtain rfl : l = [] := by simpa [layout] using hl
    refine ⟨h, ?_⟩
    simp [givenBack]
  | cons ml rest ih =>
    obtain ⟨m₂, hundo, hok⟩ := bind_ok.mp hok
    have hml : 0 < ml.length := hpos ml List.mem_cons_self
    have hlen : lengths (ml :: rest) = ml.length + lengths rest := by simp [lengths]
    rw [hlen, ← Nat.add_assoc] at hfree
    have hrest : Vacant m r (start + ml.length) (start + ml.length + lengths rest) :=
      hfree.mono (Nat.le_add_right ..)
    have hpos' : ∀ ml' ∈ rest, 0 < ml'.length := fun ml' h => hpos ml' (List.mem_cons_of_mem ml h)
    cases k with
    | zero =>
      obtain rfl : l = [] := by simpa [layout] using hl
      rw [undoChunk, hfree.search (by omega) h hm] at hundo
      cases pure_ok.mp hundo
      exact ih (k := 0) hpos' hrest h rfl hok
    | succ k =>
      cases l with
      | nil => simp [layout] at hl
      | cons c l =>
        rw [List.take_succ_cons, layout, List.map_cons, List.cons.injEq] at hl
        obtain ⟨hc, hl⟩ := hl
        cases hc
        rw [undoChunk, h.search] at hundo
        obtain ⟨pr, -, hundo⟩ := bind_ok.mp hundo
        obtain ⟨pb, -, hundo⟩ := bind_ok.mp hundo
        obtain ⟨-, hundo⟩ := kassert_bind_ok.mp hundo
        obtain ⟨h₂, hfreed⟩ := h.dropped hm hvr hundo
        obtain ⟨h', hfreed'⟩ := ih hpos' hrest h₂ hl hok
        refine ⟨h', ?_⟩
        rw [hfreed', hfreed]
        simp only [givenBack]
        split <;> simp

end Undo

end Vm
