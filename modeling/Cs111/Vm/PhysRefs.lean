import Cs111.Vm.Mapping
import Mathlib.Data.Set.Card

namespace Vm
open Kernel (Fault kassert bind_ok kassert_bind_ok pure_ok)
open Chain (Path)

def PhysRegion.bare (pr : PhysRegion) : PhysRegion := { pr with nextPhList := none }

def MemList.has (ml : MemList) (f : ℕ) : Bool := decide (ml.phys ≤ f ∧ f < ml.phys + ml.length)

def PhysBlock.mem (pb : PhysBlock) : MemList := ⟨pb.phys, pb.length⟩

namespace Memory
variable (m : Memory)

def nextPh (p : PhysrId) : Option PhysrId := (m.physr p).bind fun pr => pr.nextPhList

def PointsTo (p : PhysrId) (b : BlockId) : Prop := ∃ pr, m.physr p = some pr ∧ pr.ph = b

def extent (p : PhysrId) : Option ℕ :=
  (m.physr p).bind fun pr => (m.block pr.ph).map PhysBlock.length

def roll : (ProcId → List RegionId) × Set RegionId :=
  (m.vmRegions, {r | (m.region r).isSome})

def holders (f : ℕ) : Set BlockId := {b | ∃ pb, m.block b = some pb ∧ pb.mem.has f = true}

end Memory

structure Listed (m : Memory) (L : Set PhysrId) (b : BlockId) (pb : PhysBlock)
    (l : List PhysrId) : Prop where
  path : Path m.nextPh pb.firstregion l
  members : ∀ p, p ∈ l ↔ p ∉ L ∧ m.PointsTo p b
  count : pb.refcount = BitVec.ofNat 8 l.length

structure Lists (L : Set PhysrId) (m : Memory) : Prop where
  listed : ∀ b pb, m.block b = some pb → ∃ l, l ≠ [] ∧ Listed m L b pb l
  live : ∀ p b, p ∉ L → m.PointsTo p b → (m.block b).isSome
  limbo : ∀ p ∈ L, (m.physr p).isSome

def ByOffset (m : Memory) (l : List PhysrId) : Prop :=
  l.Pairwise fun p q => m.offset p < m.offset q

structure Trees (X : Set RegionId) (m : Memory) : Prop where
  owned : ∀ r, ∀ p ∈ m.tree r, ∃ pr, m.physr p = some pr ∧ pr.parent = r
  nodup : ∀ r, (m.tree r).Nodup
  ordered : ∀ r ∉ X, ByOffset m (m.tree r)

structure Balanced (m : Memory) : Prop where
  finite : {b | (m.block b).isSome}.Finite
  frames : ∀ f, m.made.countP (·.has f) =
    (m.holders f).ncard + m.freed.countP (·.has f) + m.left.countP (·.2.has f)
  direct : ∀ gone ∈ m.left, hasAny gone.1 VR_DIRECT = true

theorem deref_ok {α : Type} {x : Option α} {a : α} (h : deref x = .ok a) : x = some a := by
  cases x with
  | none => exact absurd h (by simp [deref])
  | some b =>
    cases h
    rfl

theorem deref_some {α : Type} {x : Option α} {a : α} (h : x = some a) : deref x = .ok a := by
  rw [h]
  rfl

section ListFacts
variable {m m' : Memory} {L : Set PhysrId} {p q : PhysrId} {pr : PhysRegion} {b : BlockId}
  {pb : PhysBlock} {l : List PhysrId}

theorem nextPh_of_some (h : m.physr p = some pr) : m.nextPh p = pr.nextPhList := by
  simp [Memory.nextPh, h]

theorem nextPh_setPhysr : (m.setPhysr p pr).nextPh =
    Function.update m.nextPh p pr.nextPhList := by
  funext q
  by_cases hq : q = p
  · subst hq
    simp [Memory.nextPh, Memory.setPhysr]
  · simp [Memory.nextPh, Memory.setPhysr, hq]

theorem nextPh_freePhysr : (m.freePhysr p).nextPh = Function.update m.nextPh p none := by
  funext q
  by_cases hq : q = p
  · subst hq
    simp [Memory.nextPh, Memory.freePhysr]
  · simp [Memory.nextPh, Memory.freePhysr, hq]

theorem pointsTo_setPhysr : (m.setPhysr p pr).PointsTo q b ↔
    q = p ∧ pr.ph = b ∨ q ≠ p ∧ m.PointsTo q b := by
  by_cases hq : q = p
  · subst hq
    simp [Memory.PointsTo, Memory.setPhysr]
  · simp [Memory.PointsTo, Memory.setPhysr, hq]

theorem pointsTo_freePhysr : (m.freePhysr p).PointsTo q b ↔ q ≠ p ∧ m.PointsTo q b := by
  by_cases hq : q = p
  · subst hq
    simp [Memory.PointsTo, Memory.freePhysr]
  · simp [Memory.PointsTo, Memory.freePhysr, hq]

theorem pointsTo_unique {b' : BlockId} (h : m.PointsTo p b) (h' : m.PointsTo p b') : b = b' := by
  obtain ⟨pr, hpr, rfl⟩ := h
  obtain ⟨pr', hpr', rfl⟩ := h'
  rw [hpr] at hpr'
  cases hpr'
  rfl

section Bare
variable (h : (m'.physr q).map PhysRegion.bare = (m.physr q).map PhysRegion.bare)

include h

theorem isSome_of_bare : (m'.physr q).isSome = (m.physr q).isSome := by
  have hsame := congrArg Option.isSome h
  rwa [Option.isSome_map, Option.isSome_map] at hsame

theorem pointsTo_of_bare : m'.PointsTo q b ↔ m.PointsTo q b := by
  have hiff : ∀ x : Option PhysRegion, (∃ pr, x = some pr ∧ pr.ph = b) ↔
      ∃ pr, x.map PhysRegion.bare = some pr ∧ pr.ph = b := by
    rintro (_ | pr) <;> simp [PhysRegion.bare]
  exact (hiff _).trans (h ▸ (hiff _).symm)

theorem offset_of_bare : m'.offset q = m.offset q := by
  have hmap : ∀ x : Option PhysRegion, (x.map PhysRegion.bare).elim 0 PhysRegion.offset =
      x.elim 0 PhysRegion.offset := by
    rintro (_ | pr) <;> rfl
  exact (hmap _).symm.trans (h ▸ hmap _)

end Bare

theorem Listed.allocated (h : Listed m L b pb l) (hp : p ∈ l) : ∃ pr, m.physr p = some pr :=
  ((h.members p).mp hp).2.imp fun _ hpr => hpr.1

theorem Listed.of_same {L' : Set PhysrId} {pb' : PhysBlock} (h : Listed m L b pb l)
    (hnext : ∀ p ∈ l, m'.nextPh p = m.nextPh p)
    (hmem : ∀ p, (p ∉ L' ∧ m'.PointsTo p b) ↔ (p ∉ L ∧ m.PointsTo p b))
    (hfirst : pb'.firstregion = pb.firstregion) (hcount : pb'.refcount = pb.refcount) :
    Listed m' L' b pb' l where
  path := by
    rw [hfirst]
    exact Chain.path_congr hnext h.path
  members p := (h.members p).trans (hmem p).symm
  count := hcount.trans h.count

theorem Lists.of_view (h : Lists L m) (hnext : m'.nextPh = m.nextPh)
    (hpoints : ∀ p b, m'.PointsTo p b ↔ m.PointsTo p b)
    (hsome : ∀ p, (m'.physr p).isSome = (m.physr p).isSome)
    (hblock : ∀ b, (m'.block b).map (fun pb => (pb.refcount, pb.firstregion)) =
      (m.block b).map fun pb => (pb.refcount, pb.firstregion)) : Lists L m' where
  listed b pb hb := by
    have hsame := hblock b
    rw [hb] at hsame
    obtain ⟨pb', hb', hview⟩ := Option.map_eq_some_iff.mp hsame.symm
    obtain ⟨l, hne, hl⟩ := h.listed b pb' hb'
    refine ⟨l, hne, hl.of_same (fun p _ => by rw [hnext]) (fun p => by rw [hpoints])
      (congrArg Prod.snd hview).symm (congrArg Prod.fst hview).symm⟩
  live p b hp hpb := by
    have hlive := h.live p b hp ((hpoints p b).mp hpb)
    have hsame := congrArg Option.isSome (hblock b)
    simpa [hlive] using hsame
  limbo p hp := by
    rw [hsome]
    exact h.limbo p hp

theorem Lists.congr (h : Lists L m) (hphysr : m'.physr = m.physr)
    (hblock : ∀ b, (m'.block b).map (fun pb => (pb.refcount, pb.firstregion)) =
      (m.block b).map fun pb => (pb.refcount, pb.firstregion)) : Lists L m' :=
  h.of_view (funext fun p => by rw [Memory.nextPh, Memory.nextPh, hphysr])
    (fun p b => by rw [Memory.PointsTo, Memory.PointsTo, hphysr]) (fun p => by rw [hphysr]) hblock

theorem Lists.alloc (h : Lists L m) (hp : m.physr p = none) :
    Lists (insert p L) (m.setPhysr p pr) where
  listed b pb hb := by
    obtain ⟨l, hne, hl⟩ := h.listed b pb hb
    have hpl : p ∉ l := fun hpl => by
      obtain ⟨pr', hpr'⟩ := hl.allocated hpl
      simp [hp] at hpr'
    refine ⟨l, hne, hl.of_same ?_ ?_ rfl rfl⟩
    · intro q hq
      rw [nextPh_setPhysr, Function.update_of_ne]
      rintro rfl
      exact hpl hq
    · intro q
      rw [pointsTo_setPhysr, Set.mem_insert_iff, not_or]
      constructor
      · rintro ⟨⟨hqp, hqL⟩, hpoints⟩
        exact ⟨hqL, (hpoints.resolve_left fun hq => hqp hq.1).2⟩
      · rintro ⟨hqL, hpoints⟩
        have hqp : q ≠ p := by
          rintro rfl
          obtain ⟨pr', hpr', _⟩ := hpoints
          simp [hp] at hpr'
        exact ⟨⟨hqp, hqL⟩, .inr ⟨hqp, hpoints⟩⟩
  live q b hq hpoints := by
    rw [Set.mem_insert_iff, not_or] at hq
    rw [pointsTo_setPhysr] at hpoints
    exact h.live q b hq.2 (hpoints.resolve_left fun he => hq.1 he.1).2
  limbo q hq := by
    by_cases hqp : q = p
    · subst hqp
      simp [Memory.setPhysr]
    · have hqL := (Set.mem_insert_iff.mp hq).resolve_left hqp
      simpa [Memory.setPhysr, hqp] using h.limbo q hqL

theorem Lists.free (h : Lists (insert p L) m) (hp : p ∉ L) : Lists L (m.freePhysr p) where
  listed b pb hb := by
    obtain ⟨l, hne, hl⟩ := h.listed b pb hb
    have hpl : p ∉ l := fun hpl => ((hl.members p).mp hpl).1 (Set.mem_insert p L)
    refine ⟨l, hne, hl.of_same ?_ ?_ rfl rfl⟩
    · intro q hq
      rw [nextPh_freePhysr, Function.update_of_ne]
      rintro rfl
      exact hpl hq
    · intro q
      rw [pointsTo_freePhysr, Set.mem_insert_iff, not_or]
      tauto
  live q b hq hpoints := by
    rw [pointsTo_freePhysr] at hpoints
    refine h.live q b ?_ hpoints.2
    rw [Set.mem_insert_iff, not_or]
    exact ⟨hpoints.1, hq⟩
  limbo q hq := by
    have hqp : q ≠ p := fun he => hp (he ▸ hq)
    simpa [Memory.freePhysr, hqp] using h.limbo q (Set.mem_insert_of_mem p hq)

theorem Lists.newBlock (h : Lists (insert p L) m) (hp : p ∉ L) (hb : m.block b = none)
    (hpr : m.physr p = some pr) (hph : pr.ph = b) (hnext : pr.nextPhList = none)
    (hfirst : pb.firstregion = some p) (hcount : pb.refcount = 1) : Lists L (m.setBlock b pb) where
  listed b' pb' hb' := by
    by_cases hne : b' = b
    · subst hne
      obtain rfl : pb = pb' := by simpa [Memory.setBlock] using hb'
      refine ⟨[p], by simp, ?_, ?_, by simpa using hcount⟩
      · refine ⟨hfirst, ?_⟩
        exact (nextPh_of_some (m := m) hpr).trans hnext
      · intro q
        rw [List.mem_singleton]
        constructor
        · rintro rfl
          exact ⟨hp, pr, hpr, hph⟩
        · rintro ⟨hqL, hpoints⟩
          by_contra hqp
          have hlive := h.live q b' (by simp [hqp, hqL]) hpoints
          simp [hb] at hlive
    · obtain ⟨l, hnil, hl⟩ := h.listed b' pb' (by simpa [Memory.setBlock, hne] using hb')
      refine ⟨l, hnil, hl.of_same (fun _ _ => rfl) ?_ rfl rfl⟩
      intro q
      rw [Set.mem_insert_iff, not_or]
      constructor
      · rintro ⟨hqL, hpoints⟩
        refine ⟨⟨?_, hqL⟩, hpoints⟩
        rintro rfl
        exact hne (pointsTo_unique hpoints ⟨pr, hpr, hph⟩)
      · rintro ⟨⟨_, hqL⟩, hpoints⟩
        exact ⟨hqL, hpoints⟩
  live q b' hq hpoints := by
    by_cases hne : b' = b
    · subst hne
      simp [Memory.setBlock]
    · have hqp : q ≠ p := by
        rintro rfl
        exact hne (pointsTo_unique hpoints ⟨pr, hpr, hph⟩)
      have hlive := h.live q b' (by simp [hqp, hq]) hpoints
      simpa [Memory.setBlock, hne] using hlive
  limbo q hq := h.limbo q (Set.mem_insert_of_mem p hq)

theorem Lists.link (h : Lists (insert p L) m) (hp : p ∉ L) (hpr : m.physr p = some pr)
    (hb : m.block pr.ph = some pb) :
    Lists L ((m.setPhysr p { pr with nextPhList := pb.firstregion }).setBlock pr.ph
      { pb with firstregion := some p, refcount := pb.refcount + 1 }) where
  listed b' pb' hb' := by
    by_cases hne : b' = pr.ph
    · subst hne
      obtain rfl : { pb with firstregion := some p, refcount := pb.refcount + 1 } = pb' := by
        simpa [Memory.setBlock] using hb'
      obtain ⟨l, _, hl⟩ := h.listed pr.ph pb hb
      have hpl : p ∉ l := fun hpl => ((hl.members p).mp hpl).1 (Set.mem_insert p L)
      refine ⟨p :: l, by simp, ⟨rfl, ?_⟩, ?_, ?_⟩
      · change Path (Memory.nextPh (m.setPhysr p _)) (Memory.nextPh (m.setPhysr p _) p) l
        rw [nextPh_setPhysr, Function.update_self]
        exact Chain.path_update hpl hl.path
      · intro q
        change _ ↔ q ∉ L ∧ (m.setPhysr p _).PointsTo q pr.ph
        rw [pointsTo_setPhysr, List.mem_cons, hl.members q, Set.mem_insert_iff, not_or]
        constructor
        · rintro (rfl | ⟨⟨hqp, hqL⟩, hpoints⟩)
          · exact ⟨hp, .inl ⟨rfl, rfl⟩⟩
          · exact ⟨hqL, .inr ⟨hqp, hpoints⟩⟩
        · rintro ⟨hqL, ⟨rfl, _⟩ | ⟨hqp, hpoints⟩⟩
          · exact .inl rfl
          · exact .inr ⟨⟨hqp, hqL⟩, hpoints⟩
      · change pb.refcount + 1 = _
        rw [hl.count, List.length_cons, BitVec.ofNat_add]
        rfl
    · obtain ⟨l, hnil, hl⟩ := h.listed b' pb' (by
        simpa [Memory.setBlock, Memory.setPhysr, hne] using hb')
      refine ⟨l, hnil, hl.of_same ?_ ?_ rfl rfl⟩
      · intro q hq
        change Memory.nextPh (m.setPhysr p _) q = _
        rw [nextPh_setPhysr, Function.update_of_ne]
        rintro rfl
        exact ((hl.members q).mp hq).1 (Set.mem_insert q L)
      · intro q
        change q ∉ L ∧ (m.setPhysr p _).PointsTo q b' ↔ _
        rw [pointsTo_setPhysr, Set.mem_insert_iff, not_or]
        constructor
        · rintro ⟨hqL, ⟨_, hph⟩ | ⟨hqp, hpoints⟩⟩
          · exact absurd hph.symm hne
          · exact ⟨⟨hqp, hqL⟩, hpoints⟩
        · rintro ⟨⟨hqp, hqL⟩, hpoints⟩
          exact ⟨hqL, .inr ⟨hqp, hpoints⟩⟩
  live q b' hq hpoints := by
    by_cases hne : b' = pr.ph
    · subst hne
      simp [Memory.setBlock]
    · replace hpoints : (m.setPhysr p _).PointsTo q b' := hpoints
      rw [pointsTo_setPhysr] at hpoints
      obtain ⟨hqp, hpoints⟩ := hpoints.resolve_left fun he => hne he.2.symm
      have hlive := h.live q b' (by simp [hqp, hq]) hpoints
      simpa [Memory.setBlock, Memory.setPhysr, hne] using hlive
  limbo q hq := by
    have hqp : q ≠ p := fun he => hp (he ▸ hq)
    simpa [Memory.setBlock, Memory.setPhysr, hqp] using h.limbo q (Set.mem_insert_of_mem p hq)

end ListFacts

section TreeFacts
variable {m m' : Memory} {X : Set RegionId} {p q : PhysrId} {pr : PhysRegion} {r r' : RegionId}
  {vr : MappedRegion} {l : List PhysrId} {key : ℕ}

theorem tree_of_some (h : m.region r = some vr) : m.tree r = vr.phys := by
  simp [Memory.tree, h]

theorem roll_setRegion {vr' : MappedRegion} (h : m.region r = some vr) :
    (m.setRegion r vr').roll = m.roll := by
  refine Prod.ext rfl (Set.ext fun r' => ?_)
  by_cases hr : r' = r
  · subst hr
    simp [Memory.roll, Memory.setRegion, h]
  · simp [Memory.roll, Memory.setRegion, hr]

theorem tree_setRegion : (m.setRegion r vr).tree r' = if r' = r then vr.phys else m.tree r' := by
  by_cases hr : r' = r
  · subst hr
    simp [Memory.tree, Memory.setRegion]
  · simp [Memory.tree, Memory.setRegion, hr]

theorem offset_of_some (h : m.physr p = some pr) : m.offset p = pr.offset := by
  simp [Memory.offset, h]

theorem offset_setPhysr : (m.setPhysr p pr).offset q = if q = p then pr.offset else m.offset q := by
  by_cases hq : q = p
  · subst hq
    simp [Memory.offset, Memory.setPhysr]
  · simp [Memory.offset, Memory.setPhysr, hq]

theorem ByOffset.of_same (h : ByOffset m l) (hsame : ∀ p ∈ l, m'.offset p = m.offset p) :
    ByOffset m' l :=
  List.Pairwise.imp_of_mem (fun hp hq hlt => by rwa [hsame _ hp, hsame _ hq]) h

theorem eraseP_of_find {α : Type} [DecidableEq α] {f : α → Bool} {a : α} {l : List α}
    (h : l.find? f = some a) : l.eraseP f = l.erase a := by
  induction l with
  | nil => exact absurd h (by simp)
  | cons b l ih =>
    by_cases hb : f b = true
    · rw [List.find?_cons_of_pos hb] at h
      cases h
      rw [List.eraseP_cons_of_pos hb, List.erase_cons_head]
    · rw [List.find?_cons_of_neg hb] at h
      have hne : b ≠ a := fun he => hb (he ▸ List.find?_some h)
      rw [List.eraseP_cons_of_neg hb, List.erase_cons_tail (by simpa using hne), ih h]

theorem mem_placed (h : q ∈ placed m p l) : q = p ∨ q ∈ l := by
  induction l with
  | nil => simpa [placed] using h
  | cons a l ih =>
    rw [placed] at h
    split at h
    · exact List.mem_cons.mp h
    · split at h
      · exact .inr h
      · rcases List.mem_cons.mp h with rfl | h
        · exact .inr List.mem_cons_self
        · exact (ih h).imp_right (List.mem_cons_of_mem a)

theorem subset_placed (h : q ∈ l) : q ∈ placed m p l := by
  induction l with
  | nil => exact absurd h List.not_mem_nil
  | cons a l ih =>
    rw [placed]
    split
    · exact List.mem_cons_of_mem p h
    · split
      · exact h
      · rcases List.mem_cons.mp h with rfl | h
        · exact List.mem_cons_self
        · exact List.mem_cons_of_mem a (ih h)

theorem nodup_placed (h : l.Nodup) (hp : p ∉ l) : (placed m p l).Nodup := by
  induction l with
  | nil => simp [placed]
  | cons a l ih =>
    obtain ⟨ha, hl⟩ := List.nodup_cons.mp h
    rw [placed]
    split
    · exact List.nodup_cons.mpr ⟨hp, h⟩
    · split
      · exact h
      · refine List.nodup_cons.mpr ⟨fun hmem => ?_, ih hl fun hpl => hp (List.mem_cons_of_mem a hpl)⟩
        rcases mem_placed hmem with rfl | hmem
        · exact hp List.mem_cons_self
        · exact ha hmem

theorem byOffset_placed (h : ByOffset m l) : ByOffset m (placed m p l) := by
  induction l with
  | nil => exact List.pairwise_singleton ..
  | cons a l ih =>
    obtain ⟨ha, hl⟩ := List.pairwise_cons.mp h
    rw [placed]
    split
    · rename_i hlt
      refine List.pairwise_cons.mpr ⟨fun q hq => ?_, h⟩
      rcases List.mem_cons.mp hq with rfl | hq
      · exact hlt
      · exact hlt.trans (ha q hq)
    · split
      · exact h
      · refine List.pairwise_cons.mpr ⟨fun q hq => ?_, ih hl⟩
        rcases mem_placed hq with rfl | hq
        · omega
        · exact ha q hq

theorem placed_last (h : ∀ q ∈ l, m.offset q < m.offset p) : placed m p l = l ++ [p] := by
  induction l with
  | nil => rfl
  | cons a l ih =>
    have ha := h a List.mem_cons_self
    rw [placed, if_neg (by omega), if_neg (by omega),
      ih fun q hq => h q (List.mem_cons_of_mem a hq), List.cons_append]

theorem Trees.congr (h : Trees X m) (htree : ∀ r, m'.tree r = m.tree r)
    (hphysr : ∀ p, (m'.physr p).map PhysRegion.bare = (m.physr p).map PhysRegion.bare) :
    Trees X m' where
  owned r p hp := by
    rw [htree] at hp
    obtain ⟨pr, hpr, hparent⟩ := h.owned r p hp
    have hsame := hphysr p
    rw [hpr] at hsame
    obtain ⟨pr', hpr', hbare⟩ := Option.map_eq_some_iff.mp hsame
    exact ⟨pr', hpr', (congrArg PhysRegion.parent hbare).trans hparent⟩
  nodup r := htree r ▸ h.nodup r
  ordered r hr := by
    rw [htree]
    refine (h.ordered r hr).of_same fun p _ => ?_
    exact offset_of_bare (hphysr p)

theorem Trees.outside (h : Trees X m) (htree : ∀ r, m'.tree r = m.tree r)
    (hp : ∀ r, p ∉ m.tree r) (hother : ∀ q, q ≠ p → m'.physr q = m.physr q) : Trees X m' where
  owned r q hq := by
    rw [htree] at hq
    have hqp : q ≠ p := fun he => hp r (he ▸ hq)
    rw [hother q hqp]
    exact h.owned r q hq
  nodup r := htree r ▸ h.nodup r
  ordered r hr := by
    rw [htree]
    refine (h.ordered r hr).of_same fun q hq => ?_
    have hqp : q ≠ p := fun he => hp r (he ▸ hq)
    rw [Memory.offset, Memory.offset, hother q hqp]

theorem Trees.notMem (h : Trees X m) (hp : m.physr p = none) (r : RegionId) : p ∉ m.tree r := by
  intro hmem
  obtain ⟨pr, hpr, _⟩ := h.owned r p hmem
  simp [hp] at hpr

theorem Trees.setTree (h : Trees X m) (hmem : ∀ p ∈ vr.phys, ∃ pr, m.physr p = some pr ∧
    pr.parent = r) (hnodup : vr.phys.Nodup) (horder : r ∉ X → ByOffset m vr.phys) :
    Trees X (m.setRegion r vr) where
  owned r' p hp := by
    rw [tree_setRegion] at hp
    split at hp
    · rename_i hr
      subst hr
      exact hmem p hp
    · exact h.owned r' p hp
  nodup r' := by
    rw [tree_setRegion]
    split
    · exact hnodup
    · exact h.nodup r'
  ordered r' hr' := by
    rw [tree_setRegion]
    split
    · rename_i hr
      subst hr
      exact horder hr'
    · exact h.ordered r' hr'

theorem physrInsert_ok (hok : physrInsert m r p = .ok m') :
    ∃ vr, m.region r = some vr ∧ m' = m.setRegion r { vr with phys := placed m p (m.tree r) } := by
  obtain ⟨vr, hvr, hm'⟩ := bind_ok.mp hok
  have hvr := deref_ok hvr
  rw [tree_of_some hvr]
  exact ⟨vr, hvr, (pure_ok.mp hm').symm⟩

theorem Trees.insert (h : Trees X m) (hok : physrInsert m r p = .ok m')
    (hpr : m.physr p = some pr) (hparent : pr.parent = r) (hp : p ∉ m.tree r) : Trees X m' := by
  obtain ⟨vr, hvr, rfl⟩ := physrInsert_ok hok
  refine h.setTree (fun q hq => ?_) (nodup_placed (h.nodup r) hp)
    fun hr => byOffset_placed (h.ordered r hr)
  rcases mem_placed hq with rfl | hq
  · exact ⟨pr, hpr, hparent⟩
  · exact h.owned r q hq

def AtKey (m : Memory) (r : RegionId) (p : PhysrId) : Prop :=
  physrSearch m r (m.offset p) = some p

theorem AtKey.mem (h : AtKey m r p) : p ∈ m.tree r := List.mem_of_find?_eq_some h

theorem atKey_of_search (h : physrSearch m r key = some p) : AtKey m r p := by
  have hkey : m.offset p = key := by simpa using List.find?_some h
  rw [AtKey, hkey]
  exact h

theorem atKey_of_unique (hp : p ∈ m.tree r)
    (hunique : ∀ q ∈ m.tree r, m.offset q = m.offset p → q = p) : AtKey m r p := by
  have hsome : ((m.tree r).find? fun q => m.offset q == m.offset p).isSome := by
    rw [List.find?_isSome]
    exact ⟨p, hp, by simp⟩
  obtain ⟨q, hq⟩ := Option.isSome_iff_exists.mp hsome
  have hqp := hunique q (List.mem_of_find?_eq_some hq) (by simpa using List.find?_some hq)
  rw [AtKey, physrSearch, hq, hqp]

theorem ByOffset.unique (h : ByOffset m l) (hp : p ∈ l) (hq : q ∈ l)
    (he : m.offset q = m.offset p) : q = p := by
  have hnodup : (l.map m.offset).Nodup := (List.pairwise_map.mpr h).imp fun hlt => Nat.ne_of_lt hlt
  exact List.inj_on_of_nodup_map hnodup hq hp he

theorem Trees.atKey (h : Trees X m) (hr : r ∉ X) (hp : p ∈ m.tree r) : AtKey m r p :=
  atKey_of_unique hp fun _ hq he => (h.ordered r hr).unique hp hq he

theorem physrRemove_ok (hp : AtKey m r p) (hok : physrRemove m r (m.offset p) = .ok m') :
    ∃ vr, m.region r = some vr ∧ m' = m.setRegion r { vr with phys := (m.tree r).erase p } := by
  obtain ⟨vr, hvr, hm'⟩ := bind_ok.mp hok
  have hvr := deref_ok hvr
  rw [← tree_of_some hvr, eraseP_of_find hp] at hm'
  exact ⟨vr, hvr, (pure_ok.mp hm').symm⟩

theorem Trees.erase (h : Trees X m) :
    Trees X (m.setRegion r { vr with phys := (m.tree r).erase p }) :=
  h.setTree (fun q hq => h.owned r q (List.mem_of_mem_erase hq)) ((h.nodup r).erase p)
    fun hr => (h.ordered r hr).sublist List.erase_sublist

theorem Trees.one_tree (h : Trees X m) (hp : p ∈ m.tree r) (hp' : p ∈ m.tree r') : r' = r := by
  obtain ⟨pr, hpr, rfl⟩ := h.owned r p hp
  obtain ⟨pr', hpr', hparent⟩ := h.owned r' p hp'
  rw [hpr] at hpr'
  cases hpr'
  exact hparent.symm

theorem Trees.erased (h : Trees X m) (hp : p ∈ m.tree r) (r' : RegionId) :
    p ∉ (m.setRegion r { vr with phys := (m.tree r).erase p }).tree r' := by
  rw [tree_setRegion]
  split
  · exact (h.nodup r).not_mem_erase
  · rename_i hr
    exact fun hp' => hr (h.one_tree hp hp')

end TreeFacts

section BalanceFacts
variable {m m' : Memory} {b nb : BlockId} {pb pb' : PhysBlock} {ml : MemList} {f n : ℕ}

theorem Balanced.congr (h : Balanced m)
    (hblock : ∀ b, (m'.block b).map PhysBlock.mem = (m.block b).map PhysBlock.mem)
    (hmade : m'.made = m.made) (hfreed : m'.freed = m.freed) (hleft : m'.left = m.left) :
    Balanced m' where
  finite := by
    refine h.finite.subset fun b hb => ?_
    have hsame := congrArg Option.isSome (hblock b)
    have hb' : (m'.block b).isSome = true := hb
    simpa [hb'] using hsame.symm
  frames f := by
    have hholders : m'.holders f = m.holders f := by
      ext b
      have hsame := hblock b
      have hiff : ∀ x : Option PhysBlock, (∃ pb, x = some pb ∧ pb.mem.has f = true) ↔
          ∃ ml, x.map PhysBlock.mem = some ml ∧ ml.has f = true := by
        rintro (_ | pb) <;> simp
      exact (hiff _).trans (hsame ▸ (hiff _).symm)
    rw [hholders, hmade, hfreed, hleft]
    exact h.frames f
  direct := hleft ▸ h.direct

def one (ml : MemList) (f : ℕ) : ℕ := if ml.has f then 1 else 0

theorem countP_cons_has (l : List MemList) :
    (ml :: l).countP (·.has f) = l.countP (·.has f) + one ml f :=
  List.countP_cons

theorem countP_cons_left {flags : BitVec 32} (l : List (BitVec 32 × MemList)) :
    ((flags, ml) :: l).countP (·.2.has f) = l.countP (·.2.has f) + one ml f :=
  List.countP_cons

theorem Balanced.direct_cons {flags : BitVec 32} (h : Balanced m)
    (hflags : hasAny flags VR_DIRECT = true) :
    ∀ gone ∈ (flags, ml) :: m.left, hasAny gone.1 VR_DIRECT = true := by
  intro gone hgone
  rcases List.mem_cons.mp hgone with rfl | hgone
  · exact hflags
  · exact h.direct gone hgone

theorem holders_setBlock :
    (m.setBlock b pb).holders f = if pb.mem.has f then insert b (m.holders f) else m.holders f \ {b} := by
  ext b'
  by_cases hb : b' = b
  · subst hb
    split <;> rename_i hf <;> simp [Memory.holders, Memory.setBlock, hf]
  · split <;> simp [Memory.holders, Memory.setBlock, hb]

theorem holders_freeBlock : (m.freeBlock b).holders f = m.holders f \ {b} := by
  ext b'
  by_cases hb : b' = b
  · subst hb
    simp [Memory.holders, Memory.freeBlock]
  · simp [Memory.holders, Memory.freeBlock, hb]

def Memory.FinitelyMany (m : Memory) : Prop := {b | (m.block b).isSome}.Finite

theorem holders_finite (h : m.FinitelyMany) (f : ℕ) : (m.holders f).Finite :=
  h.subset fun b hb => by
    obtain ⟨pb, hpb, _⟩ := hb
    simp [hpb]

theorem ncard_setBlock (h : m.FinitelyMany) (b : BlockId) (pb : PhysBlock) (f : ℕ) :
    ((m.setBlock b pb).holders f).ncard = (m.holders f \ {b}).ncard + one pb.mem f := by
  rw [holders_setBlock, one]
  split
  · rw [← Set.insert_sdiff_singleton,
      Set.ncard_insert_of_notMem (by simp) ((holders_finite h f).subset Set.sdiff_subset)]
  · rfl

theorem setBlock_self (hb : m.block b = some pb) : m.setBlock b pb = m := by
  rw [Memory.setBlock, ← hb, Function.update_eq_self]

theorem ncard_some (h : m.FinitelyMany) (hb : m.block b = some pb) :
    (m.holders f).ncard = (m.holders f \ {b}).ncard + one pb.mem f := by
  rw [← ncard_setBlock h b pb, setBlock_self hb]

theorem ncard_none (hb : m.block b = none) : (m.holders f).ncard = (m.holders f \ {b}).ncard := by
  rw [Set.sdiff_singleton_eq_self]
  rintro ⟨pb, hpb, _⟩
  simp [hb] at hpb

theorem finite_setBlock (h : m.FinitelyMany) (b : BlockId) (pb : PhysBlock) : (m.setBlock b pb).FinitelyMany := by
  refine (h.insert b).subset fun b' hb' => ?_
  by_cases hne : b' = b
  · exact .inl hne
  · exact .inr (by simpa [Memory.setBlock, hne] using hb')

theorem finite_freeBlock (h : m.FinitelyMany) : (m.freeBlock b).FinitelyMany := by
  refine h.subset fun b' hb' => ?_
  by_cases hne : b' = b
  · subst hne
    simp [Memory.freeBlock] at hb'
  · simpa [Memory.freeBlock, hne] using hb'

theorem Balanced.newBlock (h : Balanced m) (hb : m.block b = none) (hml : pb.mem = ml) :
    Balanced (Memory.setBlock { m with made := ml :: m.made } b pb) where
  finite := finite_setBlock (m := { m with made := ml :: m.made }) h.finite b pb
  frames f := by
    have hnew := ncard_setBlock (m := { m with made := ml :: m.made }) h.finite b pb f
    have hold := ncard_none (f := f) hb
    have hframes := h.frames f
    change (ml :: m.made).countP (·.has f) = (Memory.holders (Memory.setBlock _ b pb) f).ncard +
      m.freed.countP (·.has f) + m.left.countP (·.2.has f)
    change _ = (m.holders f \ {b}).ncard + _ at hnew
    rw [countP_cons_has, hnew, hml]
    omega
  direct := h.direct

theorem Balanced.release (h : Balanced m) (hb : m.block b = some pb) :
    Balanced ((m.freeMem pb.mem).freeBlock b) ∧ ∀ flags, hasAny flags VR_DIRECT = true →
      Balanced ((m.leave flags pb.mem).freeBlock b) := by
  have hcount : ∀ f, m.made.countP (·.has f) = (m.holders f \ {b}).ncard + one pb.mem f +
      m.freed.countP (·.has f) + m.left.countP (·.2.has f) := fun f => by
    rw [h.frames f, ncard_some h.finite hb]
  constructor
  · refine ⟨finite_freeBlock (m := m.freeMem pb.mem) h.finite, fun f => ?_, h.direct⟩
    rw [holders_freeBlock]
    change m.made.countP (·.has f) = (m.holders f \ {b}).ncard +
      (pb.mem :: m.freed).countP (·.has f) + m.left.countP (·.2.has f)
    rw [countP_cons_has, hcount]
    omega
  · intro flags hflags
    refine ⟨finite_freeBlock (m := m.leave flags pb.mem) h.finite, fun f => ?_,
      h.direct_cons hflags⟩
    rw [holders_freeBlock]
    change m.made.countP (·.has f) = (m.holders f \ {b}).ncard +
      m.freed.countP (·.has f) + ((flags, pb.mem) :: m.left).countP (·.2.has f)
    rw [countP_cons_left, hcount]
    omega

theorem one_cut (phys length : ℕ) (hn : n ≤ length) :
    one ⟨phys, length⟩ f = one ⟨phys, n⟩ f + one ⟨phys + n, length - n⟩ f := by
  simp only [one, MemList.has, decide_eq_true_eq]
  split <;> split <;> split <;> omega

theorem Balanced.cut (h : Balanced m) (hb : m.block b = some pb) (hn : n ≤ pb.length)
    (hcut : pb'.mem = ⟨pb.phys + n, pb.length - n⟩) :
    Balanced ((m.freeMem ⟨pb.phys, n⟩).setBlock b pb') ∧
      ∀ flags, hasAny flags VR_DIRECT = true →
        Balanced ((m.leave flags ⟨pb.phys, n⟩).setBlock b pb') := by
  have hcount : ∀ f, m.made.countP (·.has f) = (m.holders f \ {b}).ncard + one ⟨pb.phys, n⟩ f +
      one pb'.mem f + m.freed.countP (·.has f) + m.left.countP (·.2.has f) := fun f => by
    rw [h.frames f, ncard_some h.finite hb, hcut]
    have hcuts := one_cut (f := f) pb.phys pb.length hn
    change _ + one ⟨pb.phys, pb.length⟩ f + _ + _ = _
    omega
  constructor
  · refine ⟨finite_setBlock (m := m.freeMem _) h.finite b pb', fun f => ?_, h.direct⟩
    rw [ncard_setBlock (m := m.freeMem _) h.finite]
    change m.made.countP (·.has f) = (m.holders f \ {b}).ncard + one pb'.mem f +
      (⟨pb.phys, n⟩ :: m.freed).countP (·.has f) + m.left.countP (·.2.has f)
    rw [countP_cons_has, hcount]
    omega
  · intro flags hflags
    refine ⟨finite_setBlock (m := m.leave flags _) h.finite b pb', fun f => ?_, h.direct_cons hflags⟩
    rw [ncard_setBlock (m := m.leave flags _) h.finite]
    change m.made.countP (·.has f) = (m.holders f \ {b}).ncard + one pb'.mem f +
      m.freed.countP (·.has f) + ((flags, ⟨pb.phys, n⟩) :: m.left).countP (·.2.has f)
    rw [countP_cons_left, hcount]
    omega

theorem Balanced.split {pbs : PhysBlock} (h : Balanced m) (hb : m.block b = some pb)
    (hnb : m.block nb = none) (hn : n ≤ pb.length) (hfront : pb'.mem = ⟨pb.phys, n⟩)
    (hback : pbs.mem = ⟨pb.phys + n, pb.length - n⟩) :
    Balanced ((m.setBlock nb pbs).setBlock b pb') := by
  have hfin := finite_setBlock h.finite nb pbs
  have hne : b ≠ nb := by
    rintro rfl
    simp [hb] at hnb
  have hb' : (m.setBlock nb pbs).block b = some pb := by simpa [Memory.setBlock, hne] using hb
  refine ⟨finite_setBlock hfin b pb', fun f => ?_, h.direct⟩
  have hnew := ncard_setBlock hfin b pb' f
  have hold := ncard_some (f := f) hfin hb'
  have hadd := ncard_setBlock h.finite nb pbs f
  have hnone := ncard_none (f := f) hnb
  have hframes := h.frames f
  have hcuts := one_cut (f := f) pb.phys pb.length hn
  rw [← hfront, ← hback] at hcuts
  change m.made.countP (·.has f) = _ + m.freed.countP (·.has f) + m.left.countP (·.2.has f)
  rw [hnew]
  change _ = _ + one ⟨pb.phys, pb.length⟩ f at hold
  omega

end BalanceFacts

end Vm
