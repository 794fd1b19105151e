import Cs111.Vm.SlabObjects
import Mathlib.Tactic.Ring
import Cs111.Lib.Runs

namespace Slab
variable {H : SlabHeaders} {s s' : Slabs} {f g : Sdh} {i n p b : ℕ} {l : SlabList}
  {L : ℕ → SlabList → List ℕ} {live : List (ℕ × ℤ)}

section Writes

theorem Linked.write (h : Linked s L) (hf : s.heap n = some f) (f' : Sdh) (hnext : f'.next = f.next)
    (hprev : f'.prev = f.prev) : Linked (setPage s n f') L := by
  refine ⟨fun i l => ?_, h.apart, fun {i l p} hp => ?_⟩
  · rw [next_setPage, prev_setPage, hnext, hprev,
      show Function.update (next s) n f.next = next s by
        rw [Function.update_eq_self_iff]; rw [next, hf]; rfl,
      show Function.update (prev s) n f.prev = prev s by
        rw [Function.update_eq_self_iff]; rw [prev, hf]; rfl]
    exact h.lists i l
  · rw [bare_setPage]
    by_cases hpn : p = n
    · subst hpn
      rw [Function.update_self]
      rfl
    · rw [Function.update_of_ne hpn]
      exact h.pages hp

theorem setBit_ok (h : Linked s L) (hg : bare s n = some g) (hbit : g.usebits[b]? = some false) :
    ∃ s', setBit s n b = .ok s' ∧ Linked s' L ∧ s'.listHead = s.listHead ∧
      bare s' = Function.update (bare s) n (some
        { g with usebits := g.usebits.set b true, nused := (g.nused + 1) % 65536 }) := by
  obtain ⟨f, hf, hheap, hbare, -⟩ := page_ok (s := s) (p := n) (by rw [hg]; rfl)
  rw [hg] at hbare
  cases hbare
  have hget : getBit f b = .ok false := by
    rw [getBit, show f.usebits[b]? = some false from hbit]
  refine ⟨_, ?_, h.write hheap
    { f with usebits := f.usebits.set b true, nused := (f.nused + 1) % 65536 } rfl rfl, rfl, bare_setPage⟩
  simp only [setBit, hf, hget, bind, Except.bind, Bool.false_eq_true, if_false]
  rfl

theorem clearBit_ok (h : Linked s L) (hg : bare s n = some g) (hbit : g.usebits[b]? = some true) :
    ∃ s', clearBit s n b = .ok s' ∧ Linked s' L ∧ s'.listHead = s.listHead ∧
      bare s' = Function.update (bare s) n (some
        { g with
          usebits := g.usebits.set b false
          nused := (g.nused + 65535) % 65536
          freeguess := b }) := by
  obtain ⟨f, hf, hheap, hbare, -⟩ := page_ok (s := s) (p := n) (by rw [hg]; rfl)
  rw [hg] at hbare
  cases hbare
  have hget : getBit f b = .ok true := by
    rw [getBit, show f.usebits[b]? = some true from hbit]
  refine ⟨_, ?_, h.write hheap
    { f with
      usebits := f.usebits.set b false
      nused := (f.nused + 65535) % 65536
      freeguess := b } rfl rfl, rfl, bare_setPage⟩
  simp only [clearBit, hf, hget, bind, Except.bind, Bool.not_true, Bool.false_eq_true, if_false]
  rfl

theorem set_guess_ok (h : Linked s L) (hg : bare s n = some g) (v : ℕ) :
    ∃ s', modify s n (fun f => { f with freeguess := v }) = .ok s' ∧ Linked s' L ∧
      bare s' = Function.update (bare s) n (some { g with freeguess := v }) := by
  obtain ⟨f, hf, hheap, hbare, -⟩ := page_ok (s := s) (p := n) (by rw [hg]; rfl)
  rw [hg] at hbare
  cases hbare
  refine ⟨_, ?_, h.write hheap { f with freeguess := v } rfl rfl, bare_setPage⟩
  simp only [modify, hf, bind, Except.bind]
  rfl

theorem Sound.set_guess (h : Sound H s live L) (hclass : InClass L i n) (hg : bare s n = some g)
    {v : ℕ} (hlinked : Linked s' L)
    (hbare : bare s' = Function.update (bare s) n (some { g with freeguess := v })) :
    Sound H s' live L := by
  have hfits := h.fits hclass hg
  refine h.write hclass hg hlinked hbare rfl ⟨hfits.bits, hfits.used, hfits.range⟩ (fun o ho => ?_)
    (fun c hc => h.backs hclass hg hc) (fun o ho _ => ho) h.once
    (show live.countP (onPage H n) = g.nused from h.counted hg) fun _ _ => rfl
  by_cases hon : pageOf H o.1 = n
  · exact .inr (h.on_page hclass hg ho hon)
  · exact .inl ⟨ho, hon⟩

end Writes

section Right

theorem Right.of_eq {L' : ℕ → SlabList → List ℕ} (h : Right H s L p)
    (hclass : ∀ i, InClass L' i p → InClass L i p) (hbare : bare s' p = bare s p) :
    Right H s' L' p := fun i f hp hf => h i f (hclass i hp) (by rw [← hbare, hf])

theorem Right.of_page (h : Linked s L) (hclass : InClass L i p) (hg : bare s p = some g)
    (hlist : g.list = listFor (itemsPerPage H (i + minSize)) g.nused) : Right H s L p := by
  intro j f hj hf
  rw [hg] at hf
  cases hf
  rw [hj.unique h hclass]
  exact hlist

end Right

theorem takeUsed_ok (h : Sound H s live L) (hhead : s.listHead i .USED = some n)
    (hg : bare s n = some g) (hlt : g.nused < itemsPerPage H (i + minSize))
    (hright : ∀ q ≠ n, Right H s L q) :
    ∃ b s' L', takeUsed H s (i + minSize) i = .ok (objectAt H i n b, s') ∧
      Sound H s' ((objectAt H i n b, ((i + minSize : ℕ) : ℤ)) :: live) L' ∧ ∀ q, Right H s' L' q := by
  have hmin : minSize ≤ i + minSize := Nat.le_add_left ..
  have hmem : n ∈ L i .USED := (h.linked.lists i .USED).head_mem hhead
  have hclass : InClass L i n := ⟨_, hmem⟩
  obtain ⟨f, hf, hfg⟩ := page_bare hg
  have hsame : f.nused = g.nused ∧ f.freeguess = g.freeguess ∧ f.usebits = g.usebits := by
    rw [← hfg]
    exact ⟨rfl, rfl, rfl⟩
  have hfits : Fits H (i + minSize) f := by
    have hfits := h.fits hclass hg
    exact ⟨by rw [hsame.2.2, hfits.bits], by rw [hsame.1, hsame.2.2, hfits.used],
      by rw [hsame.2.2]; exact hfits.range⟩
  obtain ⟨b, hb, hfind, hbit⟩ := hfits.findFree_clear hmin (by rw [hsame.1]; exact hlt)
  rw [hsame.2.2] at hbit
  obtain ⟨s₁, hs₁, hlinked₁, hhead₁, hbare₁⟩ := setBit_ok h.linked hg hbit
  have hsound₁ := h.take_bit hclass hg hlt hbit hb hlinked₁ hbare₁
  have hword := items_word (H := H) hmin
  have hnused : (g.nused + 1) % 65536 = g.nused + 1 := Nat.mod_eq_of_lt (by omega)
  rw [hnused] at hbare₁
  have hg₁ : bare s₁ n = some { g with usebits := g.usebits.set b true, nused := g.nused + 1 } := by
    rw [hbare₁, Function.update_self]
  have hlist : g.list = .USED := h.listed hmem hg
  obtain ⟨f₁, hf₁, hfg₁⟩ := page_bare hg₁
  have hnused₁ : f₁.nused = g.nused + 1 := by rw [show f₁.nused = f₁.bare.nused from rfl, hfg₁]
  -- The slab goes to the full ones, or stays.
  obtain ⟨s₂, L₂, g₂, hs₂, hsound₂, hg₂, hlist₂, hnused₂, hclass₂, hothers⟩ : ∃ s₂ L₂ g₂,
      moveFull s₁ i (decide (f₁.nused = itemsPerPage H (i + minSize))) = .ok s₂ ∧
      Sound H s₂ ((objectAt H i n b, ((i + minSize : ℕ) : ℤ)) :: live) L₂ ∧ bare s₂ n = some g₂ ∧
      g₂.list = listFor (itemsPerPage H (i + minSize)) g₂.nused ∧ g₂.nused = g.nused + 1 ∧
      (∀ j q, InClass L₂ j q ↔ InClass L j q) ∧ ∀ q ≠ n, bare s₂ q = bare s₁ q := by
    by_cases hfull : g.nused + 1 = itemsPerPage H (i + minSize)
    · obtain ⟨s₂, hs₂, hlinked₂, hbare₂, -⟩ :=
        hlinked₁.moveHead_linked (show s₁.listHead i .USED = some n by rw [hhead₁, hhead]) .FULL
      rw [hg₁] at hbare₂
      refine ⟨s₂, _, { g with
          usebits := g.usebits.set b true
          nused := g.nused + 1
          list := .FULL }, ?_, hsound₁.move hmem hg₁ hlinked₂ hbare₂,
        by rw [hbare₂, Function.update_self]; rfl, ?_, rfl, fun j q => inClass_moved hmem, fun q hq => by rw [hbare₂, Function.update_of_ne hq]⟩
      · rw [moveFull, hnused₁, if_pos (decide_eq_true hfull)]
        exact hs₂
      · show SlabList.FULL = listFor _ (g.nused + 1)
        rw [listFor, if_neg (Nat.succ_ne_zero _), if_neg (by omega)]
    · refine ⟨s₁, L, _, ?_, hsound₁, hg₁, ?_, rfl, fun j q => Iff.rfl, fun q _ => rfl⟩
      · rw [moveFull, hnused₁, if_neg (by simpa using hfull)]
        rfl
      · show g.list = listFor _ (g.nused + 1)
        rw [hlist, listFor, if_neg (Nat.succ_ne_zero _), if_pos (by omega)]
  obtain ⟨s₃, hs₃, hlinked₃, hbare₃⟩ := set_guess_ok hsound₂.linked hg₂ (b + 1)
  have hsound₃ := hsound₂.set_guess ((hclass₂ i n).mpr hclass) hg₂ hlinked₃ hbare₃
  refine ⟨b, s₃, L₂, ?_, hsound₃, fun q => ?_⟩
  · simp only [takeUsed, hhead, hf, hsame.1, hlt, hfind, hs₁, hf₁, hs₂, hs₃, bind, Except.bind, pure,
      Except.pure, not_true, if_false]
    rfl
  · by_cases hqn : q = n
    · subst hqn
      exact Right.of_page hlinked₃ ((hclass₂ i q).mpr hclass) (g := { g₂ with freeguess := b + 1 })
        (by rw [hbare₃, Function.update_self]) hlist₂
    · refine (hright q hqn).of_eq (fun j hj => (hclass₂ j q).mp hj) ?_
      rw [hbare₃, Function.update_of_ne hqn, hothers q hqn, hbare₁, Function.update_of_ne hqn]

section Calls

theorem listFor_free {items nused : ℕ} : listFor items nused = .FREE ↔ nused = 0 := by
  rw [listFor]
  split_ifs <;> simp_all

theorem listFor_used {items nused : ℕ} : listFor items nused = .USED ↔ nused ≠ 0 ∧ nused < items := by
  rw [listFor]
  split_ifs <;> simp_all

theorem listFor_full {items nused : ℕ} : listFor items nused = .FULL ↔ nused ≠ 0 ∧ ¬ nused < items := by
  rw [listFor]
  split_ifs <;> simp_all

theorem size_items (hi : i < slabSizes) : 2 ≤ itemsPerPage H (i + minSize) := by
  refine two_items ?_ (Nat.le_add_left ..)
  rw [maxSize]
  omega

theorem Sound.head (h : Sound H s live L) (hhead : s.listHead i l = some n) :
    n ∈ L i l ∧ ∃ g, bare s n = some g ∧ g.list = l := by
  have hmem : n ∈ L i l := (h.linked.lists i l).head_mem hhead
  obtain ⟨g, hg⟩ := Option.isSome_iff_exists.mp (h.linked.pages hmem)
  exact ⟨hmem, g, hg, h.listed hmem hg⟩

theorem use_free_ok (h : Sound H s live L) (hright : ∀ q, Right H s L q) (hi : i < slabSizes)
    (hhead : s.listHead i .FREE = some n) :
    ∃ s₁ b s' L', moveHead s i .FREE .USED = .ok s₁ ∧
      takeUsed H s₁ (i + minSize) i = .ok (objectAt H i n b, s') ∧
      Sound H s' ((objectAt H i n b, ((i + minSize : ℕ) : ℤ)) :: live) L' ∧ ∀ q, Right H s' L' q := by
  obtain ⟨hmem, g, hg, hlist⟩ := h.head hhead
  have hzero : g.nused = 0 := listFor_free.mp ((hright n i g ⟨_, hmem⟩ hg).symm.trans hlist)
  obtain ⟨s₁, hs₁, hlinked, hbare, -⟩ := h.linked.moveHead_linked hhead .USED
  rw [hg] at hbare
  have hsound := h.move hmem hg hlinked hbare
  have hused : s₁.listHead i .USED = some n := by
    have hlists := hlinked.lists i .USED
    rw [moved, set2_self] at hlists
    exact hlists.1
  obtain ⟨b, s', L', htake, hsound', hright'⟩ := takeUsed_ok hsound hused
    (g := { g with list := .USED }) (by rw [hbare, Function.update_self]; rfl)
    (show g.nused < _ by have hitems := size_items (H := H) hi; omega) fun q hq =>
      (hright q).of_eq (fun j hj => (inClass_moved hmem).mp hj) (by rw [hbare, Function.update_of_ne hq])
  exact ⟨s₁, b, s', L', hs₁, htake, hsound', hright'⟩

theorem slaballoc_ok (h : Sound H s live L) (hright : ∀ q, Right H s L q) {bytes : ℤ}
    (hbytes : getSlab bytes = .ok i) : slaballoc H s bytes = .ok .needPage ∨
      ∃ mem s' L', slaballoc H s bytes = .ok (.done mem s') ∧ Sound H s' ((mem, bytes) :: live) L' ∧
        ∀ q, Right H s' L' q := by
  obtain ⟨hi, rfl⟩ := getSlab_ok.mp hbytes
  have hcast : ((i + minSize : ℕ) : ℤ).toNat = i + minSize := Int.toNat_natCast _
  cases hused : s.listHead i .USED with
  | none =>
    cases hfree : s.listHead i .FREE with
    | none =>
      left
      simp only [slaballoc, hbytes, hused, hfree, bind, Except.bind]
      rfl
    | some n =>
      obtain ⟨s₁, b, s', L', hs₁, htake, hsound, hright'⟩ := use_free_ok h hright hi hfree
      refine .inr ⟨_, s', L', ?_, hsound, hright'⟩
      simp only [slaballoc, hbytes, hused, hfree, bind, Except.bind, hs₁, hcast, htake]
      rfl
  | some n =>
    obtain ⟨hmem, g, hg, hlist⟩ := h.head hused
    have hlt := (listFor_used.mp ((hright n i g ⟨_, hmem⟩ hg).symm.trans hlist)).2
    obtain ⟨b, s', L', htake, hsound, hright'⟩ := takeUsed_ok h hused hg hlt fun q _ => hright q
    refine .inr ⟨_, s', L', ?_, hsound, hright'⟩
    simp only [slaballoc, hbytes, hused, bind, Except.bind, hcast, htake]
    rfl

structure NewPage.Fresh (H : SlabHeaders) (s : Slabs) (pg : NewPage) : Prop where
  unused : s.heap pg.addr = none
  aligned : pg.addr % H.vmPageSize = 0

theorem Sound.grow (h : Sound H s live L) (hright : ∀ q, Right H s L q) (hi : i < slabSizes)
    {pg : NewPage} (hpg : pg.Fresh H s) :
    ∃ s', addHead (newslabdata H s .FREE pg) pg.addr i .FREE = .ok s' ∧
      Sound H s' live (set2 L i .FREE (pg.addr :: L i .FREE)) ∧
      (∀ q, Right H s' (set2 L i .FREE (pg.addr :: L i .FREE)) q) ∧
      s'.listHead i .FREE = some pg.addr := by
  have hnone : bare s pg.addr = none := by rw [bare, hpg.unused]; rfl
  have hnot : ∀ i l, pg.addr ∉ L i l := by
    intro i l hmem
    have hsome := h.linked.pages hmem
    rw [hnone] at hsome
    cases hsome
  obtain ⟨new, hnew⟩ : ∃ new : Sdh, new = { pg.raw with
      usebits := List.replicate (8 * useElements H) false, phys := pg.phys, nused := 0,
      freeguess := 0, list := .FREE } := ⟨_, rfl⟩
  obtain ⟨s₁, hs₁, hbare₁, hnext₁, hprev₁, hhead₁⟩ : ∃ s₁, newslabdata H s .FREE pg = s₁ ∧
      bare s₁ = Function.update (bare s) pg.addr (some new.bare) ∧
      next s₁ = Function.update (next s) pg.addr new.next ∧
      prev s₁ = Function.update (prev s) pg.addr new.prev ∧ s₁.listHead = s.listHead := by
    subst hnew
    exact ⟨_, rfl, bare_setPage, next_setPage, prev_setPage, rfl⟩
  have hne : ∀ {i l q}, q ∈ L i l → q ≠ pg.addr := fun hq he => hnot _ _ (he ▸ hq)
  have hlinked₁ : Linked s₁ L := by
    refine ⟨fun i l => ?_, h.linked.apart, fun hq => ?_⟩
    · rw [hhead₁]
      exact (h.linked.lists i l).congr (fun q hq => by rw [hnext₁, Function.update_of_ne (hne hq)])
        fun q hq => by rw [hprev₁, Function.update_of_ne (hne hq)]
    · rw [hbare₁, Function.update_of_ne (hne hq)]
      exact h.linked.pages hq
  obtain ⟨s', hs', hlinked, hbare, -⟩ := hlinked₁.put hnot (by rw [hbare₁, Function.update_self]; rfl)
    i .FREE
  have hself : bare s' pg.addr = some new.bare := by
    rw [hbare, Function.update_self, hbare₁, Function.update_self, hnew]
    rfl
  have hother : ∀ q ≠ pg.addr, bare s' q = bare s q := fun q hq => by
    rw [hbare, Function.update_of_ne hq, hbare₁, Function.update_of_ne hq]
  have hmem : ∀ {j l q}, q ∈ set2 L i .FREE (pg.addr :: L i .FREE) j l →
      (q = pg.addr ∧ j = i ∧ l = .FREE) ∨ (q ≠ pg.addr ∧ q ∈ L j l) := by
    intro j l q hq
    rcases mem_set2 hq with ⟨rfl, rfl, hmem⟩ | ⟨-, hmem⟩
    · rcases List.mem_cons.mp hmem with rfl | hmem
      · exact .inl ⟨rfl, rfl, rfl⟩
      · exact .inr ⟨hne hmem, hmem⟩
    · exact .inr ⟨hne hmem, hmem⟩
  have hclass : ∀ {j q}, InClass (set2 L i .FREE (pg.addr :: L i .FREE)) j q →
      (q = pg.addr ∧ j = i) ∨ (q ≠ pg.addr ∧ InClass L j q) := by
    rintro j q ⟨l, hq⟩
    rcases hmem hq with ⟨rfl, rfl, -⟩ | ⟨hqn, hq⟩
    · exact .inl ⟨rfl, rfl⟩
    · exact .inr ⟨hqn, l, hq⟩
  have hclass' : ∀ {j q}, InClass L j q → InClass (set2 L i .FREE (pg.addr :: L i .FREE)) j q := by
    rintro j q ⟨l, hq⟩
    refine ⟨l, ?_⟩
    by_cases hil : j = i ∧ l = .FREE
    · obtain ⟨rfl, rfl⟩ := hil
      rw [set2_self]
      exact List.mem_cons_of_mem _ hq
    · rw [set2_ne hil]
      exact hq
  have hzero : ∀ c : ℕ, new.usebits[c]? ≠ some true := by
    intro c hc
    rw [hnew, List.getElem?_replicate] at hc
    split at hc <;> cases hc
  refine ⟨s', by rw [hs₁, hs'], ⟨hlinked, fun {j l q f} hq hf => ?_, fun {q f} hf => ?_,
    fun {j q f} hq hf => ?_, fun o ho => ?_, fun {j q f b} hq hf hbit => ?_, h.once,
    fun {q f} hf => ?_⟩, fun q => ?_, ?_⟩
  · rcases hmem hq with ⟨rfl, rfl, rfl⟩ | ⟨hqn, hq⟩
    · rw [hself] at hf
      cases hf
      rw [hnew]
      rfl
    · exact h.listed hq (by rw [← hother q hqn, hf])
  · by_cases hqn : q = pg.addr
    · subst hqn
      refine ⟨hpg.aligned, i, hi, .FREE, ?_⟩
      rw [set2_self]
      exact List.mem_cons_self
    · obtain ⟨halign, j, hj, hq⟩ := h.classed (by rw [← hother q hqn, hf])
      exact ⟨halign, j, hj, hclass' hq⟩
  · rcases hclass hq with ⟨rfl, rfl⟩ | ⟨hqn, hq⟩
    · rw [hself] at hf
      cases hf
      refine ⟨?_, ?_, fun c hc => absurd (show new.usebits[c]? = some true from hc) (hzero c)⟩
      · show new.usebits.length = _
        rw [hnew, List.length_replicate]
      · show new.nused = new.usebits.count true
        rw [hnew, List.count_replicate]
        rfl
    · exact h.fits hq (by rw [← hother q hqn, hf])
  · obtain ⟨j, q, f, b, hq, hf, hbit, ho⟩ := h.inside o ho
    have hqn : q ≠ pg.addr := by
      rintro rfl
      rw [hnone] at hf
      cases hf
    exact ⟨j, q, f, b, hclass' hq, by rw [hother q hqn, hf], hbit, ho⟩
  · rcases hclass hq with ⟨rfl, rfl⟩ | ⟨hqn, hq⟩
    · rw [hself] at hf
      cases hf
      exact absurd hbit (hzero b)
    · exact h.backs hq (by rw [← hother q hqn, hf]) hbit
  · by_cases hqn : q = pg.addr
    · subst hqn
      rw [hself] at hf
      cases hf
      rw [show new.bare.nused = 0 by rw [hnew]; rfl, List.countP_eq_zero]
      intro o ho hon
      obtain ⟨j, q, f, b, hq, hf, hbit, rfl⟩ := h.inside o ho
      have hpage : pageOf H (objectAt H j q b) = pg.addr := by simpa [onPage] using hon
      rw [h.pageOf_eq hq hf hbit] at hpage
      rw [hpage, hnone] at hf
      cases hf
    · exact h.counted (by rw [← hother q hqn, hf])
  · by_cases hqn : q = pg.addr
    · subst hqn
      refine Right.of_page hlinked (i := i) ⟨.FREE, ?_⟩ hself ?_
      · rw [set2_self]
        exact List.mem_cons_self
      · rw [hnew]
        rfl
    · refine (hright q).of_eq (fun j hj => ?_) (hother q hqn)
      rcases hclass hj with ⟨rfl, -⟩ | ⟨-, hj⟩
      · exact absurd rfl hqn
      · exact hj
  · have hlists := hlinked.lists i .FREE
    rw [set2_self] at hlists
    exact hlists.1

theorem slaballocPage_ok (h : Sound H s live L) (hright : ∀ q, Right H s L q) {bytes : ℤ}
    (hbytes : getSlab bytes = .ok i) {pg : NewPage} (hpg : pg.Fresh H s) :
    ∃ mem s' L', slaballocPage H s bytes (some pg) = .ok (some mem, s') ∧
      Sound H s' ((mem, bytes) :: live) L' ∧ ∀ q, Right H s' L' q := by
  obtain ⟨hi, rfl⟩ := getSlab_ok.mp hbytes
  obtain ⟨s₁, hs₁, hsound₁, hright₁, hhead⟩ := h.grow hright hi hpg
  obtain ⟨s₂, b, s', L', hs₂, htake, hsound, hright'⟩ := use_free_ok hsound₁ hright₁ hi hhead
  refine ⟨_, s', L', ?_, hsound, hright'⟩
  simp only [slaballocPage, hbytes, hs₁, hs₂, Int.toNat_natCast, htake, bind, Except.bind]
  rfl

theorem objstats_ok (h : Sound H s live L) {mem : ℕ} {bytes : ℤ} (ho : (mem, bytes) ∈ live) :
    ∃ i p g b, InClass L i p ∧ bare s p = some g ∧ g.usebits[b]? = some true ∧
      mem = objectAt H i p b ∧ bytes = (i + minSize : ℕ) ∧
      objstats H mem bytes = .ok (i, p, (b : ℤ)) ∧ i < slabSizes := by
  obtain ⟨i, p, g, b, hp, hg, hbit, heq⟩ := h.inside _ ho
  cases heq
  obtain ⟨-, j, hj, hclass⟩ := h.classed hg
  obtain rfl : j = i := hclass.unique h.linked hp
  have hslab := getSlab_ok.mpr ⟨hj, rfl⟩
  have hpage : objectAt H j p b - objectAt H j p b % H.vmPageSize = p := h.pageOf_eq hp hg hbit
  have hdiv : (((objectAt H j p b : ℕ) : ℤ) - ((p : ℤ) + (H.sdhSize : ℤ))).tdiv ((j + minSize : ℕ) : ℤ) =
      (b : ℤ) := by
    have hoff : ((objectAt H j p b : ℕ) : ℤ) - ((p : ℤ) + (H.sdhSize : ℤ)) =
        ((b * (j + minSize) : ℕ) : ℤ) := by
      rw [objectAt]
      push_cast
      ring
    rw [hoff, ← Int.ofNat_tdiv, Nat.mul_div_cancel _ (Nat.add_pos_right j (by decide))]
  refine ⟨j, p, g, b, hp, hg, hbit, rfl, rfl, ?_, hj⟩
  simp only [objstats, hslab, hpage, hdiv, bind, Except.bind]
  rfl

theorem slabfree_ok (h : Sound H s live L) (hright : ∀ q, Right H s L q) {mem : ℕ} {bytes : ℤ}
    (ho : (mem, bytes) ∈ live) :
    ∃ s' L', slabfree H s mem bytes = .ok s' ∧ Sound H s' (live.erase (mem, bytes)) L' ∧
      ∀ q, Right H s' L' q := by
  obtain ⟨i, p, g, b, hp, hg, hbit, rfl, rfl, hstats, hi⟩ := objstats_ok h ho
  obtain ⟨s₁, hs₁, hlinked₁, -, hbare₁⟩ := clearBit_ok h.linked hg hbit
  have hsound₁ := h.drop_bit hp hg hbit hlinked₁ hbare₁
  have hmin : minSize ≤ i + minSize := Nat.le_add_left ..
  have hitems := size_items (H := H) hi
  have hle := (h.fits hp hg).nused_le
  obtain ⟨hpos, hnused, -⟩ := (h.fits hp hg).clear hmin hbit b hle
  rw [hnused] at hbare₁
  have hlist := hright p i g hp hg
  obtain ⟨l, hmem⟩ := hp
  have hl : g.list = l := h.listed hmem hg
  obtain ⟨g₁, hg₁⟩ : ∃ g₁ : Sdh, g₁ = { g with
    usebits := g.usebits.set b false, nused := g.nused - 1, freeguess := b } := ⟨_, rfl⟩
  rw [← hg₁] at hbare₁
  have hself : bare s₁ p = some g₁ := by rw [hbare₁, Function.update_self]
  obtain ⟨f₁, hf₁, hfg₁⟩ := page_bare hself
  have hfields : f₁.nused = g.nused - 1 ∧ f₁.list = g.list := by
    have hn : f₁.bare.nused = g.nused - 1 := by rw [hfg₁, hg₁]
    have hl : f₁.bare.list = g.list := by rw [hfg₁, hg₁]
    exact ⟨hn, hl⟩
  have hrest : ∀ q ≠ p, Right H s₁ L q := fun q hq =>
    (hright q).of_eq (fun _ hj => hj) (by rw [hbare₁, Function.update_of_ne hq])
  have hmoved : ∀ {l₂}, g₁.list = l → l₂ = listFor (itemsPerPage H (i + minSize)) (g.nused - 1) →
      ∃ s' L', changeList s₁ p i l l₂ = .ok s' ∧
        Sound H s' (live.erase (objectAt H i p b, ((i + minSize : ℕ) : ℤ))) L' ∧
        ∀ q, Right H s' L' q := by
    intro l₂ hgl hl₂
    obtain ⟨s', hs', hlinked, hbare, -⟩ := hlinked₁.changeList_linked hmem hself hgl l₂
    refine ⟨s', _, hs', hsound₁.move hmem hself hlinked hbare, fun q => ?_⟩
    by_cases hq : q = p
    · subst hq
      refine Right.of_page hlinked ((inClass_moved hmem).mpr ⟨l, hmem⟩) (g := { g₁ with list := l₂ })
        (by rw [hbare, Function.update_self]) ?_
      rw [hl₂, hg₁]
    · exact (hrest q hq).of_eq (fun j hj => (inClass_moved hmem).mp hj)
        (by rw [hbare, Function.update_of_ne hq])
  have hgl : g₁.list = l := by rw [hg₁]; exact hl
  have hunfold : slabfree H s (objectAt H i p b) ((i + minSize : ℕ) : ℤ) =
      if g.nused - 1 = 0 then changeList s₁ p i .USED .FREE
      else if g.nused - 1 = itemsPerPage H (i + minSize) - 1 then changeList s₁ p i .FULL .USED
      else if l ≠ .USED then .error .assertion
      else .ok s₁ := by
    simp only [slabfree, hstats, bind, Except.bind, Int.toNat_natCast, hs₁, hf₁, hfields, hl]
    rw [if_neg (not_lt.mpr (Int.natCast_nonneg b))]
    rfl
  rw [hunfold]
  rw [hl] at hlist
  by_cases hnone : g.nused - 1 = 0
  · rw [if_pos hnone]
    have hused : l = .USED := by
      rw [hlist, listFor_used]
      omega
    rw [hused] at hgl hmoved
    exact hmoved hgl (listFor_free.mpr hnone).symm
  · rw [if_neg hnone]
    by_cases hfull : g.nused - 1 = itemsPerPage H (i + minSize) - 1
    · rw [if_pos hfull]
      have hl' : l = .FULL := by
        rw [hlist, listFor_full]
        omega
      rw [hl'] at hgl hmoved
      exact hmoved hgl (listFor_used.mpr ⟨hnone, by omega⟩).symm
    · rw [if_neg hfull]
      have hused : l = .USED := by
        rw [hlist, listFor_used]
        omega
      refine ⟨s₁, L, by rw [if_neg (by simp [hused])], hsound₁, fun q => ?_⟩
      by_cases hq : q = p
      · subst hq
        refine Right.of_page hlinked₁ ⟨l, hmem⟩ hself ?_
        have hn₁ : g₁.nused = g.nused - 1 := by rw [hg₁]
        rw [hgl, hused, hn₁]
        exact (listFor_used.mpr ⟨hnone, by omega⟩).symm
      · exact hrest q hq

end Calls

end Slab

namespace Slab
open TransitionSystem

-- The slabs, the live objects with their sizes, and the calls of slaballoc() that wait for
-- vm_allocpage(), the innermost first.
structure SlabTraced where
  s : Slabs
  live : List (ℕ × ℤ)
  pending : List ℤ

inductive SlabEvent where
  | slaballoc (bytes : ℤ)
  | allocpage (page : Option NewPage)
  | slabfree (mem : ℕ) (bytes : ℤ)

inductive SlabStep (H : SlabHeaders) (t : SlabTraced) : SlabEvent → SlabTraced → Prop
  | done {bytes mem s} : slaballoc H t.s bytes = .ok (.done mem s) →
      SlabStep H t (.slaballoc bytes) ⟨s, (mem, bytes) :: t.live, t.pending⟩
  | waits {bytes} : slaballoc H t.s bytes = .ok .needPage →
      SlabStep H t (.slaballoc bytes) ⟨t.s, t.live, bytes :: t.pending⟩
  | failed {bytes rest s} : t.pending = bytes :: rest →
      slaballocPage H t.s bytes none = .ok (none, s) →
      SlabStep H t (.allocpage none) ⟨s, t.live, rest⟩
  | grown {bytes rest pg mem s} : t.pending = bytes :: rest → pg.Fresh H t.s →
      slaballocPage H t.s bytes (some pg) = .ok (some mem, s) →
      SlabStep H t (.allocpage (some pg)) ⟨s, (mem, bytes) :: t.live, rest⟩
  | freed {mem bytes s} : (mem, bytes) ∈ t.live → slabfree H t.s mem bytes = .ok s →
      SlabStep H t (.slabfree mem bytes) ⟨s, t.live.erase (mem, bytes), t.pending⟩

def slabSystem (H : SlabHeaders) : TransitionSystem SlabTraced SlabEvent where
  initial t := t = ⟨⟨fun _ => none, fun _ _ => none, 0⟩, [], []⟩
  step t e t' := SlabStep H t e t'

def Slabs.On (s : Slabs) (i : ℕ) (l : SlabList) (p : ℕ) : Prop :=
  ∃ ps, Doubly.Holds (next s) (prev s) (s.listHead i l) none ps ∧ p ∈ ps

def disjoint (o o' : ℕ × ℤ) : Prop := (o.1 : ℤ) + o.2 ≤ o'.1 ∨ (o'.1 : ℤ) + o'.2 ≤ o.1

structure SlabsKept (H : SlabHeaders) (t : SlabTraced) : Prop where
  apart : t.live.Pairwise disjoint
  placed : ∀ mem bytes, (mem, bytes) ∈ t.live → ∃ i < slabSizes, ∃ l p, bytes = (i + minSize : ℕ) ∧
    t.s.On i l p ∧ p + H.sdhSize ≤ mem ∧ (mem : ℤ) + bytes ≤ (p + H.vmPageSize : ℕ)
  counted : ∀ p f, t.s.heap p = some f →
    f.nused = f.usebits.count true ∧ f.nused = t.live.countP (onPage H p)
  listed : ∀ p f, t.s.heap p = some f → ∃ i < slabSizes,
    t.s.On i (listFor (itemsPerPage H (i + minSize)) f.nused) p ∧
    ∀ i' l', t.s.On i' l' p → i' = i ∧ l' = listFor (itemsPerPage H (i + minSize)) f.nused
  allocs : ∀ bytes, (∃ r, slaballoc H t.s bytes = .ok r) ↔ minSize ≤ bytes ∧ bytes ≤ maxSize
  grows : ∀ bytes ∈ t.pending, ∀ page, (∀ pg, page = some pg → pg.Fresh H t.s) →
    ∃ r, slaballocPage H t.s bytes page = .ok r
  frees : ∀ mem bytes, (mem, bytes) ∈ t.live → ∃ s, slabfree H t.s mem bytes = .ok s

def SlabTraced.Good (H : SlabHeaders) (t : SlabTraced) : Prop :=
  (∃ L, Sound H t.s t.live L ∧ ∀ q, Right H t.s L q) ∧
    ∀ bytes ∈ t.pending, ∃ i, getSlab bytes = .ok i

section Runs
variable {H : SlabHeaders} {t t' : SlabTraced} {e : SlabEvent} {i p : ℕ} {l : SlabList}
  {L : ℕ → SlabList → List ℕ}

theorem Linked.on (h : Linked t.s L) : t.s.On i l p ↔ p ∈ L i l := by
  constructor
  · rintro ⟨ps, hps, hp⟩
    rwa [(h.lists i l).unique hps]
  · exact fun hp => ⟨L i l, h.lists i l, hp⟩

theorem slaballoc_size {s : Slabs} {bytes : ℤ} {r : Progress} (h : slaballoc H s bytes = .ok r) :
    ∃ i, getSlab bytes = .ok i := by
  cases hslab : getSlab bytes with
  | error e => simp [slaballoc, hslab, bind, Except.bind] at h
  | ok i => exact ⟨i, rfl⟩

theorem good_initially (h : (slabSystem H).initial t) : t.Good H := by
  cases h
  refine ⟨⟨fun _ _ => [], ⟨⟨fun _ _ => rfl, fun hp => ?_, fun hp => ?_⟩, fun hp => ?_, fun hf => ?_,
    fun hp _ => ?_, fun _ ho => ?_, fun hp _ _ => ?_, .nil, fun hf => ?_⟩, fun _ _ _ hp _ => ?_⟩,
    fun _ ho => ?_⟩
  · cases hp
  · cases hp
  · cases hp
  · cases hf
  · obtain ⟨_, hp⟩ := hp
    cases hp
  · cases ho
  · obtain ⟨_, hp⟩ := hp
    cases hp
  · cases hf
  · obtain ⟨_, hp⟩ := hp
    cases hp
  · cases ho

theorem SlabTraced.Good.step (h : t.Good H) (hstep : SlabStep H t e t') : t'.Good H := by
  obtain ⟨⟨L, hsound, hright⟩, hpending⟩ := h
  cases hstep with
  | done hr =>
    obtain ⟨i, hi⟩ := slaballoc_size hr
    rcases slaballoc_ok hsound hright hi with hneed | ⟨mem, s, L', hr', hsound', hright'⟩
    · rw [hneed] at hr
      cases hr
    · rw [hr'] at hr
      cases hr
      exact ⟨⟨L', hsound', hright'⟩, hpending⟩
  | waits hr =>
    refine ⟨⟨L, hsound, hright⟩, fun bytes hbytes => ?_⟩
    rcases List.mem_cons.mp hbytes with rfl | hbytes
    · exact slaballoc_size hr
    · exact hpending bytes hbytes
  | failed hp hr =>
    rw [hp] at hpending
    obtain ⟨i, hi⟩ := hpending _ List.mem_cons_self
    simp only [slaballocPage, hi, bind, Except.bind] at hr
    cases hr
    exact ⟨⟨L, hsound, hright⟩, fun bytes hbytes => hpending bytes (List.mem_cons_of_mem _ hbytes)⟩
  | grown hp hpg hr =>
    rw [hp] at hpending
    obtain ⟨i, hi⟩ := hpending _ List.mem_cons_self
    obtain ⟨mem, s, L', hr', hsound', hright'⟩ := slaballocPage_ok hsound hright hi hpg
    rw [hr'] at hr
    cases hr
    exact ⟨⟨L', hsound', hright'⟩, fun bytes hbytes => hpending bytes (List.mem_cons_of_mem _ hbytes)⟩
  | freed ho hr =>
    obtain ⟨s, L', hr', hsound', hright'⟩ := slabfree_ok hsound hright ho
    rw [hr'] at hr
    cases hr
    exact ⟨⟨L', hsound', hright'⟩, hpending⟩

theorem Sound.disjoint {live : List (ℕ × ℤ)} (h : Sound H t.s live L) {o o' : ℕ × ℤ} (ho : o ∈ live)
    (ho' : o' ∈ live) (hne : o ≠ o') : disjoint o o' := by
  obtain ⟨i, p, f, b, hp, hf, hbit, rfl⟩ := h.inside o ho
  obtain ⟨i', p', f', b', hp', hf', hbit', rfl⟩ := h.inside o' ho'
  have hle := object_le (H := H) (p := p) ((h.fits hp hf).range b hbit)
  have hle' := object_le (H := H) (p := p') ((h.fits hp' hf').range b' hbit')
  have hstart : p ≤ objectAt H i p b := by rw [objectAt]; omega
  have hstart' : p' ≤ objectAt H i' p' b' := by rw [objectAt]; omega
  simp only [Slab.disjoint]
  rcases lt_trichotomy p p' with hlt | rfl | hlt
  · have happart := pages_apart (h.classed hf).1 (h.classed hf').1 hlt
    omega
  · obtain rfl := hp.unique h.linked hp'
    rcases lt_trichotomy b b' with hlt | rfl | hlt
    · have happart := objects_apart (H := H) (i := i) (p := p) hlt
      omega
    · exact absurd rfl hne
    · have happart := objects_apart (H := H) (i := i) (p := p) hlt
      omega
  · have happart := pages_apart (h.classed hf').1 (h.classed hf).1 hlt
    omega

theorem SlabTraced.Good.kept (h : t.Good H) : SlabsKept H t := by
  obtain ⟨⟨L, hsound, hright⟩, hpending⟩ := h
  have hpage : ∀ {p f}, t.s.heap p = some f → bare t.s p = some f.bare := fun hf => by rw [bare, hf]; rfl
  refine ⟨?_, fun mem bytes ho => ?_, fun p f hf => ?_, fun p f hf => ?_, fun bytes => ?_,
    fun bytes hbytes page hpg => ?_, fun mem bytes ho => ?_⟩
  · exact hsound.once.pairwise_of_forall_ne fun o ho o' ho' hne => hsound.disjoint ho ho' hne
  · obtain ⟨i, p, f, b, ⟨l, hp⟩, hf, hbit, heq⟩ := hsound.inside _ ho
    cases heq
    obtain ⟨-, j, hj, hclass⟩ := hsound.classed hf
    obtain rfl := hclass.unique hsound.linked ⟨l, hp⟩
    have hle := object_le (H := H) (p := p) ((hsound.fits hclass hf).range b hbit)
    exact ⟨j, hj, l, p, rfl, hsound.linked.on.mpr hp, by rw [objectAt]; omega, by exact_mod_cast hle⟩
  · obtain ⟨-, i, -, hclass⟩ := hsound.classed (hpage hf)
    exact ⟨(hsound.fits hclass (hpage hf)).used, (hsound.counted (hpage hf)).symm⟩
  · obtain ⟨-, i, hi, l, hp⟩ := hsound.classed (hpage hf)
    have hl : l = listFor (itemsPerPage H (i + minSize)) f.nused :=
      (hsound.listed hp (hpage hf)).symm.trans (hright p i _ ⟨l, hp⟩ (hpage hf))
    rw [hl] at hp
    refine ⟨i, hi, hsound.linked.on.mpr hp, fun i' l' hp' => ?_⟩
    exact hsound.linked.apart (hsound.linked.on.mp hp') hp
  · constructor
    · rintro ⟨r, hr⟩
      obtain ⟨i, hi⟩ := slaballoc_size hr
      obtain ⟨hlt, rfl⟩ := getSlab_ok.mp hi
      rw [maxSize]
      omega
    · intro hsize
      rw [maxSize] at hsize
      have hpos : 0 ≤ bytes := by omega
      obtain ⟨n, rfl⟩ := Int.eq_ofNat_of_zero_le hpos
      have hi : getSlab (n : ℤ) = .ok (n - minSize) := by
        rw [getSlab_ok]
        have hsizes : slabSizes = 60 := rfl
        omega
      rcases slaballoc_ok hsound hright hi with hneed | ⟨mem, s, -, hr, -⟩
      · exact ⟨_, hneed⟩
      · exact ⟨_, hr⟩
  · obtain ⟨i, hi⟩ := hpending bytes hbytes
    cases page with
    | none => exact ⟨(none, t.s), by simp only [slaballocPage, hi, bind, Except.bind]; rfl⟩
    | some pg =>
      obtain ⟨mem, s, -, hr, -⟩ := slaballocPage_ok hsound hright hi (hpg pg rfl)
      exact ⟨_, hr⟩
  · obtain ⟨s, -, hs, -⟩ := slabfree_ok hsound hright ho
    exact ⟨s, hs⟩

theorem slabsKept {past : List (SlabTraced × SlabEvent)} (h : Run (slabSystem H) always past t) :
    SlabsKept H t :=
  (h.invariant (fun _ hinit => good_initially hinit) fun _ _ _ _ hgood _ hstep => hgood.step hstep).kept

end Runs

def pageHeaders : SlabHeaders := ⟨4096, 88, by decide, by decide⟩

theorem slabsKept_objects : ∃ past t, Run (slabSystem pageHeaders) always past t ∧
    t.live = [(4184, 16), (4200, 16)] ∧ SlabsKept pageHeaders t := by
  have hwaits : Run (slabSystem pageHeaders) always _ _ :=
    .next (.start rfl) trivial (show SlabStep pageHeaders _ (.slaballoc 16) _ from .waits rfl)
  have hgrown : Run (slabSystem pageHeaders) always _ _ :=
    hwaits.next trivial (show SlabStep pageHeaders _
      (.allocpage (some ⟨4096, ⟨.UNUSED, 0, 0, none, none, [], 0⟩, 8192⟩)) _ from
      .grown rfl ⟨rfl, rfl⟩ rfl)
  have hsecond : Run (slabSystem pageHeaders) always _ _ :=
    hgrown.next trivial (show SlabStep pageHeaders _ (.slaballoc 16) _ from .done rfl)
  have hfreed : Run (slabSystem pageHeaders) always _ _ :=
    hsecond.next trivial (show SlabStep pageHeaders _ (.slabfree 4184 16) _ from
      .freed (.tail _ (.head _)) rfl)
  have hagain : Run (slabSystem pageHeaders) always _ _ :=
    hfreed.next trivial (show SlabStep pageHeaders _ (.slaballoc 16) _ from .done rfl)
  exact ⟨_, _, hagain, rfl, slabsKept hagain⟩

theorem small_size_asserts : ∃ past t, Run (slabSystem pageHeaders) always past t ∧
    slaballoc pageHeaders t.s 4 = .error .assertion := ⟨[], _, .start rfl, rfl⟩

end Slab
