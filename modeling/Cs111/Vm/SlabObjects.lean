import Cs111.Vm.SlabLists

namespace Slab
variable {H : SlabHeaders} {s s' : Slabs} {f g : Sdh} {i n p b bytes : ℕ} {l : SlabList}

section Sizes

theorem two_items (h : bytes ≤ maxSize) (hmin : minSize ≤ bytes) : 2 ≤ itemsPerPage H bytes := by
  have hpos : 0 < bytes := lt_of_lt_of_le (by decide) hmin
  have hroom := H.room
  rw [itemsPerPage, Nat.le_div_iff_mul_le hpos, dataBytes]
  omega

theorem items_le (hmin : minSize ≤ bytes) : itemsPerPage H bytes ≤ H.vmPageSize / minSize :=
  (Nat.div_le_div_right (Nat.sub_le ..)).trans (Nat.div_le_div_left hmin (by decide))

theorem items_fit (hmin : minSize ≤ bytes) : itemsPerPage H bytes ≤ 8 * useElements H := by
  refine (items_le hmin).trans ?_
  rw [useElements]
  omega

theorem items_word (hmin : minSize ≤ bytes) : itemsPerPage H bytes < 65536 :=
  (items_le hmin).trans_lt ((Nat.div_le_self ..).trans_lt H.nused)

theorem getSlab_ok {bytes : ℤ} : getSlab bytes = .ok i ↔ i < slabSizes ∧ bytes = (i + minSize : ℕ) := by
  rw [getSlab]
  split
  · refine iff_of_false (fun h => by cases h) ?_
    omega
  · split
    · refine iff_of_false (fun h => by cases h) ?_
      omega
    · rw [Except.ok.injEq]
      omega

end Sizes

structure Fits (H : SlabHeaders) (bytes : ℕ) (f : Sdh) : Prop where
  bits : f.usebits.length = 8 * useElements H
  used : f.nused = f.usebits.count true
  range : ∀ b, f.usebits[b]? = some true → b < itemsPerPage H bytes

section Bits

theorem count_all {bits : List Bool} {m : ℕ} (h : ∀ b < m, bits[b]? = some true) :
    m ≤ bits.count true := by
  have htake : bits.take m = List.replicate m true := by
    refine List.ext_getElem? fun b => ?_
    by_cases hb : b < m
    · rw [List.getElem?_take_of_lt hb, h b hb, List.getElem?_replicate, if_pos hb]
    · rw [List.getElem?_replicate, if_neg hb, List.getElem?_take_eq_none (not_lt.mp hb)]
  calc m = (bits.take m).count true := by rw [htake, List.count_replicate_self]
    _ ≤ bits.count true := (List.take_sublist m bits).count_le true

theorem findFree_cases {m : ℕ} (hm : 0 < m) (hbits : m ≤ f.usebits.length) (left i : ℕ) :
    (∃ b < m, findFree f m left i = .ok b ∧ f.usebits[b]? = some false) ∨
      ∀ t < left, f.usebits[(i + t) % m]? = some true := by
  induction left generalizing i with
  | zero => exact .inr fun t ht => absurd ht (Nat.not_lt_zero t)
  | succ left ih =>
    have hlt : i % m < m := Nat.mod_lt i hm
    obtain ⟨bit, hbit⟩ : ∃ bit, f.usebits[i % m]? = some bit :=
      ⟨_, List.getElem?_eq_getElem (hlt.trans_le hbits)⟩
    cases bit with
    | false =>
      refine .inl ⟨i % m, hlt, ?_, hbit⟩
      simp only [findFree, getBit, hbit, bind, Except.bind, Bool.false_eq_true, if_false]
      rfl
    | true =>
      have hnext : findFree f m (left + 1) i = findFree f m left (i % m + 1) := by
        simp only [findFree, getBit, hbit, bind, Except.bind, if_true]
      rcases ih (i % m + 1) with ⟨b, hb, hfind, hfree⟩ | hall
      · exact .inl ⟨b, hb, by rw [hnext, hfind], hfree⟩
      · refine .inr fun t ht => ?_
        cases t with
        | zero => exact hbit
        | succ t =>
          have hmod : (i + (t + 1)) % m = (i % m + 1 + t) % m := by
            rw [show i % m + 1 + t = i % m + (t + 1) by omega, Nat.mod_add_mod]
          rw [hmod]
          exact hall t (Nat.lt_of_succ_lt_succ ht)

theorem Fits.findFree_clear (h : Fits H bytes f) (hmin : minSize ≤ bytes)
    (hlt : f.nused < itemsPerPage H bytes) :
    ∃ b < itemsPerPage H bytes,
      findFree f (itemsPerPage H bytes) (itemsPerPage H bytes) f.freeguess = .ok b ∧
        f.usebits[b]? = some false := by
  have hbits : itemsPerPage H bytes ≤ f.usebits.length := by
    rw [h.bits]
    exact items_fit hmin
  have hpos : 0 < itemsPerPage H bytes := Nat.zero_lt_of_lt hlt
  rcases findFree_cases hpos hbits (itemsPerPage H bytes) f.freeguess with hfound | hall
  · exact hfound
  · have hfull : itemsPerPage H bytes ≤ f.usebits.count true := count_all fun b hb => by
      have ht := hall ((itemsPerPage H bytes - f.freeguess % itemsPerPage H bytes + b) %
        itemsPerPage H bytes) (Nat.mod_lt _ hpos)
      have hmod : (f.freeguess + (itemsPerPage H bytes - f.freeguess % itemsPerPage H bytes + b) %
          itemsPerPage H bytes) % itemsPerPage H bytes = b := by
        have hle := (Nat.mod_lt f.freeguess hpos).le
        rw [Nat.add_mod_mod, ← Nat.mod_add_mod,
          show f.freeguess % itemsPerPage H bytes +
            (itemsPerPage H bytes - f.freeguess % itemsPerPage H bytes + b) =
              itemsPerPage H bytes + b by omega,
          Nat.add_mod_left, Nat.mod_eq_of_lt hb]
      rwa [hmod] at ht
    rw [← h.used] at hfull
    omega

theorem Fits.set (h : Fits H bytes f) (hmin : minSize ≤ bytes) (hb : f.usebits[b]? = some false)
    (hrange : b < itemsPerPage H bytes) (guess : ℕ) (hlt : f.nused < itemsPerPage H bytes) :
    Fits H bytes { f with usebits := f.usebits.set b true, nused := (f.nused + 1) % 65536, freeguess := guess } := by
  obtain ⟨hlen, hbit⟩ := List.getElem?_eq_some_iff.mp hb
  have hword := items_word (H := H) hmin
  refine ⟨by rw [List.length_set, h.bits], ?_, fun c hc => ?_⟩
  · show (f.nused + 1) % 65536 = (f.usebits.set b true).count true
    rw [List.count_set hlen, hbit, ← h.used, Nat.mod_eq_of_lt (by omega)]
    simp
  · by_cases hcb : b = c
    · exact hcb ▸ hrange
    · rw [List.getElem?_set_ne hcb] at hc
      exact h.range c hc

theorem Fits.clear (h : Fits H bytes f) (hmin : minSize ≤ bytes) (hb : f.usebits[b]? = some true)
    (guess : ℕ) (hle : f.nused ≤ itemsPerPage H bytes) :
    0 < f.nused ∧ (f.nused + 65535) % 65536 = f.nused - 1 ∧
    Fits H bytes
      { f with
        usebits := f.usebits.set b false
        nused := (f.nused + 65535) % 65536
        freeguess := guess } := by
  obtain ⟨hlen, hbit⟩ := List.getElem?_eq_some_iff.mp hb
  have hword := items_word (H := H) hmin
  have hpos : 0 < f.nused := by
    rw [h.used]
    exact List.count_pos_iff.mpr (List.mem_of_getElem? hb)
  have hnused : (f.nused + 65535) % 65536 = f.nused - 1 := by omega
  refine ⟨hpos, hnused, by rw [List.length_set, h.bits], ?_, fun c hc => ?_⟩
  · show (f.nused + 65535) % 65536 = (f.usebits.set b false).count true
    rw [List.count_set hlen, hbit, ← h.used, hnused]
    simp
  · by_cases hcb : b = c
    · rw [← hcb, List.getElem?_set_self hlen] at hc
      cases hc
    · rw [List.getElem?_set_ne hcb] at hc
      exact h.range c hc

theorem Fits.nused_le (h : Fits H bytes f) :
    f.nused ≤ itemsPerPage H bytes := by
  have hdrop : ∀ bits : List Bool, ∀ m, (∀ b, bits[b]? = some true → b < m) → bits.count true ≤ m := by
    intro bits m hrange
    have hnone : (bits.drop m).count true = 0 := by
      rw [List.count_eq_zero]
      intro hmem
      obtain ⟨c, hc⟩ := List.getElem?_of_mem hmem
      rw [List.getElem?_drop] at hc
      have hlt := hrange _ hc
      omega
    calc bits.count true = (bits.take m).count true + (bits.drop m).count true := by
          rw [← List.count_append, List.take_append_drop]
      _ = (bits.take m).count true := by rw [hnone, Nat.add_zero]
      _ ≤ m := List.count_le_length.trans (List.length_take_le ..)
  rw [h.used]
  exact hdrop _ _ h.range

end Bits

def objectAt (H : SlabHeaders) (i p b : ℕ) : ℕ := p + H.sdhSize + b * (i + minSize)

def pageOf (H : SlabHeaders) (mem : ℕ) : ℕ := mem - mem % H.vmPageSize

section Addresses

theorem object_le (hb : b < itemsPerPage H (i + minSize)) :
    objectAt H i p b + (i + minSize) ≤ p + H.vmPageSize := by
  have hroom := H.room
  have hmul : (b + 1) * (i + minSize) ≤ dataBytes H :=
    (Nat.mul_le_mul_right _ hb).trans (Nat.div_mul_le_self ..)
  rw [Nat.succ_mul, dataBytes] at hmul
  rw [objectAt]
  omega

theorem pageOf_object (hp : p % H.vmPageSize = 0) (hb : b < itemsPerPage H (i + minSize)) :
    pageOf H (objectAt H i p b) = p := by
  have hle := object_le (H := H) (p := p) hb
  have hlt : objectAt H i p b - p < H.vmPageSize := by
    rw [objectAt] at hle ⊢
    have : 0 < minSize := by decide
    omega
  have hmod : objectAt H i p b % H.vmPageSize = objectAt H i p b - p := by
    obtain ⟨k, hk⟩ := Nat.dvd_of_mod_eq_zero hp
    have hsplit : objectAt H i p b = p + (objectAt H i p b - p) := by
      rw [objectAt]
      omega
    rw [hsplit, hk, Nat.mul_add_mod, Nat.add_sub_cancel_left]
    rw [hk] at hlt
    exact Nat.mod_eq_of_lt hlt
  rw [pageOf, hmod, objectAt]
  omega

theorem object_inj {b' : ℕ} (h : objectAt H i p b = objectAt H i p b') : b = b' := by
  rw [objectAt, objectAt] at h
  have hpos : 0 < i + minSize := Nat.add_pos_right i (by decide)
  exact Nat.eq_of_mul_eq_mul_right hpos (by omega)

theorem objects_apart {b' : ℕ} (h : b < b') :
    objectAt H i p b + (i + minSize) ≤ objectAt H i p b' := by
  have hmul : (b + 1) * (i + minSize) ≤ b' * (i + minSize) := Nat.mul_le_mul_right _ h
  rw [Nat.succ_mul] at hmul
  rw [objectAt, objectAt]
  omega

theorem pages_apart {p' : ℕ} (hp : p % H.vmPageSize = 0) (hp' : p' % H.vmPageSize = 0) (h : p < p') :
    p + H.vmPageSize ≤ p' := by
  obtain ⟨k, rfl⟩ := Nat.dvd_of_mod_eq_zero hp
  obtain ⟨k', rfl⟩ := Nat.dvd_of_mod_eq_zero hp'
  have hk : k < k' := Nat.lt_of_mul_lt_mul_left h
  calc H.vmPageSize * k + H.vmPageSize = H.vmPageSize * (k + 1) := (Nat.mul_succ ..).symm
    _ ≤ H.vmPageSize * k' := Nat.mul_le_mul_left _ hk

end Addresses

end Slab

namespace Slab
variable {H : SlabHeaders} {s s' : Slabs} {f g : Sdh} {i n p b : ℕ} {l : SlabList}
  {L : ℕ → SlabList → List ℕ} {live live' : List (ℕ × ℤ)}

def InClass (L : ℕ → SlabList → List ℕ) (i p : ℕ) : Prop := ∃ l, p ∈ L i l

def onPage (H : SlabHeaders) (p : ℕ) (o : ℕ × ℤ) : Bool := pageOf H o.1 == p

structure Sound (H : SlabHeaders) (s : Slabs) (live : List (ℕ × ℤ))
    (L : ℕ → SlabList → List ℕ) : Prop where
  linked : Linked s L
  listed : ∀ {i l p f}, p ∈ L i l → bare s p = some f → f.list = l
  classed : ∀ {p f}, bare s p = some f → p % H.vmPageSize = 0 ∧ ∃ i < slabSizes, InClass L i p
  fits : ∀ {i p f}, InClass L i p → bare s p = some f → Fits H (i + minSize) f
  inside : ∀ o ∈ live, ∃ i p f b, InClass L i p ∧ bare s p = some f ∧
    f.usebits[b]? = some true ∧ o = (objectAt H i p b, ((i + minSize : ℕ) : ℤ))
  backs : ∀ {i p f b}, InClass L i p → bare s p = some f → f.usebits[b]? = some true →
    (objectAt H i p b, ((i + minSize : ℕ) : ℤ)) ∈ live
  once : live.Nodup
  counted : ∀ {p f}, bare s p = some f → live.countP (onPage H p) = f.nused

def listFor (items nused : ℕ) : SlabList :=
  if nused = 0 then .FREE else if nused < items then .USED else .FULL

def Right (H : SlabHeaders) (s : Slabs) (L : ℕ → SlabList → List ℕ) (p : ℕ) : Prop :=
  ∀ i f, InClass L i p → bare s p = some f → f.list = listFor (itemsPerPage H (i + minSize)) f.nused

section Classes

theorem InClass.unique (h : Linked s L) {i' : ℕ} (hp : InClass L i p) (hp' : InClass L i' p) :
    i = i' := by
  obtain ⟨l, hl⟩ := hp
  obtain ⟨l', hl'⟩ := hp'
  exact (h.apart hl hl').1

theorem inClass_moved {l₁ l₂ : SlabList} (hn : n ∈ L i l₁) {j q : ℕ} :
    InClass (moved L i l₁ l₂ n) j q ↔ InClass L j q := by
  constructor
  · rintro ⟨l, hq⟩
    rcases mem_set2 hq with ⟨rfl, rfl, hq⟩ | ⟨-, hq⟩
    · rcases List.mem_cons.mp hq with rfl | hq
      · exact ⟨_, hn⟩
      · rcases mem_set2 hq with ⟨-, rfl, hq⟩ | ⟨-, hq⟩
        · exact ⟨_, List.mem_of_mem_erase hq⟩
        · exact ⟨_, hq⟩
    · rcases mem_set2 hq with ⟨rfl, rfl, hq⟩ | ⟨-, hq⟩
      · exact ⟨_, List.mem_of_mem_erase hq⟩
      · exact ⟨_, hq⟩
  · rintro ⟨l, hq⟩
    by_cases hqn : q = n ∧ j = i
    · obtain ⟨rfl, rfl⟩ := hqn
      refine ⟨l₂, ?_⟩
      rw [moved, set2_self]
      exact List.mem_cons_self
    · have htaken : q ∈ set2 L i l₁ ((L i l₁).erase n) j l := by
        by_cases hil : j = i ∧ l = l₁
        · obtain ⟨rfl, rfl⟩ := hil
          rw [set2_self]
          exact (List.mem_erase_of_ne fun hqn' => hqn ⟨hqn', rfl⟩).mpr hq
        · rw [set2_ne hil]
          exact hq
      refine ⟨l, ?_⟩
      rw [moved]
      by_cases hil : j = i ∧ l = l₂
      · obtain ⟨rfl, rfl⟩ := hil
        rw [set2_self]
        exact List.mem_cons_of_mem n htaken
      · rw [set2_ne hil]
        exact htaken

theorem mem_moved {l₁ l₂ : SlabList} (h : Linked s L) (hn : n ∈ L i l₁) {j q : ℕ}
    (hq : q ∈ moved L i l₁ l₂ n j l) : (q = n ∧ l = l₂) ∨ (q ≠ n ∧ q ∈ L j l) := by
  rcases mem_set2 hq with ⟨rfl, rfl, hq⟩ | ⟨-, hq⟩
  · rcases List.mem_cons.mp hq with rfl | hq
    · exact .inl ⟨rfl, rfl⟩
    · have hqn : q ≠ n := fun he => h.take_notMem hn _ _ (he ▸ hq)
      rcases mem_set2 hq with ⟨-, rfl, hq⟩ | ⟨-, hq⟩
      · exact .inr ⟨hqn, List.mem_of_mem_erase hq⟩
      · exact .inr ⟨hqn, hq⟩
  · have hqn : q ≠ n := fun he => h.take_notMem hn _ _ (he ▸ hq)
    rcases mem_set2 hq with ⟨rfl, rfl, hq⟩ | ⟨-, hq⟩
    · exact .inr ⟨hqn, List.mem_of_mem_erase hq⟩
    · exact .inr ⟨hqn, hq⟩

end Classes

section Rules

theorem Sound.pageOf_eq (h : Sound H s live L) (hp : InClass L i p) (hf : bare s p = some f)
    (hb : f.usebits[b]? = some true) : pageOf H (objectAt H i p b) = p :=
  pageOf_object (h.classed hf).1 ((h.fits hp hf).range b hb)

theorem Sound.move {l₁ l₂ : SlabList} (h : Sound H s live L) (hn : n ∈ L i l₁)
    (hg : bare s n = some g) (hlinked : Linked s' (moved L i l₁ l₂ n))
    (hbare : bare s' = Function.update (bare s) n (some { g with list := l₂ })) :
    Sound H s' live (moved L i l₁ l₂ n) := by
  -- All but the list of n is as before.
  have hpages : ∀ {q f'}, bare s' q = some f' → ∃ f, bare s q = some f ∧ f'.usebits = f.usebits ∧
      f'.nused = f.nused ∧ (q ≠ n → f' = f) ∧ (q = n → f'.list = l₂) := by
    intro q f' hf'
    by_cases hqn : q = n
    · subst hqn
      rw [hbare, Function.update_self] at hf'
      cases hf'
      exact ⟨g, hg, rfl, rfl, fun hne => absurd rfl hne, fun _ => rfl⟩
    · rw [hbare, Function.update_of_ne hqn] at hf'
      exact ⟨f', hf', rfl, rfl, fun _ => rfl, fun he => absurd he hqn⟩
  have hpages' : ∀ {q f}, bare s q = some f → ∃ f', bare s' q = some f' ∧ f'.usebits = f.usebits := by
    intro q f hf
    by_cases hqn : q = n
    · subst hqn
      rw [hg] at hf
      cases hf
      exact ⟨{ g with list := l₂ }, by rw [hbare, Function.update_self], rfl⟩
    · exact ⟨f, by rw [hbare, Function.update_of_ne hqn, hf], rfl⟩
  refine ⟨hlinked, fun hq hf' => ?_, fun hf' => ?_, fun hq hf' => ?_, fun o ho => ?_,
    fun hq hf' hbit => ?_, h.once, fun hf' => ?_⟩
  · obtain ⟨f, hf, -, -, hother, hself⟩ := hpages hf'
    rcases mem_moved h.linked hn hq with ⟨rfl, rfl⟩ | ⟨hqn, hq⟩
    · exact hself rfl
    · rw [hother hqn]
      exact h.listed hq hf
  · obtain ⟨f, hf, -⟩ := hpages hf'
    obtain ⟨halign, j, hj, hclass⟩ := h.classed hf
    exact ⟨halign, j, hj, (inClass_moved hn).mpr hclass⟩
  · obtain ⟨f, hf, hbits, hnused, -⟩ := hpages hf'
    have hold := h.fits ((inClass_moved hn).mp hq) hf
    exact ⟨by rw [hbits, hold.bits], by rw [hbits, hnused, hold.used], by rw [hbits]; exact hold.range⟩
  · obtain ⟨j, q, f, b, hq, hf, hbit, ho⟩ := h.inside o ho
    obtain ⟨f', hf', hbits⟩ := hpages' hf
    exact ⟨j, q, f', b, (inClass_moved hn).mpr hq, hf', by rw [hbits]; exact hbit, ho⟩
  · obtain ⟨f, hf, hbits, -⟩ := hpages hf'
    exact h.backs ((inClass_moved hn).mp hq) hf (by rw [← hbits]; exact hbit)
  · obtain ⟨f, hf, -, hnused, -⟩ := hpages hf'
    rw [h.counted hf, hnused]

theorem Sound.write (h : Sound H s live L) (hclass : InClass L i n) (hg : bare s n = some g)
    {g' : Sdh} (hlinked : Linked s' L) (hbare : bare s' = Function.update (bare s) n (some g'))
    (hlist : g'.list = g.list) (hfits : Fits H (i + minSize) g')
    (hinside : ∀ o ∈ live', (o ∈ live ∧ pageOf H o.1 ≠ n) ∨
      ∃ b, g'.usebits[b]? = some true ∧ o = (objectAt H i n b, ((i + minSize : ℕ) : ℤ)))
    (hbacks : ∀ b, g'.usebits[b]? = some true →
      (objectAt H i n b, ((i + minSize : ℕ) : ℤ)) ∈ live')
    (hkeeps : ∀ o ∈ live, pageOf H o.1 ≠ n → o ∈ live') (honce : live'.Nodup)
    (hcount : live'.countP (onPage H n) = g'.nused)
    (hothers : ∀ q ≠ n, live'.countP (onPage H q) = live.countP (onPage H q)) :
    Sound H s' live' L := by
  have hpages : ∀ {q f'}, bare s' q = some f' → (q = n ∧ f' = g') ∨ (q ≠ n ∧ bare s q = some f') := by
    intro q f' hf'
    by_cases hqn : q = n
    · subst hqn
      rw [hbare, Function.update_self] at hf'
      exact .inl ⟨rfl, (Option.some.inj hf').symm⟩
    · rw [hbare, Function.update_of_ne hqn] at hf'
      exact .inr ⟨hqn, hf'⟩
  refine ⟨hlinked, fun hq hf' => ?_, fun hf' => ?_, fun {j q f'} hq hf' => ?_, fun o ho => ?_,
    fun {j q f' b} hq hf' hbit => ?_, honce, fun hf' => ?_⟩
  · rcases hpages hf' with ⟨rfl, rfl⟩ | ⟨-, hf⟩
    · rw [hlist]
      exact h.listed hq hg
    · exact h.listed hq hf
  · rcases hpages hf' with ⟨rfl, rfl⟩ | ⟨-, hf⟩
    · exact h.classed hg
    · exact h.classed hf
  · rcases hpages hf' with ⟨rfl, rfl⟩ | ⟨-, hf⟩
    · rw [hq.unique h.linked hclass]
      exact hfits
    · exact h.fits hq hf
  · rcases hinside o ho with ⟨hold, hne⟩ | ⟨b, hbit, rfl⟩
    · obtain ⟨j, q, f, b, hq, hf, hbit, rfl⟩ := h.inside o hold
      rw [h.pageOf_eq hq hf hbit] at hne
      exact ⟨j, q, f, b, hq, by rw [hbare, Function.update_of_ne hne, hf], hbit, rfl⟩
    · exact ⟨i, n, g', b, hclass, by rw [hbare, Function.update_self], hbit, rfl⟩
  · rcases hpages hf' with ⟨rfl, rfl⟩ | ⟨hqn, hf⟩
    · rw [hq.unique h.linked hclass]
      exact hbacks b hbit
    · exact hkeeps _ (h.backs hq hf hbit) (by rw [h.pageOf_eq hq hf hbit]; exact hqn)
  · rcases hpages hf' with ⟨rfl, rfl⟩ | ⟨hqn, hf⟩
    · exact hcount
    · rw [hothers _ hqn, h.counted hf]

theorem Sound.on_page (h : Sound H s live L) (hclass : InClass L i n) (hg : bare s n = some g)
    {o : ℕ × ℤ} (ho : o ∈ live) (hpage : pageOf H o.1 = n) :
    ∃ b, g.usebits[b]? = some true ∧ o = (objectAt H i n b, ((i + minSize : ℕ) : ℤ)) := by
  obtain ⟨j, q, f, b, hq, hf, hbit, rfl⟩ := h.inside o ho
  rw [h.pageOf_eq hq hf hbit] at hpage
  subst hpage
  rw [hg] at hf
  cases hf
  rw [hq.unique h.linked hclass]
  exact ⟨b, hbit, rfl⟩

theorem Sound.take_bit (h : Sound H s live L) (hclass : InClass L i n) (hg : bare s n = some g)
    (hlt : g.nused < itemsPerPage H (i + minSize)) (hbit : g.usebits[b]? = some false)
    (hrange : b < itemsPerPage H (i + minSize)) (hlinked : Linked s' L)
    (hbare : bare s' = Function.update (bare s) n (some
      { g with usebits := g.usebits.set b true, nused := (g.nused + 1) % 65536 })) :
    Sound H s' ((objectAt H i n b, ((i + minSize : ℕ) : ℤ)) :: live) L := by
  have hmin : minSize ≤ i + minSize := Nat.le_add_left ..
  have hfits := (h.fits hclass hg).set hmin hbit hrange g.freeguess hlt
  have hword := items_word (H := H) hmin
  have halign := (h.classed hg).1
  obtain ⟨hlen, -⟩ := List.getElem?_eq_some_iff.mp hbit
  have hset : ∀ c, (g.usebits.set b true)[c]? = some true ↔ c = b ∨ g.usebits[c]? = some true := by
    intro c
    by_cases hcb : b = c
    · subst hcb
      simp [List.getElem?_set_self hlen]
    · rw [List.getElem?_set_ne hcb]
      simp [Ne.symm hcb]
  have hpage := pageOf_object (H := H) halign hrange
  refine h.write hclass hg hlinked hbare rfl hfits (fun o ho => ?_) (fun c hc => ?_)
    (fun o ho _ => List.mem_cons_of_mem _ ho) (List.nodup_cons.mpr ⟨fun hmem => ?_, h.once⟩) ?_
    fun q hqn => ?_
  · rcases List.mem_cons.mp ho with rfl | ho
    · exact .inr ⟨b, (hset b).mpr (.inl rfl), rfl⟩
    · by_cases hon : pageOf H o.1 = n
      · obtain ⟨c, hc, rfl⟩ := h.on_page hclass hg ho hon
        exact .inr ⟨c, (hset c).mpr (.inr hc), rfl⟩
      · exact .inl ⟨ho, hon⟩
  · rcases (hset c).mp hc with rfl | hc
    · exact List.mem_cons_self
    · exact List.mem_cons_of_mem _ (h.backs hclass hg hc)
  · obtain ⟨c, hc, heq⟩ := h.on_page hclass hg hmem hpage
    rw [← object_inj (Prod.ext_iff.mp heq).1, hbit] at hc
    cases hc
  · rw [List.countP_cons_of_pos (by simp [onPage, hpage]), h.counted hg, Nat.mod_eq_of_lt (by omega)]
  · exact List.countP_cons_of_neg (by simp [onPage, hpage, Ne.symm hqn])

theorem Sound.drop_bit (h : Sound H s live L) (hclass : InClass L i n) (hg : bare s n = some g)
    (hbit : g.usebits[b]? = some true) (hlinked : Linked s' L)
    (hbare : bare s' = Function.update (bare s) n (some
      { g with
        usebits := g.usebits.set b false
        nused := (g.nused + 65535) % 65536
        freeguess := b })) :
    Sound H s' (live.erase (objectAt H i n b, ((i + minSize : ℕ) : ℤ))) L := by
  have hmin : minSize ≤ i + minSize := Nat.le_add_left ..
  obtain ⟨hpos, hnused, hfits⟩ := (h.fits hclass hg).clear hmin hbit b (h.fits hclass hg).nused_le
  have hpage := h.pageOf_eq hclass hg hbit
  have hmem := h.backs hclass hg hbit
  obtain ⟨hlen, -⟩ := List.getElem?_eq_some_iff.mp hbit
  have hset : ∀ c, (g.usebits.set b false)[c]? = some true ↔ c ≠ b ∧ g.usebits[c]? = some true := by
    intro c
    by_cases hcb : b = c
    · subst hcb
      simp [List.getElem?_set_self hlen]
    · rw [List.getElem?_set_ne hcb]
      simp [Ne.symm hcb]
  have hcount : ∀ q, live.countP (onPage H q) =
      (live.erase (objectAt H i n b, ((i + minSize : ℕ) : ℤ))).countP (onPage H q) +
        if n = q then 1 else 0 := by
    intro q
    rw [(List.perm_cons_erase hmem).countP_eq, List.countP_cons]
    simp [onPage, hpage]
  refine h.write hclass hg hlinked hbare rfl hfits (fun o ho => ?_) (fun c hc => ?_)
    (fun o ho hne => ?_) (h.once.erase _) ?_ fun q hqn => ?_
  · obtain ⟨hne, ho⟩ := (h.once.mem_erase_iff).mp ho
    by_cases hon : pageOf H o.1 = n
    · obtain ⟨c, hc, rfl⟩ := h.on_page hclass hg ho hon
      exact .inr ⟨c, (hset c).mpr ⟨fun he => hne (by rw [he]), hc⟩, rfl⟩
    · exact .inl ⟨ho, hon⟩
  · obtain ⟨hcb, hc⟩ := (hset c).mp hc
    refine (h.once.mem_erase_iff).mpr ⟨fun he => hcb ?_, h.backs hclass hg hc⟩
    exact object_inj (Prod.ext_iff.mp he).1
  · refine (h.once.mem_erase_iff).mpr ⟨fun he => hne ?_, ho⟩
    rw [he]
    exact hpage
  · have hone := hcount n
    rw [if_pos rfl, h.counted hg] at hone
    show _ = (g.nused + 65535) % 65536
    omega
  · have hzero := hcount q
    rw [if_neg (Ne.symm hqn), Nat.add_zero] at hzero
    exact hzero.symm

end Rules

end Slab
