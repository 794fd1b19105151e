import Cs111.Vm.Alloc

namespace Vm
open Kernel (Fault kassert bind_ok kassert_bind_ok pure_ok)
open Span

def suits (n : ℕ) (memflags : BitVec 32) (pr : PageRange) : Bool :=
  decide (pr.size ≥ n) || hasFlag memflags PAF_FIRSTBLOCK

def searched (memflags : BitVec 32) (t : AddrAvl) : List PageRange :=
  if hasFlag memflags (PAF_LOWER16MB ||| PAF_LOWER1MB) then t else t.reverse

def chosen (n : ℕ) (memflags : BitVec 32) (t : AddrAvl) : Option PageRange :=
  (searched memflags t).find? (suits n memflags)

def granted (n : ℕ) (memflags : BitVec 32) (pr : PageRange) : ℕ :=
  if hasFlag memflags PAF_FIRSTBLOCK && decide (pr.size < n) then pr.size else n

def found (n : ℕ) (memflags : BitVec 32) : Option PageRange → Found
  | none => .none
  | some pr => if aboveBoundary n memflags pr then .tooHigh else .range pr

@[simp] theorem ok_bind {α β : Type} (a : α) (f : α → Except Fault β) :
    ((.ok a : Except Fault α) >>= f) = f a := rfl

@[simp] theorem kassert_true : kassert true = .ok () := rfl

section Search
variable {n : ℕ} {memflags : BitVec 32} {t : AddrAvl} {pr : PageRange} {len cleared : Bool}

theorem findRange_eq {l : List PageRange} (h : ∀ p ∈ l, 0 < p.size) :
    findRange n memflags l = .ok (found n memflags (l.find? (suits n memflags))) := by
  induction l with
  | nil => rfl
  | cons p l ih =>
    have hpos : p.size > 0 := h p List.mem_cons_self
    have hrest := ih fun q hq => h q (List.mem_cons_of_mem p hq)
    cases hsuits : suits n memflags p with
    | true =>
      have hstop : p.size ≥ n ∨ hasFlag memflags PAF_FIRSTBLOCK = true := by
        simpa [suits] using hsuits
      simp only [findRange, hpos, decide_true, kassert_true, ok_bind, hstop, if_true,
        List.find?_cons, hsuits, found]
      split <;> rfl
    | false =>
      have hgo : ¬ (p.size ≥ n ∨ hasFlag memflags PAF_FIRSTBLOCK = true) := by
        simpa [suits] using hsuits
      simpa [findRange, hpos, hgo, List.find?_cons, hsuits] using hrest

theorem mem_searched : pr ∈ searched memflags t ↔ pr ∈ t := by
  rw [searched]
  split
  · exact Iff.rfl
  · exact List.mem_reverse

theorem chosen_mem (h : chosen n memflags t = some pr) : pr ∈ t :=
  mem_searched.mp (List.mem_of_find?_eq_some h)

theorem chosen_suits (h : chosen n memflags t = some pr) : suits n memflags pr = true :=
  List.find?_some h

theorem granted_le (h : suits n memflags pr = true) : granted n memflags pr ≤ pr.size := by
  simp only [suits, Bool.or_eq_true, decide_eq_true_eq] at h
  rw [granted]
  split
  · exact le_rfl
  · rename_i hwhole
    simp only [Bool.and_eq_true, decide_eq_true_eq, not_and] at hwhole
    rcases h with hbig | hfirst
    · exact hbig
    · exact not_lt.mp (hwhole hfirst)

theorem granted_exact (h : hasFlag memflags PAF_FIRSTBLOCK = false) : granted n memflags pr = n := by
  simp [granted, h]

theorem granted_pos (hn : 0 < n) (hpos : 0 < pr.size) : 0 < granted n memflags pr := by
  rw [granted]
  split <;> assumption

theorem allocPages_eq (h : Formed t) (pages : ℤ) (len cleared : Bool) :
    allocPages pages memflags len cleared t = match chosen (physBytes pages) memflags t with
      | none => .ok (⟨noMem, if len then some 0 else none⟩, t)
      | some pr =>
        if aboveBoundary (physBytes pages) memflags pr then .ok (⟨noMem, none⟩, t)
        else takeRange (physBytes pages) memflags len cleared t pr := by
  have hpos : ∀ p ∈ searched memflags t, 0 < p.size := by
    intro p hp
    exact h.spread.nonempty p (mem_searched.mp hp)
  have hchosen : (searched memflags t).find? (suits (physBytes pages) memflags) =
    chosen (physBytes pages) memflags t := rfl
  rw [allocPages, ← searched, findRange_eq hpos, hchosen]
  cases chosen (physBytes pages) memflags t with
  | none => rfl
  | some pr =>
    dsimp only [found]
    cases aboveBoundary (physBytes pages) memflags pr <;> rfl

theorem cutRange_ok (h : Formed t) (hmem : pr ∈ t) (k : ℕ) : ∃ t', cutRange k t pr = .ok t' := by
  obtain ⟨lo, hi, rfl⟩ := List.append_of_mem hmem
  have hfound : addrSearch (lo ++ pr :: hi) pr.addr = some pr := search_middle h.others.1 rfl
  rw [cutRange]
  split
  · refine ⟨addrRemove (lo ++ pr :: hi) pr.addr, ?_⟩
    simp [unlinkRange, hfound, pure, Except.pure]
  · exact ⟨_, rfl⟩

theorem takeRange_eq (cleared : Bool) (h : Formed t) (hmem : pr ∈ t)
    (hsuits : suits n memflags pr = true)
    (hlen : hasFlag memflags PAF_FIRSTBLOCK = true → len = true) :
    ∃ t', takeRange n memflags len cleared t pr =
      if hasFlag memflags PAF_CLEAR && !cleared then .error .panic
      else .ok (⟨pr.addr + pr.size - granted n memflags pr,
        if len then some (granted n memflags pr) else none⟩, t') := by
  obtain ⟨t', ht'⟩ := cutRange_ok h hmem (granted n memflags pr)
  have hle := granted_le hsuits
  have hinside := h.inside pr hmem
  have hmax : maxPages = 1048576 := rfl
  have hmem' : physBytes (pr.addr + pr.size - granted n memflags pr) =
      pr.addr + pr.size - granted n memflags pr := physBytes_nat (by omega) (by omega)
  have hasked : (!hasFlag memflags PAF_FIRSTBLOCK || len) = true := by
    cases hfirst : hasFlag memflags PAF_FIRSTBLOCK
    · rfl
    · exact hlen hfirst
  have hdef : (if hasFlag memflags PAF_FIRSTBLOCK && decide (pr.size < n) then pr.size else n) =
      granted n memflags pr := rfl
  refine ⟨t', ?_⟩
  simp only [takeRange, hdef, ht', hmem', hasked, hle, decide_true, kassert_true, ok_bind]
  rfl

theorem allocPages_result {pages : ℤ} {res : AllocResult} {t' : AddrAvl} (h : Formed t)
    (hs : allocPages pages memflags len cleared t = .ok (res, t')) :
    (res.mem = noMem ∧ t' = t ∧ ∀ pr, chosen (physBytes pages) memflags t = some pr →
      aboveBoundary (physBytes pages) memflags pr = true) ∨
    ∃ pr, chosen (physBytes pages) memflags t = some pr ∧
      aboveBoundary (physBytes pages) memflags pr = false ∧
      res.mem + granted (physBytes pages) memflags pr = pr.addr + pr.size ∧
      res.pages pages = granted (physBytes pages) memflags pr ∧
      Handed t t' res.mem (granted (physBytes pages) memflags pr) := by
  rw [allocPages_eq h] at hs
  cases hchosen : chosen (physBytes pages) memflags t with
  | none =>
    rw [hchosen] at hs
    cases hs
    exact .inl ⟨rfl, rfl, by simp⟩
  | some pr =>
    rw [hchosen] at hs
    dsimp only at hs
    split at hs
    · rename_i habove
      cases hs
      exact .inl ⟨rfl, rfl, fun q hq => Option.some.inj hq ▸ habove⟩
    · rename_i hbelow
      have hlen : hasFlag memflags PAF_FIRSTBLOCK = true → len = true := by
        intro hfirst
        rw [takeRange] at hs
        simpa [hfirst] using (kassert_bind_ok.mp hs).1
      have hmem := chosen_mem hchosen
      have hle := granted_le (chosen_suits hchosen)
      obtain ⟨u, hu⟩ := takeRange_eq cleared h hmem (chosen_suits hchosen) hlen
      obtain ⟨lo, hi, rfl⟩ := List.append_of_mem hmem
      have hhanded := takeRange_handed h hs
      rw [hu] at hs
      split at hs
      · cases hs
      obtain ⟨rfl, rfl⟩ := Prod.mk.inj (Except.ok.inj hs)
      have hpages : Option.getD (if len then some (granted (physBytes pages) memflags pr) else none)
          (physBytes pages) = granted (physBytes pages) memflags pr := by
        cases len with
        | true => rfl
        | false =>
          have hwhole : hasFlag memflags PAF_FIRSTBLOCK = false := by
            by_contra hfirst
            exact Bool.false_ne_true (hlen (by simpa using hfirst))
          simp [granted_exact hwhole]
      refine .inr ⟨pr, rfl, by simpa using hbelow, by dsimp only; omega, hpages, ?_⟩
      dsimp only at hhanded ⊢
      rwa [hpages] at hhanded

theorem allocPages_total (pages : ℤ) (cleared : Bool) (h : Formed t)
    (hlen : hasFlag memflags PAF_FIRSTBLOCK = true → len = true) :
    (∃ res t', allocPages pages memflags len cleared t = .ok (res, t')) ∨
      allocPages pages memflags len cleared t = .error .panic ∧ cleared = false := by
  rw [allocPages_eq h]
  cases hchosen : chosen (physBytes pages) memflags t with
  | none => exact .inl ⟨_, _, rfl⟩
  | some pr =>
    dsimp only
    split
    · exact .inl ⟨_, _, rfl⟩
    · obtain ⟨t', ht'⟩ := takeRange_eq cleared h (chosen_mem hchosen)
        (chosen_suits hchosen) hlen
      rw [ht']
      split
      · rename_i hfailed
        rw [Bool.and_eq_true, Bool.not_eq_true'] at hfailed
        exact .inr ⟨rfl, hfailed.2⟩
      · exact .inl ⟨_, _, rfl⟩

end Search

def boundary (memflags : BitVec 32) : ℕ :=
  if hasFlag memflags PAF_LOWER1MB then boundary1 else boundary16

def LowRequest (memflags : BitVec 32) : Prop :=
  hasFlag memflags PAF_LOWER16MB = true ∨ hasFlag memflags PAF_LOWER1MB = true

def LowRight (pages : ℕ) (memflags : BitVec 32) (t : AddrAvl) (res : AllocResult) : Prop :=
  (res.mem ≠ noMem → ∀ m, res.mem ≤ m → m < res.mem + res.pages pages → m < boundary memflags) ∧
  (res.mem = noMem → hasFlag memflags PAF_FIRSTBLOCK = false →
    ∀ pr ∈ t, ¬ (pages ≤ pr.size ∧ pr.addr + pages ≤ boundary memflags))

def Straddles (pages : ℕ) (memflags : BitVec 32) (t : AddrAvl) : Prop :=
  0 < pages ∧ ∃ pr, chosen pages memflags t = some pr ∧ pr.addr + pages ≤ boundary memflags ∧
    boundary memflags < pr.addr + pr.size

section Low
variable {n : ℕ} {memflags : BitVec 32} {t t' : AddrAvl} {pr : PageRange} {res : AllocResult}

theorem low_searched (h : LowRequest memflags) : searched memflags t = t := by
  have hor : hasFlag memflags (PAF_LOWER16MB ||| PAF_LOWER1MB) = true := by
    simp only [hasFlag, bne_iff_ne, ne_eq, BitVec.and_or_distrib_left, LowRequest] at h ⊢
    intro hnone
    have hboth := BitVec.or_eq_zero_iff.mp hnone
    exact h.elim (fun hlow => hlow hboth.1) fun hlow => hlow hboth.2
  simp [searched, hor]

theorem aboveBoundary_iff (h : LowRequest memflags) (hinside : pr.addr + n < 4294967296) :
    aboveBoundary n memflags pr = true ↔ boundary memflags < pr.addr + n := by
  have hend : physBytes (pr.addr + n) = pr.addr + n := physBytes_nat (by omega) hinside
  have hlimits : boundary1 ≤ boundary16 := by decide
  simp only [aboveBoundary, hend, boundary, Bool.or_eq_true, Bool.and_eq_true, decide_eq_true_eq]
  split
  · rename_i hlow
    simp only [hlow, true_and, gt_iff_lt]
    omega
  · rename_i hhigh
    simp [h.resolve_right hhigh, hhigh]

theorem chosen_lowest (h : Formed t) (hlow : LowRequest memflags) (hchosen : chosen n memflags t = some pr)
    {p : PageRange} (hp : p ∈ t) (hsuits : suits n memflags p = true) : pr.addr ≤ p.addr := by
  rw [chosen, low_searched hlow, List.find?_eq_some_iff_append] at hchosen
  obtain ⟨-, lo, hi, rfl, hpassed⟩ := hchosen
  rcases List.mem_append.mp hp with hp | hp
  · have hnot := hpassed p hp
    simp [hsuits] at hnot
  · rcases List.mem_cons.mp hp with rfl | hp
    · exact le_rfl
    · have hlt : pr.addr + pr.size < p.addr := (spread_middle.mp h.spread).2.2.2 p hp
      omega

theorem chosen_none (hchosen : chosen n memflags t = none) {p : PageRange} (hp : p ∈ t) :
    p.size < n := by
  have hnot := List.find?_eq_none.mp hchosen p (mem_searched.mpr hp)
  simp only [suits, Bool.or_eq_true, decide_eq_true_eq, not_or, not_le] at hnot
  exact hnot.1

theorem refused_right (hlow : LowRequest memflags) (h : Formed t)
    (hword : ∀ p ∈ t, p.addr + n < 4294967296) (hmem : res.mem = noMem)
    (htall : ∀ pr, chosen n memflags t = some pr → aboveBoundary n memflags pr = true) :
    LowRight n memflags t res ∧ ¬ Straddles n memflags t := by
  refine ⟨⟨fun hne => absurd hmem hne, fun _ _ p hp ⟨hsize, hfits⟩ => ?_⟩, ?_⟩
  · cases hchosen : chosen n memflags t with
    | none =>
      have := chosen_none hchosen hp
      omega
    | some pr =>
      have habove := htall pr hchosen
      rw [aboveBoundary_iff hlow (hword pr (chosen_mem hchosen))] at habove
      have := chosen_lowest h hlow hchosen hp (by simp [suits, hsize])
      omega
  · rintro ⟨-, pr, hchosen, hfits, -⟩
    have habove := htall pr hchosen
    rw [aboveBoundary_iff hlow (hword pr (chosen_mem hchosen))] at habove
    omega

theorem granted_right_iff (hlow : LowRequest memflags) (h : Formed t)
    (hword : ∀ p ∈ t, p.addr + n < 4294967296) (hmem : res.mem ≠ noMem)
    (hchosen : chosen n memflags t = some pr) (hbelow : aboveBoundary n memflags pr = false)
    (hend : res.mem + granted n memflags pr = pr.addr + pr.size)
    (hgot : res.pages n = granted n memflags pr) :
    LowRight n memflags t res ↔ ¬ Straddles n memflags t := by
  have hpr := chosen_mem hchosen
  have hpos := h.spread.nonempty pr hpr
  have hfits : pr.addr + n ≤ boundary memflags := by
    by_contra hnot
    have habove := (aboveBoundary_iff hlow (hword pr hpr)).mpr (not_le.mp hnot)
    rw [hbelow] at habove
    exact Bool.false_ne_true habove
  constructor
  · rintro ⟨hblock, -⟩ ⟨hn, q, hq, -, hhigh⟩
    obtain rfl := Option.some.inj (hchosen.symm.trans hq)
    have hgranted : 0 < granted n memflags pr := granted_pos hn hpos
    have := hblock hmem (pr.addr + pr.size - 1) (by omega) (by omega)
    omega
  · refine fun hnot => ⟨fun _ m hge hlt => ?_, fun hnone => absurd hnone hmem⟩
    by_contra hm
    have hn : 0 < n := by
      rcases Nat.eq_zero_or_pos n with rfl | hpos
      · have hnone : granted 0 memflags pr = 0 := by simp [granted]
        omega
      · exact hpos
    exact hnot ⟨hn, pr, hchosen, hfits, by omega⟩

end Low

theorem lowRight_iff {pages : ℕ} {memflags : BitVec 32} {len cleared : Bool} {t t' : AddrAvl}
    {res : AllocResult} (hlow : LowRequest memflags) (h : Formed t) (hzero : ¬ covered t 0)
    (hpages : pages < 2147483648) (hs : allocPages pages memflags len cleared t = .ok (res, t')) :
    LowRight pages memflags t res ↔ ¬ Straddles pages memflags t := by
  have hmax : maxPages = 1048576 := rfl
  have hphys : physBytes (pages : ℤ) = pages := physBytes_nat rfl (by omega)
  have hword : ∀ p ∈ t, p.addr + pages < 4294967296 := fun p hp => by
    have := h.inside p hp
    omega
  rcases allocPages_result h hs with ⟨hmem, -, htall⟩ | ⟨pr, hchosen, hbelow, hend, hgot, hhanded⟩
  · rw [hphys] at htall
    obtain ⟨hright, hnot⟩ := refused_right hlow h hword hmem htall
    exact iff_of_true hright hnot
  · rw [hphys] at hchosen hbelow hend hgot hhanded
    refine granted_right_iff hlow h hword ?_ hchosen hbelow hend hgot
    intro hnone
    have hpos := h.spread.nonempty pr (chosen_mem hchosen)
    have hnone' : res.mem = 0 := hnone
    exact hzero ((hhanded.covered 0).mpr (.inr (by omega)))

theorem lowRight_iff_low : ∃ res t',
    allocPages 5 PAF_LOWER16MB false true [⟨100, 50⟩] = .ok (res, t') ∧
    (LowRight 5 PAF_LOWER16MB [⟨100, 50⟩] res ↔ ¬ Straddles 5 PAF_LOWER16MB [⟨100, 50⟩]) := by
  obtain ⟨res, t', hs⟩ : ∃ res t',
    allocPages 5 PAF_LOWER16MB false true [⟨100, 50⟩] = .ok (res, t') := ⟨_, _, rfl⟩
  exact ⟨res, t', hs, lowRight_iff (.inl (by decide))
    ⟨⟨by simp, by simp⟩, by simp [maxPages]⟩ (by decide) (by decide) hs⟩

theorem low_block_above : ∃ res t', Formed [⟨4090, 110⟩] ∧
    allocPages 5 PAF_LOWER16MB false true [⟨4090, 110⟩] = .ok (res, t') ∧
    res.mem = 4195 ∧ ¬ LowRight 5 PAF_LOWER16MB [⟨4090, 110⟩] res := by
  refine ⟨_, _, ⟨⟨by simp, by simp⟩, by simp [maxPages]⟩, rfl, rfl, fun h => ?_⟩
  have hbelow := h.1 (by decide) 4195 (by decide) (by decide)
  exact absurd hbelow (by decide)

end Vm
